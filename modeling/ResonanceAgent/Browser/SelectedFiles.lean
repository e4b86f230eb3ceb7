import Mathlib.Data.List.Nodup

/-! # The selection chips of the chat input

`SelectedFiles` in `react-types.d.ts` (lines 834–1000) shows the staged selections and, after
them, up to three prospective files: recently active files that are not selected yet, which a
click adds.

* `updateRecentUris` is the update the effect on the active URI makes to `recentUris`. Over a
  whole run the list is the ten most recently active distinct files, the newest first
  (`recentUris_run`): `mostRecentFiles` says what the list is for, independently of how the
  code maintains it.
* `computeRecents` is the list the async function of that name resolves to; the effect on
  `[recentUris, selections, type, showProspectiveSelections]` (`prospectiveEffect`) starts it, and
  only when the promise settles does `setProspectiveSelections` show its list. Promises are not
  cancelled, and they settle in any order.
* `onClickSelection` and `onRemoveSelection` are the `onClick`s of a chip and of its X button:
  the selections they pass to `setSelections`, if they call it.
* `SelectedFilesState.step` is one event of the component (the active URI changes, a chip or an
  X button is clicked, a pending `computeRecents()` settles) and `SelectedFilesState.run` a
  sequence of them, from `SelectedFilesState.mount`, the first render.
* `Valid` is what every run keeps (`valid_run`): the recent list names no file twice, has at most
  ten entries and only files that were active; the chips on show and every pending answer are at
  most three files with different paths, each a file that was active.
* The chips are not kept in step with the selections: until the promise started by a click
  settles, the chip just added is still on show, and clicking it again selects the file a second
  time (`stale_chip_selected_twice`).

Transcription choices: a URI is its `fsPath`, the only property the component reads. The
language of a prospective file comes from the model service, which is not under `src/`: it is
the parameter `languageOf`. The props `type` and `showProspectiveSelections` are fixed for the
life of the component; the parent applies `setSelections` at once. Opening a file on a click
(`voidOpenFileFn`) and the rendering are left out.
-/

namespace ResonanceAgent.Browser
set_option autoImplicit false

/-! ## Selections -/

/-- A URI, by the one property the component reads. -/
structure URI where
  fsPath : String
deriving DecidableEq, Repr

/-- `StagingSelectionItem['type']`. -/
inductive SelectionType
  | File
  | CodeSelection
  | Folder
deriving DecidableEq, Repr

/-- A `StagingSelectionItem` by the fields the component reads and writes; `wasAddedAsCurrentFile`
is `state.wasAddedAsCurrentFile`. -/
structure StagingSelectionItem where
  type : SelectionType
  uri : URI
  language : String
  wasAddedAsCurrentFile : Bool
deriving DecidableEq, Repr

/-- The `type` prop: the selections of a sent message, or those of the input being written. -/
inductive SelectedFilesType
  | past
  | staging
deriving DecidableEq, Repr

/-! ## Recent files -/

def maxRecentUris : ℕ := 10
def maxProspectiveFiles : ℕ := 3

/-- `setRecentUris(prev => ...)`: the current URI first, then the others without it, the first
`maxRecentUris` of them. -/
def updateRecentUris (prev : List URI) (currentURI : URI) : List URI :=
  (currentURI :: prev.filter fun uri => uri.fsPath ≠ currentURI.fsPath).take maxRecentUris

/-- The effect on `currentURI`: nothing without an active URI. -/
def recentUrisEffect (prev : List URI) : Option URI → List URI
  | none => prev
  | some currentURI => updateRecentUris prev currentURI

/-- Each file of a list once, at its first occurrence. -/
def distinctByPath : List URI → List URI
  | [] => []
  | uri :: uris => uri :: (distinctByPath uris).filter fun u => u.fsPath ≠ uri.fsPath

/-- What a recent-files list is for: the last `maxRecentUris` distinct files of those visited
(oldest first), the newest first. -/
def mostRecentFiles (visited : List URI) : List URI :=
  (distinctByPath visited.reverse).take maxRecentUris

theorem nodup_map_filter_cons {uris : List URI} (h : (uris.map URI.fsPath).Nodup) (uri : URI) :
    ((uri :: uris.filter fun u => u.fsPath ≠ uri.fsPath).map URI.fsPath).Nodup := by
  refine List.nodup_cons.mpr ⟨?_, h.sublist ((List.filter_sublist uris).map _)⟩
  simp

theorem distinctByPath_nodup (visited : List URI) : ((distinctByPath visited).map URI.fsPath).Nodup := by
  induction visited with
  | nil => exact List.nodup_nil
  | cons uri uris ih => exact nodup_map_filter_cons ih uri

theorem updateRecentUris_nodup {prev : List URI} (h : (prev.map URI.fsPath).Nodup) (currentURI : URI) :
    ((updateRecentUris prev currentURI).map URI.fsPath).Nodup :=
  (nodup_map_filter_cons h currentURI).sublist ((List.take_sublist _ _).map _)

theorem updateRecentUris_length_le (prev : List URI) (currentURI : URI) :
    (updateRecentUris prev currentURI).length ≤ maxRecentUris :=
  List.length_take_le _ _

/-- Cutting a list of distinct files before removing one of them loses nothing of the first `n`
files left: at most one is removed. -/
theorem take_filter_take_succ {uris : List URI} (h : (uris.map URI.fsPath).Nodup) (path : String)
    (n : ℕ) : ((uris.take (n + 1)).filter fun u => u.fsPath ≠ path).take n =
      (uris.filter fun u => u.fsPath ≠ path).take n := by
  induction uris generalizing n with
  | nil => rfl
  | cons uri uris ih =>
    obtain ⟨hnotin, hrest⟩ := List.nodup_cons.mp h
    rw [List.take_succ_cons]
    by_cases hpath : uri.fsPath = path
    · have hkeep : ∀ u ∈ uris, decide (u.fsPath ≠ path) = true := fun u hu => by
        simpa [← hpath] using fun he => hnotin (List.mem_map.mpr ⟨u, hu, he⟩)
      rw [List.filter_cons_of_neg (by simpa using hpath), List.filter_cons_of_neg (by simpa using hpath),
        List.filter_eq_self.mpr hkeep,
        List.filter_eq_self.mpr fun u hu => hkeep u (List.mem_of_mem_take hu), List.take_take,
        min_self]
    · rw [List.filter_cons_of_pos (by simpa using hpath), List.filter_cons_of_pos (by simpa using hpath)]
      cases n with
      | zero => rfl
      | succ n => rw [List.take_succ_cons, List.take_succ_cons, ih hrest n]

/-- The update keeps the list what it is for: visiting one more file. -/
theorem updateRecentUris_mostRecentFiles (visited : List URI) (currentURI : URI) :
    updateRecentUris (mostRecentFiles visited) currentURI = mostRecentFiles (visited ++ [currentURI]) := by
  rw [mostRecentFiles, mostRecentFiles, List.reverse_append, List.reverse_singleton,
    List.singleton_append, distinctByPath, updateRecentUris,
    show maxRecentUris = 9 + 1 from rfl, List.take_succ_cons, List.take_succ_cons,
    take_filter_take_succ (distinctByPath_nodup _)]

theorem foldl_updateRecentUris (visited : List URI) :
    visited.foldl updateRecentUris [] = mostRecentFiles visited := by
  induction visited using List.reverseRecOn with
  | nil => rfl
  | append_singleton visited uri ih =>
    rw [List.foldl_append, ih, List.foldl_cons, List.foldl_nil, updateRecentUris_mostRecentFiles]

/-- Coming back to a file moves it to the front without a second entry. -/
example : [⟨"/a.ts"⟩, ⟨"/b.ts"⟩, ⟨"/a.ts"⟩].foldl updateRecentUris [] = [⟨"/a.ts"⟩, ⟨"/b.ts"⟩] := by
  decide

/-! ## Prospective files -/

/-- The recent files not selected as a file yet, the first `maxProspectiveFiles` of them. -/
def prospectiveURIs (recentUris : List URI) (selections : List StagingSelectionItem) : List URI :=
  (recentUris.filter fun uri =>
    (selections.find? fun s => s.type = .File ∧ s.uri.fsPath = uri.fsPath).isNone).take
    maxProspectiveFiles

/-- What `computeRecents()` resolves to: a chip for each prospective file. -/
def computeRecents (languageOf : URI → String) (recentUris : List URI)
    (selections : List StagingSelectionItem) : List StagingSelectionItem :=
  (prospectiveURIs recentUris selections).map fun uri => ⟨.File, uri, languageOf uri, false⟩

/-- A list of chips such as `computeRecents()` resolves to, from recent files among `visited`: at
most three files with different paths, each a prospective `File` chip of a visited file. -/
structure Offered (languageOf : URI → String) (visited : List URI)
    (chips : List StagingSelectionItem) : Prop where
  length_le : chips.length ≤ maxProspectiveFiles
  nodup : (chips.map fun chip => chip.uri.fsPath).Nodup
  mem : ∀ chip ∈ chips, chip = ⟨.File, chip.uri, languageOf chip.uri, false⟩ ∧ chip.uri ∈ visited

theorem Offered.nil (languageOf : URI → String) (visited : List URI) : Offered languageOf visited [] :=
  ⟨Nat.zero_le _, List.nodup_nil, fun _ h => absurd h (List.not_mem_nil _)⟩

theorem Offered.mono {languageOf : URI → String} {visited : List URI} {chips : List StagingSelectionItem}
    (h : Offered languageOf visited chips) (more : List URI) : Offered languageOf (visited ++ more) chips :=
  ⟨h.length_le, h.nodup, fun chip hc => ⟨(h.mem chip hc).1, List.mem_append_left _ (h.mem chip hc).2⟩⟩

/-- From recent files that are distinct and were all visited, `computeRecents()` offers what
`Offered` says. -/
theorem computeRecents_offered (languageOf : URI → String) {visited recentUris : List URI}
    (hnodup : (recentUris.map URI.fsPath).Nodup) (hvisited : ∀ uri ∈ recentUris, uri ∈ visited)
    (selections : List StagingSelectionItem) :
    Offered languageOf visited (computeRecents languageOf recentUris selections) := by
  have hsub : (prospectiveURIs recentUris selections).Sublist recentUris :=
    (List.take_sublist _ _).trans (List.filter_sublist _)
  refine ⟨?_, ?_, fun chip hc => ?_⟩
  · rw [computeRecents, List.length_map]
    exact List.length_take_le _ _
  · rw [computeRecents, List.map_map]
    exact hnodup.sublist (hsub.map _)
  · obtain ⟨uri, huri, rfl⟩ := List.mem_map.mp hc
    exact ⟨rfl, hvisited uri (hsub.subset huri)⟩

/-! ## Clicks -/

/-- The `onClick` of the chip at index `i` of `allSelections`: the selections it passes to
`setSelections`, if it calls it. -/
def onClickSelection (type : SelectedFilesType) (selections allSelections : List StagingSelectionItem)
    (i : ℕ) : Option (List StagingSelectionItem) :=
  match allSelections[i]? with
  | none => none
  | some selection =>
    if type ≠ .staging then none
    else if (i : ℤ) > (selections.length : ℤ) - 1 then some (selections ++ [selection])
    else if selection.type = .File then
      if selection.wasAddedAsCurrentFile then
        some (selections.take i ++ { selection with wasAddedAsCurrentFile := false } :: selections.drop (i + 1))
      else none
    else none

/-- The `onClick` of the X button of chip `i`, shown on the staged selections only. -/
def onRemoveSelection (type : SelectedFilesType) (selections : List StagingSelectionItem) (i : ℕ) :
    Option (List StagingSelectionItem) :=
  if type ≠ .staging then none else some (selections.take i ++ selections.drop (i + 1))

/-- A click on a prospective chip, which comes after the selections, appends it to them. -/
theorem onClickSelection_prospective {selections prospective : List StagingSelectionItem} {k : ℕ}
    {chip : StagingSelectionItem} (hchip : prospective[k]? = some chip) :
    onClickSelection .staging selections (selections ++ prospective) (selections.length + k) =
      some (selections ++ [chip]) := by
  rw [onClickSelection, List.getElem?_append_right (Nat.le_add_right _ k), Nat.add_sub_cancel_left, hchip]
  dsimp only
  rw [if_neg (not_not.mpr rfl), if_pos (by omega)]

/-! ## Runs -/

/-- What the component keeps between events: its states `recentUris` and
`prospectiveSelections`, its prop `selections`, and the `computeRecents()` promises started and
not settled yet, each by the list it resolves to, oldest first. -/
structure SelectedFilesState where
  recentUris : List URI
  selections : List StagingSelectionItem
  prospectiveSelections : List StagingSelectionItem
  pending : List (List StagingSelectionItem)

/-- An event of the component: the active URI changes, the chip `i` or its X button is clicked,
or the pending `computeRecents()` promise `k` settles. -/
inductive SelectedFilesEvent
  | activeURI (currentURI : Option URI)
  | click (i : ℕ)
  | remove (i : ℕ)
  | resolve (k : ℕ)

/-- The URIs visited in a sequence of events, in order. -/
def visitedURIs : List SelectedFilesEvent → List URI
  | [] => []
  | .activeURI (some uri) :: events => uri :: visitedURIs events
  | _ :: events => visitedURIs events

section Run
variable (type : SelectedFilesType) (showProspectiveSelections : Option Bool) (languageOf : URI → String)

/-- `allSelections`: the selections, then the prospective files on show. -/
def SelectedFilesState.allSelections (s : SelectedFilesState) : List StagingSelectionItem :=
  s.selections ++ s.prospectiveSelections

/-- The effect on `[recentUris, selections, type, showProspectiveSelections]`, run after each
change of the recent files or the selections: start `computeRecents()`, or clear the prospective
files. -/
def SelectedFilesState.prospectiveEffect (s : SelectedFilesState) : SelectedFilesState :=
  if type = .staging ∧ showProspectiveSelections = some true then
    { s with pending := s.pending ++ [computeRecents languageOf s.recentUris s.selections] }
  else { s with prospectiveSelections := [] }

/-- `setSelections(selections)`: the parent renders the new selections, and the effect runs. -/
def SelectedFilesState.setSelections (s : SelectedFilesState) (selections : List StagingSelectionItem) :
    SelectedFilesState :=
  SelectedFilesState.prospectiveEffect type showProspectiveSelections languageOf { s with selections }

/-- The first render: both states empty, then the prospective effect of the mount. The effect on
the active URI of the mount is the `activeURI` event that comes first. -/
def SelectedFilesState.mount (selections : List StagingSelectionItem) : SelectedFilesState :=
  SelectedFilesState.prospectiveEffect type showProspectiveSelections languageOf ⟨[], selections, [], []⟩

/-- One event. -/
def SelectedFilesState.step (s : SelectedFilesState) : SelectedFilesEvent → SelectedFilesState
  | .activeURI none => s
  | .activeURI (some currentURI) =>
    SelectedFilesState.prospectiveEffect type showProspectiveSelections languageOf
      { s with recentUris := updateRecentUris s.recentUris currentURI }
  | .click i =>
    match onClickSelection type s.selections s.allSelections i with
    | none => s
    | some selections => s.setSelections type showProspectiveSelections languageOf selections
  | .remove i =>
    if i < s.selections.length then
      match onRemoveSelection type s.selections i with
      | none => s
      | some selections => s.setSelections type showProspectiveSelections languageOf selections
    else s
  | .resolve k =>
    match s.pending[k]? with
    | none => s
    | some chips => { s with prospectiveSelections := chips, pending := s.pending.eraseIdx k }

/-- A sequence of events. -/
def SelectedFilesState.run (s : SelectedFilesState) : List SelectedFilesEvent → SelectedFilesState
  | [] => s
  | e :: events => (s.step type showProspectiveSelections languageOf e).run events

@[simp] theorem prospectiveEffect_recentUris (s : SelectedFilesState) :
    (s.prospectiveEffect type showProspectiveSelections languageOf).recentUris = s.recentUris := by
  unfold SelectedFilesState.prospectiveEffect
  split_ifs <;> rfl

@[simp] theorem prospectiveEffect_selections (s : SelectedFilesState) :
    (s.prospectiveEffect type showProspectiveSelections languageOf).selections = s.selections := by
  unfold SelectedFilesState.prospectiveEffect
  split_ifs <;> rfl

/-- Only the active URI moves the recent files. -/
theorem step_recentUris (s : SelectedFilesState) (e : SelectedFilesEvent) :
    (s.step type showProspectiveSelections languageOf e).recentUris =
      (visitedURIs [e]).foldl updateRecentUris s.recentUris := by
  rcases e with ⟨_ | uri⟩ | i | i | k
  · rfl
  · exact prospectiveEffect_recentUris _ _ _ _
  · simp only [SelectedFilesState.step]
    split
    · rfl
    · exact prospectiveEffect_recentUris _ _ _ _
  · simp only [SelectedFilesState.step]
    split_ifs
    · split
      · rfl
      · exact prospectiveEffect_recentUris _ _ _ _
    · rfl
  · simp only [SelectedFilesState.step]
    split <;> rfl

theorem run_recentUris (events : List SelectedFilesEvent) : ∀ s : SelectedFilesState,
    (s.run type showProspectiveSelections languageOf events).recentUris =
      (visitedURIs events).foldl updateRecentUris s.recentUris := by
  induction events with
  | nil => intro s; rfl
  | cons e events ih =>
    intro s
    have hvisited : visitedURIs (e :: events) = visitedURIs [e] ++ visitedURIs events := by
      rcases e with ⟨_ | uri⟩ | i | i | k <;> rfl
    rw [SelectedFilesState.run, ih, step_recentUris, hvisited, List.foldl_append]

/-- Over every run of the component from its first render, the recent files are the ten most
recently active distinct files, the newest first. -/
theorem recentUris_run (selections : List StagingSelectionItem) (events : List SelectedFilesEvent) :
    ((SelectedFilesState.mount type showProspectiveSelections languageOf selections).run type
      showProspectiveSelections languageOf events).recentUris = mostRecentFiles (visitedURIs events) := by
  rw [run_recentUris, SelectedFilesState.mount, prospectiveEffect_recentUris, foldl_updateRecentUris]

/-! ## What every run keeps -/

/-- What every run keeps, with `visited` the files made active so far. -/
structure Valid (visited : List URI) (s : SelectedFilesState) : Prop where
  recent_nodup : (s.recentUris.map URI.fsPath).Nodup
  recent_length_le : s.recentUris.length ≤ maxRecentUris
  recent_visited : ∀ uri ∈ s.recentUris, uri ∈ visited
  chips_offered : Offered languageOf visited s.prospectiveSelections
  pending_offered : ∀ chips ∈ s.pending, Offered languageOf visited chips

theorem Valid.prospectiveEffect {visited : List URI} {s : SelectedFilesState}
    (hs : Valid languageOf visited s) :
    Valid languageOf visited (s.prospectiveEffect type showProspectiveSelections languageOf) := by
  unfold SelectedFilesState.prospectiveEffect
  split_ifs
  · refine ⟨hs.recent_nodup, hs.recent_length_le, hs.recent_visited, hs.chips_offered, ?_⟩
    intro chips hchips
    rcases List.mem_append.mp hchips with hold | hnew
    · exact hs.pending_offered chips hold
    · rw [List.mem_singleton.mp hnew]
      exact computeRecents_offered languageOf hs.recent_nodup hs.recent_visited _
  · exact ⟨hs.recent_nodup, hs.recent_length_le, hs.recent_visited, Offered.nil _ _, hs.pending_offered⟩

theorem Valid.setSelections {visited : List URI} {s : SelectedFilesState}
    (hs : Valid languageOf visited s) (selections : List StagingSelectionItem) :
    Valid languageOf visited (s.setSelections type showProspectiveSelections languageOf selections) :=
  Valid.prospectiveEffect type showProspectiveSelections languageOf
    ⟨hs.recent_nodup, hs.recent_length_le, hs.recent_visited, hs.chips_offered, hs.pending_offered⟩

theorem Valid.mono {visited : List URI} {s : SelectedFilesState} (hs : Valid languageOf visited s)
    (more : List URI) : Valid languageOf (visited ++ more) s :=
  ⟨hs.recent_nodup, hs.recent_length_le, fun uri h => List.mem_append_left _ (hs.recent_visited uri h),
    hs.chips_offered.mono more, fun chips h => (hs.pending_offered chips h).mono more⟩

theorem updateRecentUris_visited {visited prev : List URI} (h : ∀ uri ∈ prev, uri ∈ visited)
    (currentURI : URI) : ∀ uri ∈ updateRecentUris prev currentURI, uri ∈ visited ++ [currentURI] := by
  intro uri huri
  rcases List.mem_cons.mp (List.mem_of_mem_take huri) with rfl | hprev
  · exact List.mem_append_right _ (List.mem_singleton_self _)
  · exact List.mem_append_left _ (h uri (List.mem_of_mem_filter hprev))

/-- One event keeps `Valid`, with the file it makes active, if any, added to `visited`. -/
theorem Valid.step {visited : List URI} {s : SelectedFilesState} (hs : Valid languageOf visited s)
    (e : SelectedFilesEvent) :
    Valid languageOf (visited ++ visitedURIs [e]) (s.step type showProspectiveSelections languageOf e) := by
  rcases e with ⟨_ | uri⟩ | i | i | k
  · simpa [visitedURIs] using hs
  · have hrecent : Valid languageOf (visited ++ [uri]) { s with recentUris := updateRecentUris s.recentUris uri } :=
      ⟨updateRecentUris_nodup hs.recent_nodup uri, updateRecentUris_length_le _ uri,
        updateRecentUris_visited hs.recent_visited uri, hs.chips_offered.mono _,
        fun chips h => (hs.pending_offered chips h).mono _⟩
    exact hrecent.prospectiveEffect type showProspectiveSelections languageOf
  all_goals simp only [visitedURIs, List.append_nil, SelectedFilesState.step]
  · split
    · exact hs
    · exact hs.setSelections type showProspectiveSelections languageOf _
  · split_ifs
    · split
      · exact hs
      · exact hs.setSelections type showProspectiveSelections languageOf _
    · exact hs
  · split
    · exact hs
    · rename_i chips hk
      exact ⟨hs.recent_nodup, hs.recent_length_le, hs.recent_visited,
        hs.pending_offered chips (List.mem_iff_getElem?.mpr ⟨k, hk⟩),
        fun c hc => hs.pending_offered c ((List.eraseIdx_sublist _ k).subset hc)⟩

theorem Valid.run {visited : List URI} (events : List SelectedFilesEvent) :
    ∀ s : SelectedFilesState, Valid languageOf visited s →
      Valid languageOf (visited ++ visitedURIs events) (s.run type showProspectiveSelections languageOf events) := by
  induction events generalizing visited with
  | nil => intro s hs; simpa [SelectedFilesState.run, visitedURIs] using hs
  | cons e events ih =>
    intro s hs
    have hvisited : visitedURIs (e :: events) = visitedURIs [e] ++ visitedURIs events := by
      rcases e with ⟨_ | uri⟩ | i | i | k <;> rfl
    rw [hvisited, ← List.append_assoc]
    exact ih _ (hs.step type showProspectiveSelections languageOf e)

/-- Over every run from the first render, the recent list names no file twice, holds at most ten
files and only files that were active; the chips on show, and those of every promise not settled
yet, are at most three prospective `File` chips with different paths, of files that were active. -/
theorem valid_run (selections : List StagingSelectionItem) (events : List SelectedFilesEvent) :
    Valid languageOf (visitedURIs events)
      ((SelectedFilesState.mount type showProspectiveSelections languageOf selections).run type
        showProspectiveSelections languageOf events) := by
  have hempty : Valid languageOf [] ⟨[], selections, [], []⟩ :=
    ⟨List.nodup_nil, Nat.zero_le _, fun _ h => absurd h (List.not_mem_nil _), Offered.nil _ _,
      fun _ h => absurd h (List.not_mem_nil _)⟩
  simpa using Valid.run type showProspectiveSelections languageOf events _
    (hempty.prospectiveEffect type showProspectiveSelections languageOf)

/-! ## Stale chips -/

/-- A chip on show stays on show after a click adds it: the effect only starts a new promise.
Clicking the same chip again, one place further since the selections grew, selects its file a
second time. -/
theorem stale_chip_selected_twice (s : SelectedFilesState) (k : ℕ) (chip : StagingSelectionItem)
    (hchip : s.prospectiveSelections[k]? = some chip) :
    ((s.step .staging (some true) languageOf (.click (s.selections.length + k))).step .staging (some true)
      languageOf (.click (s.selections.length + 1 + k))).selections = s.selections ++ [chip, chip] := by
  set s' := s.setSelections .staging (some true) languageOf (s.selections ++ [chip])
  have hsel : s'.selections = s.selections ++ [chip] := prospectiveEffect_selections _ _ _ _
  have hchips : s'.prospectiveSelections = s.prospectiveSelections := by
    simp [s', SelectedFilesState.setSelections, SelectedFilesState.prospectiveEffect]
  have hindex : s.selections.length + 1 + k = (s.selections ++ [chip]).length + k := by simp
  simp only [SelectedFilesState.step, SelectedFilesState.allSelections, onClickSelection_prospective hchip]
  rw [hsel, hchips, hindex, onClickSelection_prospective hchip, List.append_assoc]
  exact prospectiveEffect_selections _ _ _ _

/-- The file made active first, offered once its promise settles, added from its chip, and
selected again from the stale chip. -/
theorem stale_chip_selected_twice_after_visit :
    ((SelectedFilesState.mount .staging (some true) (fun _ => "typescript") []).run .staging (some true)
        (fun _ => "typescript") [.activeURI (some ⟨"/src/a.ts"⟩), .resolve 1]).prospectiveSelections[0]? =
      some ⟨.File, ⟨"/src/a.ts"⟩, "typescript", false⟩ ∧
    ((((SelectedFilesState.mount .staging (some true) (fun _ => "typescript") []).run .staging (some true)
        (fun _ => "typescript") [.activeURI (some ⟨"/src/a.ts"⟩), .resolve 1]).step .staging (some true)
          (fun _ => "typescript") (.click (0 + 0))).step .staging (some true) (fun _ => "typescript")
            (.click (0 + 1 + 0))).selections =
      [] ++ [⟨.File, ⟨"/src/a.ts"⟩, "typescript", false⟩, ⟨.File, ⟨"/src/a.ts"⟩, "typescript", false⟩] :=
  have h : ((SelectedFilesState.mount .staging (some true) (fun _ => "typescript") []).run .staging (some true)
      (fun _ => "typescript") [.activeURI (some ⟨"/src/a.ts"⟩), .resolve 1]).prospectiveSelections[0]? =
        some ⟨.File, ⟨"/src/a.ts"⟩, "typescript", false⟩ := by decide
  ⟨h, stale_chip_selected_twice _ _ 0 _ h⟩

end Run

end ResonanceAgent.Browser
