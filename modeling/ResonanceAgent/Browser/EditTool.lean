import ResonanceAgent.Prompt.SearchReplace

/-! # The line counts of the edit tool

`EditTool` in `react-types.d.ts` (lines 1270–1352) shows how many lines an `edit_file` or a
`rewrite_file` call added and deleted. For `edit_file` it reads the call's content back as
search/replace blocks: it splits the content at `<<<<<<< ORIGINAL`, each block at `=======` and
the part after it at `>>>>>>> UPDATED`, and counts the non-blank lines of the two texts.

* `nonBlankLines s` is `s.split('\n').filter(l => l.trim()).length`; `lineCount` adds the guard
  `part ? … : 0`, which changes nothing (`lineCount_eq`).
* `addBlockStats` is one round of the `for` loop over the blocks, `editFileTotals` the loop, and
  `editToolLineCounts` the whole computation of `linesAdded` and `linesDeleted`.
* `netLineChanges bs` is what the counts are for: the non-blank lines each block adds or removes.

The main result, `editToolLineCounts_searchReplaceBlocks`, is the round trip through the format of
`Prompt/SearchReplace.lean`: whatever blocks the model writes as `prompts.ts` asks, the badges show
their net changes. Whitespace around a text never changes its count of non-blank lines
(`nonBlankLines_whitespace_append_append`), so the `trim` calls cost the reader nothing.
-/

namespace ResonanceAgent.Browser
open ResonanceAgent.Js ResonanceAgent.Prompt
set_option autoImplicit false

/-! ## Non-blank lines -/

/-- `l.trim()` is truthy: the line is not blank. -/
def isNonBlank (l : String) : Bool := jsTrim l != ""

/-- `s.split('\n').filter(l => l.trim()).length`: the lines of `s` that are not blank. -/
def nonBlankLines (s : String) : ℕ := ((jsSplit s '\n').filter isNonBlank).length

theorem isNonBlank_iff (l : String) :
    isNonBlank l = true ↔ ∃ c ∈ l.data, isJsWhitespace c = false := by
  simp [isNonBlank, jsTrim_eq_empty_iff]

theorem isNonBlank_nil : isNonBlank ⟨[]⟩ = false := by decide

theorem isNonBlank_cons (d : Char) (l : List Char) :
    isNonBlank ⟨d :: l⟩ = (!isJsWhitespace d || isNonBlank ⟨l⟩) := by
  rw [Bool.eq_iff_iff, Bool.or_eq_true, isNonBlank_iff, isNonBlank_iff]
  cases hd : isJsWhitespace d <;> simp [hd]

theorem nonBlankLines_eq (s : String) :
    nonBlankLines s = (s.data.splitOn '\n').countP fun l => isNonBlank ⟨l⟩ := by
  rw [nonBlankLines, jsSplit, List.filter_map, List.length_map, List.countP_eq_length_filter]
  rfl

theorem countP_modifyHead {f : List Char → List Char}
    (hf : ∀ l, isNonBlank ⟨f l⟩ = isNonBlank ⟨l⟩) (L : List (List Char)) :
    (L.modifyHead f).countP (fun l => isNonBlank ⟨l⟩) = L.countP fun l => isNonBlank ⟨l⟩ := by
  cases L with
  | nil => rfl
  | cons x xs => simp only [List.modifyHead_cons, List.countP_cons, hf]

/-- Whitespace before a text adds no non-blank line. -/
theorem countP_splitOn_whitespace_append {ws : List Char}
    (hws : ∀ c ∈ ws, isJsWhitespace c = true) (t : List Char) :
    ((ws ++ t).splitOn '\n').countP (fun l => isNonBlank ⟨l⟩) =
      (t.splitOn '\n').countP fun l => isNonBlank ⟨l⟩ := by
  induction ws with
  | nil => rfl
  | cons c ws ih =>
    have hc := hws c (List.mem_cons_self c ws)
    have ih' := ih fun d hd => hws d (List.mem_cons_of_mem c hd)
    simp only [List.cons_append, List.splitOn, List.splitOnP_cons] at ih' ⊢
    split
    · rw [List.countP_cons, isNonBlank_nil, ih']
      rfl
    · rw [countP_modifyHead (fun l => by rw [isNonBlank_cons, hc, Bool.not_true, Bool.false_or]),
        ih']

/-- A blank character other than a line break, after a text, leaves each of its lines as blank
as it was. -/
theorem map_isNonBlank_splitOn_append {c : Char} (hc : isJsWhitespace c = true) (hn : c ≠ '\n')
    (t : List Char) :
    ((t ++ [c]).splitOn '\n').map (fun l => isNonBlank ⟨l⟩) =
      (t.splitOn '\n').map fun l => isNonBlank ⟨l⟩ := by
  induction t with
  | nil => simp [List.splitOn, List.splitOnP_cons, hn, isNonBlank_cons, hc]
  | cons d t ih =>
    simp only [List.cons_append, List.splitOn, List.splitOnP_cons] at ih ⊢
    split
    · simp only [List.map_cons, ih]
    · obtain ⟨x, xs, hx⟩ := List.exists_cons_of_ne_nil (List.splitOnP_ne_nil (· == '\n') (t ++ [c]))
      obtain ⟨y, ys, hy⟩ := List.exists_cons_of_ne_nil (List.splitOnP_ne_nil (· == '\n') t)
      rw [hx, hy, List.map_cons, List.map_cons, List.cons.injEq] at ih
      rw [hx, hy, List.modifyHead_cons, List.modifyHead_cons, List.map_cons, List.map_cons,
        isNonBlank_cons, isNonBlank_cons, ih.1, ih.2]

/-- Whitespace after a text adds no non-blank line. -/
theorem countP_splitOn_append_whitespace {ws : List Char}
    (hws : ∀ c ∈ ws, isJsWhitespace c = true) (t : List Char) :
    ((t ++ ws).splitOn '\n').countP (fun l => isNonBlank ⟨l⟩) =
      (t.splitOn '\n').countP fun l => isNonBlank ⟨l⟩ := by
  induction ws generalizing t with
  | nil => rw [List.append_nil]
  | cons c ws ih =>
    rw [← List.singleton_append, ← List.append_assoc,
      ih (fun d hd => hws d (List.mem_cons_of_mem c hd))]
    by_cases hn : c = '\n'
    · subst hn
      rw [splitOn_append_sep, List.countP_append]
      simpa using isNonBlank_nil
    · have h := congrArg (List.countP id)
        (map_isNonBlank_splitOn_append (hws c (List.mem_cons_self c ws)) hn t)
      rwa [List.countP_map, List.countP_map] at h

theorem nonBlankLines_whitespace_append_append {lead trail : List Char}
    (hl : ∀ c ∈ lead, isJsWhitespace c = true) (ht : ∀ c ∈ trail, isJsWhitespace c = true)
    (s : List Char) : nonBlankLines ⟨lead ++ s ++ trail⟩ = nonBlankLines ⟨s⟩ := by
  rw [nonBlankLines_eq, nonBlankLines_eq, countP_splitOn_append_whitespace ht,
    countP_splitOn_whitespace_append hl]

/-- Trimming a text keeps its non-blank lines. -/
theorem nonBlankLines_jsTrim (s : String) : nonBlankLines (jsTrim s) = nonBlankLines s := by
  obtain ⟨lead, trail, hl, ht, hs⟩ := jsTrim_spec s
  rw [← nonBlankLines_whitespace_append_append hl ht, ← hs]

theorem nonBlankLines_newline_wrap (s : String) :
    nonBlankLines ⟨'\n' :: s.data ++ ['\n']⟩ = nonBlankLines s :=
  nonBlankLines_whitespace_append_append (by decide : ∀ c ∈ ['\n'], isJsWhitespace c = true)
    (by decide) s.data

/-! ## The edit tool -/

/-- The states of a tool message (`ToolMessage['type']`). -/
inductive ToolMessageType
  | tool_request | running_now | success | rejected | tool_error | invalid_params
  deriving DecidableEq, Repr

/-- `part ? part.split('\n').filter(l => l.trim()).length : 0`. -/
def lineCount (part : String) : ℕ := if part = "" then 0 else nonBlankLines part

/-- One round of the loop over the blocks of an `edit_file` content, on the running totals
`(totalAdded, totalDeleted)`. -/
def addBlockStats (totals : ℕ × ℕ) (block : String) : ℕ × ℕ :=
  if jsTrim block = "" then totals
  else
    match jsSplitString block "=======" with
    | [part0, part1] =>
      let originalLines := lineCount (jsTrim part0)
      let updatedLines := lineCount (jsTrim ((jsSplitString part1 ">>>>>>> UPDATED").headD ""))
      if updatedLines > originalLines then (totals.1 + (updatedLines - originalLines), totals.2)
      else if originalLines > updatedLines then
        (totals.1, totals.2 + (originalLines - updatedLines))
      else totals
    | _ => totals

/-- `totalAdded` and `totalDeleted` after the loop. -/
def editFileTotals (content : String) : ℕ × ℕ :=
  (jsSplitString content "<<<<<<< ORIGINAL").foldl addBlockStats (0, 0)

/-- `(linesAdded, linesDeleted)` of a call of the tool `name`; `originalContent` is the value of
the file's model, when it has one. -/
def editToolLineCounts (name : String) (type : ToolMessageType) (content : String)
    (originalContent : Option String) : Option ℕ × Option ℕ :=
  if content ≠ "" ∧ (type = .success ∨ type = .rejected) then
    if name = "edit_file" then
      let totals := editFileTotals content
      (if totals.1 > 0 then some totals.1 else none, if totals.2 > 0 then some totals.2 else none)
    else if name = "rewrite_file" then
      let newLines := nonBlankLines content
      match originalContent with
      | some original =>
        let diff : ℤ := newLines - nonBlankLines original
        (if diff > 0 then some diff.toNat else none, if diff < 0 then some diff.natAbs else none)
      | none => (some newLines, none)
    else (none, none)
  else (none, none)

/-- The non-blank lines that the blocks add and remove, block by block. -/
def netLineChanges : List SearchReplaceBlock → ℕ × ℕ
  | [] => (0, 0)
  | b :: bs =>
    ((nonBlankLines b.updated - nonBlankLines b.original) + (netLineChanges bs).1,
      (nonBlankLines b.original - nonBlankLines b.updated) + (netLineChanges bs).2)

theorem lineCount_eq (part : String) : lineCount part = nonBlankLines part := by
  unfold lineCount
  split
  · subst part; rfl
  · rfl

theorem jsTrim_ne_empty_of_mem {s : String} {c : Char} (hc : c ∈ s.data)
    (hw : isJsWhitespace c = false) : jsTrim s ≠ "" :=
  fun h => by simp [(jsTrim_eq_empty_iff s).mp h c hc] at hw

/-! ## Reading the written blocks back -/

/-- One block, followed by nothing or by the blank line before the next, adds the growth of its
non-blank lines to the added total and their shrinkage to the deleted total. -/
theorem addBlockStats_blockBody (totals : ℕ × ℕ) (b : SearchReplaceBlock) {gap : List Char}
    (hgap : gap = [] ∨ gap = ['\n', '\n']) :
    addBlockStats totals ⟨blockBody b ++ gap⟩ =
      (totals.1 + (nonBlankLines b.updated - nonBlankLines b.original),
        totals.2 + (nonBlankLines b.original - nonBlankLines b.updated)) := by
  have hn := newline_not_mem_divider
  have hsplit : jsSplitString ⟨blockBody b ++ gap⟩ "=======" =
      [⟨'\n' :: b.original.data ++ ['\n']⟩,
        ⟨'\n' :: (b.updated.data ++ '\n' :: (FINAL.data ++ gap))⟩] := by
    have hgap' : ¬ DIVIDER.data <:+: FINAL.data ++ gap := by
      rcases hgap with rfl | rfl <;> decide
    show List.map String.mk (splitOnSub DIVIDER.data (blockBody b ++ gap)) = _
    rw [show blockBody b ++ gap = ('\n' :: b.original.data) ++ '\n' ::
        (DIVIDER.data ++ '\n' :: (b.updated.data ++ '\n' :: (FINAL.data ++ gap))) by
        simp [blockBody],
      splitOnSub_append_cons_sep_append divider_ne_nil hn
        (not_infix_cons divider_ne_nil hn b.original_ok.2),
      splitOnSub_of_not_infix (not_infix_cons divider_ne_nil hn
        (not_infix_append_cons hn b.updated_ok.2.1 hgap'))]
    rfl
  have hhead : (jsSplitString ⟨'\n' :: (b.updated.data ++ '\n' :: (FINAL.data ++ gap))⟩
      ">>>>>>> UPDATED").headD "" = ⟨'\n' :: b.updated.data ++ ['\n']⟩ := by
    have hf := newline_not_mem_final
    show (List.map String.mk (splitOnSub FINAL.data
      (('\n' :: b.updated.data) ++ '\n' :: (FINAL.data ++ gap)))).headD "" = _
    rw [splitOnSub_append_cons_sep_append (by decide) hf
        (not_infix_cons (by decide) hf b.updated_ok.2.2)]
    rfl
  have heq : '=' ∈ blockBody b ++ gap := by simp [blockBody, DIVIDER]
  rw [addBlockStats, if_neg (jsTrim_ne_empty_of_mem heq (by decide)), hsplit]
  simp only [hhead, lineCount_eq, nonBlankLines_jsTrim, nonBlankLines_newline_wrap]
  split_ifs <;> ext <;> simp <;> omega

/-- The loop over the blocks after the first `ORIGINAL`, from any running totals. -/
theorem foldl_addBlockStats_blockBody (b : SearchReplaceBlock) (bs : List SearchReplaceBlock)
    (totals : ℕ × ℕ) :
    (splitOnSub ORIGINAL.data (blockBody b ++ blocksTail bs)).foldl
        (fun t p => addBlockStats t ⟨p⟩) totals =
      (totals.1 + (netLineChanges (b :: bs)).1, totals.2 + (netLineChanges (b :: bs)).2) := by
  induction bs generalizing b totals with
  | nil =>
    rw [blocksTail, List.append_nil, splitOnSub_of_not_infix (original_not_infix_blockBody b),
      List.foldl_cons, List.foldl_nil, ← List.append_nil (blockBody b),
      addBlockStats_blockBody totals b (Or.inl rfl)]
    simp [netLineChanges]
  | cons b' bs ih =>
    have hn := newline_not_mem_original
    rw [blocksTail, show blockBody b ++ '\n' :: '\n' :: (ORIGINAL.data ++ blockBody b' ++ blocksTail bs)
        = (blockBody b ++ ['\n']) ++ '\n' :: (ORIGINAL.data ++ (blockBody b' ++ blocksTail bs)) by simp,
      splitOnSub_append_cons_sep_append original_ne_nil hn
        (not_infix_append_cons hn (original_not_infix_blockBody b) (not_infix_nil original_ne_nil)),
      List.foldl_cons, List.append_assoc, List.singleton_append,
      addBlockStats_blockBody totals b (Or.inr rfl), ih]
    simp only [netLineChanges]
    ext <;> simp only <;> omega

theorem editFileTotals_searchReplaceBlocks (blocks : List SearchReplaceBlock) :
    editFileTotals (searchReplaceBlocks blocks) = netLineChanges blocks := by
  have hempty : addBlockStats (0, 0) "" = (0, 0) := rfl
  cases blocks with
  | nil =>
    rw [editFileTotals, show searchReplaceBlocks [] = "" from rfl, jsSplitString,
      show "".data = [] from rfl, splitOnSub_nil]
    exact hempty
  | cons b bs =>
    have h := foldl_addBlockStats_blockBody b bs (addBlockStats (0, 0) "")
    rw [hempty, Nat.zero_add, Nat.zero_add] at h
    rw [editFileTotals, jsSplitString, show "<<<<<<< ORIGINAL".data = ORIGINAL.data from rfl,
      searchReplaceBlocks_cons_data, List.append_assoc, splitOnSub_sep_append original_ne_nil,
      List.map_cons, List.foldl_cons, List.foldl_map]
    exact h

/-- The round trip: once the call has ended, the badges of an `edit_file` call whose content is
written in the search/replace format show the non-blank lines its blocks add and remove. -/
theorem editToolLineCounts_searchReplaceBlocks {type : ToolMessageType}
    (htype : type = .success ∨ type = .rejected) (blocks : List SearchReplaceBlock)
    (originalContent : Option String) :
    editToolLineCounts "edit_file" type (searchReplaceBlocks blocks) originalContent =
      (if (netLineChanges blocks).1 > 0 then some (netLineChanges blocks).1 else none,
        if (netLineChanges blocks).2 > 0 then some (netLineChanges blocks).2 else none) := by
  cases blocks with
  | nil =>
    rw [editToolLineCounts, if_neg fun h => h.1 rfl]
    rfl
  | cons b bs =>
    have hne : searchReplaceBlocks (b :: bs) ≠ "" := fun h => by
      simpa [h, original_ne_nil] using searchReplaceBlocks_cons_data b bs
    rw [editToolLineCounts, if_pos ⟨hne, htype⟩, if_pos rfl, editFileTotals_searchReplaceBlocks]

/-- Two blocks, one growing from one line to three, one shrinking from two lines to one. -/
theorem editToolLineCounts_two_blocks :
    editToolLineCounts "edit_file" .rejected
        (searchReplaceBlocks [⟨"a", "a\n\nb\nc", by decide, by decide⟩,
          ⟨"  x\ny  ", "z", by decide, by decide⟩]) none = (some 2, some 1) :=
  (editToolLineCounts_searchReplaceBlocks (Or.inr rfl) _ none).trans (by decide)

end ResonanceAgent.Browser
