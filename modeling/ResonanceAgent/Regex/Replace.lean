import ResonanceAgent.Regex.Matcher

/-! # Replacing every match of a global pattern

`s.replace(re, replacement)` for a pattern with the `g` flag is
`RegExp.prototype[Symbol.replace]` (ECMA-262 §22.2.6.11): it collects the matches from index 0
on, each search starting where the previous match ended (one further after an empty match), and
then writes the text with each match replaced.

* `RegExp.execAll`: the matches, in order; the loop ends because each match moves `lastIndex`
  forward.
* `replaceMatches`, `jsReplaceAll`: the text built from them, for a replacement without `$`
  patterns, which `GetSubstitution` leaves as it is.
* `replaceRuns`: what the replace does for a pattern `k+`, stated on its own: each maximal run of
  characters of the class becomes the replacement. `jsReplaceAll_plus` proves the two agree.
-/

namespace ResonanceAgent.RegexMatch
open ResonanceAgent.Js
set_option autoImplicit false

/-! ## The matches of a global pattern -/

/-- The matches `[Symbol.replace]` collects for a pattern with the `g` flag, from `lastIndex`
on: after a match the search goes on from its end, one index further after an empty match. -/
def RegExp.execAll (re : RegExp) (input : List Char) (lastIndex : ℕ) : List (ℕ × MatchState) :=
  match h : re.execFrom input lastIndex with
  | none => []
  | some (index, st) =>
    (index, st) :: re.execAll input (if st.endIndex = index then st.endIndex + 1 else st.endIndex)
termination_by input.length + 1 - lastIndex
decreasing_by
  obtain ⟨h1, h2, hst, -⟩ := execFrom_eq_some h
  obtain ⟨st', hm, hcont⟩ := matcher_sound _ _ _ hst
  have hle : index ≤ st.endIndex := Option.some.inj hcont ▸ hm.endIndex_le
  split <;> omega

/-- The text `[Symbol.replace]` builds from the matches, copying the input between them from
`nextSourcePosition` on and writing `replacement` for each match. -/
def replaceMatches (input replacement : List Char) :
    ℕ → List (ℕ × MatchState) → List Char
  | nextSourcePosition, [] => input.drop nextSourcePosition
  | nextSourcePosition, (position, st) :: results =>
    if nextSourcePosition ≤ position then
      jsSlice input nextSourcePosition position ++ replacement ++
        replaceMatches input replacement st.endIndex results
    else replaceMatches input replacement nextSourcePosition results

/-- `s.replace(re, replacement)` for a pattern with the `g` flag and a replacement without `$`. -/
def jsReplaceAll (s : String) (re : RegExp) (replacement : String) : String :=
  ⟨replaceMatches s.data replacement.data 0 (re.execAll s.data 0)⟩

section ExecAll
variable {re : RegExp} {input : List Char} {lastIndex : ℕ}

theorem execAll_of_none (h : re.execFrom input lastIndex = none) :
    re.execAll input lastIndex = [] := by
  rw [RegExp.execAll]
  split
  · rfl
  · rename_i h'
    rw [h] at h'
    cases h'

theorem execAll_of_some {index : ℕ} {st : MatchState}
    (h : re.execFrom input lastIndex = some (index, st)) :
    re.execAll input lastIndex =
      (index, st) :: re.execAll input (if st.endIndex = index then st.endIndex + 1 else st.endIndex) := by
  rw [RegExp.execAll]
  split
  · rename_i h'
    rw [h] at h'
    cases h'
  · rename_i h'
    rw [h] at h'
    cases h'
    rfl

end ExecAll

/-! ## The matches of `k+` -/

section Plus
variable {input : List Char} {k : CharClass} {ignoreCase : Bool}

/-- From `lastIndex` on, `k+` matches first at the first character of the class, and takes its
whole run. -/
theorem execFrom_plus_some {lastIndex index : ℕ} {st : MatchState}
    (h : (⟨.plus k, ignoreCase⟩ : RegExp).execFrom input lastIndex = some (index, st)) :
    lastIndex ≤ index ∧ (∃ c, input[index]? = some c ∧ k.test ignoreCase c = true) ∧
      st = ⟨runEnd input (k.test ignoreCase) index, none⟩ ∧
      ∀ i, lastIndex ≤ i → i < index → ∀ c, input[i]? = some c → k.test ignoreCase c = false := by
  obtain ⟨h1, -, hst, hleft⟩ := execFrom_eq_some h
  rw [plus_matcher_some] at hst
  obtain ⟨st₁, hstep, rfl⟩ := Option.map_eq_some'.mp hst
  obtain ⟨c, hc, htest, -⟩ := stepIf_eq_some hstep
  refine ⟨h1, ⟨c, hc, htest⟩, rfl, fun i hi1 hi2 d hd => ?_⟩
  cases htest' : k.test ignoreCase d
  · rfl
  · exact absurd (Matches.plus (stepIf_of_getElem? hd htest') .refl) (hleft i hi1 hi2 _)

/-- When `k+` has no match from `lastIndex` on, no character there is in the class. -/
theorem execFrom_plus_none {lastIndex : ℕ}
    (h : (⟨.plus k, ignoreCase⟩ : RegExp).execFrom input lastIndex = none) :
    ∀ c ∈ input.drop lastIndex, k.test ignoreCase c = false := by
  intro c hc
  obtain ⟨i, hi⟩ := List.mem_iff_getElem?.mp hc
  rw [List.getElem?_drop] at hi
  cases htest : k.test ignoreCase c
  · rfl
  · exact absurd (Matches.plus (stepIf_of_getElem? hi htest) .refl)
      (execFrom_eq_none_iff.mp h _ (Nat.le_add_right _ i) (List.getElem?_eq_some_iff.mp hi).1.le _)

end Plus

/-! ## Runs replaced -/

/-- Each maximal run of characters `test` accepts written as `replacement`; `inRun` says whether
the character before was in a run. -/
def replaceRuns (test : Char → Bool) (replacement : List Char) : Bool → List Char → List Char
  | _, [] => []
  | inRun, c :: cs =>
    if test c then
      if inRun then replaceRuns test replacement true cs
      else replacement ++ replaceRuns test replacement true cs
    else c :: replaceRuns test replacement false cs

section ReplaceRuns
variable (test : Char → Bool) (replacement : List Char)

theorem replaceRuns_append_of_none {xs : List Char} (hxs : ∀ c ∈ xs, test c = false)
    (ys : List Char) :
    replaceRuns test replacement false (xs ++ ys) = xs ++ replaceRuns test replacement false ys := by
  induction xs with
  | nil => rfl
  | cons c cs ih =>
    rw [List.cons_append, replaceRuns, if_neg (by simp [hxs c (List.mem_cons_self c cs)]),
      ih fun d hd => hxs d (List.mem_cons_of_mem c hd), List.cons_append]

/-- Text without characters of the class comes out as it is, in a run or not. -/
theorem replaceRuns_of_none {xs : List Char} (hxs : ∀ c ∈ xs, test c = false) (inRun : Bool) :
    replaceRuns test replacement inRun xs = xs := by
  induction xs generalizing inRun with
  | nil => rfl
  | cons c cs ih =>
    rw [replaceRuns, if_neg (by simp [hxs c (List.mem_cons_self c cs)]),
      ih (fun d hd => hxs d (List.mem_cons_of_mem c hd)) false]

theorem replaceRuns_true_append_run {xs : List Char} (hxs : ∀ c ∈ xs, test c = true)
    (ys : List Char) :
    replaceRuns test replacement true (xs ++ ys) = replaceRuns test replacement true ys := by
  induction xs with
  | nil => rfl
  | cons c cs ih =>
    rw [List.cons_append, replaceRuns, if_pos (hxs c (List.mem_cons_self c cs)), if_pos rfl,
      ih fun d hd => hxs d (List.mem_cons_of_mem c hd)]

theorem replaceRuns_true_of_head {ys : List Char}
    (hys : ∀ c, ys.head? = some c → test c = false) :
    replaceRuns test replacement true ys = replaceRuns test replacement false ys := by
  cases ys with
  | nil => rfl
  | cons c cs => simp only [replaceRuns, hys c rfl, Bool.false_eq_true, if_false]

theorem replaceRuns_true_of_all {xs : List Char} (hxs : ∀ c ∈ xs, test c = true) :
    replaceRuns test replacement true xs = [] := by
  simpa [replaceRuns] using replaceRuns_true_append_run test replacement hxs []

theorem mem_replaceRuns {c : Char} {xs : List Char} {inRun : Bool}
    (h : c ∈ replaceRuns test replacement inRun xs) :
    c ∈ replacement ∨ (c ∈ xs ∧ test c = false) := by
  induction xs generalizing inRun with
  | nil => cases h
  | cons x xs ih =>
    have hrest : c ∈ replaceRuns test replacement true xs ∨
        c ∈ replaceRuns test replacement false xs → c ∈ replacement ∨ (c ∈ x :: xs ∧ test c = false) :=
      fun h' => (h'.elim ih ih).imp_right fun h'' => ⟨List.mem_cons_of_mem x h''.1, h''.2⟩
    rw [replaceRuns] at h
    split_ifs at h with hx
    · exact hrest (.inl h)
    · rcases List.mem_append.mp h with h | h
      · exact .inl h
      · exact hrest (.inl h)
    · rcases List.mem_cons.mp h with rfl | h
      · exact .inr ⟨List.mem_cons_self c xs, by simpa using hx⟩
      · exact hrest (.inr h)

theorem mem_replaceRuns_of_not {c : Char} {xs : List Char} (hc : c ∈ xs) (htest : test c = false)
    (inRun : Bool) : c ∈ replaceRuns test replacement inRun xs := by
  induction xs generalizing inRun with
  | nil => cases hc
  | cons x xs ih =>
    rw [replaceRuns]
    rcases List.mem_cons.mp hc with rfl | hc
    · rw [if_neg (by simp [htest])]
      exact List.mem_cons_self c _
    · split_ifs
      · exact ih hc true
      · exact List.mem_append_right _ (ih hc true)
      · exact List.mem_cons_of_mem x (ih hc false)

/-- With a one-character replacement of the class, the replacement never comes twice in a row,
and never first after a run. -/
theorem replaceRuns_no_double {s : Char} (hs : test s = true) (xs : List Char) (inRun : Bool) :
    ¬ [s, s] <:+: replaceRuns test [s] inRun xs ∧
      (inRun = true → (replaceRuns test [s] inRun xs).head? ≠ some s) := by
  induction xs generalizing inRun with
  | nil => exact ⟨fun h => by simpa [replaceRuns] using h.length_le, fun _ => Option.noConfusion⟩
  | cons c cs ih =>
    obtain ⟨ihT1, ihT2⟩ := ih true
    rw [replaceRuns]
    split_ifs with hc hb
    · exact ⟨ihT1, fun _ => ihT2 rfl⟩
    · refine ⟨fun h => ?_, fun h => absurd h hb⟩
      rw [List.singleton_append, List.infix_cons_iff, List.cons_prefix_cons] at h
      rcases h with ⟨-, ⟨t, ht⟩⟩ | h
      · exact ihT2 rfl (by rw [← ht]; rfl)
      · exact ihT1 h
    · have hcs : c ≠ s := fun h => hc (h ▸ hs)
      refine ⟨fun h => ?_, fun _ h => hcs (Option.some.inj h)⟩
      rw [List.infix_cons_iff, List.cons_prefix_cons] at h
      rcases h with ⟨h, -⟩ | h
      · exact hcs h.symm
      · exact (ih false).1 h

/-- Outside the class, replacing runs keeps every character, in order. -/
theorem filter_replaceRuns (hr : ∀ c ∈ replacement, test c = true) (xs : List Char)
    (inRun : Bool) :
    (replaceRuns test replacement inRun xs).filter (fun c => !test c) =
      xs.filter (fun c => !test c) := by
  induction xs generalizing inRun with
  | nil => rfl
  | cons c cs ih =>
    have hrepl : replacement.filter (fun c => !test c) = [] :=
      List.filter_eq_nil_iff.mpr fun d hd => by simp [hr d hd]
    rw [replaceRuns]
    split_ifs with hc
    · rw [ih, List.filter_cons_of_neg (by simpa using hc)]
    · rw [List.filter_append, hrepl, List.nil_append, ih, List.filter_cons_of_neg (by simpa using hc)]
    · rw [List.filter_cons_of_pos (by simpa using hc), List.filter_cons_of_pos (by simpa using hc),
        ih]

/-- Replacing runs in two pieces: the second starts in a run when the first ends in one. -/
theorem replaceRuns_append (xs ys : List Char) (inRun : Bool) :
    replaceRuns test replacement inRun (xs ++ ys) =
      replaceRuns test replacement inRun xs ++
        replaceRuns test replacement ((xs.getLast?.map test).getD inRun) ys := by
  induction xs generalizing inRun with
  | nil => rfl
  | cons x xs ih =>
    have hlast : ((x :: xs).getLast?.map test).getD inRun = (xs.getLast?.map test).getD (test x) := by
      rw [List.getLast?_cons]
      cases xs.getLast? <;> rfl
    rw [List.cons_append, replaceRuns, replaceRuns, hlast]
    cases test x <;> cases inRun <;>
      simp only [Bool.false_eq_true, if_true, if_false, ih, List.cons_append, List.append_assoc]

/-- Text that ends in a run of the class comes out ending in the replacement. -/
theorem replaceRuns_append_run (xs : List Char) {run : List Char} (hrun : run ≠ [])
    (hall : ∀ c ∈ run, test c = true) (hxs : ∀ c, xs.getLast? = some c → test c = false) :
    replaceRuns test replacement false (xs ++ run) =
      replaceRuns test replacement false xs ++ replacement := by
  have hstate : (xs.getLast?.map test).getD false = false := by
    cases hl : xs.getLast? with
    | none => rfl
    | some c => exact hxs c hl
  obtain ⟨c, cs, rfl⟩ := List.exists_cons_of_ne_nil hrun
  rw [replaceRuns_append, hstate, replaceRuns, if_pos (hall c (List.mem_cons_self c cs)),
    if_neg Bool.false_ne_true, replaceRuns_true_of_all _ _ fun d hd => hall d (List.mem_cons_of_mem c hd),
    List.append_nil]

end ReplaceRuns

/-- Replacing every match of `k+` replaces every maximal run of the class, from any position
on. -/
theorem replaceMatches_execAll_plus (input replacement : List Char) (k : CharClass)
    (ignoreCase : Bool) (lastIndex : ℕ) :
    replaceMatches input replacement lastIndex
        ((⟨.plus k, ignoreCase⟩ : RegExp).execAll input lastIndex) =
      replaceRuns (k.test ignoreCase) replacement false (input.drop lastIndex) := by
  induction lastIndex using RegExp.execAll.induct ⟨.plus k, ignoreCase⟩ input with
  | case1 p hnone =>
    rw [execAll_of_none hnone, replaceMatches, replaceRuns_of_none _ _ (execFrom_plus_none hnone)]
  | case2 p index st hsome ih =>
    obtain ⟨hle, ⟨c, hc, htest⟩, rfl, hleft⟩ := execFrom_plus_some hsome
    have hnext : runEnd input (k.test ignoreCase) index ≠ index := by
      rw [runEnd_of_getElem? hc htest, runEnd]
      omega
    simp only [hnext, dite_false] at ih
    rw [execAll_of_some hsome]
    simp only [hnext, if_false]
    have hslice : ∀ d ∈ jsSlice input p index, k.test ignoreCase d = false := fun d hd => by
      obtain ⟨i, h1, h2, hi⟩ := mem_jsSlice _ hd
      exact hleft i h1 h2 d hi
    rw [replaceMatches, if_pos hle, ih]
    symm
    calc replaceRuns (k.test ignoreCase) replacement false (input.drop p)
        = jsSlice input p index ++
            replaceRuns (k.test ignoreCase) replacement false (input.drop index) := by
          rw [← jsSlice_append_drop input hle, replaceRuns_append_of_none _ _ hslice]
      _ = jsSlice input p index ++ replacement ++ replaceRuns (k.test ignoreCase) replacement false
            (input.drop (runEnd input (k.test ignoreCase) index)) := by
          rw [drop_eq_cons_run hc htest, List.cons_append, replaceRuns, if_pos htest,
            if_neg Bool.false_ne_true,
            replaceRuns_true_append_run _ _ fun d hd => List.mem_takeWhile_imp hd,
            replaceRuns_true_of_head _ _ (head?_drop_runEnd input _ index), List.append_assoc]

/-- `s.replace(/k+/g, replacement)` writes each maximal run of the class as `replacement`. -/
theorem jsReplaceAll_plus (s : String) (k : CharClass) (ignoreCase : Bool) (replacement : String) :
    jsReplaceAll s ⟨.plus k, ignoreCase⟩ replacement =
      ⟨replaceRuns (k.test ignoreCase) replacement.data false s.data⟩ := by
  rw [jsReplaceAll, replaceMatches_execAll_plus, List.drop_zero]

end ResonanceAgent.RegexMatch
