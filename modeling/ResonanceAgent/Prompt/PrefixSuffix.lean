import ResonanceAgent.Js.Text

/-! # The context window around a selection

`voidPrefixAndSuffix({ fullFileStr, startLine, endLine })` in `common/prompt/prompts.ts` cuts the
file into lines and grows two windows of whole lines around the 1-indexed selection
`startLine .. endLine`, each while the next line still fits in `MAX_PREFIX_SUFFIX_CHARS`:

* `prefixLoop`: `i` starts at `startLine - 1` and moves up, prepending `line + '\n'`;
* `suffixLoop`: `j` starts at `endLine - 1` and moves down, appending `'\n' + line`.

The line indices are JavaScript numbers and are whole when the arguments are, so they are
integers here. `fullFileLines[k]` outside `0 .. length - 1` is `undefined`, and reading its
`length` throws a `TypeError`: the loops return `none` for it. A result `some` therefore says
both that the function returned and that it read no index outside the array. (The name of the
source's `prefix` variable is a keyword here: it is `prefixStr`.) The last section gives the exact
inputs on which the function throws.
-/

namespace ResonanceAgent.Prompt
open ResonanceAgent.Js
set_option autoImplicit false

/-- `MAX_PREFIX_SUFFIX_CHARS`. -/
def MAX_PREFIX_SUFFIX_CHARS : ℕ := 20000

/-- `lines[k]` for an integer `k`: `undefined` (`none`) outside `0 .. lines.length - 1`. -/
def jsIndex {α : Type} (lines : List α) (k : ℤ) : Option α :=
  if 0 ≤ k then lines[k.toNat]? else none

theorem jsIndex_bounds {α : Type} {lines : List α} {k : ℤ} {a : α}
    (h : jsIndex lines k = some a) : 0 ≤ k ∧ k < lines.length := by
  unfold jsIndex at h
  split_ifs at h with hk
  · have := (List.getElem?_eq_some_iff.mp h).1
    omega

theorem jsIndex_natCast {α : Type} (lines : List α) (k : ℕ) : jsIndex lines k = lines[k]? := by
  rw [jsIndex, if_pos (Int.ofNat_nonneg k), Int.toNat_ofNat]

theorem jsIndex_eq_none_iff {α : Type} {lines : List α} {k : ℤ} :
    jsIndex lines k = none ↔ k < 0 ∨ (lines.length : ℤ) ≤ k := by
  unfold jsIndex
  split_ifs with hk
  · rw [List.getElem?_eq_none_iff]; omega
  · exact iff_of_true rfl (.inl (by omega))

theorem jsIndex_of_lt {α : Type} {lines : List α} {k : ℤ} (h0 : 0 ≤ k) (hk : k < lines.length) :
    ∃ a, jsIndex lines k = some a :=
  Option.ne_none_iff_exists'.mp (mt jsIndex_eq_none_iff.mp (by omega))

/-! ## The two loops -/

/-- The first `while` loop: `i` moves up while the line above it fits. -/
def prefixLoop (fullFileLines : List String) (i : ℤ) (prefixStr : String) :
    Option (ℤ × String) :=
  if i = 0 then some (i, prefixStr)
  else
    match h : jsIndex fullFileLines (i - 1) with
    | none => none
    | some newLine =>
      if jsLength newLine + 1 + jsLength prefixStr ≤ MAX_PREFIX_SUFFIX_CHARS then
        prefixLoop fullFileLines (i - 1) (newLine ++ "\n" ++ prefixStr)
      else some (i, prefixStr)
termination_by i.toNat
decreasing_by have := (jsIndex_bounds h).1; omega

/-- The second `while` loop: `j` moves down while the line below it fits. -/
def suffixLoop (fullFileLines : List String) (j : ℤ) (suffix : String) : Option (ℤ × String) :=
  if j = fullFileLines.length - 1 then some (j, suffix)
  else
    match h : jsIndex fullFileLines (j + 1) with
    | none => none
    | some newLine =>
      if jsLength newLine + 1 + jsLength suffix ≤ MAX_PREFIX_SUFFIX_CHARS then
        suffixLoop fullFileLines (j + 1) (suffix ++ "\n" ++ newLine)
      else some (j, suffix)
termination_by (fullFileLines.length - 1 - j).toNat
decreasing_by have := (jsIndex_bounds h).2; omega

/-- The object `{ prefix, suffix }` that `voidPrefixAndSuffix` returns. -/
structure PrefixAndSuffix where
  prefixStr : String
  suffix : String

/-- `voidPrefixAndSuffix({ fullFileStr, startLine, endLine })`. -/
def voidPrefixAndSuffix (fullFileStr : String) (startLine endLine : ℤ) : Option PrefixAndSuffix := do
  let fullFileLines := jsSplit fullFileStr '\n'
  let (_, prefixStr) ← prefixLoop fullFileLines (startLine - 1) ""
  let (_, suffix) ← suffixLoop fullFileLines (endLine - 1) ""
  pure ⟨prefixStr, suffix⟩

section Steps
variable (lines : List String) (i : ℤ) (acc : String)

theorem prefixLoop_zero : prefixLoop lines 0 acc = some (0, acc) := by
  rw [prefixLoop, if_pos rfl]

theorem prefixLoop_of_fits {newLine : String} (hi : i ≠ 0)
    (h : jsIndex lines (i - 1) = some newLine)
    (hfit : jsLength newLine + 1 + jsLength acc ≤ MAX_PREFIX_SUFFIX_CHARS) :
    prefixLoop lines i acc = prefixLoop lines (i - 1) (newLine ++ "\n" ++ acc) := by
  rw [prefixLoop, if_neg hi]
  split <;> simp_all

theorem prefixLoop_of_full {newLine : String} (hi : i ≠ 0)
    (h : jsIndex lines (i - 1) = some newLine)
    (hfull : MAX_PREFIX_SUFFIX_CHARS < jsLength newLine + 1 + jsLength acc) :
    prefixLoop lines i acc = some (i, acc) := by
  rw [prefixLoop, if_neg hi]
  split
  · simp_all
  · rename_i h'; rw [h] at h'; cases h'; simp [not_le.mpr hfull]

theorem prefixLoop_of_none (hi : i ≠ 0) (h : jsIndex lines (i - 1) = none) :
    prefixLoop lines i acc = none := by
  rw [prefixLoop, if_neg hi]
  split <;> simp_all

theorem suffixLoop_last (hj : i = lines.length - 1) : suffixLoop lines i acc = some (i, acc) := by
  rw [suffixLoop, if_pos hj]

theorem suffixLoop_of_fits {newLine : String} (hj : i ≠ lines.length - 1)
    (h : jsIndex lines (i + 1) = some newLine)
    (hfit : jsLength newLine + 1 + jsLength acc ≤ MAX_PREFIX_SUFFIX_CHARS) :
    suffixLoop lines i acc = suffixLoop lines (i + 1) (acc ++ "\n" ++ newLine) := by
  rw [suffixLoop, if_neg hj]
  split <;> simp_all

theorem suffixLoop_of_full {newLine : String} (hj : i ≠ lines.length - 1)
    (h : jsIndex lines (i + 1) = some newLine)
    (hfull : MAX_PREFIX_SUFFIX_CHARS < jsLength newLine + 1 + jsLength acc) :
    suffixLoop lines i acc = some (i, acc) := by
  rw [suffixLoop, if_neg hj]
  split
  · simp_all
  · rename_i h'; rw [h] at h'; cases h'; simp [not_le.mpr hfull]

theorem suffixLoop_of_none (hj : i ≠ lines.length - 1) (h : jsIndex lines (i + 1) = none) :
    suffixLoop lines i acc = none := by
  rw [suffixLoop, if_neg hj]
  split <;> simp_all

end Steps

/-! ## The windows as slices of lines -/

/-- The concatenation of `lines[k] + '\n'` for `k = start .. stop - 1`. -/
def linesWithNewlines (lines : List String) (start stop : ℕ) : String :=
  (jsSlice lines start stop).foldr (fun line acc => line ++ "\n" ++ acc) ""

/-- The concatenation of `'\n' + lines[k]` for `k = start .. stop - 1`. -/
def newlinesWithLines (lines : List String) (start stop : ℕ) : String :=
  (jsSlice lines start stop).foldl (fun acc line => acc ++ "\n" ++ line) ""

section Windows

private theorem foldr_newline_append (xs ys : List String) :
    (xs ++ ys).foldr (fun line acc => line ++ "\n" ++ acc) "" =
      xs.foldr (fun line acc => line ++ "\n" ++ acc) "" ++
        ys.foldr (fun line acc => line ++ "\n" ++ acc) "" := by
  induction xs with
  | nil => simp
  | cons x xs ih =>
    rw [List.cons_append, List.foldr_cons, List.foldr_cons, ih]
    simp only [String.append_assoc]

private theorem foldl_newline_acc (zs : List String) (acc : String) :
    zs.foldl (fun acc line => acc ++ "\n" ++ line) acc =
      acc ++ zs.foldl (fun acc line => acc ++ "\n" ++ line) "" := by
  induction zs generalizing acc with
  | nil => simp
  | cons z zs ih =>
    rw [List.foldl_cons, List.foldl_cons, ih, ih ("" ++ "\n" ++ z)]
    simp [String.append_assoc]

private theorem foldr_newline_append_jsJoin (xs : List String) {ys : List String} (hys : ys ≠ []) :
    xs.foldr (fun line acc => line ++ "\n" ++ acc) "" ++ jsJoin ys "\n" = jsJoin (xs ++ ys) "\n" := by
  induction xs with
  | nil => simp
  | cons x xs ih =>
    rw [List.foldr_cons, List.cons_append, jsJoin_cons_of_ne_nil x (by simp [hys]), ← ih]
    simp only [String.append_assoc]

private theorem jsJoin_append_foldl_newline (zs : List String) :
    ∀ {ys : List String}, ys ≠ [] →
      jsJoin ys "\n" ++ zs.foldl (fun acc line => acc ++ "\n" ++ line) "" = jsJoin (ys ++ zs) "\n" := by
  induction zs with
  | nil => intro ys _; simp
  | cons z zs ih =>
    intro ys hys
    rw [List.foldl_cons, foldl_newline_acc, List.append_cons, ← ih (show ys ++ [z] ≠ [] by simp),
      jsJoin_append_singleton ys hys]
    simp [String.append_assoc]

variable (lines : List String)

@[simp] theorem linesWithNewlines_self (a : ℕ) : linesWithNewlines lines a a = "" := by
  simp [linesWithNewlines]

@[simp] theorem newlinesWithLines_self (a : ℕ) : newlinesWithLines lines a a = "" := by
  simp [newlinesWithLines]

theorem linesWithNewlines_eq_cons {a b : ℕ} {line : String} (hab : a < b)
    (h : lines[a]? = some line) :
    linesWithNewlines lines a b = line ++ "\n" ++ linesWithNewlines lines (a + 1) b := by
  rw [linesWithNewlines, jsSlice_eq_cons lines hab h, List.foldr_cons, linesWithNewlines]

theorem linesWithNewlines_append {a b c : ℕ} (hab : a ≤ b) (hbc : b ≤ c) :
    linesWithNewlines lines a c = linesWithNewlines lines a b ++ linesWithNewlines lines b c := by
  rw [linesWithNewlines, ← jsSlice_append lines hab hbc, foldr_newline_append]; rfl

theorem newlinesWithLines_append {a b c : ℕ} (hab : a ≤ b) (hbc : b ≤ c) :
    newlinesWithLines lines a c = newlinesWithLines lines a b ++ newlinesWithLines lines b c := by
  rw [newlinesWithLines, ← jsSlice_append lines hab hbc, List.foldl_append, foldl_newline_acc]; rfl

theorem newlinesWithLines_succ {a b : ℕ} {line : String} (hab : a ≤ b)
    (h : lines[b]? = some line) :
    newlinesWithLines lines a (b + 1) = newlinesWithLines lines a b ++ "\n" ++ line := by
  rw [newlinesWithLines, jsSlice_succ lines hab h, List.foldl_append]; rfl

theorem jsSlice_ne_nil {a b : ℕ} (hab : a < b) (hb : b ≤ lines.length) : jsSlice lines a b ≠ [] := by
  simp [jsSlice]; omega

/-- The lines before a non-empty block, each with its newline, then the block joined, are the
joined lines. -/
theorem linesWithNewlines_append_jsJoin {a b c : ℕ} (hab : a ≤ b) (hbc : b < c)
    (hc : c ≤ lines.length) :
    linesWithNewlines lines a b ++ jsJoin (jsSlice lines b c) "\n" =
      jsJoin (jsSlice lines a c) "\n" := by
  rw [linesWithNewlines, foldr_newline_append_jsJoin _ (jsSlice_ne_nil lines hbc hc),
    jsSlice_append lines hab hbc.le]

/-- A non-empty block joined, then the lines after it each after a newline, are the joined
lines. -/
theorem jsJoin_append_newlinesWithLines {a b c : ℕ} (hab : a < b) (hbc : b ≤ c)
    (hb : b ≤ lines.length) :
    jsJoin (jsSlice lines a b) "\n" ++ newlinesWithLines lines b c =
      jsJoin (jsSlice lines a c) "\n" := by
  rw [newlinesWithLines, jsJoin_append_foldl_newline _ (jsSlice_ne_nil lines hab hb),
    jsSlice_append lines hab.le hbc]

end Windows

/-! ## The loops grow maximal windows -/

section Loops
variable (lines : List String)

/-- From `i ≤ stop` with the window `i .. stop - 1` fitting, the prefix loop stops at a window
`i' .. stop - 1`, `i' ≤ i`, that fits and cannot take the line above it. -/
theorem prefixLoop_spec (stop : ℕ) (hstop : stop ≤ lines.length) (i : ℕ) (hi : i ≤ stop)
    (hfit : jsLength (linesWithNewlines lines i stop) ≤ MAX_PREFIX_SUFFIX_CHARS) :
    ∃ i' ≤ i, prefixLoop lines i (linesWithNewlines lines i stop) =
        some ((i' : ℤ), linesWithNewlines lines i' stop) ∧
      jsLength (linesWithNewlines lines i' stop) ≤ MAX_PREFIX_SUFFIX_CHARS ∧
      (i' = 0 ∨ ∃ line, lines[i' - 1]? = some line ∧
        MAX_PREFIX_SUFFIX_CHARS < jsLength line + 1 + jsLength (linesWithNewlines lines i' stop)) := by
  induction i with
  | zero => exact ⟨0, le_rfl, prefixLoop_zero lines _, hfit, .inl rfl⟩
  | succ i ih =>
    obtain ⟨line, hline⟩ : ∃ line, lines[i]? = some line :=
      ⟨_, List.getElem?_eq_getElem (by omega)⟩
    have hprev : ((i + 1 : ℕ) : ℤ) - 1 = (i : ℕ) := by omega
    have hidx : jsIndex lines (((i + 1 : ℕ) : ℤ) - 1) = some line := by
      rw [hprev, jsIndex_natCast, hline]
    have hcons := linesWithNewlines_eq_cons lines (by omega : i < stop) hline
    by_cases hfits : jsLength line + 1 + jsLength (linesWithNewlines lines (i + 1) stop) ≤
        MAX_PREFIX_SUFFIX_CHARS
    · obtain ⟨i', hi', h⟩ := ih (by omega) (by rw [hcons]; simpa [Nat.add_assoc] using hfits)
      refine ⟨i', by omega, ?_, h.2⟩
      rw [prefixLoop_of_fits lines _ _ (by omega) hidx hfits, hprev, ← hcons]
      exact h.1
    · exact ⟨i + 1, le_rfl, prefixLoop_of_full lines _ _ (by omega) hidx (not_le.mp hfits), hfit,
        .inr ⟨line, hline, not_le.mp hfits⟩⟩

/-- From `j` with the window `start .. j` fitting, `d` lines before the last, the suffix loop
stops at a window `start .. j'`, `j ≤ j'`, that fits and cannot take the line below it. -/
theorem suffixLoop_spec (start d : ℕ) : ∀ j : ℕ, start ≤ j + 1 → j + d + 1 = lines.length →
    jsLength (newlinesWithLines lines start (j + 1)) ≤ MAX_PREFIX_SUFFIX_CHARS →
    ∃ j', j ≤ j' ∧ j' < lines.length ∧
      suffixLoop lines j (newlinesWithLines lines start (j + 1)) =
        some ((j' : ℤ), newlinesWithLines lines start (j' + 1)) ∧
      jsLength (newlinesWithLines lines start (j' + 1)) ≤ MAX_PREFIX_SUFFIX_CHARS ∧
      (j' = lines.length - 1 ∨ ∃ line, lines[j' + 1]? = some line ∧
        MAX_PREFIX_SUFFIX_CHARS < jsLength line + 1 +
          jsLength (newlinesWithLines lines start (j' + 1))) := by
  induction d with
  | zero =>
    intro j _ hn hfit
    exact ⟨j, le_rfl, by omega, suffixLoop_last lines _ _ (by omega), hfit, .inl (by omega)⟩
  | succ d ih =>
    intro j hs hn hfit
    obtain ⟨line, hline⟩ : ∃ line, lines[j + 1]? = some line :=
      ⟨_, List.getElem?_eq_getElem (by omega)⟩
    have hnext : (j : ℤ) + 1 = ((j + 1 : ℕ) : ℤ) := by omega
    have hidx : jsIndex lines ((j : ℤ) + 1) = some line := by rw [hnext, jsIndex_natCast, hline]
    have hsnoc := newlinesWithLines_succ lines hs hline
    by_cases hfits : jsLength line + 1 + jsLength (newlinesWithLines lines start (j + 1)) ≤
        MAX_PREFIX_SUFFIX_CHARS
    · obtain ⟨j', hj', hj'n, h⟩ := ih (j + 1) (by omega) (by omega)
        (by rw [hsnoc]; simp only [jsLength_append, jsLength_newline]; omega)
      refine ⟨j', by omega, hj'n, ?_, h.2⟩
      rw [suffixLoop_of_fits lines _ _ (by omega) hidx hfits, hnext, ← hsnoc]
      exact h.1
    · exact ⟨j, le_rfl, by omega, suffixLoop_of_full lines _ _ (by omega) hidx (not_le.mp hfits),
        hfit, .inr ⟨line, hline, not_le.mp hfits⟩⟩

end Loops

/-! ## `voidPrefixAndSuffix` -/

/-- A window of lines before `stop` that cannot take the line above it is longer than the cap,
so when every line before `stop` fits together, the window starts at the first line. -/
theorem prefix_window_start {lines : List String} {i stop : ℕ} (hi : i ≤ stop)
    (hall : jsLength (linesWithNewlines lines 0 stop) ≤ MAX_PREFIX_SUFFIX_CHARS)
    (hmax : i = 0 ∨ ∃ line, lines[i - 1]? = some line ∧
      MAX_PREFIX_SUFFIX_CHARS < jsLength line + 1 + jsLength (linesWithNewlines lines i stop)) :
    i = 0 := by
  rcases hmax with h | ⟨line, hline, hover⟩
  · exact h
  · by_contra h0
    have hsplit := linesWithNewlines_append lines (Nat.zero_le (i - 1)) (by omega : i - 1 ≤ stop)
    rw [linesWithNewlines_eq_cons lines (by omega) hline, show i - 1 + 1 = i by omega] at hsplit
    rw [hsplit] at hall
    simp only [jsLength_append, jsLength_newline] at hall
    omega

/-- A window of lines after `start` that cannot take the line below it is longer than the cap,
so when every line after `start` fits together, the window ends at the last line. -/
theorem suffix_window_end {lines : List String} {start j : ℕ} (hs : start ≤ j + 1)
    (hall : jsLength (newlinesWithLines lines start lines.length) ≤ MAX_PREFIX_SUFFIX_CHARS)
    (hmax : j = lines.length - 1 ∨ ∃ line, lines[j + 1]? = some line ∧
      MAX_PREFIX_SUFFIX_CHARS < jsLength line + 1 + jsLength (newlinesWithLines lines start (j + 1))) :
    j = lines.length - 1 := by
  rcases hmax with h | ⟨line, hline, hover⟩
  · exact h
  · have hlt : j + 1 < lines.length := (List.getElem?_eq_some_iff.mp hline).1
    have hsplit := newlinesWithLines_append lines (by omega : start ≤ j + 1 + 1) hlt
    rw [newlinesWithLines_succ lines hs hline] at hsplit
    rw [hsplit] at hall
    simp only [jsLength_append, jsLength_newline] at hall
    omega

/-- For every file of `n` lines and every selection `1 ≤ startLine ≤ endLine ≤ n`, the function
returns, reading no index outside the lines. Its prefix is the lines `i .. startLine - 2` each
followed by a newline, its suffix the lines `endLine .. j` each preceded by one; both fit in
`MAX_PREFIX_SUFFIX_CHARS` and neither can take one more line. Prefix, selection and suffix
together are the lines `i .. j` joined: the whole file when all lines before and after the
selection fit. -/
theorem voidPrefixAndSuffix_window (fullFileStr : String) (startLine endLine : ℕ)
    (hstart : 1 ≤ startLine) (hse : startLine ≤ endLine)
    (hend : endLine ≤ (jsSplit fullFileStr '\n').length) :
    let lines := jsSplit fullFileStr '\n'
    ∃ r i j, voidPrefixAndSuffix fullFileStr startLine endLine = some r ∧
      i ≤ startLine - 1 ∧ endLine - 1 ≤ j ∧ j < lines.length ∧
      r.prefixStr = linesWithNewlines lines i (startLine - 1) ∧
      r.suffix = newlinesWithLines lines endLine (j + 1) ∧
      jsLength r.prefixStr ≤ MAX_PREFIX_SUFFIX_CHARS ∧
      jsLength r.suffix ≤ MAX_PREFIX_SUFFIX_CHARS ∧
      (i = 0 ∨ ∃ line, lines[i - 1]? = some line ∧
        MAX_PREFIX_SUFFIX_CHARS < jsLength line + 1 + jsLength r.prefixStr) ∧
      (j = lines.length - 1 ∨ ∃ line, lines[j + 1]? = some line ∧
        MAX_PREFIX_SUFFIX_CHARS < jsLength line + 1 + jsLength r.suffix) ∧
      r.prefixStr ++ jsJoin (jsSlice lines (startLine - 1) endLine) "\n" ++ r.suffix =
        jsJoin (jsSlice lines i (j + 1)) "\n" ∧
      (jsLength (linesWithNewlines lines 0 (startLine - 1)) ≤ MAX_PREFIX_SUFFIX_CHARS →
        jsLength (newlinesWithLines lines endLine lines.length) ≤ MAX_PREFIX_SUFFIX_CHARS →
        r.prefixStr ++ jsJoin (jsSlice lines (startLine - 1) endLine) "\n" ++ r.suffix =
          fullFileStr) := by
  intro lines
  have hL : jsSplit fullFileStr '\n' = lines := rfl
  clear_value lines
  rw [hL] at hend
  have hsel : startLine - 1 < endLine := by omega
  have hend1 : endLine - 1 + 1 = endLine := by omega
  have hlen1 : lines.length - 1 + 1 = lines.length := by omega
  have h1 : (startLine : ℤ) - 1 = ((startLine - 1 : ℕ) : ℤ) := by omega
  have h2 : (endLine : ℤ) - 1 = ((endLine - 1 : ℕ) : ℤ) := by omega
  obtain ⟨i, hi, hpre, hplen, hpmax⟩ :=
    prefixLoop_spec lines (startLine - 1) (by omega) (startLine - 1) le_rfl (by simp)
  obtain ⟨j, hj, hjn, hsuf, hslen, hsmax⟩ :=
    suffixLoop_spec lines endLine (lines.length - endLine) (endLine - 1) hend1.ge (by omega)
      (by rw [hend1]; simp)
  have hej : endLine ≤ j + 1 := Nat.sub_le_iff_le_add.mp hj
  rw [linesWithNewlines_self] at hpre
  rw [hend1, newlinesWithLines_self] at hsuf
  have hjoin : linesWithNewlines lines i (startLine - 1) ++
      jsJoin (jsSlice lines (startLine - 1) endLine) "\n" ++
        newlinesWithLines lines endLine (j + 1) = jsJoin (jsSlice lines i (j + 1)) "\n" := by
    rw [linesWithNewlines_append_jsJoin lines hi hsel hend,
      jsJoin_append_newlinesWithLines lines (lt_of_le_of_lt hi hsel) hej hend]
  refine ⟨⟨linesWithNewlines lines i (startLine - 1), newlinesWithLines lines endLine (j + 1)⟩,
    i, j, ?_, hi, hj, hjn, rfl, rfl, hplen, hslen, hpmax, hsmax, hjoin, fun hall hafter => ?_⟩
  · simp [voidPrefixAndSuffix, hL, h1, h2, hpre, hsuf]
  · obtain rfl := prefix_window_start hi hall hpmax
    obtain rfl := suffix_window_end hej hafter hsmax
    rw [hjoin, hlen1, jsSlice_zero_length, ← hL]
    exact jsJoin_jsSplit fullFileStr '\n'

/-- A selection of the middle line of a three-line file. -/
theorem voidPrefixAndSuffix_middle_line :
    1 ≤ 2 ∧ 2 ≤ 2 ∧ 2 ≤ (jsSplit "a\nb\nc" '\n').length ∧
      ∃ r i j, voidPrefixAndSuffix "a\nb\nc" (2 : ℕ) (2 : ℕ) = some r ∧
        i ≤ 2 - 1 ∧ 2 - 1 ≤ j ∧ j < (jsSplit "a\nb\nc" '\n').length ∧
        r.prefixStr = linesWithNewlines (jsSplit "a\nb\nc" '\n') i (2 - 1) ∧
        r.suffix = newlinesWithLines (jsSplit "a\nb\nc" '\n') 2 (j + 1) ∧
        jsLength r.prefixStr ≤ MAX_PREFIX_SUFFIX_CHARS ∧
        jsLength r.suffix ≤ MAX_PREFIX_SUFFIX_CHARS ∧
        (i = 0 ∨ ∃ line, (jsSplit "a\nb\nc" '\n')[i - 1]? = some line ∧
          MAX_PREFIX_SUFFIX_CHARS < jsLength line + 1 + jsLength r.prefixStr) ∧
        (j = (jsSplit "a\nb\nc" '\n').length - 1 ∨
          ∃ line, (jsSplit "a\nb\nc" '\n')[j + 1]? = some line ∧
            MAX_PREFIX_SUFFIX_CHARS < jsLength line + 1 + jsLength r.suffix) ∧
        r.prefixStr ++ jsJoin (jsSlice (jsSplit "a\nb\nc" '\n') (2 - 1) 2) "\n" ++ r.suffix =
          jsJoin (jsSlice (jsSplit "a\nb\nc" '\n') i (j + 1)) "\n" ∧
        (jsLength (linesWithNewlines (jsSplit "a\nb\nc" '\n') 0 (2 - 1)) ≤
            MAX_PREFIX_SUFFIX_CHARS →
          jsLength (newlinesWithLines (jsSplit "a\nb\nc" '\n') 2
            (jsSplit "a\nb\nc" '\n').length) ≤ MAX_PREFIX_SUFFIX_CHARS →
          r.prefixStr ++ jsJoin (jsSlice (jsSplit "a\nb\nc" '\n') (2 - 1) 2) "\n" ++ r.suffix =
            "a\nb\nc") :=
  ⟨by decide, by decide, by decide,
    voidPrefixAndSuffix_window "a\nb\nc" 2 2 (by decide) (by decide) (by decide)⟩

/-! ## The inputs on which the function throws -/

section Domain
variable (lines : List String)

theorem prefixLoop_isSome (i : ℕ) (hi : i ≤ lines.length) (acc : String) :
    (prefixLoop lines i acc).isSome := by
  induction i generalizing acc with
  | zero => show (prefixLoop lines 0 acc).isSome; rw [prefixLoop_zero]; rfl
  | succ i ih =>
    have hprev : ((i + 1 : ℕ) : ℤ) - 1 = (i : ℕ) := by omega
    obtain ⟨line, hline⟩ : ∃ line, jsIndex lines (((i + 1 : ℕ) : ℤ) - 1) = some line :=
      jsIndex_of_lt (by omega) (by omega)
    by_cases hfits : jsLength line + 1 + jsLength acc ≤ MAX_PREFIX_SUFFIX_CHARS
    · rw [prefixLoop_of_fits lines _ _ (by omega) hline hfits, hprev]
      exact ih (by omega) _
    · rw [prefixLoop_of_full lines _ _ (by omega) hline (not_le.mp hfits)]; rfl

/-- The prefix loop returns exactly when it starts inside `0 .. lines.length`: from there it
only reads lines that exist, and from outside its first read is `undefined`. -/
theorem prefixLoop_isSome_iff (i : ℤ) (acc : String) :
    (prefixLoop lines i acc).isSome ↔ 0 ≤ i ∧ i ≤ lines.length := by
  by_cases hi : 0 ≤ i ∧ i ≤ lines.length
  · obtain ⟨n, rfl⟩ := Int.eq_ofNat_of_zero_le hi.1
    exact iff_of_true (prefixLoop_isSome lines n (by omega) acc) hi
  · rw [prefixLoop_of_none lines i acc (by omega) (jsIndex_eq_none_iff.mpr (by omega))]
    exact iff_of_false (by simp) hi

theorem suffixLoop_isSome (acc : String) (d : ℕ) :
    ∀ j : ℤ, -1 ≤ j → j + d + 1 = lines.length → (suffixLoop lines j acc).isSome := by
  induction d generalizing acc with
  | zero => intro j _ hn; rw [suffixLoop_last lines j acc (by omega)]; rfl
  | succ d ih =>
    intro j hj hn
    obtain ⟨line, hline⟩ : ∃ line, jsIndex lines (j + 1) = some line :=
      jsIndex_of_lt (by omega) (by omega)
    by_cases hfits : jsLength line + 1 + jsLength acc ≤ MAX_PREFIX_SUFFIX_CHARS
    · rw [suffixLoop_of_fits lines _ _ (by omega) hline hfits]
      exact ih _ (j + 1) (by omega) (by omega)
    · rw [suffixLoop_of_full lines _ _ (by omega) hline (not_le.mp hfits)]; rfl

/-- The suffix loop returns exactly when it starts inside `-1 .. lines.length - 1`. -/
theorem suffixLoop_isSome_iff (j : ℤ) (acc : String) :
    (suffixLoop lines j acc).isSome ↔ -1 ≤ j ∧ j < lines.length := by
  by_cases hj : -1 ≤ j ∧ j < lines.length
  · exact iff_of_true
      (suffixLoop_isSome lines acc (lines.length - 1 - j).toNat j hj.1 (by omega)) hj
  · rw [suffixLoop_of_none lines j acc (by omega) (jsIndex_eq_none_iff.mpr (by omega))]
    exact iff_of_false (by simp) hj

end Domain

theorem voidPrefixAndSuffix_isSome_loops (fullFileStr : String) (startLine endLine : ℤ) :
    (voidPrefixAndSuffix fullFileStr startLine endLine).isSome ↔
      (prefixLoop (jsSplit fullFileStr '\n') (startLine - 1) "").isSome ∧
        (suffixLoop (jsSplit fullFileStr '\n') (endLine - 1) "").isSome := by
  simp only [voidPrefixAndSuffix]
  cases prefixLoop (jsSplit fullFileStr '\n') (startLine - 1) "" <;>
    cases suffixLoop (jsSplit fullFileStr '\n') (endLine - 1) "" <;> simp

/-- For every file and all integer line numbers, the function returns exactly when
`1 ≤ startLine ≤ n + 1` and `0 ≤ endLine ≤ n` for the file's `n` lines; on every other input
one of the loops reads a line that does not exist and throws. It does not need
`startLine ≤ endLine`. -/
theorem voidPrefixAndSuffix_isSome_iff (fullFileStr : String) (startLine endLine : ℤ) :
    (voidPrefixAndSuffix fullFileStr startLine endLine).isSome ↔
      1 ≤ startLine ∧ startLine ≤ (jsSplit fullFileStr '\n').length + 1 ∧
        0 ≤ endLine ∧ endLine ≤ (jsSplit fullFileStr '\n').length := by
  rw [voidPrefixAndSuffix_isSome_loops, prefixLoop_isSome_iff, suffixLoop_isSome_iff]
  omega

end ResonanceAgent.Prompt
