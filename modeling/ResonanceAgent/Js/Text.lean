import Mathlib.Data.List.Basic
import Mathlib.Data.List.DropRight
import Mathlib.Data.List.Infix

/-! # JavaScript string primitives

The TypeScript sources use a handful of `String.prototype` operations. Each is given the
meaning ECMAScript gives it, on Lean strings (sequences of code points):

* `jsLength s` is `s.length`, the number of UTF-16 code units: a code point outside the
  Basic Multilingual Plane counts twice.
* `jsSplit s c` is `s.split(c)` and `jsJoin xs sep` is `xs.join(sep)`, for string elements;
  `jsSplitString s sep` is `s.split(sep)` for a separator string;
  `jsSlice xs a b` is `xs.slice(a, b)` for `0 ≤ a ≤ b`.
* `isJsWhitespace c` holds of the `WhiteSpace` and `LineTerminator` code points, which are
  both what the class escape `\s` matches and what `trim` strips; `jsTrim s` is `s.trim()`.
* `jsIncludes s t` is `s.includes(t)` and `jsIndexOf s t` is `s.indexOf(t)`, from the search
  `firstIndexWhere`.
* `jsReplace s c r` is `s.replace(c, r)` for a one-character pattern and a replacement
  without `$`: only the FIRST occurrence of `c` is replaced. `jsReplaceString` is the same
  call for a string pattern.
-/

namespace ResonanceAgent.Js
set_option autoImplicit false

/-! ## Length in code units -/

/-- UTF-16 code units of one code point. -/
def utf16Units (c : Char) : ℕ := if c.val ≤ 0xFFFF then 1 else 2

/-- UTF-16 code units of a sequence of code points. -/
def utf16Length : List Char → ℕ
  | [] => 0
  | c :: cs => utf16Units c + utf16Length cs

/-- `s.length` of a JavaScript string. -/
def jsLength (s : String) : ℕ := utf16Length s.data

theorem utf16Length_append (l₁ l₂ : List Char) :
    utf16Length (l₁ ++ l₂) = utf16Length l₁ + utf16Length l₂ := by
  induction l₁ with
  | nil => simp [utf16Length]
  | cons c cs ih => simp [utf16Length, ih, Nat.add_assoc]

@[simp] theorem jsLength_append (s t : String) : jsLength (s ++ t) = jsLength s + jsLength t :=
  utf16Length_append s.data t.data

@[simp] theorem jsLength_newline : jsLength "\n" = 1 := rfl

@[simp] theorem jsLength_empty : jsLength "" = 0 := rfl

theorem jsLength_pos_iff (s : String) : 0 < jsLength s ↔ s ≠ "" := by
  rcases s with ⟨_ | ⟨c, cs⟩⟩
  · simp
  · simp only [jsLength, utf16Length, ne_eq, String.ext_iff, reduceCtorEq, not_false_eq_true,
      iff_true]
    unfold utf16Units
    split <;> omega

/-! ## `split` and `join` -/

/-- `s.split(sep)` for a one-character separator. -/
def jsSplit (s : String) (sep : Char) : List String := (s.data.splitOn sep).map String.mk

/-- `xs.join(sep)` for an array of strings. -/
def jsJoin (xs : List String) (sep : String) : String :=
  ⟨sep.data.intercalate (xs.map String.data)⟩

theorem jsSplit_ne_nil (s : String) (sep : Char) : jsSplit s sep ≠ [] := by
  simpa [jsSplit, List.splitOn] using List.splitOnP_ne_nil _ s.data

/-- Splitting on a character and joining back on it gives the string back. -/
theorem jsJoin_jsSplit (s : String) (sep : Char) : jsJoin (jsSplit s sep) (String.singleton sep) = s := by
  simpa [jsJoin, jsSplit, String.singleton, Function.comp_def, String.ext_iff] using
    List.intercalate_splitOn s.data sep

@[simp] theorem jsJoin_singleton (x sep : String) : jsJoin [x] sep = x := by
  simp [jsJoin, List.intercalate, String.ext_iff]

theorem jsJoin_cons_cons (x y : String) (ys : List String) (sep : String) :
    jsJoin (x :: y :: ys) sep = x ++ sep ++ jsJoin (y :: ys) sep := by
  simp [jsJoin, List.intercalate, List.intersperse_cons_cons, String.ext_iff]

theorem jsJoin_cons_of_ne_nil (x : String) {ys : List String} (hys : ys ≠ []) (sep : String) :
    jsJoin (x :: ys) sep = x ++ sep ++ jsJoin ys sep := by
  obtain ⟨y, ys, rfl⟩ := List.exists_cons_of_ne_nil hys
  exact jsJoin_cons_cons x y ys sep

theorem jsJoin_append_singleton (xs : List String) (hxs : xs ≠ []) (z sep : String) :
    jsJoin (xs ++ [z]) sep = jsJoin xs sep ++ sep ++ z := by
  induction xs with
  | nil => exact absurd rfl hxs
  | cons x xs ih =>
    cases xs with
    | nil => simpa using jsJoin_cons_cons x z [] sep
    | cons y ys =>
      rw [List.cons_append, List.cons_append, jsJoin_cons_cons, ← List.cons_append,
        ih (List.cons_ne_nil _ _), jsJoin_cons_cons]
      simp only [String.append_assoc]

theorem mem_jsJoin_cons {c : Char} {sep : String} (hc : c ∉ sep.data) (x : String)
    (xs : List String) : c ∈ (jsJoin (x :: xs) sep).data ↔ c ∈ x.data ∨ ∃ y ∈ xs, c ∈ y.data := by
  induction xs generalizing x with
  | nil => simp
  | cons y ys ih =>
    rw [jsJoin_cons_cons, String.data_append, String.data_append, List.mem_append, List.mem_append,
      ih y]
    simp [hc]

theorem mem_jsJoin {c : Char} {sep : String} (hc : c ∉ sep.data) (xs : List String) :
    c ∈ (jsJoin xs sep).data ↔ ∃ x ∈ xs, c ∈ x.data := by
  cases xs with
  | nil => simp [jsJoin, List.intercalate]
  | cons x xs => simp [mem_jsJoin_cons hc]

/-! ## Splitting at a separator -/

section SplitOn
variable (sep : Char)

theorem splitOn_append_sep (xs ys : List Char) :
    (xs ++ sep :: ys).splitOn sep = xs.splitOn sep ++ ys.splitOn sep := by
  induction xs with
  | nil => simp [List.splitOn]
  | cons x xs ih =>
    simp only [List.splitOn] at ih ⊢
    rw [List.cons_append, List.splitOnP_cons, List.splitOnP_cons, ih]
    cases hx : x == sep
    · obtain ⟨h, t, ht⟩ := List.exists_cons_of_ne_nil (List.splitOnP_ne_nil (· == sep) xs)
      simp only [Bool.false_eq_true, if_false, ht]
      rfl
    · rfl

/-- A part of a split holds no separator, and only characters of the list split. -/
theorem mem_of_mem_splitOn (xs : List Char) :
    ∀ part ∈ xs.splitOn sep, ∀ c ∈ part, c ≠ sep ∧ c ∈ xs := by
  induction xs with
  | nil => simp [List.splitOn]
  | cons x xs ih =>
    simp only [List.splitOn] at ih ⊢
    intro part hpart c hc
    rw [List.splitOnP_cons] at hpart
    cases hx : x == sep
    · obtain ⟨h, t, ht⟩ := List.exists_cons_of_ne_nil (List.splitOnP_ne_nil (· == sep) xs)
      simp only [hx, Bool.false_eq_true, if_false, ht, List.modifyHead_cons, List.mem_cons] at hpart
      rcases hpart with rfl | hpart
      · rcases List.mem_cons.mp hc with rfl | hc
        · exact ⟨fun h => by simp [h] at hx, List.mem_cons_self c xs⟩
        · have := ih h (by rw [ht]; exact List.mem_cons_self h t) c hc
          exact ⟨this.1, List.mem_cons_of_mem x this.2⟩
      · have := ih part (by rw [ht]; exact List.mem_cons_of_mem h hpart) c hc
        exact ⟨this.1, List.mem_cons_of_mem x this.2⟩
    · simp only [hx, if_true, List.mem_cons] at hpart
      rcases hpart with rfl | hpart
      · cases hc
      · have := ih part hpart c hc
        exact ⟨this.1, List.mem_cons_of_mem x this.2⟩

end SplitOn

theorem jsSplit_append_sep (xs ys : List Char) (sep : Char) :
    jsSplit ⟨xs ++ sep :: ys⟩ sep = jsSplit ⟨xs⟩ sep ++ jsSplit ⟨ys⟩ sep := by
  simp only [jsSplit, splitOn_append_sep, List.map_append]

theorem jsSplit_of_not_mem {s : String} {sep : Char} (h : sep ∉ s.data) : jsSplit s sep = [s] := by
  rw [jsSplit, List.splitOn, List.splitOnP_eq_single _ _ fun c hc hsep => h (by
    rwa [← beq_iff_eq.mp hsep])]
  rfl

theorem mem_of_mem_jsSplit {s part : String} {sep : Char} (hpart : part ∈ jsSplit s sep)
    {c : Char} (hc : c ∈ part.data) : c ≠ sep ∧ c ∈ s.data := by
  obtain ⟨l, hl, rfl⟩ := List.mem_map.mp hpart
  exact mem_of_mem_splitOn sep s.data l hl c hc

/-! ## `split` with a string separator

ECMAScript's `split` looks for the separator from the left and, after each occurrence, goes on
after it, so occurrences never overlap. `splitOnSub` takes the same steps, with the `modifyHead`
step of `List.splitOnP`. -/

/-- The parts of `l` between the occurrences of a non-empty `sep`, found from the left without
overlap. -/
def splitOnSub (sep : List Char) (l : List Char) : List (List Char) :=
  match l with
  | [] => [[]]
  | c :: cs =>
    if h : sep ≠ [] ∧ sep.isPrefixOf (c :: cs) then
      [] :: splitOnSub sep ((c :: cs).drop sep.length)
    else (splitOnSub sep cs).modifyHead (c :: ·)
termination_by l.length
decreasing_by
  · have := List.length_pos.mpr h.1
    simp only [List.length_drop, List.length_cons]
    omega
  · simp

/-- `s.split(sep)` for a non-empty separator string (every call in the sources has one). -/
def jsSplitString (s sep : String) : List String := (splitOnSub sep.data s.data).map String.mk

section SplitOnSub
variable {sep : List Char}

theorem splitOnSub_ne_nil (l : List Char) : splitOnSub sep l ≠ [] := by
  cases l with
  | nil => simp [splitOnSub]
  | cons c cs =>
    rw [splitOnSub]
    split
    · exact List.cons_ne_nil _ _
    · obtain ⟨p, ps, hp⟩ := List.exists_cons_of_ne_nil (splitOnSub_ne_nil cs)
      rw [hp]
      exact List.cons_ne_nil _ _
termination_by l.length

@[simp] theorem splitOnSub_nil : splitOnSub sep [] = [[]] := by rw [splitOnSub]

theorem splitOnSub_sep_append (hsep : sep ≠ []) (b : List Char) :
    splitOnSub sep (sep ++ b) = [] :: splitOnSub sep b := by
  obtain ⟨s, ss, rfl⟩ := List.exists_cons_of_ne_nil hsep
  rw [List.cons_append, splitOnSub, dif_pos ⟨hsep, List.isPrefixOf_iff_prefix.mpr ⟨b, rfl⟩⟩,
    ← List.cons_append, List.drop_left]

/-- A piece `a` in which no occurrence of `sep` starts, whatever follows, joins the first part. -/
theorem splitOnSub_append_of_noMatch (a r : List Char)
    (hno : ∀ k < a.length, ¬ sep <+: a.drop k ++ r) :
    splitOnSub sep (a ++ r) = (splitOnSub sep r).modifyHead (a ++ ·) := by
  induction a with
  | nil =>
    obtain ⟨p, ps, hp⟩ := List.exists_cons_of_ne_nil (splitOnSub_ne_nil r : splitOnSub sep r ≠ [])
    rw [List.nil_append, hp]
    rfl
  | cons c a ih =>
    have h0 : ¬ sep <+: c :: (a ++ r) := by simpa using hno 0 (by simp)
    rw [List.cons_append, splitOnSub, dif_neg fun h => h0 (List.isPrefixOf_iff_prefix.mp h.2),
      ih fun k hk => by simpa using hno (k + 1) (by simp; omega), List.modifyHead_modifyHead]
    rfl

theorem prefix_of_prefix_append_cons {x y : List Char} {c : Char} (h : sep <+: x ++ c :: y)
    (hc : c ∉ sep) : sep <+: x := by
  obtain ⟨t, ht⟩ := h
  rcases List.append_eq_append_iff.mp ht with ⟨a', rfl, -⟩ | ⟨c', rfl, hc'⟩
  · exact List.prefix_append _ _
  · cases c' with
    | nil => simp
    | cons d ds =>
      obtain ⟨rfl, -⟩ := List.cons_eq_cons.mp hc'
      exact absurd (List.mem_append_right x (List.mem_cons_self c ds)) hc

/-- An occurrence of `sep` in `x ++ c :: y`, where `sep` has no `c`, lies in `x` or in `y`. -/
theorem infix_of_infix_append_cons {x y : List Char} {c : Char} (h : sep <:+: x ++ c :: y)
    (hc : c ∉ sep) : sep <:+: x ∨ sep <:+: y := by
  obtain ⟨t, hpre, hsuf⟩ := List.infix_iff_prefix_suffix.mp h
  obtain ⟨k, rfl⟩ : ∃ k, t = (x ++ c :: y).drop k := by
    obtain ⟨s, hs⟩ := hsuf
    exact ⟨s.length, by rw [← hs, List.drop_left]⟩
  rcases Nat.lt_or_ge x.length k with hk | hk
  · right
    obtain ⟨j, rfl⟩ : ∃ j, k = x.length + (j + 1) := ⟨k - x.length - 1, by omega⟩
    rw [← List.drop_drop, List.drop_left, List.drop_succ_cons] at hpre
    exact hpre.isInfix.trans (List.drop_suffix j y).isInfix
  · left
    rw [List.drop_append_of_le_length hk] at hpre
    exact (prefix_of_prefix_append_cons hpre hc).isInfix.trans (List.drop_suffix k x).isInfix

/-- No occurrence of `sep` starts in `a ++ [c]`, whatever follows, when `sep` has no `c` and is
not inside `a`. -/
theorem noMatch_append_cons {a : List Char} {c : Char} (hc : c ∉ sep) (ha : ¬ sep <:+: a)
    (r : List Char) : ∀ k < (a ++ [c]).length, ¬ sep <+: (a ++ [c]).drop k ++ r := by
  intro k hk h
  rw [List.length_append, List.length_singleton] at hk
  rw [List.drop_append_of_le_length (by omega), List.append_assoc, List.singleton_append] at h
  exact ha ((prefix_of_prefix_append_cons h hc).isInfix.trans (List.drop_suffix k a).isInfix)

theorem splitOnSub_of_not_infix {l : List Char} (h : ¬ sep <:+: l) : splitOnSub sep l = [l] := by
  have hno : ∀ k < l.length, ¬ sep <+: l.drop k ++ [] := fun k _ hk =>
    h ((List.append_nil (l.drop k) ▸ hk).isInfix.trans (List.drop_suffix k l).isInfix)
  simpa using splitOnSub_append_of_noMatch l [] hno

theorem not_infix_nil (h : sep ≠ []) : ¬ sep <:+: [] :=
  fun h' => h (List.infix_nil.mp h')

theorem not_infix_append_cons {x y : List Char} {c : Char} (hc : c ∉ sep) (hx : ¬ sep <:+: x)
    (hy : ¬ sep <:+: y) : ¬ sep <:+: x ++ c :: y :=
  fun h => (infix_of_infix_append_cons h hc).elim hx hy

/-- Splitting at the first occurrence of `sep`, when it follows a character that `sep` lacks. -/
theorem splitOnSub_append_cons_sep_append (hsep : sep ≠ []) {a : List Char} {c : Char}
    (hc : c ∉ sep) (ha : ¬ sep <:+: a) (b : List Char) :
    splitOnSub sep (a ++ c :: (sep ++ b)) = (a ++ [c]) :: splitOnSub sep b := by
  rw [← List.singleton_append, ← List.append_assoc,
    splitOnSub_append_of_noMatch _ _ (noMatch_append_cons hc ha _), splitOnSub_sep_append hsep,
    List.modifyHead_cons, List.append_nil]

theorem not_infix_cons {y : List Char} {c : Char} (hsep : sep ≠ []) (hc : c ∉ sep)
    (hy : ¬ sep <:+: y) : ¬ sep <:+: c :: y := by
  simpa using not_infix_append_cons hc (not_infix_nil hsep) hy

end SplitOnSub

/-- `s.includes(search)`. -/
def jsIncludes (s search : String) : Bool := decide (search.data <:+: s.data)

/-! ## `indexOf` -/

/-- The first index of `l` from which `p` holds of the rest of `l`, the end of `l` included. -/
def firstIndexWhere (p : List Char → Bool) : List Char → Option ℕ
  | [] => if p [] then some 0 else none
  | c :: cs => if p (c :: cs) then some 0 else (firstIndexWhere p cs).map (· + 1)

/-- `s.indexOf(search)`: `-1` when `search` does not occur. -/
def jsIndexOf (s search : String) : ℤ :=
  ((firstIndexWhere search.data.isPrefixOf s.data).map Int.ofNat).getD (-1)

section FirstIndexWhere
variable {p : List Char → Bool}

theorem firstIndexWhere_eq_none_iff {l : List Char} :
    firstIndexWhere p l = none ↔ ∀ k ≤ l.length, p (l.drop k) = false := by
  induction l with
  | nil => cases hp : p [] <;> simp [firstIndexWhere, hp]
  | cons c cs ih =>
    rw [firstIndexWhere]
    cases hp : p (c :: cs)
    · rw [if_neg (by simp), Option.map_eq_none', ih]
      refine ⟨fun h k hk => ?_, fun h k hk => by simpa using h (k + 1) (by simp; omega)⟩
      cases k with
      | zero => exact hp
      | succ k => exact h k (by simpa using hk)
    · simp only [if_true, reduceCtorEq, false_iff, not_forall]
      exact ⟨0, Nat.zero_le _, by simp [hp]⟩

theorem firstIndexWhere_drop_eq_none {l : List Char} (h : firstIndexWhere p l = none) (n : ℕ) :
    firstIndexWhere p (l.drop n) = none := by
  induction l generalizing n with
  | nil => simpa using h
  | cons c cs ih =>
    cases n with
    | zero => exact h
    | succ n =>
      rw [firstIndexWhere] at h
      split at h
      · cases h
      · exact ih (Option.map_eq_none'.mp h) n

theorem firstIndexWhere_of_first {l : List Char} {k : ℕ} (hk : p (l.drop k) = true)
    (hbefore : ∀ j < k, p (l.drop j) = false) : firstIndexWhere p l = some k := by
  induction l generalizing k with
  | nil =>
    cases k with
    | zero => exact if_pos hk
    | succ k => simpa using (hbefore 0 (Nat.zero_lt_succ k)).symm.trans hk
  | cons c cs ih =>
    cases k with
    | zero => exact if_pos hk
    | succ k =>
      rw [firstIndexWhere, if_neg (by simpa using hbefore 0 (Nat.zero_lt_succ k)),
        ih hk fun j hj => hbefore (j + 1) (by omega)]
      rfl

theorem firstIndexWhere_eq_some {l : List Char} {k : ℕ} (h : firstIndexWhere p l = some k) :
    k ≤ l.length ∧ p (l.drop k) = true ∧ ∀ j < k, p (l.drop j) = false := by
  induction l generalizing k with
  | nil =>
    cases hp : p [] <;> simp [firstIndexWhere, hp] at h
    subst h
    exact ⟨le_rfl, hp, fun j hj => absurd hj (Nat.not_lt_zero j)⟩
  | cons c cs ih =>
    rw [firstIndexWhere] at h
    split at h
    · rename_i hp
      obtain rfl := (Option.some.inj h).symm
      exact ⟨Nat.zero_le _, hp, fun j hj => absurd hj (Nat.not_lt_zero j)⟩
    · rename_i hp
      obtain ⟨k, hk, rfl⟩ := Option.map_eq_some'.mp h
      obtain ⟨hle, hpk, hbefore⟩ := ih hk
      refine ⟨by simp; omega, hpk, fun j hj => ?_⟩
      cases j with
      | zero => exact Bool.eq_false_iff.mpr hp
      | succ j => exact hbefore j (by omega)

end FirstIndexWhere


/-- `xs.slice(start, stop)` for `0 ≤ start ≤ stop`. -/
def jsSlice {α : Type} (xs : List α) (start stop : ℕ) : List α := (xs.drop start).take (stop - start)

/-- `xs.slice(start)`: a negative `start` counts from the end. -/
def jsSliceFrom {α : Type} (xs : List α) (start : ℤ) : List α :=
  if start < 0 then xs.drop (xs.length + start).toNat else xs.drop start.toNat

section Slice
variable {α : Type} (xs : List α)

@[simp] theorem jsSliceFrom_zero : jsSliceFrom xs 0 = xs := rfl

theorem jsSliceFrom_neg_one {x : α} (hx : xs.getLast? = some x) : jsSliceFrom xs (-1) = [x] := by
  obtain ⟨ys, rfl⟩ : ∃ ys, xs = ys ++ [x] := ⟨xs.dropLast, by
    rw [List.getLast?_eq_getLast _ (by rintro rfl; cases hx)] at hx
    rw [← Option.some.inj hx, List.dropLast_append_getLast]⟩
  rw [jsSliceFrom, if_pos (by decide), List.length_append, List.length_singleton]
  rw [show ((ys.length + 1 : ℕ) + (-1 : ℤ)).toNat = ys.length by omega, List.drop_left]

theorem jsSliceFrom_suffix (start : ℤ) : jsSliceFrom xs start <:+ xs := by
  unfold jsSliceFrom
  split_ifs <;> exact List.drop_suffix _ _

theorem jsSliceFrom_ne_nil {start : ℤ} (hxs : xs ≠ []) (hstart : start < 0) :
    jsSliceFrom xs start ≠ [] := by
  have := List.length_pos.mpr hxs
  rw [jsSliceFrom, if_pos hstart]
  exact List.ne_nil_of_length_pos (by rw [List.length_drop]; omega)

@[simp] theorem jsSlice_self (a : ℕ) : jsSlice xs a a = [] := by simp [jsSlice]

theorem jsSlice_zero_length : jsSlice xs 0 xs.length = xs := by simp [jsSlice]

theorem jsSlice_eq_cons {a b : ℕ} {x : α} (hab : a < b) (hx : xs[a]? = some x) :
    jsSlice xs a b = x :: jsSlice xs (a + 1) b := by
  obtain ⟨ha, rfl⟩ := List.getElem?_eq_some_iff.mp hx
  rw [jsSlice, List.drop_eq_getElem_cons ha, show b - a = (b - (a + 1)) + 1 by omega,
    List.take_succ_cons, jsSlice]

theorem jsSlice_append {a b c : ℕ} (hab : a ≤ b) (hbc : b ≤ c) :
    jsSlice xs a b ++ jsSlice xs b c = jsSlice xs a c := by
  rw [jsSlice, jsSlice, jsSlice, show c - a = (b - a) + (c - b) by omega, List.take_add,
    List.drop_drop, Nat.add_sub_cancel' hab]

theorem jsSlice_succ {a b : ℕ} {x : α} (hab : a ≤ b) (hx : xs[b]? = some x) :
    jsSlice xs a (b + 1) = jsSlice xs a b ++ [x] := by
  rw [← jsSlice_append xs hab (Nat.le_succ b), jsSlice_eq_cons xs (Nat.lt_succ_self b) hx]
  simp

theorem jsSlice_append_drop {a b : ℕ} (hab : a ≤ b) : jsSlice xs a b ++ xs.drop b = xs.drop a := by
  rw [jsSlice, ← Nat.add_sub_cancel' hab, ← List.drop_drop, Nat.add_sub_cancel_left, List.take_append_drop]

theorem jsSlice_infix (a b : ℕ) : jsSlice xs a b <:+: xs :=
  (List.take_prefix _ _).isInfix.trans (List.drop_suffix _ _).isInfix

theorem mem_jsSlice {a b : ℕ} {x : α} (h : x ∈ jsSlice xs a b) :
    ∃ i, a ≤ i ∧ i < b ∧ xs[i]? = some x := by
  obtain ⟨n, hn⟩ := List.mem_iff_getElem?.mp h
  rw [jsSlice, List.getElem?_take] at hn
  split at hn
  · rw [List.getElem?_drop] at hn
    exact ⟨a + n, by omega, by omega, hn⟩
  · cases hn

end Slice

/-! ## Whitespace and `trim` -/

/-- ECMAScript `WhiteSpace` (tab, vertical tab, form feed, space, no-break space, the
byte-order mark and the `Zs` space separators) or `LineTerminator` (LF, CR, LS, PS). -/
def isJsWhitespace (c : Char) : Bool :=
  [0x09, 0x0A, 0x0B, 0x0C, 0x0D, 0x20, 0xA0, 0x1680, 0x2028, 0x2029, 0x202F, 0x205F, 0x3000,
    0xFEFF].contains c.toNat || (0x2000 ≤ c.toNat && c.toNat ≤ 0x200A)

/-- `s.trim()`: strip leading and trailing whitespace. -/
def jsTrim (s : String) : String :=
  ⟨(s.data.dropWhile isJsWhitespace).rdropWhile isJsWhitespace⟩

theorem mem_of_mem_jsTrim {s : String} {c : Char} (h : c ∈ (jsTrim s).data) : c ∈ s.data :=
  (List.dropWhile_suffix _).subset ((List.rdropWhile_prefix _ _).subset h)

theorem jsTrim_getLast {s : String} {c : Char} (h : (jsTrim s).data.getLast? = some c) :
    isJsWhitespace c = false := by
  have hne : (jsTrim s).data ≠ [] := by rintro h'; simp [h'] at h
  rw [List.getLast?_eq_getLast _ hne, Option.some.injEq] at h
  subst h
  simpa using List.rdropWhile_last_not isJsWhitespace _ hne

theorem jsTrim_head {s : String} {c : Char} (h : (jsTrim s).data.head? = some c) :
    isJsWhitespace c = false := by
  obtain ⟨t, ht⟩ := List.rdropWhile_prefix isJsWhitespace (s.data.dropWhile isJsWhitespace)
  have hd := List.head?_dropWhile_not isJsWhitespace s.data
  rw [← ht, List.head?_append_of_ne_nil _ (by rintro h'; simp [jsTrim, h'] at h)] at hd
  simp only [jsTrim] at h
  rw [h] at hd
  exact hd

theorem rdropWhile_append_rtakeWhile (p : Char → Bool) (xs : List Char) :
    xs.rdropWhile p ++ xs.rtakeWhile p = xs := by
  rw [List.rdropWhile, List.rtakeWhile, ← List.reverse_append, List.takeWhile_append_dropWhile,
    List.reverse_reverse]

/-- A string is its leading whitespace, its trimmed text and its trailing whitespace. -/
theorem jsTrim_spec (s : String) : ∃ lead trail : List Char,
    (∀ c ∈ lead, isJsWhitespace c = true) ∧ (∀ c ∈ trail, isJsWhitespace c = true) ∧
      s.data = lead ++ (jsTrim s).data ++ trail :=
  ⟨s.data.takeWhile isJsWhitespace, (s.data.dropWhile isJsWhitespace).rtakeWhile isJsWhitespace,
    fun _ hc => List.mem_takeWhile_imp hc, fun _ hc => List.mem_rtakeWhile_imp hc, by
      rw [jsTrim, List.append_assoc, rdropWhile_append_rtakeWhile, List.takeWhile_append_dropWhile]⟩

theorem jsTrim_eq_empty_iff (s : String) :
    jsTrim s = "" ↔ ∀ c ∈ s.data, isJsWhitespace c = true := by
  refine ⟨fun h c hc => ?_, fun h => ?_⟩
  · obtain ⟨lead, trail, hl, ht, hs⟩ := jsTrim_spec s
    rw [hs, h] at hc
    rcases List.mem_append.mp hc with hc | hc
    · exact hl c (by simpa using hc)
    · exact ht c hc
  · simp [jsTrim, List.dropWhile_eq_nil_iff.mpr h]

/-! ## `replace` with a one-character pattern -/

/-- Replace the first occurrence of `c` by `r`. -/
def replaceFirst (c : Char) (r : List Char) : List Char → List Char
  | [] => []
  | d :: ds => if d = c then r ++ ds else d :: replaceFirst c r ds

/-- `s.replace(pattern, replacement)` for a one-character `pattern`. -/
def jsReplace (s : String) (pattern : Char) (replacement : String) : String :=
  ⟨replaceFirst pattern replacement.data s.data⟩

theorem replaceFirst_of_not_mem (c : Char) (r : List Char) (l : List Char) (h : c ∉ l) :
    replaceFirst c r l = l := by
  induction l with
  | nil => rfl
  | cons d ds ih =>
    have hd : d ≠ c := fun e => h (e ▸ List.mem_cons_self d ds)
    simp [replaceFirst, hd, ih (fun h' => h (List.mem_cons_of_mem d h'))]

theorem length_replaceFirst_of_mem (c : Char) (r : List Char) (l : List Char) (h : c ∈ l) :
    (replaceFirst c r l).length + 1 = l.length + r.length := by
  induction l with
  | nil => simp at h
  | cons d ds ih =>
    by_cases hd : d = c
    · simp [replaceFirst, hd]; omega
    · have h' : c ∈ ds := by simpa [Ne.symm hd] using h
      simp [replaceFirst, hd, ih h']; omega

theorem jsReplace_of_not_mem (s : String) (c : Char) (r : String) (h : c ∉ s.data) :
    jsReplace s c r = s := by
  simp [jsReplace, replaceFirst_of_not_mem c r.data s.data h]

theorem jsReplace_ne_of_mem (s : String) (c : Char) (r : String) (h : c ∈ s.data)
    (hr : r.data.length ≠ 1) : jsReplace s c r ≠ s := by
  intro e
  have hl := length_replaceFirst_of_mem c r.data s.data h
  rw [show replaceFirst c r.data s.data = s.data from congrArg String.data e] at hl
  omega

/-! ## `replace` with a string pattern -/

/-- Replace the first occurrence of the sublist `search` by `r`; the empty list occurs at the
start. -/
def replaceFirstSub (search r : List Char) : List Char → List Char
  | [] => if search = [] then r else []
  | d :: ds =>
    if search.isPrefixOf (d :: ds) then r ++ (d :: ds).drop search.length
    else d :: replaceFirstSub search r ds

/-- `s.replace(pattern, replacement)` for a string `pattern` and a replacement without `$`. -/
def jsReplaceString (s pattern replacement : String) : String :=
  ⟨replaceFirstSub pattern.data replacement.data s.data⟩

theorem replaceFirstSub_of_startsWith {search l : List Char} (r : List Char) (h : search <+: l) :
    replaceFirstSub search r l = r ++ l.drop search.length := by
  cases l with
  | nil => simp [replaceFirstSub, List.prefix_nil.mp h]
  | cons d ds => rw [replaceFirstSub, if_pos (List.isPrefixOf_iff_prefix.mpr h)]

/-- Replacing a prefix by nothing leaves what follows it. -/
theorem append_jsReplaceString_of_startsWith {s pattern : String} (h : pattern.data <+: s.data) :
    pattern ++ jsReplaceString s pattern "" = s := by
  obtain ⟨t, ht⟩ := h
  apply String.ext
  show pattern.data ++ replaceFirstSub pattern.data [] s.data = s.data
  rw [replaceFirstSub_of_startsWith _ ⟨t, ht⟩, List.nil_append, ← ht, List.drop_left]

end ResonanceAgent.Js
