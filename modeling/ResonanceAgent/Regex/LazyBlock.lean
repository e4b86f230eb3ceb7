import ResonanceAgent.Regex.Replace

/-! # Tag-delimited blocks: `open([\s\S]*?)close`

`AssistantMessageComponent` (`react-types.d.ts`) looks for `/<think>([\s\S]*?)<\/think>/i` and
removes `/<think>[\s\S]*?<\/think>/gi`. A lazy quantifier over any character is not in the
pattern language of `Regex/Matcher.lean`, so this module gives the ECMAScript meaning of that one
shape of pattern, an opening tag, a lazy body and a closing tag, with the `i` flag.

* `startsWithIgnoreCase tag l` compares characters as the `i` flag does (`canonicalize true`);
  `includesIgnoreCase l tag` says `tag` occurs in `l`.
* `blockMatcher`: from a start index, the opening tag, then the lazy body, which tries the closing
  tag before it takes one more character, so the match ends at the first closing tag after the
  opening one. `blockExecFrom`, `blockExec` and `blockExecAll` search for it as
  `RegExp.execFrom`, `RegExp.exec` and `RegExp.execAll` do, and `jsReplaceAllBlocks` is the
  global replace, built by `replaceMatches`.

`blockExecFrom_eq` proves the search, which tries every start index, equal to looking only at the
first opening tag: once an opening tag has no closing tag after it, no later one has. For a text
written as `pre ++ open ++ body ++ close ++ post`, with no opening tag in `pre` and `post` and no
closing tag in `body`, the match is that block and its group is `body`
(`blockExec_tagged`), and the global replace leaves `pre ++ post`
(`replaceMatches_blockExecAll_tagged`). This holds for tags whose first character matches none of
their others, as `<think>` and `</think>` do.
-/

namespace ResonanceAgent.RegexMatch
open ResonanceAgent.Js
set_option autoImplicit false

/-! ## Tags, ignoring case -/

/-- `l` starts with `tag`, characters compared as the `i` flag compares them. -/
def startsWithIgnoreCase : List Char → List Char → Bool
  | [], _ => true
  | _ :: _, [] => false
  | t :: ts, c :: cs => canonicalize true c == canonicalize true t && startsWithIgnoreCase ts cs

/-- `tag` occurs in `l`, ignoring case. -/
def includesIgnoreCase (l tag : List Char) : Bool :=
  (firstIndexWhere (startsWithIgnoreCase tag) l).isSome

theorem startsWithIgnoreCase_append (tag x : List Char) : startsWithIgnoreCase tag (tag ++ x) = true := by
  induction tag with
  | nil => rfl
  | cons t ts ih => simp [startsWithIgnoreCase, ih]

theorem startsWithIgnoreCase_of_isPrefixOf {tag l : List Char} (h : tag.isPrefixOf l = true) :
    startsWithIgnoreCase tag l = true := by
  obtain ⟨x, rfl⟩ := List.isPrefixOf_iff_prefix.mp h
  exact startsWithIgnoreCase_append tag x

/-- An occurrence of `tag` that starts inside `a`, in `a ++ c :: x`, lies inside `a` when no
character after the first of `tag` matches `c`. -/
theorem startsWithIgnoreCase_of_append_cons {c : Char} {x : List Char} :
    ∀ {tag a : List Char}, a ≠ [] → (∀ t ∈ tag.tail, canonicalize true t ≠ canonicalize true c) →
      startsWithIgnoreCase tag (a ++ c :: x) = true → startsWithIgnoreCase tag a = true
  | [], _, _, _, _ => rfl
  | t :: ts, d :: a, _, hc, h => by
    simp only [List.cons_append, startsWithIgnoreCase, Bool.and_eq_true] at h ⊢
    refine ⟨h.1, ?_⟩
    cases a with
    | nil =>
      cases ts with
      | nil => rfl
      | cons t' ts =>
        simp only [List.nil_append, startsWithIgnoreCase, Bool.and_eq_true, beq_iff_eq] at h
        exact absurd h.2.1.symm (hc t' (List.mem_cons_self t' ts))
    | cons e a =>
      exact startsWithIgnoreCase_of_append_cons (List.cons_ne_nil e a)
        (fun t ht => hc t (List.mem_of_mem_tail ht)) h.2

theorem startsWithIgnoreCase_append_right {w : List Char} (x : List Char) :
    ∀ {tag : List Char}, startsWithIgnoreCase tag w = true → startsWithIgnoreCase tag (w ++ x) = true := by
  induction w with
  | nil => intro tag h; cases tag <;> simp_all [startsWithIgnoreCase]
  | cons d w ih =>
    intro tag h
    cases tag with
    | nil => rfl
    | cons t ts =>
      simp only [startsWithIgnoreCase, Bool.and_eq_true, List.cons_append] at h ⊢
      exact ⟨h.1, ih h.2⟩

theorem includesIgnoreCase_of_isInfix {tag l : List Char} (h : tag <:+: l) :
    includesIgnoreCase l tag = true := by
  obtain ⟨s, u, rfl⟩ := h
  rw [includesIgnoreCase, Option.isSome_iff_ne_none, Ne, firstIndexWhere_eq_none_iff]
  intro hnone
  have := hnone s.length (by simp)
  rw [List.append_assoc, List.drop_left, startsWithIgnoreCase_append] at this
  cases this

/-- Where a tag occurs first ignoring case and is written exactly, it also occurs first exactly. -/
theorem firstIndexWhere_isPrefixOf_of_ignoreCase {tag l : List Char} {k : ℕ}
    (h : firstIndexWhere (startsWithIgnoreCase tag) l = some k) (hk : tag.isPrefixOf (l.drop k) = true) :
    firstIndexWhere tag.isPrefixOf l = some k :=
  firstIndexWhere_of_first hk fun j hj => by
    cases hp : tag.isPrefixOf (l.drop j)
    · rfl
    · have hci := startsWithIgnoreCase_of_isPrefixOf hp
      rw [(firstIndexWhere_eq_some h).2.2 j hj] at hci
      cases hci

/-- A tag whose first character `c` matches none of its others occurs first where it is written
(in any case) after a text without it. -/
theorem firstIndexWhere_append_cons {c : Char} {ts a x : List Char}
    (hc : ∀ t ∈ ts, canonicalize true t ≠ canonicalize true c)
    (ha : includesIgnoreCase a (c :: ts) = false) (hx : startsWithIgnoreCase (c :: ts) (c :: x) = true) :
    firstIndexWhere (startsWithIgnoreCase (c :: ts)) (a ++ c :: x) = some a.length := by
  have hno : firstIndexWhere (startsWithIgnoreCase (c :: ts)) a = none := by
    simpa [includesIgnoreCase] using ha
  rw [firstIndexWhere_eq_none_iff] at hno
  refine firstIndexWhere_of_first (by rwa [List.drop_left]) fun j hj => ?_
  rw [List.drop_append_of_le_length hj.le]
  cases h : startsWithIgnoreCase (c :: ts) (a.drop j ++ c :: x)
  · rfl
  · have := @startsWithIgnoreCase_of_append_cons c x (c :: ts) (a.drop j) (by simp; omega) hc h
    rw [hno j hj.le] at this
    cases this

theorem firstIndexWhere_append_tag {c : Char} {ts a x : List Char}
    (hc : ∀ t ∈ ts, canonicalize true t ≠ canonicalize true c)
    (ha : includesIgnoreCase a (c :: ts) = false) :
    firstIndexWhere (startsWithIgnoreCase (c :: ts)) (a ++ (c :: ts) ++ x) = some a.length := by
  rw [List.append_assoc, List.cons_append]
  exact firstIndexWhere_append_cons hc ha (startsWithIgnoreCase_append (c :: ts) x)

/-! ## `open[\s\S]*?close` -/

/-- The matcher of `open([\s\S]*?)close` with the `i` flag, from `index`: the opening tag, then
the lazy body, which tries the closing tag before it takes one more character, so the match ends at
the first closing tag after the opening one; the body is the group. -/
def blockMatcher (openTag closeTag input : List Char) (index : ℕ) : Option MatchState :=
  if startsWithIgnoreCase openTag (input.drop index) then
    (firstIndexWhere (startsWithIgnoreCase closeTag) (input.drop (index + openTag.length))).map
      fun k => ⟨index + openTag.length + k + closeTag.length,
        some (index + openTag.length, index + openTag.length + k)⟩
  else none

/-- `RegExpBuiltinExec` of the block pattern from `lastIndex`, as `RegExp.execFrom`. -/
def blockExecFrom (openTag closeTag input : List Char) (lastIndex : ℕ) :
    Option (ℕ × MatchState) :=
  (List.range' lastIndex (input.length + 1 - lastIndex)).findSome? fun index =>
    (blockMatcher openTag closeTag input index).map fun st => (index, st)

theorem findSome?_range'_skip {β : Type} {f : ℕ → Option β} (n : ℕ) :
    ∀ s a, s ≤ a → a ≤ s + n → (∀ i, s ≤ i → i < a → f i = none) →
      (List.range' s n).findSome? f = (List.range' a (s + n - a)).findSome? f := by
  induction n with
  | zero =>
    intro s a h1 h2 _
    obtain rfl : a = s := by omega
    rw [Nat.add_zero, Nat.sub_self]
  | succ n ih =>
    intro s a h1 h2 hnone
    rcases Nat.eq_or_lt_of_le h1 with rfl | hlt
    · rw [Nat.add_sub_cancel_left]
    · rw [List.range'_succ, List.findSome?_cons, hnone s le_rfl hlt,
        ih (s + 1) a hlt (by omega) fun i hi1 hi2 => hnone i (by omega) hi2,
        show s + 1 + n - a = s + (n + 1) - a by omega]

section Block
variable {openTag closeTag input : List Char}

/-- Once an opening tag has no closing tag after it, no later opening tag has one. -/
theorem blockMatcher_eq_none_of_le {a k : ℕ} (hopen : startsWithIgnoreCase openTag (input.drop a) = true)
    (ha : blockMatcher openTag closeTag input a = none) (hak : a ≤ k) :
    blockMatcher openTag closeTag input k = none := by
  have hclose : firstIndexWhere (startsWithIgnoreCase closeTag) (input.drop (a + openTag.length)) = none := by
    simpa [blockMatcher, hopen] using ha
  have hdrop : input.drop (k + openTag.length) = (input.drop (a + openTag.length)).drop (k - a) := by
    rw [List.drop_drop]
    congr 1
    omega
  simp only [blockMatcher, hdrop, firstIndexWhere_drop_eq_none hclose, Option.map_none', ite_self]

/-- The ECMAScript search, which tries every start index in turn, finds the block at the first
opening tag, or finds none. -/
theorem blockExecFrom_eq {lastIndex : ℕ} (hlast : lastIndex ≤ input.length) :
    blockExecFrom openTag closeTag input lastIndex =
      (firstIndexWhere (startsWithIgnoreCase openTag) (input.drop lastIndex)).bind fun i =>
        (blockMatcher openTag closeTag input (lastIndex + i)).map fun st => (lastIndex + i, st) := by
  have hfalse : ∀ k, startsWithIgnoreCase openTag (input.drop k) = false →
      (blockMatcher openTag closeTag input k).map (fun st => (k, st)) = none := fun k hk => by
    simp [blockMatcher, hk]
  rw [blockExecFrom]
  cases hfirst : firstIndexWhere (startsWithIgnoreCase openTag) (input.drop lastIndex) with
  | none =>
    rw [firstIndexWhere_eq_none_iff] at hfirst
    rw [Option.none_bind, List.findSome?_eq_none_iff]
    intro k hk
    rw [List.mem_range'_1] at hk
    have hk' := hfirst (k - lastIndex) (by simp; omega)
    rw [List.drop_drop, show lastIndex + (k - lastIndex) = k by omega] at hk'
    exact hfalse k hk'
  | some i =>
    obtain ⟨hile, hopen, hbefore⟩ := firstIndexWhere_eq_some hfirst
    rw [List.length_drop] at hile
    rw [List.drop_drop] at hopen
    have hnone : ∀ k, lastIndex ≤ k → k < lastIndex + i →
        (blockMatcher openTag closeTag input k).map (fun st => (k, st)) = none := fun k hk1 hk2 => by
      have hk' := hbefore (k - lastIndex) (by omega)
      rw [List.drop_drop, show lastIndex + (k - lastIndex) = k by omega] at hk'
      exact hfalse k hk'
    rw [findSome?_range'_skip _ lastIndex (lastIndex + i) (by omega) (by omega) hnone,
      show lastIndex + (input.length + 1 - lastIndex) - (lastIndex + i) =
        (input.length - (lastIndex + i)) + 1 by omega,
      List.range'_succ, List.findSome?_cons, Option.some_bind]
    cases hm : blockMatcher openTag closeTag input (lastIndex + i) with
    | some st => rfl
    | none =>
      simp only [Option.map_none', List.findSome?_eq_none_iff, List.mem_range'_1]
      exact fun k hk => by rw [blockMatcher_eq_none_of_le hopen hm (by omega), Option.map_none']

theorem blockExecFrom_eq_some {lastIndex index : ℕ} {st : MatchState}
    (h : blockExecFrom openTag closeTag input lastIndex = some (index, st)) :
    lastIndex ≤ index ∧ index ≤ input.length ∧ index < st.endIndex + 1 ∧
      blockMatcher openTag closeTag input index = some st := by
  obtain ⟨a, h1, h2, hfa, -⟩ := findSome?_range'_eq_some _ _ h
  obtain ⟨st₀, hst, heq⟩ := Option.map_eq_some'.mp hfa
  obtain ⟨rfl, rfl⟩ := Prod.mk.inj heq
  refine ⟨h1, by omega, ?_, hst⟩
  simp only [blockMatcher] at hst
  split at hst
  · obtain ⟨k, -, rfl⟩ := Option.map_eq_some'.mp hst
    simp only
    omega
  · cases hst

/-- A text without an opening tag from `lastIndex` on has no block there. -/
theorem blockExecFrom_of_not_includes {lastIndex : ℕ} (hlast : lastIndex ≤ input.length)
    (h : includesIgnoreCase (input.drop lastIndex) openTag = false) :
    blockExecFrom openTag closeTag input lastIndex = none := by
  have hnone : firstIndexWhere (startsWithIgnoreCase openTag) (input.drop lastIndex) = none := by
    simpa [includesIgnoreCase] using h
  rw [blockExecFrom_eq hlast, hnone, Option.none_bind]


end Block

/-- `RegExpBuiltinExec` of the block pattern without the `g` flag: the search starts at 0. -/
def blockExec (openTag closeTag input : List Char) : Option RegExpMatchArray :=
  (blockExecFrom openTag closeTag input 0).map fun found =>
    RegExpMatchArray.ofState input found.1 found.2

/-- The matches of the block pattern with the `g` flag, as `RegExp.execAll` collects them. -/
def blockExecAll (openTag closeTag input : List Char) (lastIndex : ℕ) : List (ℕ × MatchState) :=
  match h : blockExecFrom openTag closeTag input lastIndex with
  | none => []
  | some (index, st) =>
    (index, st) :: blockExecAll openTag closeTag input
      (if st.endIndex = index then st.endIndex + 1 else st.endIndex)
termination_by input.length + 1 - lastIndex
decreasing_by
  obtain ⟨h1, h2, h3, -⟩ := blockExecFrom_eq_some h
  split <;> omega

/-- `s.replace(/open[\s\S]*?close/gi, replacement)` for a replacement without `$`. -/
def jsReplaceAllBlocks (s openTag closeTag replacement : String) : String :=
  ⟨replaceMatches s.data replacement.data 0 (blockExecAll openTag.data closeTag.data s.data 0)⟩

section BlockAll
variable {openTag closeTag input : List Char} {lastIndex : ℕ}

theorem blockExecAll_of_none (h : blockExecFrom openTag closeTag input lastIndex = none) :
    blockExecAll openTag closeTag input lastIndex = [] := by
  rw [blockExecAll]
  split
  · rfl
  · rename_i h'
    rw [h] at h'
    cases h'

theorem blockExecAll_of_some {index : ℕ} {st : MatchState}
    (h : blockExecFrom openTag closeTag input lastIndex = some (index, st)) :
    blockExecAll openTag closeTag input lastIndex = (index, st) :: blockExecAll openTag closeTag input
      (if st.endIndex = index then st.endIndex + 1 else st.endIndex) := by
  rw [blockExecAll]
  split
  · rename_i h'
    rw [h] at h'
    cases h'
  · rename_i h'
    rw [h] at h'
    cases h'
    rfl

end BlockAll

section Tagged
variable {c : Char} {ot ct : List Char}
  (hot : ∀ t ∈ ot, canonicalize true t ≠ canonicalize true c)
  (hct : ∀ t ∈ ct, canonicalize true t ≠ canonicalize true c)
include hot hct

/-- A block written after a text without an opening tag, with a body without a closing tag, is
the first match: its group is the body. -/
theorem blockExecFrom_tagged {pre body : List Char} (hpre : includesIgnoreCase pre (c :: ot) = false)
    (hbody : includesIgnoreCase body (c :: ct) = false) (post : List Char) :
    blockExecFrom (c :: ot) (c :: ct) (pre ++ (c :: ot) ++ body ++ (c :: ct) ++ post) 0 =
      some (pre.length, ⟨pre.length + (c :: ot).length + body.length + (c :: ct).length,
        some (pre.length + (c :: ot).length, pre.length + (c :: ot).length + body.length)⟩) := by
  have hsplit : pre ++ (c :: ot) ++ body ++ (c :: ct) ++ post =
      pre ++ (c :: ot) ++ (body ++ (c :: ct) ++ post) := by simp only [List.append_assoc]
  have hdrop : (pre ++ (c :: ot) ++ (body ++ (c :: ct) ++ post)).drop (pre.length + (c :: ot).length) =
      body ++ (c :: ct) ++ post := by
    rw [List.append_assoc, List.drop_append, List.drop_left]
  have hopen : startsWithIgnoreCase (c :: ot)
      ((pre ++ (c :: ot) ++ (body ++ (c :: ct) ++ post)).drop pre.length) = true := by
    rw [List.append_assoc, List.drop_left]
    exact startsWithIgnoreCase_append _ _
  rw [hsplit, blockExecFrom_eq (Nat.zero_le _), List.drop_zero, firstIndexWhere_append_tag hot hpre,
    Option.some_bind, Nat.zero_add, blockMatcher, if_pos hopen, hdrop,
    firstIndexWhere_append_tag hct hbody]
  rfl

/-- Removing every block from a text with one block, after a text without an opening tag and
followed by one, leaves the text around it. -/
theorem replaceMatches_blockExecAll_tagged {pre body post : List Char}
    (hpre : includesIgnoreCase pre (c :: ot) = false)
    (hbody : includesIgnoreCase body (c :: ct) = false)
    (hpost : includesIgnoreCase post (c :: ot) = false) :
    replaceMatches (pre ++ (c :: ot) ++ body ++ (c :: ct) ++ post) [] 0
      (blockExecAll (c :: ot) (c :: ct) (pre ++ (c :: ot) ++ body ++ (c :: ct) ++ post) 0) =
      pre ++ post := by
  have hlen : (pre ++ (c :: ot) ++ body ++ (c :: ct)).length =
      pre.length + (c :: ot).length + body.length + (c :: ct).length := by simp only [List.length_append]
  rw [blockExecAll_of_some (blockExecFrom_tagged hot hct hpre hbody post), if_neg (by simp; omega),
    blockExecAll_of_none (blockExecFrom_of_not_includes (by simp; omega)
      (by rwa [← hlen, List.drop_left])),
    replaceMatches, if_pos (Nat.zero_le _), replaceMatches, ← hlen, List.drop_left,
    jsSlice, List.drop_zero, Nat.sub_zero, List.append_nil, List.append_assoc, List.append_assoc,
    List.append_assoc, List.take_left]

/-- The first block of a text with one, after a text without an opening tag: its body is the
group. -/
theorem blockExec_tagged {pre body : List Char} (hpre : includesIgnoreCase pre (c :: ot) = false)
    (hbody : includesIgnoreCase body (c :: ct) = false) (post : List Char) :
    (blockExec (c :: ot) (c :: ct) (pre ++ (c :: ot) ++ body ++ (c :: ct) ++ post)).map
      RegExpMatchArray.group1 = some (some ⟨body⟩) := by
  have hdrop : (pre ++ (c :: ot) ++ body ++ (c :: ct) ++ post).drop (pre.length + (c :: ot).length) =
      body ++ ((c :: ct) ++ post) := by
    simp only [List.append_assoc]
    rw [List.drop_append, List.drop_left]
  rw [blockExec, blockExecFrom_tagged hot hct hpre hbody post]
  simp only [Option.map_some', RegExpMatchArray.ofState, jsSlice, Nat.add_sub_cancel_left, hdrop,
    List.take_left]

omit hct in
/-- A text with no block: an opening tag, in any case, after a text without one, and no closing
tag after it. -/
theorem blockExecFrom_unclosed {pre x : List Char} (hpre : includesIgnoreCase pre (c :: ot) = false)
    (hx : startsWithIgnoreCase (c :: ot) (c :: x) = true)
    (hrest : includesIgnoreCase (x.drop ot.length) (c :: ct) = false) :
    blockExecFrom (c :: ot) (c :: ct) (pre ++ c :: x) 0 = none := by
  have hclose : firstIndexWhere (startsWithIgnoreCase (c :: ct)) (x.drop ot.length) = none := by
    simpa [includesIgnoreCase] using hrest
  rw [blockExecFrom_eq (Nat.zero_le _), List.drop_zero, firstIndexWhere_append_cons hot hpre hx,
    Option.some_bind, Nat.zero_add, blockMatcher, if_pos (by rwa [List.drop_left]), List.drop_append,
    List.length_cons, List.drop_succ_cons, hclose]
  rfl

end Tagged

end ResonanceAgent.RegexMatch
