import Mathlib.Logic.Relation
import ResonanceAgent.Js.Text

/-! # The regular expressions of the tool-call enforcer

`toolCallPatterns` in `electron-main/llmMessage/toolCallEnforcer.ts` are four regular expression
literals with the `i` flag, which `enforceToolCall` runs with `String.prototype.match`. This file
embeds the part of ECMAScript regular expressions they are written in, with the matcher the
language specification gives them (ECMA-262 §22.2.2): backtracking in continuation-passing style.

* `CharClass`, `Regex`: `\s`, `[...]`, `[^...]`, literal characters, sequence, `|`, greedy `?`, a
  greedy `+` over a character class, and a capturing group. A non-capturing group `(?:r)` is its
  body `r`.
* `Regex.matcher`: the pattern's Matcher; `RegExp.exec`: `RegExpBuiltinExec` for a pattern
  without the `g` and `y` flags, which tries the start indices `0, 1, ..., input.length` in turn.
* `Matches`: the end states a pattern can reach from a state, as a relation. `matcher_sound`: the
  matcher only succeeds through an end state the relation allows; `exec_sound` lifts it to `exec`.

Transcription choices:
* The input is a list of code points where the code matches on UTF-16 code units. Every character
  the patterns name is ASCII: a literal or `\s` matches no surrogate, and `[^...]` matches both
  halves of a pair or neither, so both find the same matches.
* `Canonicalize` (for a pattern with `i` and without `u`) maps a character to its upper case, but
  never maps a non-ASCII character to an ASCII one. The patterns only compare with ASCII
  characters, so upper-casing ASCII letters (`Char.toUpper`) decides every comparison the same
  way.
* The patterns have one capturing group, so a state has one capture slot. Their `?` and `+` hold
  no group, so RepeatMatcher's reset of the captures inside the repeated atom is left out, and so
  is its empty-iteration check for `k+`, which a one-character atom never triggers.
-/

namespace ResonanceAgent.RegexMatch
open ResonanceAgent.Js
set_option autoImplicit false

/-! ## Syntax -/

/-- A character class: `\s`, `[chars]` or `[^chars]`. -/
inductive CharClass where
  | space
  | oneOf (chars : List Char)
  | noneOf (chars : List Char)
  deriving DecidableEq, Repr

/-- The regular expressions of `toolCallPatterns`. -/
inductive Regex where
  | empty
  | char (c : Char)
  | cls (k : CharClass)
  | seq (r s : Regex)
  | alt (r s : Regex)
  | opt (r : Regex)
  | plus (k : CharClass)
  | group (r : Regex)
  deriving DecidableEq, Repr

/-- A literal word, character by character. -/
def Regex.lit : List Char → Regex
  | [] => .empty
  | c :: cs => .seq (.char c) (lit cs)

/-- Whether a capturing group occurs in the pattern. -/
def Regex.hasGroup : Regex → Bool
  | .empty | .char _ | .cls _ | .plus _ => false
  | .seq r s | .alt r s => r.hasGroup || s.hasGroup
  | .opt r => r.hasGroup
  | .group _ => true

/-- A regular expression literal: its pattern and whether it has the `i` flag. -/
structure RegExp where
  source : Regex
  ignoreCase : Bool

/-! ## Characters -/

/-- `Canonicalize(ch)`, on ASCII letters. -/
def canonicalize (ignoreCase : Bool) (c : Char) : Char :=
  if ignoreCase then c.toUpper else c

/-- `CharacterSetMatcher`'s test: whether the class accepts a character. -/
def CharClass.test (ignoreCase : Bool) : CharClass → Char → Bool
  | .space, c => isJsWhitespace c
  | .oneOf chars, c => chars.any fun d => canonicalize ignoreCase d == canonicalize ignoreCase c
  | .noneOf chars, c => !chars.any fun d => canonicalize ignoreCase d == canonicalize ignoreCase c

theorem CharClass.not_mem_of_test_noneOf {ignoreCase : Bool} {chars : List Char} {c : Char}
    (h : (CharClass.noneOf chars).test ignoreCase c = true) : c ∉ chars := fun hc => by
  simp only [CharClass.test, Bool.not_eq_true', List.any_eq_false, beq_iff_eq] at h
  exact h c hc rfl

/-! ## The matcher -/

/-- A `MatchState`: the end index reached and the span of the capturing group, if set. -/
structure MatchState where
  endIndex : ℕ
  capture : Option (ℕ × ℕ)
  deriving DecidableEq, Repr

/-- The state one character further. -/
def MatchState.advance (st : MatchState) : MatchState := ⟨st.endIndex + 1, st.capture⟩

/-- `CharacterSetMatcher`: read the character at the end index if `test` accepts it. -/
def stepIf (input : List Char) (test : Char → Bool) (st : MatchState) : Option MatchState :=
  match input[st.endIndex]? with
  | some c => if test c then some st.advance else none
  | none => none

/-- Greedy `k*` (RepeatMatcher with min 0 and no max): read one more character if the class
accepts it and go on, backtracking to `cont st`. `charsLeft` is `input.length - st.endIndex`
when it is called, a bound on the characters still to read. -/
def starClass (input : List Char) (test : Char → Bool) (cont : MatchState → Option MatchState) :
    ℕ → MatchState → Option MatchState
  | 0, st => cont st
  | charsLeft + 1, st =>
    match stepIf input test st with
    | some st' => (starClass input test cont charsLeft st').orElse fun _ => cont st
    | none => cont st

/-- The Matcher of a pattern: from a state and a continuation, the final state of the first
successful way through the pattern and the continuation, in backtracking order. -/
def Regex.matcher (input : List Char) (ignoreCase : Bool) :
    Regex → MatchState → (MatchState → Option MatchState) → Option MatchState
  | .empty, st, cont => cont st
  | .char c, st, cont =>
    (stepIf input (fun d => canonicalize ignoreCase d == canonicalize ignoreCase c) st).bind cont
  | .cls k, st, cont => (stepIf input (k.test ignoreCase) st).bind cont
  | .seq r s, st, cont => r.matcher input ignoreCase st fun st' => s.matcher input ignoreCase st' cont
  | .alt r s, st, cont =>
    (r.matcher input ignoreCase st cont).orElse fun _ => s.matcher input ignoreCase st cont
  | .opt r, st, cont =>
    (r.matcher input ignoreCase st fun st' =>
      if st'.endIndex = st.endIndex then none else cont st').orElse fun _ => cont st
  | .plus k, st, cont =>
    (stepIf input (k.test ignoreCase) st).bind fun st' =>
      starClass input (k.test ignoreCase) cont (input.length - st'.endIndex) st'
  | .group r, st, cont =>
    r.matcher input ignoreCase st fun st' => cont ⟨st'.endIndex, some (st.endIndex, st'.endIndex)⟩

/-- The array `String.prototype.match` returns for a pattern without `g`: the start index,
`match[0]` and `match[1]` (`none` for `undefined`). -/
structure RegExpMatchArray where
  index : ℕ
  matched : String
  group1 : Option String

/-- The match array of a match from `index` that ends in `st`. -/
def RegExpMatchArray.ofState (input : List Char) (index : ℕ) (st : MatchState) :
    RegExpMatchArray :=
  ⟨index, ⟨jsSlice input index st.endIndex⟩, st.capture.map fun span => ⟨jsSlice input span.1 span.2⟩⟩

/-- `RegExpBuiltinExec` from `lastIndex`: the first start index, `lastIndex` or later, from
which the pattern matches, and the state the match ends in. -/
def RegExp.execFrom (re : RegExp) (input : List Char) (lastIndex : ℕ) : Option (ℕ × MatchState) :=
  (List.range' lastIndex (input.length + 1 - lastIndex)).findSome? fun index =>
    (re.source.matcher input re.ignoreCase ⟨index, none⟩ some).map fun st => (index, st)

/-- `RegExpBuiltinExec` for a pattern without the `g` and `y` flags: the search starts at 0. -/
def RegExp.exec (re : RegExp) (input : List Char) : Option RegExpMatchArray :=
  (re.execFrom input 0).map fun found => RegExpMatchArray.ofState input found.1 found.2

/-- `string.match(regexp)`. -/
def jsMatch (s : String) (re : RegExp) : Option RegExpMatchArray := re.exec s.data

/-! ## What a pattern can match -/

/-- One step of `k*`: the class accepts the next character. -/
def StepIf (input : List Char) (test : Char → Bool) (st st' : MatchState) : Prop :=
  stepIf input test st = some st'

/-- `Matches input ignoreCase r st st'`: matching `r` from `st` can end in `st'`. -/
inductive Matches (input : List Char) (ignoreCase : Bool) : Regex → MatchState → MatchState → Prop
  | empty (st : MatchState) : Matches input ignoreCase .empty st st
  | char {c : Char} {st st' : MatchState}
      (h : stepIf input (fun d => canonicalize ignoreCase d == canonicalize ignoreCase c) st =
        some st') : Matches input ignoreCase (.char c) st st'
  | cls {k : CharClass} {st st' : MatchState} (h : stepIf input (k.test ignoreCase) st = some st') :
      Matches input ignoreCase (.cls k) st st'
  | seq {r s : Regex} {st₁ st₂ st₃ : MatchState} (hr : Matches input ignoreCase r st₁ st₂)
      (hs : Matches input ignoreCase s st₂ st₃) : Matches input ignoreCase (.seq r s) st₁ st₃
  | altLeft {r s : Regex} {st st' : MatchState} (h : Matches input ignoreCase r st st') :
      Matches input ignoreCase (.alt r s) st st'
  | altRight {r s : Regex} {st st' : MatchState} (h : Matches input ignoreCase s st st') :
      Matches input ignoreCase (.alt r s) st st'
  | optSome {r : Regex} {st st' : MatchState} (hne : st'.endIndex ≠ st.endIndex)
      (h : Matches input ignoreCase r st st') : Matches input ignoreCase (.opt r) st st'
  | optNone {r : Regex} (st : MatchState) : Matches input ignoreCase (.opt r) st st
  | plus {k : CharClass} {st st₁ st₂ : MatchState}
      (h₁ : stepIf input (k.test ignoreCase) st = some st₁)
      (h₂ : Relation.ReflTransGen (StepIf input (k.test ignoreCase)) st₁ st₂) :
      Matches input ignoreCase (.plus k) st st₂
  | group {r : Regex} {st st' : MatchState} (h : Matches input ignoreCase r st st') :
      Matches input ignoreCase (.group r) st ⟨st'.endIndex, some (st.endIndex, st'.endIndex)⟩

theorem stepIf_eq_some {input : List Char} {test : Char → Bool} {st st' : MatchState}
    (h : stepIf input test st = some st') :
    ∃ c, input[st.endIndex]? = some c ∧ test c = true ∧ st' = st.advance := by
  unfold stepIf at h
  split at h
  · rename_i c hc
    split at h
    · exact ⟨c, hc, ‹_›, (Option.some.inj h).symm⟩
    · cases h
  · cases h

theorem stepIf_of_getElem? {input : List Char} {test : Char → Bool} {st : MatchState} {c : Char}
    (hc : input[st.endIndex]? = some c) (htest : test c = true) :
    stepIf input test st = some st.advance := by
  simp only [stepIf, hc, htest, if_true]

/-- A run of `k*` keeps the capture, and every character it reads is accepted by the class. -/
theorem starRun_spec {input : List Char} {test : Char → Bool} {st st' : MatchState}
    (h : Relation.ReflTransGen (StepIf input test) st st') :
    st'.capture = st.capture ∧ st.endIndex ≤ st'.endIndex ∧
      ∀ i, st.endIndex ≤ i → i < st'.endIndex → ∃ c, input[i]? = some c ∧ test c = true := by
  induction h with
  | refl => exact ⟨rfl, le_rfl, fun i h1 h2 => absurd h2 (Nat.not_lt.mpr h1)⟩
  | @tail b _ _ hstep ih =>
    obtain ⟨c, hc, htest, rfl⟩ := stepIf_eq_some hstep
    obtain ⟨hcap, hle, hchars⟩ := ih
    refine ⟨hcap, Nat.le_succ_of_le hle, fun i h1 h2 => ?_⟩
    rcases Nat.lt_or_ge i b.endIndex with hi | hi
    · exact hchars i h1 hi
    · have hib : i = b.endIndex := by simp only [MatchState.advance] at h2; omega
      exact ⟨c, hib ▸ hc, htest⟩

theorem orElse_eq_some {α : Type} {a : Option α} {b : Unit → Option α} {x : α}
    (h : a.orElse b = some x) : a = some x ∨ b () = some x := by
  cases a with
  | none => exact .inr h
  | some y => exact .inl h

theorem starClass_sound {input : List Char} {test : Char → Bool}
    {cont : MatchState → Option MatchState} {res : MatchState} (charsLeft : ℕ) (st : MatchState)
    (h : starClass input test cont charsLeft st = some res) :
    ∃ st', Relation.ReflTransGen (StepIf input test) st st' ∧ cont st' = some res := by
  induction charsLeft generalizing st with
  | zero => exact ⟨st, .refl, h⟩
  | succ n ih =>
    unfold starClass at h
    split at h
    · rename_i st₁ hstep
      rcases orElse_eq_some h with h | h
      · obtain ⟨st', hrun, hcont⟩ := ih st₁ h
        exact ⟨st', Relation.ReflTransGen.head hstep hrun, hcont⟩
      · exact ⟨st, .refl, h⟩
    · exact ⟨st, .refl, h⟩

/-- The matcher is sound: it only succeeds by passing the continuation a state the pattern can
end in. -/
theorem matcher_sound {input : List Char} {ignoreCase : Bool} (r : Regex) (st : MatchState)
    (cont : MatchState → Option MatchState) {res : MatchState}
    (h : r.matcher input ignoreCase st cont = some res) :
    ∃ st', Matches input ignoreCase r st st' ∧ cont st' = some res := by
  induction r generalizing st cont with
  | empty => exact ⟨st, .empty st, h⟩
  | char c =>
    obtain ⟨st', hstep, hcont⟩ := Option.bind_eq_some.mp h
    exact ⟨st', .char hstep, hcont⟩
  | cls k =>
    obtain ⟨st', hstep, hcont⟩ := Option.bind_eq_some.mp h
    exact ⟨st', .cls hstep, hcont⟩
  | seq r s ihr ihs =>
    obtain ⟨st₁, hr, h₁⟩ := ihr st _ h
    obtain ⟨st₂, hs, h₂⟩ := ihs st₁ cont h₁
    exact ⟨st₂, .seq hr hs, h₂⟩
  | alt r s ihr ihs =>
    rcases orElse_eq_some h with h | h
    · obtain ⟨st', hm, hcont⟩ := ihr st cont h
      exact ⟨st', .altLeft hm, hcont⟩
    · obtain ⟨st', hm, hcont⟩ := ihs st cont h
      exact ⟨st', .altRight hm, hcont⟩
  | opt r ih =>
    rcases orElse_eq_some h with h | h
    · obtain ⟨st', hm, hcont⟩ := ih st _ h
      split at hcont
      · cases hcont
      · exact ⟨st', .optSome ‹_› hm, hcont⟩
    · exact ⟨st, .optNone st, h⟩
  | plus k =>
    obtain ⟨st₁, hstep, hstar⟩ := Option.bind_eq_some.mp h
    obtain ⟨st₂, hrun, hcont⟩ := starClass_sound _ st₁ hstar
    exact ⟨st₂, .plus hstep hrun, hcont⟩
  | group r ih =>
    obtain ⟨st', hm, hcont⟩ := ih st _ h
    exact ⟨_, .group hm, hcont⟩

theorem isSome_orElse {α : Type} (a : Option α) (b : Unit → Option α) :
    (a.orElse b).isSome = (a.isSome || (b ()).isSome) := by
  cases a <;> rfl

theorem starClass_isSome_of_cont {input : List Char} {test : Char → Bool}
    {cont : MatchState → Option MatchState} {st : MatchState} (hc : (cont st).isSome)
    (charsLeft : ℕ) : (starClass input test cont charsLeft st).isSome := by
  cases charsLeft with
  | zero => exact hc
  | succ n =>
    unfold starClass
    split
    · rw [isSome_orElse, hc, Bool.or_true]
    · exact hc

/-- With `input.length - st.endIndex` as its bound, `k*` reaches every run of the class. -/
theorem starClass_complete {input : List Char} {test : Char → Bool}
    {cont : MatchState → Option MatchState} {st st' : MatchState}
    (hrun : Relation.ReflTransGen (StepIf input test) st st') (hc : (cont st').isSome) :
    (starClass input test cont (input.length - st.endIndex) st).isSome := by
  induction hrun using Relation.ReflTransGen.head_induction_on with
  | refl => exact starClass_isSome_of_cont hc _
  | @head st st₁ hstep _ ih =>
    obtain ⟨c, hc', -, rfl⟩ := stepIf_eq_some hstep
    have hlt : st.endIndex < input.length := (List.getElem?_eq_some_iff.mp hc').1
    have hleft : input.length - st.endIndex = input.length - st.advance.endIndex + 1 := by
      simp only [MatchState.advance]; omega
    rw [hleft, starClass, show stepIf input test st = some st.advance from hstep]
    simp only [isSome_orElse, ih, Bool.true_or]

/-- The matcher is complete: if the pattern can end in a state the continuation accepts, the
matcher succeeds. -/
theorem matcher_complete {input : List Char} {ignoreCase : Bool} {r : Regex} {st st' : MatchState}
    (hm : Matches input ignoreCase r st st') (cont : MatchState → Option MatchState)
    (hc : (cont st').isSome) : (r.matcher input ignoreCase st cont).isSome := by
  induction hm generalizing cont with
  | empty => exact hc
  | char h | cls h => simp only [Regex.matcher, h, Option.some_bind, hc]
  | seq _ _ ihr ihs => exact ihr _ (ihs cont hc)
  | altLeft _ ih => simp only [Regex.matcher, isSome_orElse, ih cont hc, Bool.true_or]
  | altRight _ ih => simp only [Regex.matcher, isSome_orElse, ih cont hc, Bool.or_true]
  | @optSome _ st _ hne _ ih =>
    have hc' := ih (fun x => if x.endIndex = st.endIndex then none else cont x)
      (by simp only [if_neg hne, hc])
    simp only [Regex.matcher, isSome_orElse, hc', Bool.true_or]
  | optNone => simp only [Regex.matcher, isSome_orElse, hc, Bool.or_true]
  | plus h₁ h₂ =>
    simp only [Regex.matcher, h₁, Option.some_bind]
    exact starClass_complete h₂ hc
  | group _ ih => exact ih _ hc

theorem findSome?_range'_eq_some {β : Type} {f : ℕ → Option β} {b : β} (n : ℕ) :
    ∀ s, (List.range' s n).findSome? f = some b →
      ∃ a, s ≤ a ∧ a < s + n ∧ f a = some b ∧ ∀ i, s ≤ i → i < a → f i = none := by
  induction n with
  | zero => intro s h; cases h
  | succ n ih =>
    intro s h
    rw [List.range'_succ, List.findSome?_cons] at h
    cases hs : f s with
    | some b' =>
      simp only [hs, Option.some.injEq] at h
      exact ⟨s, le_rfl, by omega, hs.trans (congrArg some h), fun i h1 h2 => absurd h2 (by omega)⟩
    | none =>
      simp only [hs] at h
      obtain ⟨a, h1, h2, hfa, hleft⟩ := ih (s + 1) h
      refine ⟨a, by omega, by omega, hfa, fun i hi1 hi2 => ?_⟩
      rcases Nat.eq_or_lt_of_le hi1 with rfl | hi1
      · exact hs
      · exact hleft i hi1 hi2

/-- `execFrom` returns the first state the matcher reaches from the least start index,
`lastIndex` or later, that has a match. -/
theorem execFrom_eq_some {re : RegExp} {input : List Char} {lastIndex index : ℕ}
    {st : MatchState} (h : re.execFrom input lastIndex = some (index, st)) :
    lastIndex ≤ index ∧ index ≤ input.length ∧
      re.source.matcher input re.ignoreCase ⟨index, none⟩ some = some st ∧
      ∀ i, lastIndex ≤ i → i < index → ∀ st', ¬ Matches input re.ignoreCase re.source ⟨i, none⟩ st' := by
  obtain ⟨a, h1, h2, hfa, hleft⟩ := findSome?_range'_eq_some _ _ h
  obtain ⟨st₀, hst, heq⟩ := Option.map_eq_some'.mp hfa
  obtain ⟨rfl, rfl⟩ := Prod.mk.inj heq
  refine ⟨h1, by omega, hst, fun i hi1 hi2 st' hm => ?_⟩
  have hsome := matcher_complete hm some rfl
  rw [Option.map_eq_none'.mp (hleft i hi1 hi2)] at hsome
  cases hsome

/-- `execFrom` finds nothing exactly when no start index from `lastIndex` on has a match. -/
theorem execFrom_eq_none_iff {re : RegExp} {input : List Char} {lastIndex : ℕ} :
    re.execFrom input lastIndex = none ↔ ∀ i, lastIndex ≤ i → i ≤ input.length →
      ∀ st, ¬ Matches input re.ignoreCase re.source ⟨i, none⟩ st := by
  simp only [RegExp.execFrom, List.findSome?_eq_none_iff, List.mem_range'_1, Option.map_eq_none']
  refine ⟨fun h i hi1 hi2 st hm => ?_, fun h i hi => ?_⟩
  · have hsome := matcher_complete hm some rfl
    rw [h i ⟨hi1, by omega⟩] at hsome
    cases hsome
  · cases hmatch : re.source.matcher input re.ignoreCase ⟨i, none⟩ some with
    | none => rfl
    | some st =>
      obtain ⟨st', hm, -⟩ := matcher_sound _ _ _ hmatch
      exact absurd hm (h i hi.1 (by omega) st')

/-- `exec` returns the match from the least start index that has one. -/
theorem exec_leftmost {re : RegExp} {input : List Char} {m : RegExpMatchArray}
    (h : re.exec input = some m) :
    m.index ≤ input.length ∧
      (∃ st, Matches input re.ignoreCase re.source ⟨m.index, none⟩ st ∧
        m = RegExpMatchArray.ofState input m.index st) ∧
      ∀ i < m.index, ∀ st, ¬ Matches input re.ignoreCase re.source ⟨i, none⟩ st := by
  obtain ⟨⟨index, st⟩, hfound, rfl⟩ := Option.map_eq_some'.mp h
  obtain ⟨-, hle, hst, hleft⟩ := execFrom_eq_some hfound
  obtain ⟨st', hmatch, hcont⟩ := matcher_sound _ _ _ hst
  exact ⟨hle, ⟨st', hmatch, by rw [Option.some.inj hcont]; rfl⟩,
    fun i hi => hleft i (Nat.zero_le i) hi⟩

/-- `exec` finds nothing exactly when no start index has a match. -/
theorem exec_eq_none_iff {re : RegExp} {input : List Char} :
    re.exec input = none ↔
      ∀ i ≤ input.length, ∀ st, ¬ Matches input re.ignoreCase re.source ⟨i, none⟩ st := by
  rw [RegExp.exec, Option.map_eq_none', execFrom_eq_none_iff]
  exact ⟨fun h i hi => h i (Nat.zero_le i) hi, fun h i _ hi => h i hi⟩

/-! ## Captures -/

/-- Without a capturing group, a match leaves the capture as it was. -/
theorem Matches.capture_eq {input : List Char} {ignoreCase : Bool} {r : Regex}
    {st st' : MatchState} (h : Matches input ignoreCase r st st') (hr : r.hasGroup = false) :
    st'.capture = st.capture := by
  induction h with
  | empty | optNone => rfl
  | char h | cls h => obtain ⟨_, _, _, rfl⟩ := stepIf_eq_some h; rfl
  | seq _ _ ih₁ ih₂ =>
    simp only [Regex.hasGroup, Bool.or_eq_false_iff] at hr
    rw [ih₂ hr.2, ih₁ hr.1]
  | altLeft _ ih | altRight _ ih =>
    simp only [Regex.hasGroup, Bool.or_eq_false_iff] at hr
    first | exact ih hr.1 | exact ih hr.2
  | optSome _ _ ih => exact ih hr
  | plus h₁ h₂ =>
    obtain ⟨_, _, _, rfl⟩ := stepIf_eq_some h₁
    exact (starRun_spec h₂).1
  | group => cases hr

/-- A match of `(k+)` sets the capture to a non-empty span whose characters the class accepts. -/
theorem Matches.group_plus {input : List Char} {ignoreCase : Bool} {k : CharClass}
    {st st' : MatchState} (h : Matches input ignoreCase (.group (.plus k)) st st') :
    ∃ a b, st'.capture = some (a, b) ∧ a < b ∧
      ∀ i, a ≤ i → i < b → ∃ c, input[i]? = some c ∧ k.test ignoreCase c = true := by
  cases h with | group hplus =>
  cases hplus with | plus h₁ h₂ =>
  obtain ⟨c, hc, htest, rfl⟩ := stepIf_eq_some h₁
  obtain ⟨-, hle, hchars⟩ := starRun_spec h₂
  refine ⟨_, _, rfl, Nat.lt_of_lt_of_le (Nat.lt_succ_self _) hle, fun i h1 h2 => ?_⟩
  rcases Nat.lt_or_ge i (st.endIndex + 1) with hi | hi
  · exact ⟨c, by rwa [show i = st.endIndex by omega], htest⟩
  · exact hchars i hi h2

/-! ## End indices and greedy runs -/

/-- A match never ends before it starts. -/
theorem Matches.endIndex_le {input : List Char} {ignoreCase : Bool} {r : Regex}
    {st st' : MatchState} (h : Matches input ignoreCase r st st') : st.endIndex ≤ st'.endIndex := by
  induction h with
  | empty | optNone => exact le_rfl
  | char h | cls h =>
    obtain ⟨_, _, _, rfl⟩ := stepIf_eq_some h
    exact Nat.le_succ _
  | seq _ _ ih₁ ih₂ => exact ih₁.trans ih₂
  | altLeft _ ih | altRight _ ih | optSome _ _ ih | group _ ih => exact ih
  | plus h₁ h₂ =>
    obtain ⟨_, _, _, rfl⟩ := stepIf_eq_some h₁
    exact (Nat.le_succ _).trans (starRun_spec h₂).2.1

/-- The end of the run of characters `test` accepts from index `i` on. -/
def runEnd (input : List Char) (test : Char → Bool) (i : ℕ) : ℕ :=
  i + ((input.drop i).takeWhile test).length

theorem runEnd_of_getElem? {input : List Char} {test : Char → Bool} {i : ℕ} {c : Char}
    (hc : input[i]? = some c) (htest : test c = true) :
    runEnd input test i = runEnd input test (i + 1) := by
  obtain ⟨hi, rfl⟩ := List.getElem?_eq_some_iff.mp hc
  rw [runEnd, runEnd, List.drop_eq_getElem_cons hi, List.takeWhile_cons_of_pos htest,
    List.length_cons]
  omega

theorem runEnd_of_not {input : List Char} {test : Char → Bool} {i : ℕ}
    (h : ∀ c, input[i]? = some c → test c = false) : runEnd input test i = i := by
  rw [runEnd]
  cases hd : input.drop i with
  | nil => rfl
  | cons c cs =>
    have hc : input[i]? = some c := by
      rw [← Nat.add_zero i, ← List.getElem?_drop, hd, List.getElem?_cons_zero]
    rw [List.takeWhile_cons_of_neg (by simp [h c hc])]
    rfl

theorem drop_runEnd (input : List Char) (test : Char → Bool) (i : ℕ) :
    input.drop (runEnd input test i) = (input.drop i).dropWhile test := by
  rw [runEnd, ← List.drop_drop]
  conv_lhs => arg 2; rw [← List.takeWhile_append_dropWhile test (input.drop i)]
  exact List.drop_left _ _

/-- From a character the test accepts, the text is that character, the rest of its run, and
what follows the run. -/
theorem drop_eq_cons_run {input : List Char} {test : Char → Bool} {i : ℕ} {c : Char}
    (hc : input[i]? = some c) (htest : test c = true) :
    input.drop i = c :: (input.drop (i + 1)).takeWhile test ++ input.drop (runEnd input test i) := by
  obtain ⟨hi, rfl⟩ := List.getElem?_eq_some_iff.mp hc
  rw [drop_runEnd, List.drop_eq_getElem_cons hi, List.dropWhile_cons_of_pos htest,
    List.cons_append, List.takeWhile_append_dropWhile]

/-- The character after a run, if any, is one the test rejects. -/
theorem head?_drop_runEnd (input : List Char) (test : Char → Bool) (i : ℕ) :
    ∀ d, (input.drop (runEnd input test i)).head? = some d → test d = false := fun d hd => by
  have := List.head?_dropWhile_not test (input.drop i)
  rwa [← drop_runEnd, hd] at this

/-- With the continuation that accepts everything, `k*` takes the whole run. -/
theorem starClass_some {input : List Char} {test : Char → Bool} (charsLeft : ℕ) :
    ∀ st : MatchState, input.length - st.endIndex ≤ charsLeft →
      starClass input test some charsLeft st = some ⟨runEnd input test st.endIndex, st.capture⟩ := by
  induction charsLeft with
  | zero =>
    intro st hst
    rw [runEnd_of_not fun c hc => absurd (List.getElem?_eq_some_iff.mp hc).1 (by omega)]
    rfl
  | succ n ih =>
    intro st hst
    unfold starClass
    split
    · rename_i st₁ hstep
      obtain ⟨c, hc, htest, rfl⟩ := stepIf_eq_some hstep
      rw [ih st.advance (by simp only [MatchState.advance]; omega), runEnd_of_getElem? hc htest]
      rfl
    · rename_i hstep
      rw [runEnd_of_not fun c hc => by
        cases htest : test c
        · rfl
        · simp [stepIf, hc, htest] at hstep]

/-- With a continuation that never fails, `k*` takes the whole run. -/
theorem starClass_of_total {input : List Char} {test : Char → Bool}
    {cont : MatchState → Option MatchState} (hcont : ∀ st, (cont st).isSome) (charsLeft : ℕ) :
    ∀ st : MatchState, input.length - st.endIndex ≤ charsLeft →
      starClass input test cont charsLeft st = cont ⟨runEnd input test st.endIndex, st.capture⟩ := by
  induction charsLeft with
  | zero =>
    intro st hst
    rw [runEnd_of_not fun c hc => absurd (List.getElem?_eq_some_iff.mp hc).1 (by omega)]
    rfl
  | succ n ih =>
    intro st hst
    unfold starClass
    split
    · rename_i st₁ hstep
      obtain ⟨c, hc, htest, rfl⟩ := stepIf_eq_some hstep
      rw [ih st.advance (by simp only [MatchState.advance]; omega), runEnd_of_getElem? hc htest]
      obtain ⟨x, hx⟩ := Option.isSome_iff_exists.mp (hcont ⟨runEnd input test (st.endIndex + 1), st.capture⟩)
      exact hx ▸ rfl
    · rename_i hstep
      rw [runEnd_of_not fun c hc => by
        cases htest : test c
        · rfl
        · simp [stepIf, hc, htest] at hstep]

/-- `k+` with the continuation that accepts everything: the maximal run of the class from the
start, if the first character is in the class. -/
theorem plus_matcher_some (input : List Char) (ignoreCase : Bool) (k : CharClass)
    (st : MatchState) :
    (Regex.plus k).matcher input ignoreCase st some =
      (stepIf input (k.test ignoreCase) st).map fun _ =>
        ⟨runEnd input (k.test ignoreCase) st.endIndex, st.capture⟩ := by
  rw [Regex.matcher]
  cases hstep : stepIf input (k.test ignoreCase) st with
  | none => rfl
  | some st₁ =>
    obtain ⟨c, hc, htest, rfl⟩ := stepIf_eq_some hstep
    rw [Option.some_bind, starClass_some _ _ le_rfl, Option.map_some', runEnd_of_getElem? hc htest]
    rfl

end ResonanceAgent.RegexMatch
