import ResonanceAgent.Regex.LazyBlock

/-! # Thinking in an assistant message

`AssistantMessageComponent` in `react-types.d.ts` (lines 1795–1830) splits what a model wrote into
its reasoning and the content shown as the answer. The message may carry its reasoning in a field
of its own, whose `<think>` tags are removed; otherwise the reasoning is read out of the content:
a complete `<think>…</think>` block (found ignoring case) is the reasoning and is cut out of the
content, and while the model is still thinking, everything after an opening `<think>` (found
with case) is the reasoning and only the text before it is shown.

* `initialReasoningStr` is the reasoning field's treatment, `assistantMessageParts` the whole
  split, returning `(reasoningStr, displayContent)`.
* `assistantMessageParts_thinkBlock` and `assistantMessageParts_unclosed` are the round trips: for
  a content written as text, one think block and text (or as text, an opening tag and the
  thinking so far), the split gives back the block's body as the reasoning and the text around it
  as the content.
* `assistantMessageParts_upper_unclosed`: the search for a complete block ignores case but the
  check for an unfinished one does not, so a reply still thinking under `<THINK>` is shown whole.
-/

namespace ResonanceAgent.Browser
open ResonanceAgent.Js ResonanceAgent.RegexMatch
set_option autoImplicit false

/-! ## The split -/

/-- `/<\/?think>/gi`. -/
def thinkTagPattern : RegExp :=
  ⟨.seq (.char '<') (.seq (.opt (.char '/')) (.lit "think>".data)), true⟩

/-- `!value` for a value of type `string | null`. -/
def isFalsy : Option String → Bool
  | none => true
  | some s => s == ""

/-- The tags around a model's thinking. -/
def thinkOpen : String := "<think>"
def thinkClose : String := "</think>"

/-- `reasoningStr` before the content is read: `chatMessage.reasoning?.trim() || null`, then, if
set, with its think tags removed and trimmed again. -/
def initialReasoningStr (reasoning : Option String) : Option String :=
  match reasoning.map jsTrim with
  | some r => if r = "" then none else some (jsTrim (jsReplaceAll r thinkTagPattern ""))
  | none => none

/-- The `reasoningStr` and `displayContent` that `AssistantMessageComponent` shows for a message
with the fields `reasoning` and `displayContent`: `/<think>([\s\S]*?)<\/think>/i` is
`blockExec thinkOpen thinkClose`, `/<think>[\s\S]*?<\/think>/gi` is `jsReplaceAllBlocks`, and 7
is the length of `<think>`. The group of a block match is always set. -/
def assistantMessageParts (reasoning displayContent : Option String) : Option String × String :=
  let reasoningStr := initialReasoningStr reasoning
  let displayContent := displayContent.getD ""
  match blockExec thinkOpen.data thinkClose.data displayContent.data with
  | some completeThinkMatch =>
    (if isFalsy reasoningStr then some (jsTrim (completeThinkMatch.group1.getD "")) else reasoningStr,
      jsTrim (jsReplaceAllBlocks displayContent thinkOpen thinkClose ""))
  | none =>
    if jsIncludes displayContent thinkOpen then
      let thinkStartIdx := jsIndexOf displayContent thinkOpen
      let contentBeforeThink := jsTrim ⟨jsSlice displayContent.data 0 thinkStartIdx.toNat⟩
      let thinkingContent := jsTrim ⟨displayContent.data.drop (thinkStartIdx + 7).toNat⟩
      (if isFalsy reasoningStr && thinkingContent != "" then some thinkingContent else reasoningStr,
        contentBeforeThink)
    else (reasoningStr, displayContent)

theorem thinkOpen_data : thinkOpen.data = '<' :: "think>".data := rfl
theorem thinkClose_data : thinkClose.data = '<' :: "/think>".data := rfl

theorem think_open_tail : ∀ t ∈ "think>".data, canonicalize true t ≠ canonicalize true '<' := by
  decide

theorem think_close_tail : ∀ t ∈ "/think>".data, canonicalize true t ≠ canonicalize true '<' := by
  decide

/-- A reply that thinks in one complete block: the block's body is the reasoning, unless the
message carries its own, and the text around the block is the content. -/
theorem assistantMessageParts_thinkBlock (reasoning : Option String) {pre body post : String}
    (hpre : includesIgnoreCase pre.data thinkOpen.data = false)
    (hbody : includesIgnoreCase body.data thinkClose.data = false)
    (hpost : includesIgnoreCase post.data thinkOpen.data = false) :
    assistantMessageParts reasoning (some (pre ++ thinkOpen ++ body ++ thinkClose ++ post)) =
      (if isFalsy (initialReasoningStr reasoning) then some (jsTrim body)
        else initialReasoningStr reasoning, jsTrim (pre ++ post)) := by
  have hdata : (pre ++ thinkOpen ++ body ++ thinkClose ++ post).data =
      pre.data ++ thinkOpen.data ++ body.data ++ thinkClose.data ++ post.data := by
    simp only [String.data_append]
  rw [thinkOpen_data] at hpre hpost
  rw [thinkClose_data] at hbody
  have hexec := blockExec_tagged think_open_tail think_close_tail hpre hbody post.data
  have hrep := replaceMatches_blockExecAll_tagged think_open_tail think_close_tail hpre hbody hpost
  rw [← thinkOpen_data, ← thinkClose_data, ← hdata] at hexec hrep
  obtain ⟨m, hm, hgroup⟩ := Option.map_eq_some'.mp hexec
  unfold assistantMessageParts
  dsimp only
  rw [Option.getD_some, hm]
  dsimp only
  rw [hgroup, Option.getD_some, jsReplaceAllBlocks, show "".data = [] from rfl, hrep]
  rfl

theorem assistantMessageParts_answer_after_thinking :
    assistantMessageParts none (some ("" ++ thinkOpen ++ "Add the numbers." ++ thinkClose ++ " It is 4.")) =
      (some "Add the numbers.", "It is 4.") :=
  (assistantMessageParts_thinkBlock none (by decide) (by decide) (by decide)).trans (by decide)

/-- A reply still thinking: the text after the opening tag, if not blank, is the reasoning,
unless the message carries its own, and the text before the tag is the content. -/
theorem assistantMessageParts_unclosed (reasoning : Option String) {pre rest : String}
    (hpre : includesIgnoreCase pre.data thinkOpen.data = false)
    (hrest : includesIgnoreCase rest.data thinkClose.data = false) :
    assistantMessageParts reasoning (some (pre ++ thinkOpen ++ rest)) =
      (if isFalsy (initialReasoningStr reasoning) && jsTrim rest != "" then some (jsTrim rest)
        else initialReasoningStr reasoning, jsTrim pre) := by
  have hdata : (pre ++ thinkOpen ++ rest).data = pre.data ++ thinkOpen.data ++ rest.data := by
    simp only [String.data_append]
  rw [thinkOpen_data] at hpre
  rw [thinkClose_data] at hrest
  have hnone : blockExecFrom ('<' :: "think>".data) ('<' :: "/think>".data)
      (pre.data ++ '<' :: ("think>".data ++ rest.data)) 0 = none :=
    blockExecFrom_unclosed think_open_tail hpre (startsWithIgnoreCase_append _ _)
      (by rwa [List.drop_left])
  have hfirst : firstIndexWhere (startsWithIgnoreCase ('<' :: "think>".data))
      (pre.data ++ ('<' :: "think>".data) ++ rest.data) = some pre.data.length :=
    firstIndexWhere_append_tag think_open_tail hpre
  rw [← List.cons_append, ← List.append_assoc] at hnone
  rw [← thinkOpen_data, ← hdata] at hnone hfirst
  have hindex : jsIndexOf (pre ++ thinkOpen ++ rest) thinkOpen = pre.data.length := by
    rw [jsIndexOf, firstIndexWhere_isPrefixOf_of_ignoreCase hfirst (by
      rw [hdata, List.append_assoc, List.drop_left]
      exact List.isPrefixOf_iff_prefix.mpr (List.prefix_append _ _))]
    rfl
  have hinc : jsIncludes (pre ++ thinkOpen ++ rest) thinkOpen = true :=
    decide_eq_true ⟨pre.data, rest.data, hdata.symm⟩
  have hslice : jsSlice (pre ++ thinkOpen ++ rest).data 0 (pre.data.length : ℤ).toNat = pre.data := by
    rw [Int.toNat_ofNat, jsSlice, List.drop_zero, Nat.sub_zero, hdata, List.append_assoc, List.take_left]
  have hdrop : (pre ++ thinkOpen ++ rest).data.drop ((pre.data.length : ℤ) + 7).toNat = rest.data := by
    rw [show ((pre.data.length : ℤ) + 7).toNat = (pre.data ++ thinkOpen.data).length by
      simp only [List.length_append, show thinkOpen.data.length = 7 from rfl]; omega, hdata,
      List.drop_left]
  rw [← thinkClose_data] at hnone
  unfold assistantMessageParts
  dsimp only
  rw [Option.getD_some, blockExec, hnone, Option.map_none']
  dsimp only
  rw [if_pos hinc, hindex, hslice, hdrop]

theorem assistantMessageParts_still_thinking :
    assistantMessageParts none (some ("Let me check. " ++ thinkOpen ++ "The file has ")) =
      (some "The file has", "Let me check.") :=
  (assistantMessageParts_unclosed none (by decide) (by decide)).trans (by decide)

/-- While a reply is still thinking under an opening tag written in capitals, the thinking is shown
as the content, untrimmed, and the reasoning stays the message's own: the search for a complete
block ignores case, the check for an unfinished one does not. -/
theorem assistantMessageParts_upper_unclosed (reasoning : Option String) {pre rest : String}
    (hpre : includesIgnoreCase pre.data thinkOpen.data = false)
    (hrest : includesIgnoreCase rest.data thinkClose.data = false)
    (hlower : jsIncludes rest thinkOpen = false) :
    assistantMessageParts reasoning (some (pre ++ "<THINK>" ++ rest)) =
      (initialReasoningStr reasoning, pre ++ "<THINK>" ++ rest) := by
  have hdata : (pre ++ "<THINK>" ++ rest).data = pre.data ++ '<' :: ("THINK>".data ++ rest.data) := by
    rw [String.data_append, String.data_append, List.append_assoc]
    rfl
  have hcaps : ¬ thinkOpen.data <:+: (pre ++ "<THINK>" ++ rest).data := by
    have hpre' : ¬ thinkOpen.data <:+: pre.data ++ ['<'] := by
      rw [List.infix_concat_iff, not_or, ← List.reverse_prefix, List.reverse_append]
      exact ⟨by simp [thinkOpen], fun h => by simp [includesIgnoreCase_of_isInfix h] at hpre⟩
    have hrest' : ¬ thinkOpen.data <:+: '>' :: rest.data := by
      rw [List.infix_cons_iff, thinkOpen_data, List.cons_prefix_cons, ← thinkOpen_data]
      exact not_or.mpr ⟨fun h => absurd h.1 (by decide), by simpa [jsIncludes] using hlower⟩
    rw [hdata, show pre.data ++ '<' :: ("THINK>".data ++ rest.data) =
      (pre.data ++ ['<']) ++ 'T' :: ("HIN".data ++ 'K' :: ('>' :: rest.data)) by simp]
    exact not_infix_append_cons (by decide) hpre' (not_infix_append_cons (by decide) (by decide) hrest')
  rw [thinkOpen_data] at hpre
  rw [thinkClose_data] at hrest
  have hnone : blockExecFrom thinkOpen.data thinkClose.data (pre ++ "<THINK>" ++ rest).data 0 = none := by
    rw [hdata, thinkOpen_data, thinkClose_data]
    exact blockExecFrom_unclosed think_open_tail hpre
      (startsWithIgnoreCase_append_right rest.data (by decide)) (by rwa [List.drop_left' (show "THINK>".data.length = "think>".data.length from rfl)])
  unfold assistantMessageParts
  dsimp only
  rw [Option.getD_some, blockExec, hnone, Option.map_none']
  dsimp only
  rw [if_neg (by simpa [jsIncludes] using hcaps)]

theorem assistantMessageParts_capital_think :
    assistantMessageParts none (some ("Okay. " ++ "<THINK>" ++ "still working")) =
      (none, "Okay. <THINK>still working") :=
  (assistantMessageParts_upper_unclosed none (by decide) (by decide) (by decide)).trans (by decide)

end ResonanceAgent.Browser
