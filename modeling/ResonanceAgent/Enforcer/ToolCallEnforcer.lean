import ResonanceAgent.Common.LlmMessageTypes
import ResonanceAgent.Regex.Matcher

/-! # The tool-call enforcer

`enforceToolCall(fullText, chatMode)` in `electron-main/llmMessage/toolCallEnforcer.ts` turns an
agent-mode reply that describes a tool call in prose ("run ...", "create a file named ...",
"edit the file ...", "read the file ...") into that call: the first of `toolCallPatterns` that
matches names the tool, and its capturing group, trimmed, is the one parameter.

* `toolCallPatterns`: the four patterns; each is a lead followed by the same tail,
  ``[`"]?([^`"\n]+)[`"]?`` (`quotedArgument`), and each `extractParams` is `extractParam` of
  its parameter name.
* `enforceToolCall`: the loop over the patterns; a pattern whose `extractParams` throws is
  skipped, as the `catch` does.

`generateUuid()` is the parameter `freshId`; `console.log` and `console.warn` are left out.

The group is a non-empty run of characters other than a backtick, a double quote and a line
break, and that is all the patterns ask of it: when nothing follows `\s+`, backtracking gives the
group the last blank, and `trim()` turns it into the empty string. The group is greedy and the
optional quote after it always matches, so the group of the first pattern that matches runs on to
the next line break, backtick or double quote, or to the end of the reply
(`enforceToolCall_param_run`).
-/

namespace ResonanceAgent.Enforcer
open ResonanceAgent.Js ResonanceAgent.Common ResonanceAgent.RegexMatch
set_option autoImplicit false

/-! ## The patterns -/

/-- A word of a pattern. -/
def word (s : String) : Regex := .lit s.data

/-- `\s+`. -/
def spaces : Regex := .plus .space

/-- ``[`"]?``. -/
def optQuote : Regex := .opt (.cls (.oneOf ['\x60', '"']))

/-- ``[^`"\n]``: what the group takes. -/
def argumentChars : CharClass := .noneOf ['\x60', '"', '\n']

/-- The tail the four patterns share: ``[`"]?([^`"\n]+)[`"]?``. -/
def quotedArgument : Regex := .seq optQuote (.seq (.group (.plus argumentChars)) optQuote)

/-- The lead of the `edit` and `read` patterns: `verb\s+(?:the\s+)?file\s+`. -/
def verbTheFile (verb : String) : Regex :=
  .seq (word verb) (.seq spaces (.seq (.opt (.seq (word "the") spaces)) (.seq (word "file") spaces)))

/-- `ToolCallPattern`: `extractParams` returns `none` where it throws. -/
structure ToolCallPattern where
  pattern : RegExp
  toolName : String
  extractParams : RegExpMatchArray → String → Option RawToolParamsObj

/-- `(match) => ({ [paramName]: match[1].trim() })`: `.trim()` throws on an `undefined` group. -/
def extractParam (paramName : String) (m : RegExpMatchArray) (_fullText : String) :
    Option RawToolParamsObj :=
  m.group1.map fun value => ⟨[(paramName, jsTrim value)], List.nodup_singleton paramName⟩

/-- ``/(?:run|execute|start)\s+(?:the\s+command\s+)?[`"]?([^`"\n]+)[`"]?/i``. -/
def runCommandPattern : ToolCallPattern :=
  ⟨⟨.seq (.seq (.alt (word "run") (.alt (word "execute") (word "start")))
      (.seq spaces (.opt (.seq (word "the") (.seq spaces (.seq (word "command") spaces))))))
      quotedArgument, true⟩, "run_command", extractParam "command"⟩

/-- ``/create\s+(?:a\s+)?(?:new\s+)?file\s+(?:called\s+|named\s+)?[`"]?([^`"\n]+)[`"]?/i``. -/
def createFilePattern : ToolCallPattern :=
  ⟨⟨.seq (.seq (word "create") (.seq spaces (.seq (.opt (.seq (word "a") spaces))
      (.seq (.opt (.seq (word "new") spaces)) (.seq (word "file") (.seq spaces
        (.opt (.alt (.seq (word "called") spaces) (.seq (word "named") spaces)))))))))
      quotedArgument, true⟩, "create_file_or_folder", extractParam "uri"⟩

/-- ``/edit\s+(?:the\s+)?file\s+[`"]?([^`"\n]+)[`"]?/i``. -/
def editFilePattern : ToolCallPattern :=
  ⟨⟨.seq (verbTheFile "edit") quotedArgument, true⟩, "read_file", extractParam "uri"⟩

/-- ``/read\s+(?:the\s+)?file\s+[`"]?([^`"\n]+)[`"]?/i``. -/
def readFilePattern : ToolCallPattern :=
  ⟨⟨.seq (verbTheFile "read") quotedArgument, true⟩, "read_file", extractParam "uri"⟩

/-- `toolCallPatterns`, in the order they are tried. -/
def toolCallPatterns : List ToolCallPattern :=
  [runCommandPattern, createFilePattern, editFilePattern, readFilePattern]

/-- `enforceToolCall(fullText, chatMode)`, with `freshId` for `generateUuid()`. -/
def enforceToolCall (fullText : String) (chatMode : Option String) (freshId : String) :
    Option RawToolCallObj :=
  if chatMode ≠ some "agent" then none
  else if jsLength fullText < 20 then none
  else toolCallPatterns.findSome? fun p =>
    (jsMatch fullText p.pattern).bind fun m =>
      (p.extractParams m fullText).map fun params =>
        { name := p.toolName, rawParams := params, doneParams := params.keys, id := freshId,
          isDone := false }

/-! ## What a pattern captures -/

theorem toolCallPatterns_shape (p : ToolCallPattern) (hp : p ∈ toolCallPatterns) :
    ∃ lead paramName, p.pattern = ⟨.seq lead quotedArgument, true⟩ ∧
      p.extractParams = extractParam paramName ∧
      (p.toolName = "run_command" ∧ paramName = "command" ∨
        (p.toolName = "create_file_or_folder" ∨ p.toolName = "read_file") ∧ paramName = "uri") := by
  simp only [toolCallPatterns, List.mem_cons, List.not_mem_nil, or_false] at hp
  rcases hp with rfl | rfl | rfl | rfl
  · exact ⟨_, _, rfl, rfl, .inl ⟨rfl, rfl⟩⟩
  · exact ⟨_, _, rfl, rfl, .inr ⟨.inl rfl, rfl⟩⟩
  · exact ⟨_, _, rfl, rfl, .inr ⟨.inr rfl, rfl⟩⟩
  · exact ⟨_, _, rfl, rfl, .inr ⟨.inr rfl, rfl⟩⟩

/-- Whatever comes before it, a match of `quotedArgument` sets the group to a non-empty span of
characters of `argumentChars`. -/
theorem quotedArgument_capture {input : List Char} {ignoreCase : Bool} {st st' : MatchState}
    (h : Matches input ignoreCase quotedArgument st st') :
    ∃ a b, st'.capture = some (a, b) ∧ a < b ∧
      ∀ i, a ≤ i → i < b → ∃ c, input[i]? = some c ∧ argumentChars.test ignoreCase c = true := by
  cases h with | seq _ hrest =>
  cases hrest with | seq hgroup hquote =>
  rw [hquote.capture_eq rfl]
  exact hgroup.group_plus

theorem jsMatch_group1 {s : String} {lead : Regex} {ignoreCase : Bool} {m : RegExpMatchArray}
    (h : jsMatch s ⟨.seq lead quotedArgument, ignoreCase⟩ = some m) :
    ∃ a b, a < b ∧ m.group1 = some ⟨jsSlice s.data a b⟩ ∧
      ∀ i, a ≤ i → i < b → ∃ c, s.data[i]? = some c ∧ argumentChars.test ignoreCase c = true := by
  obtain ⟨st, hmatch, hm⟩ := (exec_leftmost h).2.1
  cases hmatch with | seq _ hqa =>
  obtain ⟨a, b, hcap, hab, hchars⟩ := quotedArgument_capture hqa
  refine ⟨a, b, hab, ?_, hchars⟩
  rw [congrArg RegExpMatchArray.group1 hm]
  simp only [RegExpMatchArray.ofState, hcap, Option.map_some']

theorem optQuote_matcher_isSome (input : List Char) (ignoreCase : Bool) (st : MatchState) :
    (optQuote.matcher input ignoreCase st some).isSome := by
  simp only [optQuote, Regex.matcher, isSome_orElse, Option.isSome_some, Bool.or_true]

/-- Whatever state it starts from, a match of `quotedArgument` captures the whole run of
`argumentChars` from where its group starts: the group is greedy, and the optional quote after it
always matches. -/
theorem quotedArgument_matcher_capture {input : List Char} {ignoreCase : Bool}
    {st res : MatchState} (h : quotedArgument.matcher input ignoreCase st some = some res) :
    ∃ a, res.capture = some (a, runEnd input (argumentChars.test ignoreCase) a) := by
  obtain ⟨st₁, -, hgroup⟩ := matcher_sound optQuote st _ h
  replace hgroup : ((stepIf input (argumentChars.test ignoreCase) st₁).bind fun st₂ =>
      starClass input (argumentChars.test ignoreCase)
        (fun st' => optQuote.matcher input ignoreCase ⟨st'.endIndex, some (st₁.endIndex, st'.endIndex)⟩ some)
        (input.length - st₂.endIndex) st₂) = some res := hgroup
  obtain ⟨st₂, hstep, hstar⟩ := Option.bind_eq_some.mp hgroup
  obtain ⟨c, hc, htest, rfl⟩ := stepIf_eq_some hstep
  rw [starClass_of_total (fun _ => optQuote_matcher_isSome _ _ _) _ _ le_rfl] at hstar
  obtain ⟨st₃, hquote, hres⟩ := matcher_sound optQuote _ some hstar
  rw [← Option.some.inj hres, hquote.capture_eq rfl]
  exact ⟨st₁.endIndex, by rw [runEnd_of_getElem? hc htest]; rfl⟩

/-- The group of a match of a pattern that ends in `quotedArgument` spans the whole run of
`argumentChars` from where it starts. -/
theorem execFrom_capture_run {input : List Char} {lead : Regex} {ignoreCase : Bool} {index : ℕ}
    {st : MatchState} (h : (⟨.seq lead quotedArgument, ignoreCase⟩ : RegExp).execFrom input 0 = some (index, st)) :
    ∃ a, st.capture = some (a, runEnd input (argumentChars.test ignoreCase) a) := by
  obtain ⟨-, -, hst, -⟩ := execFrom_eq_some h
  obtain ⟨st', -, hqa⟩ := matcher_sound lead _ _ hst
  exact quotedArgument_matcher_capture hqa

theorem argumentChars_test {ignoreCase : Bool} {c : Char}
    (h : argumentChars.test ignoreCase c = true) : c ≠ '\n' ∧ c ≠ '\x60' ∧ c ≠ '"' := by
  have := CharClass.not_mem_of_test_noneOf h
  simp only [List.mem_cons, List.not_mem_nil, or_false, not_or] at this
  exact ⟨this.2.2, this.1, this.2.1⟩

/-! ## The synthesized call -/

/-- A synthesized call lists its parameter keys as done, and has one parameter, the tool's: the
trimmed text of a non-empty piece of the reply without a line break, backtick or double quote.
That text may be empty. -/
theorem enforceToolCall_synthesized_param (fullText : String) (chatMode : Option String)
    (freshId : String) (call : RawToolCallObj)
    (h : enforceToolCall fullText chatMode freshId = some call) :
    chatMode = some "agent" ∧ 20 ≤ jsLength fullText ∧ call.id = freshId ∧ call.isDone = false ∧
      call.doneParams = call.rawParams.keys ∧
      ∃ paramName value, call.rawParams.entries = [(paramName, value)] ∧
        (call.name = "run_command" ∧ paramName = "command" ∨
          (call.name = "create_file_or_folder" ∨ call.name = "read_file") ∧ paramName = "uri") ∧
        (∃ piece : String, piece ≠ "" ∧ piece.data <:+: fullText.data ∧ value = jsTrim piece) ∧
        (∀ c, value.data.head? = some c → isJsWhitespace c = false) ∧
        (∀ c, value.data.getLast? = some c → isJsWhitespace c = false) ∧
        '\n' ∉ value.data ∧ '\x60' ∉ value.data ∧ '"' ∉ value.data := by
  unfold enforceToolCall at h
  split_ifs at h with hmode hlen
  obtain ⟨p, hp, hcall⟩ := List.exists_of_findSome?_eq_some h
  obtain ⟨m, hm, hparams⟩ := Option.bind_eq_some.mp hcall
  obtain ⟨params, hext, rfl⟩ := Option.map_eq_some'.mp hparams
  obtain ⟨lead, paramName, hpattern, hextract, hname⟩ := toolCallPatterns_shape p hp
  rw [hpattern] at hm
  obtain ⟨a, b, hab, hgroup, hchars⟩ := jsMatch_group1 hm
  rw [hextract, extractParam, hgroup, Option.map_some', Option.some.injEq] at hext
  subst hext
  have hpiece : ∀ c ∈ (jsTrim ⟨jsSlice fullText.data a b⟩).data,
      c ≠ '\n' ∧ c ≠ '\x60' ∧ c ≠ '"' := fun c hc => by
    obtain ⟨i, hai, hib, hi⟩ := mem_jsSlice _ (mem_of_mem_jsTrim hc)
    obtain ⟨d, hd, htest⟩ := hchars i hai hib
    exact argumentChars_test (Option.some.inj (hd.symm.trans hi) ▸ htest)
  obtain ⟨c, hc, -⟩ := hchars a le_rfl hab
  have hne : jsSlice fullText.data a b ≠ [] := by
    rw [jsSlice_eq_cons _ hab hc]
    exact List.cons_ne_nil _ _
  refine ⟨not_not.mp hmode, Nat.le_of_not_lt hlen, rfl, rfl, rfl, paramName, _, rfl, hname,
    ⟨_, fun h => hne (congrArg String.data h), jsSlice_infix _ a b, rfl⟩,
    fun _ => jsTrim_head, fun _ => jsTrim_getLast, fun h => (hpiece _ h).1 rfl,
    fun h => (hpiece _ h).2.1 rfl, fun h => (hpiece _ h).2.2 rfl⟩

/-- The call for a reply that quotes its command. -/
def npmInstallCall : RawToolCallObj :=
  ⟨"run_command", ⟨[("command", "npm install")], by decide⟩, ["command"], "id", false⟩

theorem enforceToolCall_quoted_command :
    enforceToolCall "Next I will run \"npm install\" in the project root" (some "agent") "id" =
        some npmInstallCall ∧
      (some "agent" = some "agent" ∧
        20 ≤ jsLength "Next I will run \"npm install\" in the project root" ∧
        npmInstallCall.id = "id" ∧ npmInstallCall.isDone = false ∧
        npmInstallCall.doneParams = npmInstallCall.rawParams.keys ∧
        ∃ paramName value, npmInstallCall.rawParams.entries = [(paramName, value)] ∧
          (npmInstallCall.name = "run_command" ∧ paramName = "command" ∨
            (npmInstallCall.name = "create_file_or_folder" ∨ npmInstallCall.name = "read_file") ∧
              paramName = "uri") ∧
          (∃ piece : String, piece ≠ "" ∧
            piece.data <:+: "Next I will run \"npm install\" in the project root".data ∧
            value = jsTrim piece) ∧
          (∀ c, value.data.head? = some c → isJsWhitespace c = false) ∧
          (∀ c, value.data.getLast? = some c → isJsWhitespace c = false) ∧
          '\n' ∉ value.data ∧ '\x60' ∉ value.data ∧ '"' ∉ value.data) :=
  have h : enforceToolCall "Next I will run \"npm install\" in the project root" (some "agent")
      "id" = some npmInstallCall := by decide
  ⟨h, enforceToolCall_synthesized_param _ _ _ _ h⟩

/-- The call a reply that ends in `run` and two blanks gets: its command is empty. -/
theorem enforceToolCall_blank_command :
    (enforceToolCall "We should just go ahead and run  " (some "agent") "id").map
      (fun call => (call.name, call.rawParams.entries)) = some ("run_command", [("command", "")]) := by
  decide

/-- A pattern of the list that matches always yields its parameter: the group is always set. -/
theorem extractParams_isSome {p : ToolCallPattern} (hp : p ∈ toolCallPatterns) {fullText : String}
    {m : RegExpMatchArray} (hm : jsMatch fullText p.pattern = some m) :
    (p.extractParams m fullText).isSome := by
  obtain ⟨lead, paramName, hpattern, hextract, -⟩ := toolCallPatterns_shape p hp
  rw [hpattern] at hm
  obtain ⟨a, b, -, hgroup, -⟩ := jsMatch_group1 hm
  simp only [hextract, extractParam, hgroup, Option.map_some', Option.isSome_some]

/-- The parameter of a synthesized call comes from the first pattern that matches the reply: its
group starts at some index `a` and ends where the run of characters other than a line break, a
backtick and a double quote from `a` ends, and the parameter is that span, trimmed. So it
reaches the next line break, backtick or double quote, or the end of the reply, whatever words
come before it. -/
theorem enforceToolCall_param_run (fullText : String) (chatMode : Option String)
    (freshId : String) (call : RawToolCallObj)
    (h : enforceToolCall fullText chatMode freshId = some call) :
    ∃ pre p post, toolCallPatterns = pre ++ p :: post ∧
      (∀ q ∈ pre, jsMatch fullText q.pattern = none) ∧ call.name = p.toolName ∧
      ∃ index st a paramName, p.pattern.execFrom fullText.data 0 = some (index, st) ∧
        st.capture = some (a, runEnd fullText.data (argumentChars.test true) a) ∧
        call.rawParams.entries = [(paramName,
          jsTrim ⟨jsSlice fullText.data a (runEnd fullText.data (argumentChars.test true) a)⟩)] := by
  unfold enforceToolCall at h
  split_ifs at h
  obtain ⟨pre, p, post, hsplit, hcall, hpre⟩ := List.findSome?_eq_some_iff.mp h
  have hmem : ∀ q ∈ pre ++ p :: post, q ∈ toolCallPatterns := fun q hq => hsplit ▸ hq
  refine ⟨pre, p, post, hsplit, fun q hq => ?_, ?_⟩
  · rcases hm : jsMatch fullText q.pattern with _ | m
    · rfl
    · have hnone := hpre q hq
      rw [hm, Option.some_bind, Option.map_eq_none'] at hnone
      simpa [hnone] using extractParams_isSome (hmem q (List.mem_append_left _ hq)) hm
  obtain ⟨m, hm, hparams⟩ := Option.bind_eq_some.mp hcall
  obtain ⟨params, hext, rfl⟩ := Option.map_eq_some'.mp hparams
  obtain ⟨lead, paramName, hpattern, hextract, -⟩ :=
    toolCallPatterns_shape p (hmem p (List.mem_append_right _ (List.mem_cons_self _ _)))
  obtain ⟨⟨index, st⟩, hfound, rfl⟩ := Option.map_eq_some'.mp hm
  obtain ⟨a, hcap⟩ := execFrom_capture_run (hpattern ▸ hfound)
  rw [hextract, extractParam] at hext
  simp only [RegExpMatchArray.ofState, hcap, Option.map_some', Option.some.injEq] at hext
  exact ⟨rfl, index, st, a, paramName, hfound, hcap, by rw [← hext]⟩

/-- The call for a reply that goes on after its command: the command takes the rest of the line. -/
def npmInstallAndCheckCall : RawToolCallObj :=
  ⟨"run_command", ⟨[("command", "npm install and check the output")], by decide⟩, ["command"],
    "id", false⟩

theorem enforceToolCall_rest_of_line :
    enforceToolCall "Now run npm install and check the output\nThen stop" (some "agent") "id" =
        some npmInstallAndCheckCall ∧
      ∃ pre p post, toolCallPatterns = pre ++ p :: post ∧
        (∀ q ∈ pre, jsMatch "Now run npm install and check the output\nThen stop" q.pattern = none) ∧
        npmInstallAndCheckCall.name = p.toolName ∧
        ∃ index st a paramName,
          p.pattern.execFrom "Now run npm install and check the output\nThen stop".data 0 = some (index, st) ∧
          st.capture = some (a, runEnd "Now run npm install and check the output\nThen stop".data
            (argumentChars.test true) a) ∧
          npmInstallAndCheckCall.rawParams.entries = [(paramName,
            jsTrim ⟨jsSlice "Now run npm install and check the output\nThen stop".data a
              (runEnd "Now run npm install and check the output\nThen stop".data (argumentChars.test true) a)⟩)] :=
  have h : enforceToolCall "Now run npm install and check the output\nThen stop" (some "agent") "id" =
      some npmInstallAndCheckCall := by decide
  ⟨h, enforceToolCall_param_run _ _ _ _ h⟩

/-! ## When the enforcer fires -/

/-- From where `run`, a blank and a character of the argument stand, `runCommandPattern` matches
with the group holding that one character. -/
theorem runCommandPattern_matches {input : List Char} {i : ℕ} {r u n blank c : Char}
    {rest : List Char} (hat : input.drop i = r :: u :: n :: blank :: c :: rest)
    (hr : r.toUpper = 'R') (hu : u.toUpper = 'U') (hn : n.toUpper = 'N')
    (hblank : isJsWhitespace blank = true) (hc : argumentChars.test true c = true) :
    Matches input true runCommandPattern.pattern.source ⟨i, none⟩ ⟨i + 5, some (i + 4, i + 5)⟩ := by
  have hget (k : ℕ) : input[i + k]? = (r :: u :: n :: blank :: c :: rest)[k]? := by
    rw [← hat, List.getElem?_drop]
  have hword (k : ℕ) (d e : Char) (hd : input[i + k]? = some d) (hde : d.toUpper = e.toUpper) :
      Matches input true (.char e) ⟨i + k, none⟩ ⟨i + k + 1, none⟩ :=
    .char (stepIf_of_getElem? hd (by simp only [canonicalize, if_true, hde, beq_self_eq_true]))
  have hrun : Matches input true (word "run") ⟨i, none⟩ ⟨i + 3, none⟩ :=
    .seq (hword 0 r 'r' (by simpa using hget 0) hr) (.seq (hword 1 u 'u' (by simpa using hget 1) hu)
      (.seq (hword 2 n 'n' (by simpa using hget 2) hn) (.empty _)))
  have hspaces : Matches input true spaces ⟨i + 3, none⟩ ⟨i + 4, none⟩ :=
    .plus (stepIf_of_getElem? (c := blank) (by simpa using hget 3) hblank) .refl
  have hgroup : Matches input true (.group (.plus argumentChars)) ⟨i + 4, none⟩
      ⟨i + 5, some (i + 4, i + 5)⟩ :=
    .group (.plus (stepIf_of_getElem? (c := c) (by simpa using hget 4) hc) .refl)
  exact .seq (.seq (.altLeft hrun) (.seq hspaces (.optNone _)))
    (.seq (.optNone _) (.seq hgroup (.optNone _)))

/-- In agent mode, a reply of at least 20 code units in which `run` (in any case) stands before a
blank and a character other than a backtick, a double quote and a line break becomes a
`run_command` call, also where `run` ends a longer word. -/
theorem enforceToolCall_of_run (fullText freshId : String) (i : ℕ) (r u n blank c : Char)
    (rest : List Char) (hlen : 20 ≤ jsLength fullText)
    (hat : fullText.data.drop i = r :: u :: n :: blank :: c :: rest)
    (hr : r.toUpper = 'R') (hu : u.toUpper = 'U') (hn : n.toUpper = 'N')
    (hblank : isJsWhitespace blank = true) (hc : argumentChars.test true c = true) :
    ∃ call, enforceToolCall fullText (some "agent") freshId = some call ∧
      call.name = "run_command" := by
  have hi : i ≤ fullText.data.length := by
    have := congrArg List.length hat
    simp only [List.length_drop, List.length_cons] at this
    omega
  obtain ⟨m, hm⟩ : ∃ m, jsMatch fullText runCommandPattern.pattern = some m :=
    Option.ne_none_iff_exists'.mp fun hnone =>
    exec_eq_none_iff.mp hnone i hi _ (runCommandPattern_matches hat hr hu hn hblank hc)
  obtain ⟨a, b, -, hgroup, -⟩ := jsMatch_group1 hm
  have hparams : runCommandPattern.extractParams m fullText =
      some ⟨[("command", jsTrim ⟨jsSlice fullText.data a b⟩)], List.nodup_singleton _⟩ := by
    simp only [runCommandPattern, extractParam, hgroup, Option.map_some']
  have hname : (enforceToolCall fullText (some "agent") freshId).map RawToolCallObj.name =
      some "run_command" := by
    simp only [enforceToolCall, ne_eq, not_true_eq_false, if_false, Nat.not_lt.mpr hlen,
      toolCallPatterns, List.findSome?_cons, hm, Option.some_bind, hparams, Option.map_some']
    rfl
  exact Option.map_eq_some'.mp hname

theorem enforceToolCall_outrun :
    (20 ≤ jsLength "The sprinter could outrun everyone at the meet" ∧
      "The sprinter could outrun everyone at the meet".data.drop 22 =
        'r' :: 'u' :: 'n' :: ' ' :: 'e' :: "veryone at the meet".data ∧
      'r'.toUpper = 'R' ∧ 'u'.toUpper = 'U' ∧ 'n'.toUpper = 'N' ∧ isJsWhitespace ' ' = true ∧
      argumentChars.test true 'e' = true) ∧
    ∃ call, enforceToolCall "The sprinter could outrun everyone at the meet" (some "agent") "id" =
      some call ∧ call.name = "run_command" :=
  ⟨by decide, enforceToolCall_of_run _ _ 22 'r' 'u' 'n' ' ' 'e' "veryone at the meet".data
    (by decide) (by decide) (by decide) (by decide) (by decide) (by decide) (by decide)⟩

end ResonanceAgent.Enforcer
