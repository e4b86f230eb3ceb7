import ResonanceAgent.Common.LlmMessageTypes

/-! # Tool calls written back into the history as XML

`reParsedToolXMLString(toolName, toolParams)` in `common/prompt/prompts.ts` prints a parsed
tool call in the XML format of the system prompt:

    <toolName>
    <paramName>value</paramName>
    ...
    </toolName>

(each tag line indented by four spaces), and then applies `.replace('\t', '  ')` to the whole
text. A string pattern makes `replace` act on the FIRST tab only, and the template has none, so
the tab it replaces is the first one in the tool name, a key or a value.
-/

namespace ResonanceAgent.Prompt
open ResonanceAgent.Js ResonanceAgent.Common
set_option autoImplicit false

/-- `${x}` in a template literal, for a string or `undefined`. -/
def templateString : Option String → String
  | some s => s
  | none => "undefined"

/-- `reParsedToolXMLString(toolName, toolParams)`. -/
def reParsedToolXMLString (toolName : String) (toolParams : RawToolParamsObj) : String :=
  let params := jsJoin (toolParams.keys.map fun paramName =>
    "<" ++ paramName ++ ">" ++ templateString (toolParams.get paramName) ++ "</" ++ paramName ++ ">")
    "\n"
  jsReplace ("    <" ++ toolName ++ ">" ++ (if params = "" then "" else "\n" ++ params) ++
    "\n    </" ++ toolName ++ ">") '\t' "  "

/-- One parameter as a tag: `<key>value</key>`. -/
def paramTag (entry : String × String) : String :=
  "<" ++ entry.1 ++ ">" ++ entry.2 ++ "</" ++ entry.1 ++ ">"

/-- The serialization with every key and value verbatim and nothing replaced. -/
def verbatimToolXML (toolName : String) (toolParams : RawToolParamsObj) : String :=
  "    <" ++ toolName ++ ">" ++
    (if toolParams.entries = [] then "" else "\n" ++ jsJoin (toolParams.entries.map paramTag) "\n") ++
    "\n    </" ++ toolName ++ ">"

/-! ## The template before `replace` -/

theorem keys_map_get (toolParams : RawToolParamsObj) :
    (toolParams.keys.map fun paramName =>
      "<" ++ paramName ++ ">" ++ templateString (toolParams.get paramName) ++ "</" ++ paramName ++ ">") =
      toolParams.entries.map paramTag := by
  rw [RawToolParamsObj.keys, List.map_map]
  refine List.map_congr_left fun entry he => ?_
  simp [RawToolParamsObj.get_of_mem toolParams he, paramTag,
    templateString]

theorem jsJoin_eq_empty_iff (xs : List String) (hxs : ∀ x ∈ xs, x ≠ "") (sep : String) :
    jsJoin xs sep = "" ↔ xs = [] := by
  cases xs with
  | nil => simp [jsJoin, String.ext_iff, List.intercalate]
  | cons x xs =>
    have hx : x.data ≠ [] := fun h => hxs x (List.mem_cons_self x xs) (String.ext h)
    simp only [jsJoin, String.ext_iff, List.map_cons, reduceCtorEq, iff_false]
    cases xs with
    | nil => simpa [List.intercalate] using hx
    | cons y ys => simp [List.intercalate, List.intersperse_cons_cons, hx]

theorem paramTag_ne_empty (entry : String × String) : paramTag entry ≠ "" := by
  simp [paramTag, String.ext_iff]

/-- Before `replace`, the template is the verbatim serialization. -/
theorem reParsedToolXMLString_eq_jsReplace (toolName : String) (toolParams : RawToolParamsObj) :
    reParsedToolXMLString toolName toolParams =
      jsReplace (verbatimToolXML toolName toolParams) '\t' "  " := by
  have hempty := jsJoin_eq_empty_iff (toolParams.entries.map paramTag)
    (fun x hx => by obtain ⟨e, -, rfl⟩ := List.mem_map.mp hx; exact paramTag_ne_empty e) "\n"
  simp only [reParsedToolXMLString, verbatimToolXML, keys_map_get, hempty, List.map_eq_nil_iff]

/-! ## Where a tab can be -/

theorem tab_mem_paramTag (entry : String × String) :
    '\t' ∈ (paramTag entry).data ↔ '\t' ∈ entry.1.data ∨ '\t' ∈ entry.2.data := by
  have h1 : '\t' ∉ "<".data := by decide
  have h2 : '\t' ∉ ">".data := by decide
  have h3 : '\t' ∉ "</".data := by decide
  simp only [paramTag, String.data_append, List.mem_append, h1, h2, h3, false_or, or_false]
  tauto

/-- The template's own text has no tab: a tab in the serialization comes from the tool name, a
key or a value. -/
theorem tab_mem_verbatimToolXML (toolName : String) (toolParams : RawToolParamsObj) :
    '\t' ∈ (verbatimToolXML toolName toolParams).data ↔
      '\t' ∈ toolName.data ∨ ∃ entry ∈ toolParams.entries,
        '\t' ∈ entry.1.data ∨ '\t' ∈ entry.2.data := by
  have h1 : '\t' ∉ "    <".data := by decide
  have h2 : '\t' ∉ ">".data := by decide
  have h3 : '\t' ∉ "\n    </".data := by decide
  have h4 : '\t' ∉ "\n".data := by decide
  have h5 : '\t' ∉ "".data := by decide
  rcases hentries : toolParams.entries with _ | ⟨e, es⟩
  · simp [verbatimToolXML, hentries, h1, h2, h3, h5]
  · simp only [verbatimToolXML, hentries, reduceCtorEq, if_false, List.map_cons,
      String.data_append, List.mem_append, h1, h2, h3, h4, mem_jsJoin_cons h4, tab_mem_paramTag,
      List.mem_map, List.mem_cons, false_or, or_false, exists_exists_and_eq_and, or_and_right,
      exists_or, exists_eq_left]
    exact ⟨fun h => h.elim id .inl, .inl⟩

/-! ## What `reParsedToolXMLString` writes -/

/-- The history text is the verbatim serialization with its first tab, if any, replaced by two
spaces; so it is verbatim exactly when no tool name, key or value has a tab. -/
theorem reParsedToolXMLString_first_tab (toolName : String) (toolParams : RawToolParamsObj) :
    reParsedToolXMLString toolName toolParams =
        jsReplace (verbatimToolXML toolName toolParams) '\t' "  " ∧
      (reParsedToolXMLString toolName toolParams = verbatimToolXML toolName toolParams ↔
        '\t' ∉ toolName.data ∧
          ∀ entry ∈ toolParams.entries, '\t' ∉ entry.1.data ∧ '\t' ∉ entry.2.data) := by
  rw [reParsedToolXMLString_eq_jsReplace]
  refine ⟨rfl, ⟨fun h => ?_, fun ⟨hname, hentries⟩ => ?_⟩⟩
  · by_contra htab
    have hmem : '\t' ∈ (verbatimToolXML toolName toolParams).data := by
      rw [tab_mem_verbatimToolXML]
      by_contra hnone
      push_neg at hnone
      exact htab ⟨hnone.1, fun entry he => hnone.2 entry he⟩
    exact jsReplace_ne_of_mem _ _ _ hmem (by decide) h
  · refine jsReplace_of_not_mem _ _ _ fun hmem => ?_
    rcases (tab_mem_verbatimToolXML toolName toolParams).mp hmem with h | ⟨entry, he, h⟩
    · exact hname h
    · exact h.elim (hentries entry he).1 (hentries entry he).2

/-- `rewrite_file` with tab-indented `new_content`. -/
def tabIndentedContent : RawToolParamsObj := ⟨[("new_content", "\tx")], by decide⟩

/-- The tab that indents `new_content` is written back as two spaces. -/
theorem reParsedToolXMLString_tab_indented_content :
    reParsedToolXMLString "rewrite_file" tabIndentedContent ≠
      verbatimToolXML "rewrite_file" tabIndentedContent := by
  decide

end ResonanceAgent.Prompt
