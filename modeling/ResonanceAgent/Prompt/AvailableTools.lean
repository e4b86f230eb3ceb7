import Mathlib.Data.List.Basic

/-! # The tools each chat mode offers

`availableTools(chatMode, mcpTools)` in `common/prompt/prompts.ts` decides which tools the model
is told about: none in normal mode, the built-in tools that need no approval in gather mode, and
every built-in tool followed by the MCP tools in agent mode.

* `builtinTools`: the entries of the `builtinTools` record, in key order. Each entry's `name` is
  its key, so `Object.keys(builtinTools)` is the list of names and `builtinTools[toolName]` the
  entry of that name.
* `availableTools`: the function, with `toolName in approvalTypeOfBuiltinToolName` (a record of
  `common/toolsServiceTypes.ts`, which is not under `src/`) as the parameter `inApprovalTable`.

An array is truthy in JavaScript even when empty, so `!(builtinToolNames || mcpTools)` only asks
whether one of the two is defined: normal mode with MCP tools passed gets the empty list, not
`undefined`.
-/

namespace ResonanceAgent.Prompt
set_option autoImplicit false

/-- `ChatMode` of `common/voidSettingsTypes.ts`. -/
inductive ChatMode where
  | normal
  | gather
  | agent
  deriving DecidableEq, Repr

/-- `InternalToolInfo`, by its name: `availableTools` reads neither descriptions nor parameters. -/
structure InternalToolInfo where
  name : String
  deriving DecidableEq, Repr

/-- The entries of `builtinTools`, in key order. -/
def builtinTools : List InternalToolInfo :=
  [⟨"read_file"⟩, ⟨"ls_dir"⟩, ⟨"get_dir_tree"⟩, ⟨"search_pathnames_only"⟩,
    ⟨"search_for_files"⟩, ⟨"search_in_file"⟩, ⟨"read_lint_errors"⟩, ⟨"create_file_or_folder"⟩,
    ⟨"delete_file_or_folder"⟩, ⟨"edit_file"⟩, ⟨"rewrite_file"⟩, ⟨"run_command"⟩,
    ⟨"run_persistent_command"⟩, ⟨"open_persistent_terminal"⟩, ⟨"kill_persistent_terminal"⟩,
    ⟨"read_terminal_output"⟩]

/-- `isABuiltinToolName(toolName)`: `toolNamesSet.has(toolName)`. -/
def isABuiltinToolName (toolName : String) : Bool :=
  (builtinTools.map InternalToolInfo.name).contains toolName

/-- `builtinToolNames?.map(toolName => builtinTools[toolName])`: the built-in tools of a mode,
`undefined` outside gather and agent mode. -/
def effectiveBuiltinTools (inApprovalTable : String → Bool) :
    Option ChatMode → Option (List InternalToolInfo)
  | some .normal => none
  | some .gather => some (builtinTools.filter fun tool => !inApprovalTable tool.name)
  | some .agent => some builtinTools
  | none => none

/-- `availableTools(chatMode, mcpTools)`; `undefined` is `none`. -/
def availableTools (inApprovalTable : String → Bool) (chatMode : Option ChatMode)
    (mcpTools : Option (List InternalToolInfo)) : Option (List InternalToolInfo) :=
  let effectiveMCPTools := if chatMode = some .agent then mcpTools else none
  if (effectiveBuiltinTools inApprovalTable chatMode).isNone && mcpTools.isNone then none
  else some ((effectiveBuiltinTools inApprovalTable chatMode).getD [] ++ effectiveMCPTools.getD [])

/-- Normal mode with an MCP tool list passed: the empty list, not `undefined`. -/
example : availableTools (fun _ => false) (some .normal) (some [⟨"mcp_search"⟩]) = some [] := rfl

end ResonanceAgent.Prompt
