import ResonanceAgent.Js.Text
import ResonanceAgent.Common.LlmMessageTypes
import ResonanceAgent.Retry.Number
import ResonanceAgent.Retry.Config
import ResonanceAgent.Retry.Backoff
import ResonanceAgent.Retry.Schedule
import ResonanceAgent.Retry.Contract
import ResonanceAgent.Prompt.PrefixSuffix
import ResonanceAgent.Prompt.ToolXml
import ResonanceAgent.Prompt.AvailableTools
import ResonanceAgent.Prompt.SearchReplace
import ResonanceAgent.Regex.Matcher
import ResonanceAgent.Regex.Replace
import ResonanceAgent.Regex.LazyBlock
import ResonanceAgent.Enforcer.ToolCallEnforcer
import ResonanceAgent.Browser.PathNames
import ResonanceAgent.Browser.EditTool
import ResonanceAgent.Browser.ThinkTags
import ResonanceAgent.Browser.SelectedFiles
import ResonanceAgent.Settings.ModelSelector
