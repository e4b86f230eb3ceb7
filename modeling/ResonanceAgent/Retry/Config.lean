import Mathlib.Data.Rat.Defs
import ResonanceAgent.Js.Text

/-! # Retry configuration and error classification

`electron-main/llmMessage/retryWithBackoff.ts`, the declarations before the loop:

* `JsError`: the three places of a thrown value that `isRetryableError` reads;
* `isRetryableError error retryableStatusCodes`: status, then `response.status`, then a
  `"429"` inside the message. With `retryableStatusCodes` undefined, a truthy status makes
  `includes` throw a `TypeError` (`none`, `isRetryableError_eq_none_iff`);
* `RetryConfig`, whose properties may be left out or set to `undefined`,
  `RequiredRetryConfig` (`Required<RetryConfig>`), `defaultRetryConfig`, and
  `RetryConfig.withDefaults`, the spread `{ ...defaultRetryConfig, ...config }`, which copies a
  property set to `undefined` over its default.

The numbers of a configuration are finite: `NaN` and the infinities are left out. The loop counts
`attempt` exactly, as the code does below `2^53`; a `maxRetries` of `2^53` or more, from which
`attempt++` would stop counting, is left out.
-/

namespace ResonanceAgent.Retry
open ResonanceAgent.Js
set_option autoImplicit false

/-! ## Errors -/

/-- A `status` property as `isRetryableError` reads it: a finite number, by its value, or any
other value, by its truthiness alone, since `includes` never finds it in a list of finite
numbers (`NaN` is falsy, the infinities and non-numbers such as `"503"` are truthy or not as
JavaScript says). -/
inductive StatusValue where
  | number (value : ℚ)
  | other (truthy : Bool)
  deriving DecidableEq

/-- JavaScript truthiness: a number is truthy when it is not zero. -/
def StatusValue.truthy : StatusValue → Bool
  | .number value => value != 0
  | .other truthy => truthy

/-- `retryableStatusCodes.includes(status)`. -/
def StatusValue.includedIn (retryableStatusCodes : List ℚ) : StatusValue → Bool
  | .number value => retryableStatusCodes.contains value
  | .other _ => false

/-- A thrown value as `isRetryableError` sees it: `error?.status`, `error?.response?.status` and
`error?.message`. An absent status is `undefined`, the falsy `.other false`; a `message` that is
absent or not a string is `none`. -/
structure JsError where
  status : StatusValue := .other false
  responseStatus : StatusValue := .other false
  message : Option String := none
  deriving DecidableEq

/-- `status && retryableStatusCodes.includes(status)`, where `none` is the `TypeError` that
`includes` throws on an `undefined` list. -/
def statusIsRetryable (retryableStatusCodes : Option (List ℚ)) (status : StatusValue) : Option Bool :=
  if status.truthy then retryableStatusCodes.map status.includedIn else some false

/-- `error?.message && typeof error.message === 'string' && error.message.includes('429')`. -/
def messageMentions429 : Option String → Bool
  | some message => message != "" && jsIncludes message "429"
  | none => false

/-- `isRetryableError(error, retryableStatusCodes)`: `none` when it throws. -/
def isRetryableError (error : JsError) (retryableStatusCodes : Option (List ℚ)) : Option Bool := do
  if ← statusIsRetryable retryableStatusCodes error.status then return true
  if ← statusIsRetryable retryableStatusCodes error.responseStatus then return true
  return messageMentions429 error.message

/-- With a list of codes, `isRetryableError` returns. -/
theorem isRetryableError_some (error : JsError) (retryableStatusCodes : List ℚ) :
    isRetryableError error (some retryableStatusCodes) =
      some ((error.status.truthy && error.status.includedIn retryableStatusCodes) ||
        (error.responseStatus.truthy && error.responseStatus.includedIn retryableStatusCodes) ||
        messageMentions429 error.message) := by
  simp only [isRetryableError, statusIsRetryable, Option.map_some']
  cases error.status.truthy <;> cases error.responseStatus.truthy <;>
    cases error.status.includedIn retryableStatusCodes <;>
    cases error.responseStatus.includedIn retryableStatusCodes <;> rfl

/-- `isRetryableError` throws exactly when the codes are `undefined` and a status is truthy. -/
theorem isRetryableError_eq_none_iff (error : JsError) (retryableStatusCodes : Option (List ℚ)) :
    isRetryableError error retryableStatusCodes = none ↔
      retryableStatusCodes = none ∧ (error.status.truthy ∨ error.responseStatus.truthy) := by
  cases retryableStatusCodes with
  | some codes => simp [isRetryableError_some]
  | none =>
    simp only [isRetryableError, statusIsRetryable, Option.map_none']
    cases error.status.truthy <;> cases error.responseStatus.truthy <;> simp

/-! ## Configuration -/

/-- A property of an object literal: left out, set to `undefined`, or set to a value. -/
inductive Property (α : Type) where
  | absent
  | undefined
  | value (a : α)
  deriving DecidableEq

/-- What `{ ...defaults, ...config }` holds under the property's name: the default when
`config` lacks the property, else `config`'s own value, `undefined` (`none`) included. -/
def Property.spreadOver {α : Type} (default : Option α) : Property α → Option α
  | .absent => default
  | .undefined => none
  | .value a => some a

/-- `RetryConfig`. -/
structure RetryConfig where
  maxRetries : Property ℚ := .absent
  initialDelayMs : Property ℚ := .absent
  maxDelayMs : Property ℚ := .absent
  backoffMultiplier : Property ℚ := .absent
  retryableStatusCodes : Property (List ℚ) := .absent

/-- `Required<RetryConfig>`, as the values it holds at run time: the type does not keep an
explicit `undefined` (`none`) of the caller's configuration out of the spread. -/
structure RequiredRetryConfig where
  maxRetries : Option ℚ
  initialDelayMs : Option ℚ
  maxDelayMs : Option ℚ
  backoffMultiplier : Option ℚ
  retryableStatusCodes : Option (List ℚ)

/-- `defaultRetryConfig`. -/
def defaultRetryConfig : RequiredRetryConfig where
  maxRetries := some 3
  initialDelayMs := some 1000
  maxDelayMs := some 10000
  backoffMultiplier := some 2
  retryableStatusCodes := some [429, 503, 504]

/-- `{ ...defaultRetryConfig, ...config }`: a property present in `config` wins, even when it is
`undefined`. -/
def RetryConfig.withDefaults (config : RetryConfig) : RequiredRetryConfig where
  maxRetries := config.maxRetries.spreadOver defaultRetryConfig.maxRetries
  initialDelayMs := config.initialDelayMs.spreadOver defaultRetryConfig.initialDelayMs
  maxDelayMs := config.maxDelayMs.spreadOver defaultRetryConfig.maxDelayMs
  backoffMultiplier := config.backoffMultiplier.spreadOver defaultRetryConfig.backoffMultiplier
  retryableStatusCodes := config.retryableStatusCodes.spreadOver defaultRetryConfig.retryableStatusCodes

end ResonanceAgent.Retry
