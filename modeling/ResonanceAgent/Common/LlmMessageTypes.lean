import Mathlib.Data.List.Nodup
import ResonanceAgent.Js.Text

/-! # The message types that tool calls travel in

`RawToolParamsObj` and `RawToolCallObj` of `common/sendLLMMessageTypes.ts` (imported by the
files under `src/`, not part of them), as the code under `src/` uses them: an object of string
parameters, and a tool call made of a name, its parameters, the keys already complete, an
identifier and a completion flag.

An object is modelled by its entries in `Object.keys` order; it has each key once, which the
structure records.
-/

namespace ResonanceAgent.Common
set_option autoImplicit false

/-- `RawToolParamsObj`: a `{ [paramName]: string }` object, as its entries in `Object.keys`
order. -/
structure RawToolParamsObj where
  entries : List (String × String)
  keys_nodup : (entries.map Prod.fst).Nodup

/-- `Object.keys(toolParams)`. -/
def RawToolParamsObj.keys (toolParams : RawToolParamsObj) : List String :=
  toolParams.entries.map Prod.fst

/-- `toolParams[paramName]`: `undefined` (`none`) for a key that is not there. -/
def RawToolParamsObj.get (toolParams : RawToolParamsObj) (paramName : String) : Option String :=
  toolParams.entries.lookup paramName

/-- Two objects are equal when their entries are. -/
instance : DecidableEq RawToolParamsObj := fun a b =>
  decidable_of_iff (a.entries = b.entries) ⟨fun h => by cases a; cases b; cases h; rfl, by rintro rfl; rfl⟩

/-- `RawToolCallObj`. -/
structure RawToolCallObj where
  name : String
  rawParams : RawToolParamsObj
  doneParams : List String
  id : String
  isDone : Bool
  deriving DecidableEq

private theorem lookup_of_mem_nodup {entries : List (String × String)} (h : (entries.map Prod.fst).Nodup)
    {entry : String × String} (he : entry ∈ entries) : entries.lookup entry.1 = some entry.2 := by
  induction entries with
  | nil => simp at he
  | cons e es ih =>
    obtain ⟨k, v⟩ := e
    rw [List.map_cons, List.nodup_cons] at h
    rcases List.mem_cons.mp he with rfl | he
    · exact List.lookup_cons_self
    · have hne : (entry.1 == k) = false :=
        beq_false_of_ne fun heq => h.1 (List.mem_map.mpr ⟨entry, he, heq⟩)
      rw [List.lookup_cons, hne, ih h.2 he]

theorem RawToolParamsObj.get_of_mem (toolParams : RawToolParamsObj)
    {entry : String × String} (he : entry ∈ toolParams.entries) :
    toolParams.get entry.1 = some entry.2 :=
  lookup_of_mem_nodup toolParams.keys_nodup he

end ResonanceAgent.Common
