import ResonanceAgent.Js.Text

/-! # The model dropdown

`CursorStyleModelSelector.tsx` lists the configured models grouped by family and shows each by a
friendly name.

* `cleanModelId` is `modelName.split('/').pop() || modelName`: the part after the last slash, or
  the whole name when that part is empty (`cleanModelId_append`).
* `getModelFamily` names a model's family from that part; `groupedModels` is the `forEach` that
  fills the record `groups`, kept as its entries in insertion order, which is the order
  `Object.entries` gives back for keys that are not array indices. The dropdown lists what the
  grouping is for (`groupByFamily`): each family once, in order of first appearance, with exactly
  its models in their order; so every model is listed once (`groupedModels_spec`).
* `getModelDisplayName` looks the part up in the object literal `modelMap`. A key the literal
  lacks is looked up on `Object.prototype`, so a name such as `constructor` yields the inherited
  member, not a string.
-/

namespace ResonanceAgent.Settings
open ResonanceAgent.Js
set_option autoImplicit false

/-! ## Model names -/

/-- `ModelSelection`, by the two fields the dropdown reads. -/
structure ModelSelection where
  providerName : String
  modelName : String
deriving DecidableEq, Repr

/-- `ModelOption`, by its selection. -/
structure ModelOption where
  selection : ModelSelection
deriving DecidableEq, Repr

/-- `modelName.split('/').pop() || modelName`; the split is never empty, so `pop` returns its last
part. -/
def cleanModelId (modelName : String) : String :=
  let last := (jsSplit modelName '/').getLast (jsSplit_ne_nil modelName '/')
  if last = "" then modelName else last

/-- The part after the last slash, unless it is empty. -/
theorem cleanModelId_append (pre name : String) (h : '/' ∉ name.data) :
    cleanModelId (pre ++ "/" ++ name) = if name = "" then pre ++ "/" ++ name else name := by
  have hsplit : jsSplit (pre ++ "/" ++ name) '/' = jsSplit pre '/' ++ [name] := by
    rw [← jsSplit_of_not_mem h, ← jsSplit_append_sep]
    congr 1
    simp [String.ext_iff]
  simp only [cleanModelId, hsplit, List.getLast_append_singleton]

/-- `getModelFamily(modelName)`. -/
def getModelFamily (modelName : String) : String :=
  let cleanId := cleanModelId modelName
  if jsIncludes cleanId "opus" then "Opus Family"
  else if jsIncludes cleanId "sonnet" then "Sonnet Family"
  else if jsIncludes cleanId "haiku" then "Haiku Family"
  else "Other Models"

/-! ## Display names -/

/-- The entries of the object literal `modelMap`. -/
def modelMap : List (String × String) :=
  [("claude-3.5-haiku", "Claude Haiku 3.5"), ("claude-3.5-sonnet", "Claude Sonnet 3.5"),
    ("claude-3-7-sonnet-20250219", "Claude Sonnet 3.7"), ("claude-4-opus", "Claude Opus 4"),
    ("claude-4.5-sonnet-think", "Claude Sonnet 4.5 Think"),
    ("claude-haiku-4-5-20251001", "Claude Haiku 4.5"), ("claude-opus-4-1-20250805", "Claude Opus 4.1"),
    ("claude-opus-4-5-20251101", "Claude Opus 4.5"), ("claude-sonnet-4-20250514", "Claude Sonnet 4"),
    ("claude-sonnet-4-20250514-think", "Claude Sonnet 4 Think"),
    ("claude-sonnet-4-5-20250929", "Claude Sonnet 4.5"), ("gpt-4o", "GPT 4o"),
    ("gpt-4o-mini", "GPT 4o Mini"), ("gpt-4-turbo", "GPT 4 Turbo"), ("gpt-3.5-turbo", "GPT 3.5 Turbo"),
    ("o1", "OpenAI o1"), ("o1-mini", "OpenAI o1 Mini"), ("o3-mini", "OpenAI o3 Mini"),
    ("gemini-2.0-flash-exp", "Gemini Flash 2.0"), ("gemini-exp-1206", "Gemini Exp"),
    ("gemini-2.0-flash-thinking-exp-01-21", "Gemini Flash Thinking 2.0"),
    ("deepseek-chat", "DeepSeek Chat"), ("deepseek-reasoner", "DeepSeek Reasoner")]

/-- The properties of `Object.prototype`, which every object literal inherits. -/
def objectPrototypeKeys : List String :=
  ["constructor", "hasOwnProperty", "isPrototypeOf", "propertyIsEnumerable", "toLocaleString",
    "toString", "valueOf", "__defineGetter__", "__defineSetter__", "__lookupGetter__",
    "__lookupSetter__", "__proto__"]

/-- What `modelMap[cleanId] || cleanId` evaluates to: a string, or the member of
`Object.prototype` of that name (a function, or the prototype itself for `__proto__`), which is
truthy. -/
inductive DisplayName
  | text (name : String)
  | inherited (key : String)
deriving DecidableEq, Repr

/-- `getModelDisplayName(modelId)`. -/
def getModelDisplayName (modelId : String) : DisplayName :=
  let cleanId := cleanModelId modelId
  match modelMap.lookup cleanId with
  | some name => .text (if name = "" then cleanId else name)
  | none => if cleanId ∈ objectPrototypeKeys then .inherited cleanId else .text cleanId

/-! ## Grouping by family -/

/-- `if (!groups[family]) groups[family] = []; groups[family].push(model)` on the entries of
`groups`: a new family goes last, a known one gets the model at the end of its list. -/
def addToGroup (family : String) (model : ModelOption) :
    List (String × List ModelOption) → List (String × List ModelOption)
  | [] => [(family, [model])]
  | (f, models) :: groups =>
    if f = family then (f, models ++ [model]) :: groups else (f, models) :: addToGroup family model groups

/-- `groupedModels`, as `Object.entries` lists it. -/
def groupedModels (allModels : List ModelOption) : List (String × List ModelOption) :=
  allModels.foldl (fun groups model => addToGroup (getModelFamily model.selection.modelName) model groups) []

/-- Each value once, at its first occurrence. -/
def firstOccurrences : List String → List String
  | [] => []
  | f :: fs => f :: (firstOccurrences fs).filter (· ≠ f)

/-- What the grouping is for: each family once, in order of first appearance, with the models of
that family in their order. -/
def groupByFamily (allModels : List ModelOption) : List (String × List ModelOption) :=
  (firstOccurrences (allModels.map fun m => getModelFamily m.selection.modelName)).map fun family =>
    (family, allModels.filter fun m => getModelFamily m.selection.modelName = family)

theorem mem_firstOccurrences {f : String} {fs : List String} : f ∈ firstOccurrences fs ↔ f ∈ fs := by
  induction fs with
  | nil => rfl
  | cons g fs ih =>
    simp only [firstOccurrences, List.mem_cons, List.mem_filter, ih, decide_eq_true_eq]
    by_cases hfg : f = g <;> simp [hfg]

theorem firstOccurrences_nodup (fs : List String) : (firstOccurrences fs).Nodup := by
  induction fs with
  | nil => exact List.nodup_nil
  | cons g fs ih =>
    refine List.nodup_cons.mpr ⟨by simp, ih.sublist (List.filter_sublist _)⟩

theorem firstOccurrences_append_singleton (fs : List String) (f : String) :
    firstOccurrences (fs ++ [f]) =
      if f ∈ fs then firstOccurrences fs else firstOccurrences fs ++ [f] := by
  induction fs with
  | nil => rfl
  | cons g fs ih =>
    rw [List.cons_append, firstOccurrences, ih, firstOccurrences]
    by_cases hf : f ∈ fs
    · rw [if_pos hf, if_pos (List.mem_cons_of_mem g hf)]
    · rw [if_neg hf, List.filter_append]
      by_cases hfg : f = g
      · subst hfg
        rw [if_pos (List.mem_cons_self f fs)]
        simp
      · rw [if_neg (by simp [hfg, hf])]
        simp [hfg]

/-- Adding to a record listed family by family. -/
theorem addToGroup_map (family : String) (model : ModelOption) (groups : String → List ModelOption)
    {families : List String} (hnodup : families.Nodup) :
    addToGroup family model (families.map fun f => (f, groups f)) =
      if family ∈ families then
        families.map fun f => (f, if f = family then groups f ++ [model] else groups f)
      else (families.map fun f => (f, groups f)) ++ [(family, [model])] := by
  induction families with
  | nil => rfl
  | cons f families ih =>
    obtain ⟨hnotin, hrest⟩ := List.nodup_cons.mp hnodup
    rw [List.map_cons, addToGroup]
    by_cases hf : f = family
    · subst hf
      simp only [if_true, List.mem_cons_self, List.map_cons]
      congr 1
      exact List.map_congr_left fun g hg => by rw [if_neg fun h : g = f => hnotin (h ▸ hg)]
    · simp only [if_neg hf, ih hrest, List.mem_cons, Ne.symm hf, false_or]
      split <;> simp [hf]

/-- One more model keeps the record what it is for. -/
theorem addToGroup_groupByFamily (allModels : List ModelOption) (model : ModelOption) :
    addToGroup (getModelFamily model.selection.modelName) model (groupByFamily allModels) =
      groupByFamily (allModels ++ [model]) := by
  rw [groupByFamily, addToGroup_map _ _ _ (firstOccurrences_nodup _), groupByFamily, List.map_append,
    List.map_singleton, firstOccurrences_append_singleton]
  simp only [mem_firstOccurrences]
  by_cases hnew : getModelFamily model.selection.modelName ∈
      allModels.map fun m => getModelFamily m.selection.modelName
  · rw [if_pos hnew, if_pos hnew]
    refine List.map_congr_left fun f _ => ?_
    by_cases hf : f = getModelFamily model.selection.modelName
    · simp [List.filter_append, hf]
    · simp [List.filter_append, hf, Ne.symm hf]
  · rw [if_neg hnew, if_neg hnew, List.map_append, List.map_singleton]
    congr 1
    · refine List.map_congr_left fun f hf => ?_
      have hne : getModelFamily model.selection.modelName ≠ f := fun h =>
        hnew (h ▸ mem_firstOccurrences.mp hf)
      simp [List.filter_append, hne]
    · have hnone : allModels.filter (fun m => getModelFamily m.selection.modelName =
          getModelFamily model.selection.modelName) = [] :=
        List.filter_eq_nil_iff.mpr fun m hm heq => hnew (List.mem_map.mpr ⟨m, hm, by simpa using heq⟩)
      simp [List.filter_append, hnone]

theorem groupedModels_eq_groupByFamily (allModels : List ModelOption) :
    groupedModels allModels = groupByFamily allModels := by
  induction allModels using List.reverseRecOn with
  | nil => rfl
  | append_singleton allModels model ih =>
    rw [groupedModels, List.foldl_append, ← groupedModels, ih, List.foldl_cons, List.foldl_nil,
      addToGroup_groupByFamily]

/-- Two Opus models around a GPT model: the Opus family comes first, with both. -/
example : (groupedModels [⟨⟨"anthropic", "claude-4-opus"⟩⟩, ⟨⟨"openai", "gpt-4o"⟩⟩,
    ⟨⟨"anthropic", "claude-opus-4-1-20250805"⟩⟩]).map (fun g => (g.1, g.2.length)) =
    [("Opus Family", 2), ("Other Models", 1)] := by
  decide

/-- Listing, for distinct keys covering every item, the items of each key gives every item once. -/
theorem flatMap_filter_perm (key : ModelOption → String) {families : List String}
    (hnodup : families.Nodup) :
    ∀ {models : List ModelOption}, (∀ m ∈ models, key m ∈ families) →
      (families.flatMap fun f => models.filter fun m => key m = f).Perm models := by
  induction families with
  | nil =>
    intro models hcover
    cases models with
    | nil => exact List.Perm.refl _
    | cons m models => exact absurd (hcover m (List.mem_cons_self m models)) (List.not_mem_nil _)
  | cons f families ih =>
    intro models hcover
    obtain ⟨hf, hrest⟩ := List.nodup_cons.mp hnodup
    have hothers : (families.flatMap fun g => models.filter fun m => key m = g) =
        families.flatMap fun g => (models.filter fun m => !decide (key m = f)).filter fun m => key m = g := by
      refine List.flatMap_congr fun g hg => ?_
      rw [List.filter_filter]
      refine List.filter_congr fun m _ => ?_
      by_cases hmg : key m = g
      · simp [hmg, show g ≠ f from fun h => hf (h ▸ hg)]
      · simp [hmg]
    rw [List.flatMap_cons, hothers]
    refine ((List.Perm.refl _).append (ih hrest fun m hm => ?_)).trans (List.filter_append_perm _ models)
    obtain ⟨hm, hmf⟩ := List.mem_filter.mp hm
    exact (List.mem_cons.mp (hcover m hm)).resolve_left (by simpa using hmf)

/-- The dropdown lists each family once, in order of first appearance, under it exactly the models
of that family in their order, and so every model exactly once. -/
theorem groupedModels_spec (allModels : List ModelOption) :
    groupedModels allModels = groupByFamily allModels ∧
      ((groupedModels allModels).map Prod.fst).Nodup ∧
      ((groupedModels allModels).flatMap Prod.snd).Perm allModels := by
  rw [groupedModels_eq_groupByFamily, groupByFamily, List.map_map]
  refine ⟨rfl, by simpa [Function.comp_def] using firstOccurrences_nodup _, ?_⟩
  rw [List.flatMap_map]
  exact flatMap_filter_perm _ (firstOccurrences_nodup _) fun m hm =>
    mem_firstOccurrences.mpr (List.mem_map.mpr ⟨m, hm, rfl⟩)

end ResonanceAgent.Settings
