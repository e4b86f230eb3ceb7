import ResonanceAgent.Regex.Replace

/-! # Folder names and base names of paths

`getFolderName(pathStr)` and `getBasename(pathStr, parts)` in `browser/react-types.d.ts` name
files and folders in the sidebar. Both first "unixify" the path with
`pathStr.replace(/[/\\]+/g, '/')` and then split it at `/`.

* `unixify`: that replace, run through the regular expression model; `unixify_eq` shows that it
  writes each maximal run of `/` and `\` as one `/`.
* `getFolderName`: `/` for a path with nothing but separators, else its last one or two
  non-empty parts, each followed by `/`.
* `getBasename`: the last `parts` parts, joined by `/`.
* `getRelative`: a file's path with the path of the first workspace folder it starts with
  removed.

Transcription choices: the parameters are typed `string`, so the `typeof pathStr !== 'string'`
test is left out and the empty path takes that branch; `getBasename`'s default `parts = 1` is
passed explicitly; `console.error` is left out. `getRelative` reads `IWorkspaceContextService`,
which is not under `src/`: what it answers is passed in.
-/

namespace ResonanceAgent.Browser
open ResonanceAgent.Js ResonanceAgent.RegexMatch
set_option autoImplicit false

/-! ## Unixified paths -/

/-- `/` or `\`. -/
def isPathSeparator (c : Char) : Bool := c == '/' || c == '\\'

/-- `/[/\\]+/g`. -/
def separatorRun : RegExp := ⟨.plus (.oneOf ['/', '\\']), false⟩

/-- `pathStr.replace(/[/\\]+/g, '/')`. -/
def unixify (pathStr : String) : String := jsReplaceAll pathStr separatorRun "/"

theorem separatorRun_test : (CharClass.oneOf ['/', '\\']).test false = isPathSeparator := by
  funext c
  simp only [CharClass.test, canonicalize, Bool.false_eq_true, if_false, List.any_cons,
    List.any_nil, Bool.or_false, isPathSeparator, Bool.beq_comm]

/-- The regular expression writes each maximal run of `/` and `\` as one `/`. -/
theorem unixify_eq (pathStr : String) :
    unixify pathStr = ⟨replaceRuns isPathSeparator ['/'] false pathStr.data⟩ := by
  rw [unixify, separatorRun, jsReplaceAll_plus, separatorRun_test]

/-- A unixified path holds `/` and the characters of the path other than separators. -/
theorem mem_unixify {pathStr : String} {c : Char} (h : c ∈ (unixify pathStr).data) :
    c = '/' ∨ (c ∈ pathStr.data ∧ isPathSeparator c = false) := by
  rw [unixify_eq] at h
  exact (mem_replaceRuns _ _ h).imp_left List.mem_singleton.mp

/-- A unixified path holds no `\` and no `//`, and keeps the other characters of the path in
order. -/
theorem unixify_separators (pathStr : String) :
    '\\' ∉ (unixify pathStr).data ∧ ¬ ['/', '/'] <:+: (unixify pathStr).data ∧
      (unixify pathStr).data.filter (fun c => !isPathSeparator c) =
        pathStr.data.filter (fun c => !isPathSeparator c) := by
  refine ⟨fun h => ?_, ?_, ?_⟩
  · rcases mem_unixify h with h | ⟨-, h⟩
    · cases h
    · cases h
  · rw [unixify_eq]
    exact (replaceRuns_no_double _ rfl _ false).1
  · rw [unixify_eq]
    exact filter_replaceRuns _ _ (by simp [isPathSeparator]) _ false

/-! ## `getFolderName` -/

/-- `nonEmptyParts` of `getFolderName`: the parts of the unixified path between `/`s, without
the empty ones. -/
def nonEmptyParts (pathStr : String) : List String :=
  (jsSplit (unixify pathStr) '/').filter fun part => 0 < jsLength part

/-- `getFolderName(pathStr)` for a string. -/
def getFolderName (pathStr : String) : String :=
  if pathStr = "" then "/"
  else
    match nonEmptyParts pathStr with
    | [] => "/"
    | [onlyPart] => onlyPart ++ "/"
    | parts => jsJoin (jsSliceFrom parts (-2)) "/" ++ "/"

theorem mem_nonEmptyParts {pathStr part : String} (h : part ∈ nonEmptyParts pathStr) :
    part ≠ "" ∧ ∀ c ∈ part.data, c ∈ pathStr.data ∧ isPathSeparator c = false := by
  obtain ⟨hpart, hlen⟩ := List.mem_filter.mp h
  refine ⟨(jsLength_pos_iff part).mp (of_decide_eq_true hlen), fun c hc => ?_⟩
  obtain ⟨hne, hcu⟩ := mem_of_mem_jsSplit hpart hc
  exact (mem_unixify hcu).resolve_left hne

theorem not_mem_slash {c : Char} (hc : isPathSeparator c = false) : c ∉ "/".data := by
  rintro h
  rw [show "/".data = ['/'] from rfl, List.mem_singleton] at h
  rw [h] at hc
  cases hc

/-- No part is left exactly when the path is nothing but separators. -/
theorem nonEmptyParts_eq_nil_iff (pathStr : String) :
    nonEmptyParts pathStr = [] ↔ ∀ c ∈ pathStr.data, isPathSeparator c = true := by
  refine ⟨fun h c hc => ?_, fun h => List.eq_nil_iff_forall_not_mem.mpr fun part hpart => ?_⟩
  · by_contra hsep
    rw [Bool.not_eq_true] at hsep
    have hcu : c ∈ (jsJoin (jsSplit (unixify pathStr) '/') "/").data := by
      rw [show "/" = String.singleton '/' from rfl, jsJoin_jsSplit, unixify_eq]
      exact mem_replaceRuns_of_not _ _ hc hsep false
    obtain ⟨part, hpart, hcp⟩ := (mem_jsJoin (not_mem_slash hsep) _).mp hcu
    have hmem : part ∈ nonEmptyParts pathStr := List.mem_filter.mpr ⟨hpart,
      decide_eq_true ((jsLength_pos_iff part).mpr fun hp => by simp [hp] at hcp)⟩
    rw [h] at hmem
    cases hmem
  · obtain ⟨hne, hchars⟩ := mem_nonEmptyParts hpart
    obtain ⟨c, hc⟩ := List.exists_mem_of_ne_nil part.data fun hp => hne (String.ext hp)
    have := (hchars c hc).2
    rw [h c (hchars c hc).1] at this
    cases this

/-- Joined by `/`, a non-empty list of parts of the path is not empty and holds no `\`. -/
theorem jsJoin_parts {pathStr : String} {ps : List String} (hps : ps ≠ [])
    (hsub : ∀ part ∈ ps, part ∈ nonEmptyParts pathStr) :
    jsJoin ps "/" ≠ "" ∧ '\\' ∉ (jsJoin ps "/").data := by
  obtain ⟨p, hp⟩ := List.exists_mem_of_ne_nil ps hps
  obtain ⟨hne, hchars⟩ := mem_nonEmptyParts (hsub p hp)
  obtain ⟨c, hc⟩ := List.exists_mem_of_ne_nil p.data fun h => hne (String.ext h)
  refine ⟨fun hs => ?_, fun h => ?_⟩
  · have hcj := (mem_jsJoin (not_mem_slash (hchars c hc).2) ps).mpr ⟨p, hp, hc⟩
    rw [hs] at hcj
    cases hcj
  · obtain ⟨q, hq, h⟩ := (mem_jsJoin (by decide) ps).mp h
    cases ((mem_nonEmptyParts (hsub q hq)).2 _ h).2

/-- With some part left, the folder name is one or two of the parts joined by `/`, then `/`. -/
theorem getFolderName_of_ne_nil {pathStr : String} (hp : pathStr ≠ "")
    (hne : nonEmptyParts pathStr ≠ []) :
    ∃ ps, ps ≠ [] ∧ (∀ part ∈ ps, part ∈ nonEmptyParts pathStr) ∧
      getFolderName pathStr = jsJoin ps "/" ++ "/" := by
  rw [getFolderName, if_neg hp]
  rcases hparts : nonEmptyParts pathStr with _ | ⟨x, _ | ⟨y, rest⟩⟩
  · exact absurd hparts hne
  · exact ⟨[x], List.cons_ne_nil x [], fun _ h => h, by rw [jsJoin_singleton]⟩
  · exact ⟨_, jsSliceFrom_ne_nil _ (List.cons_ne_nil _ _) (by decide),
      fun _ h => (jsSliceFrom_suffix _ _).subset h, rfl⟩

/-- The folder name ends with `/` and holds no `\`; it is `/` exactly when the path is nothing
but separators (the empty path included). -/
theorem getFolderName_shape (pathStr : String) :
    (getFolderName pathStr).data.getLast? = some '/' ∧ '\\' ∉ (getFolderName pathStr).data ∧
      (getFolderName pathStr = "/" ↔ ∀ c ∈ pathStr.data, isPathSeparator c = true) := by
  have hnil := nonEmptyParts_eq_nil_iff pathStr
  by_cases hp : pathStr = ""
  · subst hp
    exact ⟨rfl, by decide, iff_of_true rfl fun c hc => absurd hc (List.not_mem_nil c)⟩
  by_cases hne : nonEmptyParts pathStr = []
  · rw [getFolderName, if_neg hp, hne]
    exact ⟨rfl, by decide, iff_of_true rfl (hnil.mp hne)⟩
  obtain ⟨ps, hps, hsub, hname⟩ := getFolderName_of_ne_nil hp hne
  obtain ⟨hs, hback⟩ := jsJoin_parts hps hsub
  rw [hname]
  refine ⟨by simp, by simp [hback], iff_of_false (fun h => hs ?_) (mt hnil.mpr hne)⟩
  exact String.ext (List.append_left_eq_self.mp (congrArg String.data h))

/-! ## `getBasename` -/

/-- `getBasename(pathStr, parts)` for a string; a call without `parts` passes 1. -/
def getBasename (pathStr : String) (parts : ℤ) : String :=
  if pathStr = "" then "unknown"
  else
    let allParts := jsSplit (unixify pathStr) '/'
    if allParts.length = 0 then unixify pathStr
    else jsJoin (jsSliceFrom allParts (-parts)) "/"

theorem getLast?_rdropWhile {p : Char → Bool} {xs : List Char} {c : Char}
    (h : (xs.rdropWhile p).getLast? = some c) : p c = false := by
  have hne : xs.rdropWhile p ≠ [] := by rintro h'; simp [h'] at h
  rw [List.getLast?_eq_getLast _ hne, Option.some.injEq] at h
  simpa [h] using List.rdropWhile_last_not p xs hne

/-- Unixifying keeps what follows the last separator as the last part. -/
theorem getLast?_jsSplit_unixify {pathStr : String} {pre tail : List Char}
    (hxs : pathStr.data = pre ++ tail) (htail : ∀ c ∈ tail, isPathSeparator c = false)
    (hpre : ∀ c, pre.getLast? = some c → isPathSeparator c = true) :
    (jsSplit (unixify pathStr) '/').getLast? = some ⟨tail⟩ := by
  have hslash : '/' ∉ tail := fun h => by simpa [isPathSeparator] using htail '/' h
  rw [unixify_eq, hxs, replaceRuns_append, replaceRuns_of_none _ _ htail _]
  have hsplit : jsSplit ⟨tail⟩ '/' = [⟨tail⟩] :=
    jsSplit_of_not_mem (show '/' ∉ (⟨tail⟩ : String).data from hslash)
  rcases List.eq_nil_or_concat pre with rfl | ⟨init, c, rfl⟩
  · rw [show replaceRuns isPathSeparator ['/'] false [] = [] from rfl, List.nil_append, hsplit]
    rfl
  · rw [List.concat_eq_append] at hpre ⊢
    have hc : isPathSeparator c = true := hpre c (List.getLast?_concat init)
    have hrun := rdropWhile_append_rtakeWhile isPathSeparator (init ++ [c])
    have hne : (init ++ [c]).rtakeWhile isPathSeparator ≠ [] := by
      rw [List.rtakeWhile_concat_pos _ _ _ hc]
      exact List.append_ne_nil_of_right_ne_nil _ (List.cons_ne_nil c [])
    rw [← hrun, replaceRuns_append_run _ _ _ hne (fun d hd => List.mem_rtakeWhile_imp hd)
      fun d hd => getLast?_rdropWhile hd, List.append_assoc, List.singleton_append,
      jsSplit_append_sep, hsplit, List.getLast?_concat]

/-- With `parts = 1` the base name is what follows the last `/` or `\` of the path (all of it
when there is none, nothing when the path ends with one). With `parts = 0`, `slice(-0)` keeps
every part, and the base name is the whole unixified path. -/
theorem getBasename_last_part (pathStr : String) (hne : pathStr ≠ "") :
    (∃ pre : List Char, pathStr.data = pre ++ (getBasename pathStr 1).data ∧
      (∀ c ∈ (getBasename pathStr 1).data, isPathSeparator c = false) ∧
      ∀ c, pre.getLast? = some c → isPathSeparator c = true) ∧
    getBasename pathStr 0 = unixify pathStr := by
  have hlen : (jsSplit (unixify pathStr) '/').length ≠ 0 := fun h =>
    jsSplit_ne_nil _ _ (List.eq_nil_of_length_eq_zero h)
  have hrun := rdropWhile_append_rtakeWhile (fun c => !isPathSeparator c) pathStr.data
  have htail : ∀ c ∈ pathStr.data.rtakeWhile (fun c => !isPathSeparator c),
      isPathSeparator c = false := fun c hc => by simpa using List.mem_rtakeWhile_imp hc
  have hpre : ∀ c, (pathStr.data.rdropWhile (fun c => !isPathSeparator c)).getLast? = some c →
      isPathSeparator c = true := fun c hc => by simpa using getLast?_rdropWhile hc
  have hbase : getBasename pathStr 1 = ⟨pathStr.data.rtakeWhile (fun c => !isPathSeparator c)⟩ := by
    rw [getBasename, if_neg hne]
    dsimp only
    rw [if_neg hlen, jsSliceFrom_neg_one _ (getLast?_jsSplit_unixify hrun.symm htail hpre),
      jsJoin_singleton]
  refine ⟨⟨_, by rw [hbase]; exact hrun.symm, by rw [hbase]; exact htail, hpre⟩, ?_⟩
  rw [getBasename, if_neg hne]
  dsimp only
  rw [if_neg hlen, Int.neg_zero, jsSliceFrom_zero]
  exact jsJoin_jsSplit _ '/'

/-- A Windows path that ends with a folder separator. -/
theorem getBasename_trailing_separator :
    "C:\\work\\notes\\" ≠ "" ∧
      (∃ pre : List Char, "C:\\work\\notes\\".data = pre ++ (getBasename "C:\\work\\notes\\" 1).data ∧
        (∀ c ∈ (getBasename "C:\\work\\notes\\" 1).data, isPathSeparator c = false) ∧
        ∀ c, pre.getLast? = some c → isPathSeparator c = true) ∧
      getBasename "C:\\work\\notes\\" 0 = unixify "C:\\work\\notes\\" :=
  ⟨by decide, getBasename_last_part _ (by decide)⟩

/-! ## `getRelative` -/

/-- `getRelative(uri, accessor)`. `fsPath` is `uri.fsPath`; a missing `uri` or `fsPath`, or one
that is not a string, is the empty string, which the defensive check rejects the same way.
`isInside` is `isInsideWorkspace(uri)` and `folders` the `fsPath`s of `getWorkspace().folders`,
in order; `startsWith` is `List.isPrefixOf` on the characters. -/
def getRelative (fsPath : String) (isInside : Bool) (folders : List String) : Option String :=
  if fsPath = "" then none
  else
    let path :=
      if isInside then
        match folders.find? fun f => f.data.isPrefixOf fsPath.data with
        | some f => jsReplaceString fsPath f ""
        | none => fsPath
      else fsPath
    if path = "" then none else some path

/-- What `path || undefined` returns for the rest `rest` of `fsPath` after `pre`. -/
theorem orUndefined_eq_some {fsPath pre rest : String} (h : pre ++ rest = fsPath) (p : String) :
    (if fsPath = "" then none else if rest = "" then none else some rest) = some p ↔
      p ≠ "" ∧ pre ++ p = fsPath := by
  have hcancel : pre ++ p = fsPath ↔ p = rest := by
    rw [← h, String.ext_iff, String.ext_iff, String.data_append, String.data_append,
      List.append_cancel_left_eq]
  rw [hcancel]
  by_cases hr : rest = ""
  · subst hr
    simp
  · have hfs : fsPath ≠ "" := fun hfs => hr (String.ext
      (List.append_eq_nil.mp (by rw [← String.data_append, h, hfs])).2)
    rw [if_neg hfs, if_neg hr, Option.some.injEq]
    exact ⟨fun e => ⟨e ▸ hr, e.symm⟩, fun ⟨_, e⟩ => e.symm⟩

/-- For every file path, answer of `isInsideWorkspace` and list of workspace folders,
`getRelative` returns `path` exactly when `path` is not empty and the path of the first folder
that the file's path starts with (none outside the workspace) followed by `path` is the file's
path. So it returns `undefined` for an empty path and for a folder's own path, and the folder
need not end where a path segment does. -/
theorem getRelative_eq_some (fsPath : String) (isInside : Bool) (folders : List String)
    (path : String) :
    getRelative fsPath isInside folders = some path ↔ path ≠ "" ∧
      (if isInside then folders.find? fun f => f.data.isPrefixOf fsPath.data else none).getD "" ++
        path = fsPath := by
  have hempty : "" ++ fsPath = fsPath := String.ext (by simp)
  unfold getRelative
  cases isInside with
  | false => exact orUndefined_eq_some hempty path
  | true =>
    simp only [if_true]
    cases hf : folders.find? fun f => f.data.isPrefixOf fsPath.data with
    | none => exact orUndefined_eq_some hempty path
    | some f =>
      have hprefix := List.find?_some hf
      exact orUndefined_eq_some
        (append_jsReplaceString_of_startsWith (List.isPrefixOf_iff_prefix.mp hprefix)) path

/-- The workspace folder `/work/app` also claims `/work/app2`. -/
example : getRelative "/work/app2/main.ts" true ["/work/app"] = some "2/main.ts" := by decide

end ResonanceAgent.Browser
