import Mathlib.Data.List.Nodup
import Neutralino.Config.Overrides

/-!
The effective value of an option after the command line overrode it.

* `isTarget`: the form of the pointers that are overridden; two such pointers
  are equal or stand aside of each other.
* `effective`: what `getOptionForCurrentMode` computes.
* `filter_overrides`: the overrides of a pointer, argument by argument.
* `Starts`, `starts_iff`: when a program starts.
* `override_wins_iff`: **when the last flag wins**.  Two of the options are not
  overridden in the sections of the modes.
-/

namespace Neutralino.settings

open Paths

/-! ### The pointers of the tables -/

/-- A root member, a member of a section of a mode, or a member of `logging` in
one of these two places. -/
def isTarget : List Str → Bool
  | [key] => key ≠ "modes".toList ∧ key ≠ "logging".toList
  | [logging, _] => logging = "logging".toList
  | [modes, _, key] => modes = "modes".toList ∧ key ≠ "logging".toList
  | [modes, _, logging, _] => modes = "modes".toList ∧ logging = "logging".toList
  | _ => false

lemma length_le_of_isTarget {q : List Str} (hq : isTarget q = true) : q.length ≤ 4 := by
  match q, hq with
  | [], _ => decide
  | [_], _ => simp
  | [_, _], _ => simp
  | [_, _, _], _ => simp
  | [_, _, _, _], _ => simp

/-- Two such pointers are equal, or neither leads on from the other. -/
lemma eq_of_prefix_of_isTarget {p q : List Str} (hp : isTarget p = true) (hq : isTarget q = true)
    (h : p <+: q) : p = q := by
  obtain ⟨rest, rfl⟩ := h
  suffices hrest : rest = [] by rw [hrest, List.append_nil]
  have hlength := length_le_of_isTarget hq
  match p, hp, rest, hq with
  | _, _, [], _ => rfl
  | [_], hp, [_], hq => exact absurd (of_decide_eq_true hq) (of_decide_eq_true hp).2
  | [_], hp, [_, _], hq => exact absurd (of_decide_eq_true hq).1 (of_decide_eq_true hp).1
  | [_], hp, [_, _, _], hq => exact absurd (of_decide_eq_true hq).1 (of_decide_eq_true hp).1
  | [_, _], hp, [_], hq =>
      have hlogging : _ = "logging".toList := of_decide_eq_true hp
      exact absurd (hlogging.symm.trans (of_decide_eq_true hq).1) (by decide)
  | [_, _], hp, [_, _], hq =>
      have hlogging : _ = "logging".toList := of_decide_eq_true hp
      exact absurd (hlogging.symm.trans (of_decide_eq_true hq).1) (by decide)
  | [_, _, _], hp, [_], hq => exact absurd (of_decide_eq_true hq).2 (of_decide_eq_true hp).2
  | _ :: _, _, _ :: _ :: _ :: _ :: _, _ =>
      simp only [List.length_append, List.length_cons] at hlength
      omega
  | _ :: _ :: _, _, _ :: _ :: _ :: _, _ =>
      simp only [List.length_append, List.length_cons] at hlength
      omega
  | _ :: _ :: _ :: _, _, _ :: _ :: _, _ =>
      simp only [List.length_append, List.length_cons] at hlength
      omega
  | _ :: _ :: _ :: _ :: _, _, _ :: _, _ =>
      simp only [List.length_append, List.length_cons] at hlength
      omega

lemma eq_or_incomparable {p q : List Str} (hp : isTarget p = true) (hq : isTarget q = true) :
    p = q ∨ Incomparable p q := by
  by_cases heq : p = q
  · exact .inl heq
  · exact .inr ⟨fun h => heq (eq_of_prefix_of_isTarget hp hq h),
      fun h => heq (eq_of_prefix_of_isTarget hq hp h).symm⟩

lemma isTarget_of_mem {mapping : Mapping} (hmapping : mapping ∈ cliMappings) {key : List String}
    (hkey : key ∈ mapping.targets) : isTarget (key.map String.toList) = true := by
  have hall : ∀ mapping ∈ cliMappings, ∀ key ∈ mapping.targets,
      isTarget (key.map String.toList) = true := by
    decide +kernel
  exact hall mapping hmapping key hkey

lemma flag_unique {mapping mapping' : Mapping} (hmapping : mapping ∈ cliMappings)
    (hmapping' : mapping' ∈ cliMappings) (h : mapping'.flag = mapping.flag) : mapping' = mapping := by
  have hnodup : (cliMappings.map Mapping.flag).Nodup := by
    decide +kernel
  exact List.inj_on_of_nodup_map hnodup hmapping' hmapping h

/-- A member of the root or of `logging` is the last token of no other option. -/
lemma getLast?_unique {mapping mapping' : Mapping} (hmapping : mapping ∈ cliMappings)
    (hone : mapping.key.length ≤ 2)
    (hmapping' : mapping' ∈ cliMappings) (h : mapping'.key.getLast? = mapping.key.getLast?) :
    mapping' = mapping := by
  have hall : ∀ mapping ∈ cliMappings, mapping.key.length ≤ 2 → ∀ mapping' ∈ cliMappings,
      mapping'.key.getLast? = mapping.key.getLast? → mapping' = mapping := by
    decide +kernel
  exact hall mapping hmapping hone mapping' hmapping' h

lemma nodup_targets {mapping : Mapping} (hmapping : mapping ∈ cliMappings) : mapping.targets.Nodup := by
  have hall : ∀ mapping ∈ cliMappings, mapping.targets.Nodup := by
    decide +kernel
  exact hall mapping hmapping

lemma key_ne_nil {mapping : Mapping} (hmapping : mapping ∈ cliMappings) : mapping.key ≠ [] := by
  have hall : ∀ mapping ∈ cliMappings, mapping.key ≠ [] := by
    decide +kernel
  exact hall mapping hmapping

/-- The last token of a pointer is that of its option. -/
lemma getLast?_of_mem_targets {mapping : Mapping} (hmapping : mapping ∈ cliMappings)
    {key : List String} (hkey : key ∈ mapping.targets) : key.getLast? = mapping.key.getLast? := by
  rw [Mapping.targets, List.mem_cons] at hkey
  rcases hkey with rfl | hkey
  · rfl
  · split_ifs at hkey
    · obtain ⟨mode, -, rfl⟩ := List.mem_map.mp hkey
      obtain ⟨token, path, hpath⟩ := List.exists_cons_of_ne_nil (key_ne_nil hmapping)
      rw [hpath]
      rfl
    · cases hkey

/-! ### The overrides of a pointer -/

/-- What an argument overrides is found in the tables. -/
lemma mem_overridesOf {arg : CliArg} {o : ConfigOverride} (ho : o ∈ overridesOf arg) :
    ∃ mapping ∈ cliMappings, mapping.flag.toList = arg.key ∧
      ∃ key ∈ mapping.targets, mapping.override arg key = o := by
  rw [overridesOf] at ho
  cases hfind : cliMappings.find? fun mapping => mapping.flag.toList = arg.key with
  | none => simp [hfind] at ho
  | some mapping =>
      rw [hfind] at ho
      have hflag : mapping.flag.toList = arg.key := by simpa using List.find?_some hfind
      simp only at ho
      split_ifs at ho
      · cases ho
      · obtain ⟨key, hkey, rfl⟩ := List.mem_map.mp ho
        exact ⟨mapping, List.mem_of_find?_eq_some hfind, hflag, key, hkey, rfl⟩

lemma overridesOf_of_flag {mapping : Mapping} {arg : CliArg} (hmapping : mapping ∈ cliMappings)
    (hmode : mapping.flag ≠ "--mode") (harg : arg.key = mapping.flag.toList) :
    overridesOf arg = mapping.targets.map (mapping.override arg) := by
  have hfind : cliMappings.find? (fun m => m.flag.toList = arg.key) = some mapping := by
    cases hfind : cliMappings.find? fun m => m.flag.toList = arg.key with
    | none => exact absurd harg.symm (by simpa using List.find?_eq_none.mp hfind mapping hmapping)
    | some found =>
        have hflag : found.flag.toList = arg.key := by simpa using List.find?_some hfind
        rw [flag_unique hmapping (List.mem_of_find?_eq_some hfind)
          (String.toList_inj.mp (hflag.trans harg))]
  rw [overridesOf, hfind]
  simp [hmode]

/-- The overrides that the arguments give. -/
def collected (args : List Str) : List ConfigOverride :=
  args.flatMap fun arg => overridesOf (parseArg arg)

lemma isTarget_of_collected {args : List Str} {o : ConfigOverride} (ho : o ∈ collected args) :
    isTarget o.key = true := by
  obtain ⟨arg, -, ho⟩ := List.mem_flatMap.mp ho
  obtain ⟨mapping, hmapping, -, key, hkey, rfl⟩ := mem_overridesOf ho
  exact isTarget_of_mem hmapping hkey

lemma compatible_collected (args : List Str) : Compatible (collected args) := fun _ ho _ ho' h =>
  eq_of_prefix_of_isTarget (isTarget_of_collected ho) (isTarget_of_collected ho') h

lemma aside_collected {q : List Str} (hq : isTarget q = true) (args : List Str) :
    Aside (collected args) q := fun _ ho => eq_or_incomparable (isTarget_of_collected ho) hq

/-- The arguments that give a flag, in their order. -/
def occurrences (flag : String) (args : List Str) : List CliArg :=
  (args.map parseArg).filter fun arg => arg.key = flag.toList

section RootOption

variable {mapping : Mapping} (hmapping : mapping ∈ cliMappings) (hone : mapping.key.length ≤ 2)
  (hmode : mapping.flag ≠ "--mode")

include hmapping hone hmode

/-- A pointer of such an option is overridden by the occurrences of its flag. -/
lemma filter_overridesOf {key : List String} (hkey : key ∈ mapping.targets) (arg : CliArg) :
    (overridesOf arg).filter (fun o => o.key = key.map String.toList) =
      if arg.key = mapping.flag.toList then [mapping.override arg key] else [] := by
  have hinj : ∀ a b : List String, a.map String.toList = b.map String.toList → a = b :=
    List.map_injective_iff.mpr fun _ _ => String.toList_inj.mp
  split_ifs with harg
  · have honly : mapping.targets.filter (fun target => target = key) = [key] := by
      rw [List.filter_eq, List.count_eq_one_of_mem (nodup_targets hmapping) hkey]
      rfl
    rw [overridesOf_of_flag hmapping hmode harg, List.filter_map, ← List.map_singleton, ← honly]
    refine congrArg _ (List.filter_congr fun target _ => ?_)
    exact decide_eq_decide.mpr ⟨hinj target key, congrArg _⟩
  · refine List.filter_eq_nil_iff.mpr fun o ho => ?_
    obtain ⟨other, hother, hflag, target, htarget, rfl⟩ := mem_overridesOf ho
    rw [decide_eq_true_eq]
    intro heq
    obtain rfl := hinj target key heq
    have hlast := (getLast?_of_mem_targets hother htarget).symm.trans
      (getLast?_of_mem_targets hmapping hkey)
    obtain rfl := getLast?_unique hmapping hone hother hlast
    exact harg hflag.symm

/-- The overrides of the pointer, argument by argument. -/
lemma filter_collected {key : List String} (hkey : key ∈ mapping.targets) (args : List Str) :
    (collected args).filter (fun o => o.key = key.map String.toList) =
      (occurrences mapping.flag args).map fun arg => mapping.override arg key := by
  rw [collected, List.filter_flatMap, occurrences]
  induction args with
  | nil => rfl
  | cons arg args ih =>
      rw [List.flatMap_cons, ih, filter_overridesOf hmapping hone hmode hkey, List.map_cons,
        List.filter_cons]
      by_cases harg : (parseArg arg).key = mapping.flag.toList
      · simp [harg]
      · simp [harg]

end RootOption

/-! ### Reading an option -/

/-- The pointer of an option in the section of a mode. -/
def modePath (mode : AppMode) (key : Str) : List Str := ["modes".toList, appModeToStr mode, key]

/-- What `getOptionForCurrentMode` computes where it returns. -/
def effective (options : Json) (mode : AppMode) (key : Str) : Json :=
  let value := getAt (modePath mode key) options
  if value.isNull then getAt [key] options else value

/-- The sections of the mode are objects or null. -/
def Readable (options : Json) (mode : AppMode) : Prop :=
  Reaches (modePath mode []) options

lemma getOptionForCurrentMode_eq {options : Json} {mode : AppMode}
    (hmode : getMode options = .ok mode) (hreadable : Readable options mode) (key : Str) :
    getOptionForCurrentMode options key = .ok (effective options mode key) := by
  obtain ⟨hroot, hmodes, hsection, -⟩ := hreadable
  replace hmodes : (options.member "modes".toList).IsNode := hmodes
  replace hsection : ((options.member "modes".toList).member (appModeToStr mode)).IsNode := hsection
  rw [getOptionForCurrentMode, hmode, ok_bind, Json.index_of_isNode hroot, ok_bind,
    Json.index_of_isNode hmodes, ok_bind, Json.index_of_isNode hsection, ok_bind,
    Json.index_of_isNode hroot, effective]
  split_ifs with hnull hnull' hnull'
  · rfl
  · exact absurd hnull hnull'
  · exact absurd hnull' hnull
  · rfl

lemma readable_of_getOption {options value : Json} {mode : AppMode} {key : Str}
    (hmode : getMode options = .ok mode)
    (h : getOptionForCurrentMode options key = .ok value) : Readable options mode := by
  rw [getOptionForCurrentMode, hmode, ok_bind] at h
  obtain ⟨modes, hmodes, h⟩ := bind_eq_ok.mp h
  obtain ⟨modeOptions, hsection, h⟩ := bind_eq_ok.mp h
  obtain ⟨leaf, hleaf, -⟩ := bind_eq_ok.mp h
  obtain ⟨hroot, rfl⟩ := Json.isNode_of_index hmodes
  obtain ⟨hmodes, rfl⟩ := Json.isNode_of_index hsection
  exact ⟨hroot, hmodes, (Json.isNode_of_index hleaf).1, trivial⟩

/-! ### The last flag -/

/-- The program starts: with these arguments and this configuration, `init`
returns. -/
structure Starts (env : Environment) (currentDirectory : Str) (args : List Str) (config : Json)
    (s : State) : Prop where
  loads : Loads env (setGlobalArgs currentDirectory args {}).configFile config
  inits : init env (setGlobalArgs currentDirectory args {}) = .ok (true, s)

section Started

variable {env : Environment} {currentDirectory : Str} {args : List Str} {config : Json} {s : State}
  {mode : AppMode}

/-- The options are the configuration with the collected overrides. -/
lemma Starts.applies (h : Starts env currentDirectory args config s) :
    applyOverrides config (collected args) = .ok s.options ∧
      ∃ jLoc, getOptionForCurrentMode s.options "dataLocation" = .ok jLoc := by
  have hoptions := init_options h.loads h.inits
  rwa [setGlobalArgs_configOverrides] at hoptions

/-- What `init` reads from the options it has made. -/
lemma Starts.reads (h : Starts env currentDirectory args config s) :
    (∃ appId, getAppId s.options = .ok appId) ∧ ∃ dataLoc, dataLocation s.options = .ok dataLoc := by
  obtain ⟨config, -, appId, dataLoc, hkept⟩ := init_spec h.inits
  exact ⟨⟨appId, hkept.reads_appId⟩, dataLoc, hkept.reads_dataLoc⟩

/-- The sections of the mode can be read. -/
lemma Starts.readable (h : Starts env currentDirectory args config s)
    (hmode : getMode s.options = .ok mode) : Readable s.options mode := by
  obtain ⟨-, jLoc, hloc⟩ := h.applies
  exact readable_of_getOption hmode hloc

/-- A program starts where its overrides go through and `init` can read its options. -/
lemma exists_starts {final : Json} {appId dataLoc : Str}
    (hload : Loads env (setGlobalArgs currentDirectory args {}).configFile config)
    (happly : applyOverrides config (collected args) = .ok final)
    (happId : getAppId final = .ok appId) (hdata : dataLocation final = .ok dataLoc) :
    ∃ s, Starts env currentDirectory args config s ∧ s.options = final := by
  have hcollected : (setGlobalArgs currentDirectory args {}).configOverrides = collected args :=
    setGlobalArgs_configOverrides currentDirectory args {}
  obtain ⟨s, hinit, hoptions⟩ := init_returns hload (hcollected ▸ happly) happId hdata
  exact ⟨s, ⟨hload, hinit⟩, hoptions⟩

/-- **When a program starts**: its overrides lead through objects and null values and convert,
and `init` can then read the identifier and the data location. -/
theorem starts_iff (hload : Loads env (setGlobalArgs currentDirectory args {}).configFile config) :
    (∃ s, Starts env currentDirectory args config s) ↔
      (∀ o ∈ collected args, Reaches o.key config ∧ ∃ value, o.convert = .ok value) ∧
        ∀ final, applyOverrides config (collected args) = .ok final →
          (∃ appId, getAppId final = .ok appId) ∧ ∃ dataLoc, dataLocation final = .ok dataLoc := by
  constructor
  · rintro ⟨s, h⟩
    refine ⟨fun o ho => ?_, fun final happly => ?_⟩
    · obtain ⟨hreaches, hconvert⟩ :=
        ((applyOverrides_eq_ok_iff (compatible_collected args)).mp h.applies.1).1 o ho
      exact ⟨hreaches, _, hconvert⟩
    · obtain rfl : s.options = final := Except.ok.inj (h.applies.1.symm.trans happly)
      exact h.reads
  · rintro ⟨hthrough, hreads⟩
    have happly := (applyOverrides_eq_ok_iff (compatible_collected args)).mpr
      ⟨fun o ho => ⟨(hthrough o ho).1, (hthrough o ho).2.elim fun value hvalue =>
        hvalue.trans (congrArg _ (ConfigOverride.convert_eq hvalue).symm)⟩, rfl⟩
    obtain ⟨⟨appId, happId⟩, dataLoc, hdata⟩ := hreads _ happly
    obtain ⟨s, h, -⟩ := exists_starts hload happly happId hdata
    exact ⟨s, h⟩

lemma Starts.getOption (h : Starts env currentDirectory args config s)
    (hmode : getMode s.options = .ok mode) (key : Str) :
    getOptionForCurrentMode s.options key = .ok (effective s.options mode key) := by
  exact getOptionForCurrentMode_eq hmode (h.readable hmode) key

/-- The mode depends on its option only. -/
lemma getMode_congr {options options' : Json} (hroot : options.IsNode) (hroot' : options'.IsNode)
    (h : getAt ["defaultMode".toList] options' = getAt ["defaultMode".toList] options) :
    getMode options' = getMode options := by
  have hsame : options'.member "defaultMode".toList = options.member "defaultMode".toList := h
  rw [getMode, getMode, Json.index_of_isNode hroot, Json.index_of_isNode hroot', hsame]

/-- An option whose paths stand aside is read as before. -/
lemma effective_congr {options options' : Json} {key : Str} {mode : AppMode}
    (hmode : getAt (modePath mode key) options' = getAt (modePath mode key) options)
    (hroot : getAt [key] options' = getAt [key] options) :
    effective options' mode key = effective options mode key := by
  rw [effective, effective, hmode, hroot]

/-- The places in the section of a mode have the name of the mode. -/
lemma exists_modePath (mode : AppMode) : ∃ name ∈ helpers.getModes, ∀ (key : String) (rest : List String),
    ("modes" :: name :: key :: rest).map String.toList =
      modePath mode key.toList ++ rest.map String.toList := by
  cases mode with
  | window => exact ⟨"window", by simp [helpers.getModes], fun _ _ => rfl⟩
  | browser => exact ⟨"browser", by simp [helpers.getModes], fun _ _ => rfl⟩
  | cloud => exact ⟨"cloud", by simp [helpers.getModes], fun _ _ => rfl⟩
  | chrome => exact ⟨"chrome", by simp [helpers.getModes], fun _ _ => rfl⟩

variable {mapping : Mapping} {key : String} {arg : CliArg}

/-- A flag with aliases writes into the section of every mode. -/
lemma mem_targets_mode {name : String} (halias : mapping.key ∈ cliMappingAliases)
    (hname : name ∈ helpers.getModes) : "modes" :: name :: mapping.key ∈ mapping.targets := by
  rw [Mapping.targets, if_pos halias]
  exact List.mem_cons_of_mem _ (List.mem_map_of_mem hname)

/-- A pointer of such an option reads as the last occurrence of its flag says. -/
lemma Starts.getAt_target (h : Starts env currentDirectory args config s)
    (hmapping : mapping ∈ cliMappings) (hone : mapping.key.length ≤ 2) (hflag : mapping.flag ≠ "--mode")
    (harg : (occurrences mapping.flag args).getLast? = some arg) {target : List String}
    (htarget : target ∈ mapping.targets) :
    getAt (target.map String.toList) s.options = (mapping.override arg target).converted := by
  rw [getAt_applyOverrides (compatible_collected args) h.applies.1
    (aside_collected (isTarget_of_mem hmapping htarget) args),
    filter_collected hmapping hone hflag htarget, List.getLast?_map, harg]
  rfl

/-- The value of its last occurrence converts. -/
lemma Starts.convert_last (h : Starts env currentDirectory args config s)
    (hmapping : mapping ∈ cliMappings) (hone : mapping.key.length ≤ 2) (hflag : mapping.flag ≠ "--mode")
    (harg : (occurrences mapping.flag args).getLast? = some arg) {target : List String}
    (htarget : target ∈ mapping.targets) :
    (mapping.override arg target).convert = .ok (mapping.override arg target).converted := by
  have hmem := List.mem_map_of_mem (f := fun arg => mapping.override arg target)
    (List.mem_of_getLast? harg)
  rw [← filter_collected hmapping hone hflag htarget] at hmem
  exact (((applyOverrides_eq_ok_iff (compatible_collected args)).mp h.applies.1).1 _
    (List.mem_of_mem_filter hmem)).2

/-- Where the option has no aliases, the section of a mode reads as before. -/
lemma Starts.getAt_modePath (h : Starts env currentDirectory args config s)
    (hmapping : mapping ∈ cliMappings) (hkey : mapping.key = [key])
    (halias : mapping.key ∉ cliMappingAliases) (hlogging : key ≠ "logging") :
    getAt (modePath mode key) s.options = getAt (modePath mode key) config := by
  obtain ⟨name, -, hplace⟩ := exists_modePath mode
  have htarget : isTarget (modePath mode key) = true :=
    decide_eq_true ⟨rfl, fun h => hlogging (String.toList_inj.mp h)⟩
  have hpath : modePath mode key = ["modes", name, key].map String.toList := (hplace key []).symm
  have hnone : (collected args).filter (fun o => o.key = modePath mode key) = [] := by
    refine List.filter_eq_nil_iff.mpr fun o ho heq => ?_
    obtain ⟨arg, -, ho⟩ := List.mem_flatMap.mp ho
    obtain ⟨other, hother, -, target, hmem, rfl⟩ := mem_overridesOf ho
    rw [decide_eq_true_eq, hpath] at heq
    obtain rfl : target = ["modes", name, key] :=
      List.map_injective_iff.mpr (fun _ _ => String.toList_inj.mp) heq
    have hlast := getLast?_of_mem_targets hother hmem
    obtain rfl := getLast?_unique hmapping (by simp [hkey]) hother
      (by rw [← hlast, hkey]; rfl)
    rw [Mapping.targets, if_neg halias, hkey] at hmem
    simp at hmem
  rw [getAt_applyOverrides (compatible_collected args) h.applies.1 (aside_collected htarget args),
    hnone]
  rfl

/-- No value converts to null. -/
lemma ConfigOverride.isNull_of_convert {o : ConfigOverride} (h : o.convert = .ok o.converted) :
    o.converted.isNull = false := by
  rw [convert] at h
  cases hto : o.convertTo with
  | int =>
      rw [hto] at h
      obtain ⟨n, -, hn⟩ := bind_eq_ok.mp h
      rw [← Except.ok.inj hn]
      rfl
  | bool =>
      rw [hto] at h
      rw [← Except.ok.inj h]
      rfl
  | string =>
      rw [hto] at h
      rw [← Except.ok.inj h]
      rfl

/-- The root options without an alias in the sections are the two locations. -/
lemma mem_aliases_iff (hmapping : mapping ∈ cliMappings) (hone : mapping.key.length = 1)
    (hflag : mapping.flag ≠ "--mode") : mapping.key ∈ cliMappingAliases ↔
      mapping.flag ≠ "--data-location" ∧ mapping.flag ≠ "--storage-location" := by
  have hall : ∀ m ∈ cliMappings, m.key.length = 1 → m.flag ≠ "--mode" →
      (m.key ∈ cliMappingAliases ↔
        m.flag ≠ "--data-location" ∧ m.flag ≠ "--storage-location") := by
    decide +kernel
  exact hall mapping hmapping hone hflag

/-- In a program that starts, the last flag wins for every root option but the two locations, and
for these where the section of the current mode leaves the option out, or has the same value. -/
lemma Starts.override_wins (h : Starts env currentDirectory args config s)
    (hmode : getMode s.options = .ok mode) (hmapping : mapping ∈ cliMappings)
    (hkey : mapping.key = [key]) (hflag : mapping.flag ≠ "--mode")
    (harg : (occurrences mapping.flag args).getLast? = some arg) :
    ∃ value, (mapping.override arg mapping.key).convert = .ok value ∧
      (getOptionForCurrentMode s.options key = .ok value ↔
        mapping.flag ≠ "--data-location" ∧ mapping.flag ≠ "--storage-location" ∨
          getAt (modePath mode key) config = .null ∨ getAt (modePath mode key) config = value) := by
  have hone : mapping.key.length = 1 := by rw [hkey]; rfl
  have hroot := h.getAt_target hmapping (by omega) hflag harg List.mem_cons_self
  have hconvert := h.convert_last hmapping (by omega) hflag harg List.mem_cons_self
  have hlocation := mem_aliases_iff hmapping hone hflag
  refine ⟨_, hconvert, ?_⟩
  rw [h.getOption hmode]
  rw [hkey] at hroot
  by_cases halias : mapping.key ∈ cliMappingAliases
  · obtain ⟨name, hname, hplace⟩ := exists_modePath mode
    have hmem : "modes" :: name :: mapping.key ∈ mapping.targets := mem_targets_mode halias hname
    have hsection : getAt (modePath mode key) s.options =
        (mapping.override arg mapping.key).converted := by
      have hpath : modePath mode key = ("modes" :: name :: mapping.key).map String.toList :=
        hkey ▸ (hplace key []).symm
      rw [hpath]
      exact h.getAt_target hmapping (by omega) hflag harg hmem
    rw [effective, hsection, ConfigOverride.isNull_of_convert hconvert]
    exact ⟨fun _ => .inl (hlocation.mp halias), fun _ => rfl⟩
  · have hlogging : key ≠ "logging" := by
      rintro rfl
      have hall : ∀ m ∈ cliMappings, m.key ≠ ["logging"] := by decide +kernel
      exact hall mapping hmapping hkey
    rw [effective, h.getAt_modePath hmapping hkey halias hlogging]
    have hroot' : getAt [key.toList] s.options = (mapping.override arg mapping.key).converted :=
      hkey ▸ hroot
    rw [hroot', or_iff_right (mt hlocation.mpr halias)]
    generalize getAt (modePath mode key) config = configured
    cases configured with
    | null => simp [Json.isNull]
    | _ => simp [Json.isNull]

/-- **When the last flag wins**: where all overrides lead through objects and null values and
convert, and `init` can read the identifier and the data location, the program starts, and the
last flag wins for every root option but the two locations, and for these where the section of
the current mode leaves the option out, or has the same value. -/
theorem override_wins_iff
    (hload : Loads env (setGlobalArgs currentDirectory args {}).configFile config)
    (hthrough : ∀ o ∈ collected args, Reaches o.key config ∧ ∃ value, o.convert = .ok value)
    (hreads : ∀ final, applyOverrides config (collected args) = .ok final →
      (∃ appId, getAppId final = .ok appId) ∧ ∃ dataLoc, dataLocation final = .ok dataLoc)
    (hmapping : mapping ∈ cliMappings) (hkey : mapping.key = [key]) (hflag : mapping.flag ≠ "--mode")
    (harg : (occurrences mapping.flag args).getLast? = some arg) :
    (∃ s, Starts env currentDirectory args config s) ∧
      ∀ s, Starts env currentDirectory args config s → ∃ mode value,
        getMode s.options = .ok mode ∧ (mapping.override arg mapping.key).convert = .ok value ∧
          (getOptionForCurrentMode s.options key = .ok value ↔
            mapping.flag ≠ "--data-location" ∧ mapping.flag ≠ "--storage-location" ∨
              getAt (modePath mode key) config = .null ∨
                getAt (modePath mode key) config = value) := by
  refine ⟨(starts_iff hload).mpr ⟨hthrough, hreads⟩, fun s h => ?_⟩
  obtain ⟨-, jLoc, hloc⟩ := h.applies
  obtain ⟨mode, hmode, -⟩ := bind_eq_ok.mp hloc
  obtain ⟨value, hvalue, hwins⟩ := h.override_wins hmode hmapping hkey hflag harg
  exact ⟨mode, value, hmode, hvalue, hwins⟩

end Started

/-- A system on which every file is the configuration. -/
def environmentOf (config : Json) : Environment where
  localeName := "en_US"
  dataHome := "/home/me/.local/share"
  getFile _ := .ok { data := "config" }
  parse _ := some config

lemma loads_environmentOf (config : Json) (configFile : Str) :
    Loads (environmentOf config) configFile config := ⟨{ data := "config" }, rfl, rfl⟩

/-- Both places of the port are set. -/
def portConfig : Json :=
  .obj [("modes", .obj [("window", .obj [("port", .num 5000)])]), ("port", .num 6000)]

/-- Of two ports, the last is read. -/
theorem port_overridden :
    (∃ s, Starts (environmentOf portConfig) "/" ["/app/bin/app", "--port=1", "--port=8080"]
        portConfig s) ∧
      ∀ s, Starts (environmentOf portConfig) "/" ["/app/bin/app", "--port=1", "--port=8080"]
          portConfig s → ∃ mode value, getMode s.options = .ok mode ∧
        ((⟨"--port", ["port"], .int⟩ : Mapping).override ⟨"--port", "8080"⟩ ["port"]).convert =
          .ok value ∧
        (getOptionForCurrentMode s.options "port".toList = .ok value ↔
          "--port" ≠ "--data-location" ∧ "--port" ≠ "--storage-location" ∨
            getAt (modePath mode "port".toList) portConfig = .null ∨
              getAt (modePath mode "port".toList) portConfig = value) := by
  have hstarts : ∃ s, Starts (environmentOf portConfig) "/"
      ["/app/bin/app", "--port=1", "--port=8080"] portConfig s :=
    ⟨_, ⟨loads_environmentOf _ _, rfl⟩⟩
  obtain ⟨hthrough, hreads⟩ := (starts_iff (loads_environmentOf _ _)).mp hstarts
  exact override_wins_iff (loads_environmentOf _ _) hthrough hreads (by simp [cliMappings]) rfl
    (by decide) rfl

/-- The section of the window mode has the data location. -/
def locationConfig : Json := .obj [("modes", .obj [("window", .obj [("dataLocation", .str "app")])])]

/-- The data location is not overridden there. -/
theorem dataLocation_not_overridden :
    ∃ s, Starts (environmentOf locationConfig) "/" ["/app/bin/app", "--data-location=system"]
        locationConfig s ∧
      (occurrences "--data-location" ["/app/bin/app", "--data-location=system"]).getLast? =
        some ⟨"--data-location", "system"⟩ ∧
      getMode s.options = .ok .window ∧
      getOptionForCurrentMode s.options "dataLocation" = .ok (.str "app") :=
  ⟨_, ⟨loads_environmentOf _ _, rfl⟩, rfl, rfl, rfl⟩

end Neutralino.settings
