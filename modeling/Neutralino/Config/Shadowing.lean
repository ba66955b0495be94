import Neutralino.Config.AddedArgument

/-!
What one more flag does to the other options.

* `enableLogging`, `enableLogFile`, `logFormat`, `configureLogger`: how
  `__configureLogger` reads the logging options.
* `TurnsTo`: the flag names the mode that the program then has; `getMode_added`.
* `Unchanged`: every other option has the same effective value.
* `unchanged_iff_of_sameMode`: when it is so in the same mode.  A logging flag creates
  the member `logging` in the section of every mode, and this hides the one at the root.
* `ReadsAlike`, `unchanged_iff_of_turned`: when it is so in the mode that a flag names.
* `unchanged_iff`: **when one more flag touches only its own option**: it goes through,
  and it is so in the mode there is then.
-/

namespace Neutralino.settings

open Paths

/-! ### The logger -/

/-- A value, or a default where it is null. -/
def readOr {α : Type} (read : Json → Except Fault α) (default : α) (value : Json) :
    Except Fault α :=
  if value.isNull then .ok default else read value

/-- A field of `logging`. -/
def loggingField {α : Type} (options : Json) (field : Str) (read : Json → Except Fault α)
    (default : α) : Except Fault α := do
  let logging ← getOptionForCurrentMode options "logging"
  readOr read default (← logging.index field)

/-- `NEU_APP_LOG_FORMAT`. -/
def defaultLogFormat : Str := "%level %datetime %msg %loc %user@%host"

def enableLogging (options : Json) : Except Fault Bool :=
  loggingField options "enabled" Json.getBool true

def enableLogFile (options : Json) : Except Fault Bool :=
  loggingField options "writeToLogFile" Json.getBool true

def logFormat (options : Json) : Except Fault Str :=
  loggingField options "format" Json.getString defaultLogFormat

/-- What `__configureLogger` hands to the logger. -/
structure LoggerConfiguration where
  enabled : Bool
  toFile : Bool
  format : Str

/-- `__configureLogger`. -/
def configureLogger (options : Json) : Except Fault LoggerConfiguration := do
  let enabled ← enableLogging options
  let toFile ← enableLogFile options
  let format ← logFormat options
  return ⟨enabled, toFile, format⟩

/-! ### The pointers of a flag -/

/-- The pointers that a flag overrides. -/
def Mapping.Owns (mapping : Mapping) (q : List Str) : Prop :=
  ∃ target ∈ mapping.targets, target.map String.toList = q

/-- The places of `logging`. -/
def loggingPointers : List (List String) :=
  ["logging"] :: helpers.getModes.map fun mode => ["modes", mode, "logging"]

/-- Only the logging flags override below these places. -/
lemma incomparable_loggingPointers {mapping : Mapping} (hmapping : mapping ∈ cliMappings)
    (hhead : mapping.key.head? ≠ some "logging") {target q : List String}
    (htarget : target ∈ mapping.targets) (hq : q ∈ loggingPointers) :
    Incomparable (target.map String.toList) (q.map String.toList) := by
  have hall : ∀ m ∈ cliMappings, m.key.head? ≠ some "logging" → ∀ t ∈ m.targets,
      ∀ q ∈ loggingPointers, ¬ t <+: q ∧ ¬ q <+: t := by
    decide +kernel
  have hinj : Function.Injective String.toList := fun _ _ => String.toList_inj.mp
  obtain ⟨hbefore, hafter⟩ := hall mapping hmapping hhead target htarget q hq
  exact ⟨fun h => hbefore ((List.prefix_map_iff_of_injective hinj).mp h),
    fun h => hafter ((List.prefix_map_iff_of_injective hinj).mp h)⟩

lemma logging_mem_loggingPointers : ["logging"] ∈ loggingPointers := List.mem_cons_self

lemma exists_loggingPointer (mode : AppMode) :
    ∃ q ∈ loggingPointers, q.map String.toList = modePath mode "logging" := by
  obtain ⟨name, hname, hplace⟩ := exists_modePath mode
  exact ⟨["modes", name, "logging"], List.mem_cons_of_mem _ (List.mem_map_of_mem hname),
    hplace "logging" []⟩

/-- The two logging flags. -/
lemma logging_flags {mapping : Mapping} (hmapping : mapping ∈ cliMappings)
    (hhead : mapping.key.head? = some "logging") :
    ∃ field, mapping.key = ["logging", field] ∧ mapping.key ∈ cliMappingAliases ∧
      mapping.flag ≠ "--mode" ∧
      mapping.flag ∈ ["--logging-enabled", "--logging-write-to-log-file"] := by
  have hall : ∀ m ∈ cliMappings, m.key.head? = some "logging" →
      m.key = ["logging", m.key.getLast?.getD ""] ∧ m.key ∈ cliMappingAliases ∧
        m.flag ≠ "--mode" ∧ m.flag ∈ ["--logging-enabled", "--logging-write-to-log-file"] := by
    decide +kernel
  exact ⟨_, hall mapping hmapping hhead⟩

/-- What a flag overrides. -/
lemma owns_of_mem {mapping : Mapping} (hmapping : mapping ∈ cliMappings) {arg : CliArg}
    (harg : arg.key = mapping.flag.toList) {o : ConfigOverride} (ho : o ∈ overridesOf arg) :
    mapping.Owns o.key := by
  obtain ⟨other, hother, hflag, target, htarget, rfl⟩ := mem_overridesOf ho
  obtain rfl := flag_unique hmapping hother (String.toList_inj.mp (hflag.trans harg))
  exact ⟨target, htarget, rfl⟩

/-- Without a logging flag, the places of `logging` read as configured. -/
lemma Starts.getAt_loggingPointer {env : Environment} {currentDirectory : Str} {args : List Str}
    {config : Json} {s : State} (h : Starts env currentDirectory args config s)
    (hnone : ∀ flag ∈ ["--logging-enabled", "--logging-write-to-log-file"],
      occurrences flag args = []) {q : List String} (hq : q ∈ loggingPointers) :
    getAt (q.map String.toList) s.options = getAt (q.map String.toList) config := by
  have haside : ∀ o ∈ collected args, Incomparable o.key (q.map String.toList) := by
    intro o ho
    obtain ⟨arg, harg, ho⟩ := List.mem_flatMap.mp ho
    obtain ⟨mapping, hmapping, hflag, target, htarget, rfl⟩ := mem_overridesOf ho
    refine incomparable_loggingPointers hmapping (fun hhead => ?_) htarget hq
    obtain ⟨-, -, -, -, hmem⟩ := logging_flags hmapping hhead
    have hoccurs : parseArg arg ∈ occurrences mapping.flag args :=
      List.mem_filter.mpr ⟨List.mem_map_of_mem harg, by simpa using hflag.symm⟩
    rw [hnone _ hmem] at hoccurs
    cases hoccurs
  have hfilter : (collected args).filter (fun o => o.key = q.map String.toList) = [] :=
    List.filter_eq_nil_iff.mpr fun o ho heq => (haside o ho).ne (of_decide_eq_true heq)
  rw [getAt_applyOverrides (compatible_collected args) h.applies.1
    (fun o ho => .inr (haside o ho)), hfilter]
  rfl

/-- After a logging flag, its field is set in the section of every mode. -/
lemma Starts.section_of_occurs {env : Environment} {currentDirectory : Str} {args : List Str}
    {config : Json} {s : State} (h : Starts env currentDirectory args config s) (mode : AppMode)
    {mapping : Mapping} (hmapping : mapping ∈ cliMappings)
    (hhead : mapping.key.head? = some "logging") (hoccurs : occurrences mapping.flag args ≠ []) :
    getAt (modePath mode "logging") s.options ≠ .null := by
  obtain ⟨field, hkey, halias, hflag, -⟩ := logging_flags hmapping hhead
  obtain ⟨arg, harg⟩ := Option.ne_none_iff_exists'.mp (mt List.getLast?_eq_none_iff.mp hoccurs)
  obtain ⟨name, hname, hplace⟩ := exists_modePath mode
  have htarget : "modes" :: name :: mapping.key ∈ mapping.targets := mem_targets_mode halias hname
  have hshort : mapping.key.length ≤ 2 := by simp [hkey]
  have hvalue := h.getAt_target hmapping hshort hflag harg htarget
  have hconvert := h.convert_last hmapping hshort hflag harg htarget
  have hset := ConfigOverride.isNull_of_convert hconvert
  rw [← hvalue, hkey] at hset
  intro hnull
  have hpath : ("modes" :: name :: ["logging", field]).map String.toList =
      modePath mode "logging" ++ [field.toList] := hplace "logging" [field]
  rw [hpath, getAt_append, hnull] at hset
  cases hset

/-- `logging` is in the section of the mode where a logging flag or the
configuration put it there. -/
lemma Starts.section_ne_null_iff {env : Environment} {currentDirectory : Str} {args : List Str}
    {config : Json} {s : State} (h : Starts env currentDirectory args config s) (mode : AppMode) :
    getAt (modePath mode "logging") s.options ≠ .null ↔
      (∃ name ∈ ["--logging-enabled", "--logging-write-to-log-file"], occurrences name args ≠ []) ∨
        getAt (modePath mode "logging") config ≠ .null := by
  by_cases hnone : ∀ flag ∈ ["--logging-enabled", "--logging-write-to-log-file"],
      occurrences flag args = []
  · obtain ⟨q, hq, hpath⟩ := exists_loggingPointer mode
    rw [← hpath, h.getAt_loggingPointer hnone hq, or_iff_right]
    rintro ⟨name, hname, hoccurs⟩
    exact hoccurs (hnone name hname)
  · obtain ⟨name, hname, hoccurs⟩ : ∃ name ∈ ["--logging-enabled", "--logging-write-to-log-file"],
        occurrences name args ≠ [] := by
      simpa only [not_forall, exists_prop] using hnone
    have hall : ∀ name ∈ ["--logging-enabled", "--logging-write-to-log-file"],
        ∃ m ∈ cliMappings, m.flag = name ∧ m.key.head? = some "logging" := by
      decide +kernel
    obtain ⟨mapping, hmapping, rfl, hhead⟩ := hall name hname
    exact ⟨fun _ => .inl ⟨_, hname, hoccurs⟩,
      fun _ => h.section_of_occurs mode hmapping hhead hoccurs⟩

/-- Where it is not, `logging` at the root reads as configured. -/
lemma Starts.getAt_root_of_section {env : Environment} {currentDirectory : Str} {args : List Str}
    {config : Json} {s : State} (h : Starts env currentDirectory args config s) {mode : AppMode}
    (hsection : getAt (modePath mode "logging") s.options = .null) (field : String) :
    getAt ["logging".toList, field.toList] s.options =
      getAt ["logging".toList, field.toList] config := by
  have hnone : ∀ flag ∈ ["--logging-enabled", "--logging-write-to-log-file"],
      occurrences flag args = [] := by
    intro name hname
    by_contra hoccurs
    exact (h.section_ne_null_iff mode).mpr (.inl ⟨name, hname, hoccurs⟩) hsection
  have hroot : getAt ["logging".toList] s.options = getAt ["logging".toList] config :=
    h.getAt_loggingPointer hnone logging_mem_loggingPointers
  exact congrArg (Json.member field) hroot

/-! ### The other options -/

/-- Every other option has the same effective value, in the current mode. -/
structure Unchanged (mapping : Mapping) (mode : AppMode) (options options' : Json) : Prop where
  option : ∀ key : Str, key ≠ "modes".toList → key ≠ "logging".toList → ¬ mapping.Owns [key] →
    ¬ mapping.Owns (modePath mode key) →
      getOptionForCurrentMode options' key = getOptionForCurrentMode options key
  enabled : mapping.key ≠ ["logging", "enabled"] → enableLogging options' = enableLogging options
  writeToLogFile : mapping.key ≠ ["logging", "writeToLogFile"] →
    enableLogFile options' = enableLogFile options
  format : logFormat options' = logFormat options

/-- The other fields of `logging` at the root are null or what they default to. -/
structure RootDefaults (mapping : Mapping) (config : Json) : Prop where
  enabled : mapping.key ≠ ["logging", "enabled"] →
    readOr Json.getBool true (getAt ["logging".toList, "enabled".toList] config) = .ok true
  writeToLogFile : mapping.key ≠ ["logging", "writeToLogFile"] →
    readOr Json.getBool true (getAt ["logging".toList, "writeToLogFile".toList] config) = .ok true
  format : readOr Json.getString defaultLogFormat
    (getAt ["logging".toList, "format".toList] config) = .ok defaultLogFormat

/-- A logging flag is not the first to put `logging` into the section of the mode, or it hides
nothing there but defaults; another flag is no logging flag. -/
def LeavesLogging (mapping : Mapping) (mode : AppMode) (args : List Str) (config : Json) : Prop :=
  mapping.key.head? ≠ some "logging" ∨
    (∃ name ∈ ["--logging-enabled", "--logging-write-to-log-file"], occurrences name args ≠ []) ∨
    getAt (modePath mode "logging") config ≠ .null ∨ RootDefaults mapping config

section OneMore

variable {env : Environment} {currentDirectory : Str} {before after : List Str} {flag : Str}
  {config : Json} {s s' : State} {mode : AppMode} {mapping : Mapping}
  (h : Starts env currentDirectory (before ++ after) config s)
  (h' : Starts env currentDirectory (before ++ flag :: after) config s')
  (hmode : getMode s.options = .ok mode) (hmode' : getMode s'.options = .ok mode)
  (hmapping : mapping ∈ cliMappings) (hflag : (parseArg flag).key = mapping.flag.toList)

include h h' hmapping hflag

/-- A pointer that the flag does not override reads as without it. -/
lemma getAt_of_not_owns {q : List Str} (hq : isTarget q = true) (howns : ¬ mapping.Owns q) :
    getAt q s'.options = getAt q s.options := by
  refine getAt_added h h'.applies.1 fun o ho => ?_
  obtain ⟨target, htarget, hkey⟩ := owns_of_mem hmapping hflag ho
  rw [← hkey]
  refine (eq_or_incomparable (isTarget_of_mem hmapping htarget) hq).resolve_left fun heq => ?_
  exact howns ⟨target, htarget, heq⟩

include hmode hmode'

/-- The options but `logging` are unchanged. -/
lemma getOption_of_not_owns {key : Str} (hmodes : key ≠ "modes".toList)
    (hlogging : key ≠ "logging".toList) (hroot : ¬ mapping.Owns [key])
    (hsection : ¬ mapping.Owns (modePath mode key)) :
    getOptionForCurrentMode s'.options key = getOptionForCurrentMode s.options key := by
  have htarget : isTarget [key] = true := decide_eq_true ⟨hmodes, hlogging⟩
  have htarget' : isTarget (modePath mode key) = true := decide_eq_true ⟨rfl, hlogging⟩
  rw [h.getOption hmode, h'.getOption hmode', effective, effective,
    getAt_of_not_owns h h' hmapping hflag htarget hroot,
    getAt_of_not_owns h h' hmapping hflag htarget' hsection]

/-- Another flag leaves `logging` alone. -/
lemma loggingField_of_other {α : Type} (hhead : mapping.key.head? ≠ some "logging") (field : Str)
    (read : Json → Except Fault α) (default : α) :
    loggingField s'.options field read default = loggingField s.options field read default := by
  have hsame : ∀ q ∈ loggingPointers, getAt (q.map String.toList) s'.options =
      getAt (q.map String.toList) s.options := by
    intro q hq
    refine getAt_added h h'.applies.1 fun o ho => ?_
    obtain ⟨target, htarget, hkey⟩ := owns_of_mem hmapping hflag ho
    exact hkey ▸ incomparable_loggingPointers hmapping hhead htarget hq
  obtain ⟨q, hq, hpath⟩ := exists_loggingPointer mode
  have hsection := hsame q hq
  have hroot : getAt ["logging".toList] s'.options = getAt ["logging".toList] s.options :=
    hsame _ logging_mem_loggingPointers
  rw [hpath] at hsection
  rw [loggingField, loggingField, h.getOption hmode, h'.getOption hmode', effective, effective,
    hsection, hroot]

omit hmode hmode' in
/-- The pointers of the flag are reached, with it and without it. -/
lemma reaches_target (hmodeFlag : mapping.flag ≠ "--mode") {target : List String}
    (htarget : target ∈ mapping.targets) :
    Reaches (target.map String.toList) s.options ∧ Reaches (target.map String.toList) s'.options := by
  have hmem : mapping.override (parseArg flag) target ∈ collected (before ++ flag :: after) := by
    refine List.mem_flatMap.mpr ⟨flag, by simp, ?_⟩
    rw [overridesOf_of_flag hmapping hmodeFlag hflag]
    exact List.mem_map_of_mem htarget
  have hconfig : Reaches (target.map String.toList) config :=
    (((applyOverrides_eq_ok_iff (compatible_collected _)).mp h'.applies.1).1 _ hmem).1
  have hlast : ∀ args, ∀ o ∈ collected args, o.key <+: target.map String.toList →
      o.key = target.map String.toList := fun args o ho =>
    eq_of_prefix_of_isTarget (isTarget_of_collected ho) (isTarget_of_mem hmapping htarget)
  exact ⟨reaches_applyOverrides (compatible_collected _) h.applies.1 (hlast _) hconfig,
    reaches_applyOverrides (compatible_collected _) h'.applies.1 (hlast _) hconfig⟩

omit hmode hmode' in
/-- A logging flag leaves the other fields of `logging` in the section of a mode. -/
lemma member_logging_of_ne {own field : String} (hkey : mapping.key = ["logging", own])
    (hne : field ≠ own) : (getAt (modePath mode "logging") s'.options).member field =
      (getAt (modePath mode "logging") s.options).member field := by
  have hform : isTarget (modePath mode "logging" ++ [field.toList]) = true := by
    show decide ("modes".toList = "modes".toList ∧ "logging".toList = "logging".toList) = true
    exact decide_eq_true ⟨rfl, rfl⟩
  have howns : ¬ mapping.Owns (modePath mode "logging" ++ [field.toList]) := by
    rintro ⟨target, hmem, heq⟩
    have hlast := congrArg List.getLast? heq
    rw [List.getLast?_map, getLast?_of_mem_targets hmapping hmem, hkey] at hlast
    exact hne (String.toList_inj.mp (by simpa using hlast.symm))
  have hsame := getAt_of_not_owns h h' hmapping hflag hform howns
  rwa [getAt_append, getAt_append] at hsame

/-- After a logging flag another field of `logging` is read in the section of the
mode: it is as without the flag where this was so already, or where the field at
the root counts for its default. -/
lemma loggingField_iff {α : Type} {own field : String} (hkey : mapping.key = ["logging", own])
    (hne : field ≠ own) (read : Json → Except Fault α) (default : α) :
    loggingField s'.options field read default = loggingField s.options field read default ↔
      getAt (modePath mode "logging") s.options ≠ .null ∨
        readOr read default (getAt ["logging".toList, field.toList] s.options) = .ok default := by
  have hhead : mapping.key.head? = some "logging" := by rw [hkey]; rfl
  obtain ⟨-, -, halias, hmodeFlag, -⟩ := logging_flags hmapping hhead
  obtain ⟨name, hname, hplace⟩ := exists_modePath mode
  have htarget : ["modes", name, "logging", own] ∈ mapping.targets :=
    hkey ▸ mem_targets_mode halias hname
  have hpath : ["modes", name, "logging", own].map String.toList =
      modePath mode "logging" ++ [own.toList] := hplace "logging" [own]
  -- both places of `logging` are objects or null
  obtain ⟨hreaches, hreaches'⟩ := reaches_target h h' hmapping hflag hmodeFlag htarget
  obtain ⟨hreachesRoot, -⟩ := reaches_target h h' hmapping hflag hmodeFlag List.mem_cons_self
  rw [hpath] at hreaches hreaches'
  rw [hkey] at hreachesRoot
  have hnode : (getAt (modePath mode "logging") s.options).IsNode := hreaches.2.2.2.1
  have hnode' : (getAt (modePath mode "logging") s'.options).IsNode := hreaches'.2.2.2.1
  have hnodeRoot : (getAt ["logging".toList] s.options).IsNode := hreachesRoot.2.1
  -- the flag sets the section of the mode and leaves the field there
  have hset : getAt (modePath mode "logging") s'.options ≠ .null := by
    refine h'.section_of_occurs mode hmapping hhead (List.ne_nil_of_mem (a := parseArg flag) ?_)
    exact List.mem_filter.mpr ⟨List.mem_map_of_mem (by simp), by simpa using hflag⟩
  have hfield : (getAt (modePath mode "logging") s'.options).member field =
      (getAt (modePath mode "logging") s.options).member field :=
    member_logging_of_ne h h' hmapping hflag hkey hne
  have hafter : loggingField s'.options field read default = readOr read default
      ((getAt (modePath mode "logging") s.options).member field) := by
    rw [loggingField, h'.getOption hmode', ok_bind, effective,
      if_neg fun hnull => hset (Json.eq_null_of_isNull hnull), Json.index_of_isNode hnode', hfield,
      ok_bind]
  rw [hafter, loggingField, h.getOption hmode, ok_bind, effective]
  by_cases hnull : getAt (modePath mode "logging") s.options = .null
  · rw [hnull, if_pos (show Json.null.isNull = true from rfl), Json.index_of_isNode hnodeRoot,
      ok_bind]
    exact ⟨fun heq => .inr heq.symm, fun heq => (heq.resolve_left fun hne => hne rfl).symm⟩
  · rw [if_neg fun h => hnull (Json.eq_null_of_isNull h), Json.index_of_isNode hnode, ok_bind]
    exact ⟨fun _ => .inl hnull, fun _ => rfl⟩

/-- In the same mode a flag touches only its own option where it is no logging flag;
or `logging` is already in the section of the mode, put there by another logging flag
or by the configuration; or the other fields at the root count for their defaults. -/
theorem unchanged_iff_of_sameMode :
    Unchanged mapping mode s.options s'.options ↔
      LeavesLogging mapping mode (before ++ after) config := by
  rw [LeavesLogging]
  have hoption := fun key => @getOption_of_not_owns env currentDirectory before after flag config s s'
    mode mapping h h' hmode hmode' hmapping hflag key
  by_cases hhead : mapping.key.head? = some "logging"
  · obtain ⟨own, hkey, -⟩ := logging_flags hmapping hhead
    have hfield := fun {α : Type} (field : String) (hne : field ≠ own) (read : Json → Except Fault α)
      (default : α) => loggingField_iff h h' hmode hmode' hmapping hflag hkey hne read default
    have hown : ∀ field, mapping.key ≠ ["logging", field] → field ≠ own := by
      rintro field hne rfl
      exact hne hkey
    have hformat : "format" ≠ own := by
      rintro rfl
      have hall : ∀ m ∈ cliMappings, m.key ≠ ["logging", "format"] := by decide +kernel
      exact hall mapping hmapping hkey
    rw [or_iff_right (not_not.mpr hhead), ← or_assoc, ← h.section_ne_null_iff mode]
    by_cases hsection : getAt (modePath mode "logging") s.options = .null
    · have hroot := h.getAt_root_of_section hsection
      refine ⟨fun hunchanged => .inr ⟨fun hne => ?_, fun hne => ?_, ?_⟩,
        fun hcond => ⟨hoption, fun hne => ?_, fun hne => ?_, ?_⟩⟩
      · have hread := (hfield "enabled" (hown _ hne) _ _).mp (hunchanged.enabled hne)
        exact hroot "enabled" ▸ hread.resolve_left (not_not.mpr hsection)
      · have hread := (hfield "writeToLogFile" (hown _ hne) _ _).mp (hunchanged.writeToLogFile hne)
        exact hroot "writeToLogFile" ▸ hread.resolve_left (not_not.mpr hsection)
      · have hread := (hfield "format" hformat _ _).mp hunchanged.format
        exact hroot "format" ▸ hread.resolve_left (not_not.mpr hsection)
      · have hdefault := (hcond.resolve_left (not_not.mpr hsection)).enabled hne
        exact (hfield "enabled" (hown _ hne) _ _).mpr (.inr (hroot "enabled" ▸ hdefault))
      · have hdefault := (hcond.resolve_left (not_not.mpr hsection)).writeToLogFile hne
        exact (hfield "writeToLogFile" (hown _ hne) _ _).mpr
          (.inr (hroot "writeToLogFile" ▸ hdefault))
      · have hdefault := (hcond.resolve_left (not_not.mpr hsection)).format
        exact (hfield "format" hformat _ _).mpr (.inr (hroot "format" ▸ hdefault))
    · refine ⟨fun _ => .inl hsection, fun _ => ⟨hoption, fun hne => ?_, fun hne => ?_, ?_⟩⟩
      · exact (hfield "enabled" (hown _ hne) _ _).mpr (.inl hsection)
      · exact (hfield "writeToLogFile" (hown _ hne) _ _).mpr (.inl hsection)
      · exact (hfield "format" hformat _ _).mpr (.inl hsection)
  · refine ⟨fun _ => .inl hhead, fun _ => ⟨hoption, fun _ => ?_, fun _ => ?_, ?_⟩⟩
    · exact loggingField_of_other h h' hmode hmode' hmapping hflag hhead _ _ _
    · exact loggingField_of_other h h' hmode hmode' hmapping hflag hhead _ _ _
    · exact loggingField_of_other h h' hmode hmode' hmapping hflag hhead _ _ _

end OneMore

/-! ### The mode -/

/-- An argument names a mode. -/
def NamesMode (arg : CliArg) (mode : AppMode) : Prop :=
  arg.key = "--mode".toList ∧ arg.value = appModeToStr mode

/-- A flag turns the program to a mode: it names it, and no argument after it names one. -/
def TurnsTo (flag : Str) (after : List Str) (mode : AppMode) : Prop :=
  NamesMode (parseArg flag) mode ∧ ∀ arg ∈ after, ∀ mode', ¬ NamesMode (parseArg arg) mode'

section Modes

variable {arg : CliArg} {o : ConfigOverride} {mode : AppMode}

/-- An override of the mode is by an argument that names one. -/
lemma names_of_override (ho : o ∈ overridesOf arg) (hkey : o.key = ["defaultMode".toList]) :
    ∃ mode, NamesMode arg mode ∧ o.converted = .str (appModeToStr mode) := by
  obtain ⟨mapping, hmapping, hflag, target, htarget, heq⟩ := mem_overridesOf ho
  have hall : ∀ m ∈ cliMappings, ["defaultMode"] ∈ m.targets →
      m = ⟨"--mode", ["defaultMode"], .string⟩ := by
    decide +kernel
  obtain rfl : target = ["defaultMode"] :=
    List.map_injective_iff.mpr (fun _ _ => String.toList_inj.mp)
      ((congrArg ConfigOverride.key heq).trans hkey)
  obtain rfl := hall mapping hmapping htarget
  have hfind : (cliMappings.find? fun mapping => mapping.flag.toList = arg.key) =
      some ⟨"--mode", ["defaultMode"], .string⟩ := by
    rw [← hflag]
    decide +kernel
  rw [overridesOf, hfind] at ho
  dsimp only at ho
  split_ifs at ho with hvalue
  · cases ho
  have hknown : arg.value ∈ helpers.getModes.map String.toList :=
    not_not.mp fun hunknown => hvalue ⟨rfl, hunknown⟩
  have hname : ∃ mode, arg.value = appModeToStr mode := by
    simp only [helpers.getModes, List.map_cons, List.map_nil, List.mem_cons, List.not_mem_nil,
      or_false] at hknown
    rcases hknown with hvalue | hvalue | hvalue | hvalue
    · exact ⟨.window, hvalue⟩
    · exact ⟨.browser, hvalue⟩
    · exact ⟨.cloud, hvalue⟩
    · exact ⟨.chrome, hvalue⟩
  obtain ⟨mode, hmode⟩ := hname
  refine ⟨mode, ⟨hflag.symm, hmode⟩, ?_⟩
  rw [← heq, ← hmode]
  rfl

/-- An argument that names a mode overrides it. -/
lemma overridesOf_names (h : NamesMode arg mode) :
    overridesOf arg = [⟨["defaultMode".toList], appModeToStr mode, .string⟩] := by
  obtain ⟨key, value⟩ := arg
  obtain ⟨rfl, rfl⟩ : key = "--mode".toList ∧ value = appModeToStr mode := h
  cases mode <;> rfl

lemma appModeToStr_injective : Function.Injective appModeToStr := by
  intro mode mode' heq
  cases mode <;> cases mode' <;> first | rfl | exact absurd heq (by decide)

lemma getMode_str {options : Json} (hroot : options.IsNode)
    (h : getAt ["defaultMode".toList] options = .str (appModeToStr mode)) :
    getMode options = .ok mode := by
  have hmember : options.member "defaultMode".toList = .str (appModeToStr mode) := h
  rw [getMode, Json.index_of_isNode hroot, hmember]
  cases mode <;> rfl

end Modes

/-! ### Two modes that read alike -/

/-- A field of `logging`, as it is read in a mode. -/
def loggingFieldIn {α : Type} (options : Json) (mode : AppMode) (field : Str)
    (read : Json → Except Fault α) (default : α) : Except Fault α := do
  readOr read default (← (effective options mode "logging").index field)

/-- Two modes have the same about an option: in their sections, or one leaves it out and the
other has what the root has. -/
def SameAbout (options : Json) (mode mode' : AppMode) (key : Str) : Prop :=
  getAt (modePath mode' key) options = getAt (modePath mode key) options ∨
    getAt (modePath mode' key) options = .null ∧
      getAt (modePath mode key) options = getAt [key] options ∨
    getAt (modePath mode key) options = .null ∧
      getAt (modePath mode' key) options = getAt [key] options

/-- The options read alike in another mode: its section is an object, or absent, and both modes
have the same about every option but `defaultMode`, and about the fields of `logging`. -/
structure ReadsAlike (config options : Json) (mode mode' : AppMode) : Prop where
  readable : Readable config mode'
  option : ∀ key : Str, key ≠ "modes".toList → key ≠ "logging".toList →
    key ≠ "defaultMode".toList → SameAbout options mode mode' key
  enabled : loggingFieldIn options mode' "enabled" Json.getBool true =
    loggingFieldIn options mode "enabled" Json.getBool true
  writeToLogFile : loggingFieldIn options mode' "writeToLogFile" Json.getBool true =
    loggingFieldIn options mode "writeToLogFile" Json.getBool true
  format : loggingFieldIn options mode' "format" Json.getString defaultLogFormat =
    loggingFieldIn options mode "format" Json.getString defaultLogFormat

lemma effective_eq_iff {options : Json} {mode mode' : AppMode} {key : Str} :
    effective options mode' key = effective options mode key ↔ SameAbout options mode mode' key := by
  have hnull_iff : ∀ j : Json, j.isNull = true ↔ j = .null := fun j =>
    ⟨Json.eq_null_of_isNull, fun h => h ▸ rfl⟩
  rw [effective, effective, SameAbout]
  by_cases hnull' : getAt (modePath mode' key) options = .null
  · rw [if_pos ((hnull_iff _).mpr hnull')]
    by_cases hnull : getAt (modePath mode key) options = .null
    · rw [if_pos ((hnull_iff _).mpr hnull), hnull, hnull']
      exact iff_of_true rfl (.inl rfl)
    · rw [if_neg (mt (hnull_iff _).mp hnull), hnull', and_iff_right rfl,
        eq_comm (b := getAt [key] options)]
      exact ⟨fun h => .inr (.inl h), fun h => (h.resolve_left fun heq => hnull heq.symm).resolve_right
        fun heq => hnull heq.1⟩
  · rw [if_neg (mt (hnull_iff _).mp hnull')]
    by_cases hnull : getAt (modePath mode key) options = .null
    · rw [if_pos ((hnull_iff _).mpr hnull), hnull, and_iff_right rfl]
      exact ⟨fun h => .inr (.inr h), fun h => (h.resolve_left hnull').resolve_left
        fun heq => hnull' heq.1⟩
    · rw [if_neg (mt (hnull_iff _).mp hnull)]
      exact ⟨.inl, fun h => h.resolve_right fun hor => hor.elim (fun heq => hnull' heq.1)
        fun heq => hnull heq.1⟩

lemma loggingField_eq {options : Json} {mode : AppMode} (hmode : getMode options = .ok mode)
    (hreadable : Readable options mode) {α : Type} (field : Str) (read : Json → Except Fault α)
    (default : α) :
    loggingField options field read default = loggingFieldIn options mode field read default := by
  rw [loggingField, getOptionForCurrentMode_eq hmode hreadable, ok_bind, loggingFieldIn]

section AddedFlag

variable {env : Environment} {currentDirectory : Str} {before after : List Str} {flag : Str}
  {config final : Json} {s s' : State} {mode mode' : AppMode} {mapping : Mapping}
  (h : Starts env currentDirectory (before ++ after) config s)
  (hmode : getMode s.options = .ok mode)
  (happly : applyOverrides config (collected (before ++ flag :: after)) = .ok final)

/-- The overrides of one pointer, before, of and after the flag. -/
lemma filter_inserted (q : List Str) :
    (collected (before ++ flag :: after)).filter (fun o => o.key = q) =
      (collected before).filter (fun o => o.key = q) ++
        ((overridesOf (parseArg flag)).filter (fun o => o.key = q) ++
          (collected after).filter fun o => o.key = q) := by
  rw [collected_insert, List.filter_append, List.filter_append]

include h hmode happly

/-- **The mode with one more flag**: the one that it turns the program to, or the same. -/
lemma getMode_added :
    (∃ mode', TurnsTo flag after mode' ∧ getMode final = .ok mode') ∨
      (∀ mode', ¬ TurnsTo flag after mode') ∧ getMode final = .ok mode := by
  have htarget : isTarget ["defaultMode".toList] = true := rfl
  have hreadable := h.readable hmode
  have hroot := (readable_added h happly hreadable).1
  have hfinal := getAt_applyOverrides (compatible_collected _) happly (aside_collected htarget _)
  have hoptions := getAt_applyOverrides (compatible_collected _) h.applies.1
    (aside_collected htarget _)
  have hsame : getAt ["defaultMode".toList] final = getAt ["defaultMode".toList] s.options →
      getMode final = .ok mode :=
    fun heq => (getMode_congr hreadable.1 hroot heq).trans hmode
  rw [filter_inserted] at hfinal
  rw [collected_append, List.filter_append] at hoptions
  by_cases hafter : (collected after).filter (fun o => o.key = ["defaultMode".toList]) = []
  · have hlast : ∀ arg ∈ after, ∀ mode', ¬ NamesMode (parseArg arg) mode' := by
      intro arg harg mode' hnames
      refine absurd hafter (List.ne_nil_of_mem (List.mem_filter.mpr ⟨List.mem_flatMap.mpr
        ⟨arg, harg, overridesOf_names hnames ▸ List.mem_singleton_self _⟩, decide_eq_true rfl⟩))
    cases hgiven : (overridesOf (parseArg flag)).filter fun o => o.key = ["defaultMode".toList] with
    | nil =>
        rw [hgiven, hafter, List.append_nil, List.append_nil] at hfinal
        rw [hafter, List.append_nil] at hoptions
        refine .inr ⟨fun mode' hturns => ?_, hsame (hfinal.trans hoptions.symm)⟩
        rw [overridesOf_names hturns.1] at hgiven
        cases hgiven
    | cons o os =>
        have ho := List.mem_filter.mp (hgiven ▸ List.mem_cons_self (a := o) (l := os))
        obtain ⟨mode', hnames, hconverted⟩ := names_of_override ho.1 (of_decide_eq_true ho.2)
        obtain ⟨rfl, rfl⟩ : o = _ ∧ os = [] := by
          rw [overridesOf_names hnames] at hgiven
          exact List.cons.inj hgiven.symm
        rw [hgiven, hafter, List.append_nil, List.getLast?_append, List.getLast?_singleton,
          Option.some_or, Option.map_some, Option.getD_some, hconverted] at hfinal
        exact .inl ⟨mode', ⟨hnames, hlast⟩, getMode_str hroot hfinal⟩
  · obtain ⟨o, ho⟩ := Option.ne_none_iff_exists'.mp (mt List.getLast?_eq_none_iff.mp hafter)
    have hmem := List.mem_filter.mp (List.mem_of_getLast? ho)
    obtain ⟨arg, harg, hmem'⟩ := List.mem_flatMap.mp hmem.1
    obtain ⟨mode', hnames, -⟩ := names_of_override hmem' (of_decide_eq_true hmem.2)
    refine .inr ⟨fun mode'' hturns => hturns.2 arg harg mode' hnames, hsame ?_⟩
    rw [hfinal, hoptions, List.getLast?_append, List.getLast?_append, List.getLast?_append, ho]
    rfl

omit hmode in
/-- The data location at the root is a text with a flag for it, and else as without the flag. -/
lemma getAt_dataLocation_added :
    getAt ["dataLocation".toList] final = getAt ["dataLocation".toList] s.options ∨
      ∃ v, getAt ["dataLocation".toList] final = .str v := by
  have htarget : isTarget ["dataLocation".toList] = true := rfl
  have hall : ∀ m ∈ cliMappings, ["dataLocation"] ∈ m.targets → m.convertTo = .string := by
    decide +kernel
  have hfinal := getAt_applyOverrides (compatible_collected _) happly (aside_collected htarget _)
  have hoptions := getAt_applyOverrides (compatible_collected _) h.applies.1
    (aside_collected htarget _)
  cases hlast : ((collected (before ++ flag :: after)).filter fun o =>
      o.key = ["dataLocation".toList]).getLast? with
  | none =>
      have hnone := List.getLast?_eq_none_iff.mp hlast
      rw [filter_inserted, List.append_eq_nil_iff, List.append_eq_nil_iff] at hnone
      rw [collected_append, List.filter_append, hnone.1, hnone.2.2] at hoptions
      rw [hlast] at hfinal
      exact .inl (hfinal.trans hoptions.symm)
  | some o =>
      rw [hlast, Option.map_some, Option.getD_some] at hfinal
      have hmem := List.mem_filter.mp (List.mem_of_getLast? hlast)
      obtain ⟨arg, -, ho⟩ := List.mem_flatMap.mp hmem.1
      obtain ⟨other, hother, -, target, htarget', rfl⟩ := mem_overridesOf ho
      obtain rfl : target = ["dataLocation"] :=
        List.map_injective_iff.mpr (fun _ _ => String.toList_inj.mp) (of_decide_eq_true hmem.2)
      refine .inr ⟨other.valueOf (parseArg arg), hfinal.trans ?_⟩
      rw [ConfigOverride.converted, ConfigOverride.convert, Mapping.override,
        hall other hother htarget']

omit hmode in
/-- No flag overrides the data location in a section. -/
lemma getAt_dataLocation_section (mode : AppMode) :
    getAt (modePath mode "dataLocation") final = getAt (modePath mode "dataLocation") s.options := by
  have hall : ∀ m ∈ cliMappings, ∀ name ∈ helpers.getModes,
      ["modes", name, "dataLocation"] ∉ m.targets := by
    decide +kernel
  obtain ⟨name, hname, hplace⟩ := exists_modePath mode
  have hpath : modePath mode "dataLocation" = ["modes", name, "dataLocation"].map String.toList :=
    (hplace "dataLocation" []).symm
  have htarget : isTarget (modePath mode "dataLocation") = true := by cases mode <;> rfl
  refine getAt_added_of_ne h happly htarget fun o ho heq => ?_
  obtain ⟨other, hother, -, target, htarget, rfl⟩ := mem_overridesOf ho
  obtain rfl : target = ["modes", name, "dataLocation"] :=
    List.map_injective_iff.mpr (fun _ _ => String.toList_inj.mp) (heq.trans hpath)
  exact hall other hother name hname htarget

/-- In the same mode the data location can be read with the flag. -/
lemma dataLocation_of_sameMode (hmode' : getMode final = .ok mode) :
    ∃ dataLoc, dataLocation final = .ok dataLoc := by
  have hreadable := h.readable hmode
  obtain ⟨-, dataLoc, hdata⟩ := h.reads
  have hsection := getAt_dataLocation_section h happly mode
  rw [dataLocation, getOptionForCurrentMode_eq hmode hreadable, ok_bind] at hdata
  rw [dataLocation, getOptionForCurrentMode_eq hmode' (readable_added h happly hreadable), ok_bind]
  have hroot : effective final mode "dataLocation" = effective s.options mode "dataLocation" ∨
      ∃ v, effective final mode "dataLocation" = .str v := by
    rw [effective, effective, hsection]
    split_ifs
    · exact getAt_dataLocation_added h happly
    · exact .inl rfl
  rcases hroot with heq | ⟨v, hv⟩
  · rw [heq]
    exact ⟨dataLoc, hdata⟩
  · rw [hv]
    exact ⟨v, rfl⟩

end AddedFlag

section Turned

variable {env : Environment} {currentDirectory : Str} {before after : List Str} {flag : Str}
  {config final : Json} {s s' : State} {mode mode' : AppMode} {mapping : Mapping}
  (h : Starts env currentDirectory (before ++ after) config s)
  (hmode : getMode s.options = .ok mode)
  (happly : applyOverrides config (collected (before ++ flag :: after)) = .ok final)
  (hnames : NamesMode (parseArg flag) mode')

include h happly hnames

/-- Only `defaultMode` is overridden. -/
lemma getAt_of_names {q : List Str} (htarget : isTarget q = true)
    (hq : q ≠ ["defaultMode".toList]) : getAt q final = getAt q s.options := by
  refine getAt_added_of_ne h happly htarget fun o ho heq => ?_
  rw [overridesOf_names hnames, List.mem_singleton] at ho
  exact hq (heq.symm.trans (congrArg ConfigOverride.key ho))

lemma effective_of_names {key : Str} (hmodes : key ≠ "modes".toList)
    (hlogging : key ≠ "logging".toList) (hkey : key ≠ "defaultMode".toList) (m : AppMode) :
    effective final m key = effective s.options m key := by
  refine effective_congr (getAt_of_names h happly hnames (decide_eq_true ⟨rfl, hlogging⟩) ?_)
    (getAt_of_names h happly hnames (decide_eq_true ⟨hmodes, hlogging⟩) ?_)
  · exact fun heq => by cases heq
  · exact fun heq => hkey (List.cons.inj heq).1

lemma loggingFieldIn_of_names {α : Type} (m : AppMode) (field : Str)
    (read : Json → Except Fault α) (default : α) :
    loggingFieldIn final m field read default = loggingFieldIn s.options m field read default := by
  have hmapping : (⟨"--mode", ["defaultMode"], .string⟩ : Mapping) ∈ cliMappings := by
    simp [cliMappings]
  have hsame : ∀ q ∈ loggingPointers, getAt (q.map String.toList) final =
      getAt (q.map String.toList) s.options := by
    intro q hq
    refine getAt_added h happly fun o ho => ?_
    rw [overridesOf_names hnames, List.mem_singleton] at ho
    subst ho
    exact incomparable_loggingPointers hmapping (by decide) List.mem_cons_self hq
  obtain ⟨q, hq, hpath⟩ := exists_loggingPointer m
  have heffective : effective final m "logging" = effective s.options m "logging" :=
    effective_congr (hpath ▸ hsame q hq) (hsame _ logging_mem_loggingPointers)
  rw [loggingFieldIn, loggingFieldIn, heffective]

omit happly in
include hmode in
/-- **In the mode that a flag names** everything else is as without it exactly where it reads
alike in both modes. -/
lemma unchanged_iff_of_turned (h' : Starts env currentDirectory (before ++ flag :: after) config s')
    (hmode' : getMode s'.options = .ok mode') :
    Unchanged ⟨"--mode", ["defaultMode"], .string⟩ mode s.options s'.options ↔
      ReadsAlike config s.options mode mode' := by
  have happly' := h'.applies.1
  have hreadable := h.readable hmode
  have hreadable' := h'.readable hmode'
  have hfield : ∀ {α : Type} (field : Str) (read : Json → Except Fault α) (default : α),
      loggingField s'.options field read default = loggingField s.options field read default ↔
        loggingFieldIn s.options mode' field read default =
          loggingFieldIn s.options mode field read default := by
    intro α field read default
    rw [loggingField_eq hmode' hreadable', loggingField_eq hmode hreadable,
      loggingFieldIn_of_names h happly' hnames]
  have howns : ∀ q, (⟨"--mode", ["defaultMode"], .string⟩ : Mapping).Owns q ↔
      q = ["defaultMode".toList] := by
    intro q
    have htargets : (⟨"--mode", ["defaultMode"], .string⟩ : Mapping).targets = [["defaultMode"]] :=
      rfl
    rw [Mapping.Owns, htargets]
    simp [eq_comm]
  have hoption : ∀ key : Str, key ≠ "modes".toList → key ≠ "logging".toList →
      key ≠ "defaultMode".toList →
      (getOptionForCurrentMode s'.options key = getOptionForCurrentMode s.options key ↔
        SameAbout s.options mode mode' key) := by
    intro key hmodes hlogging hkey
    rw [h'.getOption hmode', h.getOption hmode, Except.ok.injEq,
      effective_of_names h happly' hnames hmodes hlogging hkey, effective_eq_iff]
  have hother : ∀ key : Str, key ≠ "defaultMode".toList ↔
      ¬ (⟨"--mode", ["defaultMode"], .string⟩ : Mapping).Owns [key] := by
    intro key
    rw [howns, List.cons.injEq, and_iff_left rfl]
  constructor
  · intro hunchanged
    refine ⟨readable_of_applyOverrides happly' hreadable', fun key hmodes hlogging hkey => ?_, ?_,
      ?_, ?_⟩
    · refine (hoption key hmodes hlogging hkey).mp (hunchanged.option key hmodes hlogging
        ((hother key).mp hkey) fun hown => ?_)
      cases (howns _).mp hown
    · exact (hfield _ _ _).mp (hunchanged.enabled (by decide))
    · exact (hfield _ _ _).mp (hunchanged.writeToLogFile (by decide))
    · exact (hfield _ _ _).mp hunchanged.format
  · intro halike
    refine ⟨fun key hmodes hlogging hroot _ => ?_, fun _ => ?_, fun _ => ?_, ?_⟩
    · have hkey := (hother key).mpr hroot
      exact (hoption key hmodes hlogging hkey).mpr (halike.option key hmodes hlogging hkey)
    · exact (hfield _ _ _).mpr halike.enabled
    · exact (hfield _ _ _).mpr halike.writeToLogFile
    · exact (hfield _ _ _).mpr halike.format

include hmode in
/-- The data location can be read in a mode that reads alike. -/
lemma dataLocation_of_readsAlike (hmode' : getMode final = .ok mode')
    (halike : ReadsAlike config s.options mode mode') :
    ∃ dataLoc, dataLocation final = .ok dataLoc := by
  obtain ⟨-, dataLoc, hdata⟩ := h.reads
  have hsame := halike.option "dataLocation".toList (by decide) (by decide) (by decide)
  have heffective : effective final mode' "dataLocation" = effective s.options mode "dataLocation" :=
    (effective_of_names h happly hnames (by decide) (by decide) (by decide) mode').trans
      (effective_eq_iff.mpr hsame)
  refine ⟨dataLoc, ?_⟩
  rw [dataLocation, getOptionForCurrentMode_eq hmode (h.readable hmode), ok_bind] at hdata
  rw [dataLocation, getOptionForCurrentMode_eq hmode'
    (readable_applyOverrides happly halike.readable), ok_bind, heffective]
  exact hdata

end Turned

/-! ### One more flag -/

/-- **When one more flag touches only its own option**: its overrides go through; a mode that it
turns the program to reads alike; and it is no logging flag, or leaves `logging` as it reads. -/
theorem unchanged_iff {env : Environment} {currentDirectory : Str} {before after : List Str}
    {flag : Str} {config : Json} {s : State} {mode : AppMode} {mapping : Mapping}
    (h : Starts env currentDirectory (before ++ after) config s)
    (hmode : getMode s.options = .ok mode) (hmapping : mapping ∈ cliMappings)
    (hflag : (parseArg flag).key = mapping.flag.toList) :
    (∃ s', Starts env currentDirectory (before ++ flag :: after) config s' ∧
        Unchanged mapping mode s.options s'.options) ↔
      GoesThrough flag config ∧
        (∀ mode', TurnsTo flag after mode' → ReadsAlike config s.options mode mode') ∧
        LeavesLogging mapping mode (before ++ after) config := by
  have hfile : (parseArg flag).key ≠ "--config-file".toList := by
    have hall : ∀ m ∈ cliMappings, m.flag ≠ "--config-file" := by
      decide +kernel
    exact fun heq => hall mapping hmapping (String.toList_inj.mp (hflag.symm.trans heq))
  have hturned : ∀ mode', TurnsTo flag after mode' →
      mapping = ⟨"--mode", ["defaultMode"], .string⟩ := fun mode' hturns =>
    (flag_unique hmapping (by simp [cliMappings])
      (String.toList_inj.mp (hturns.1.1.symm.trans hflag))).symm
  constructor
  · rintro ⟨s', h', hunchanged⟩
    refine ⟨(applyOverrides_added_iff h).mp ⟨_, h'.applies.1⟩, ?_⟩
    rcases getMode_added h hmode h'.applies.1 with ⟨mode', hturns, hmode'⟩ | ⟨hstays, hmode'⟩
    · obtain rfl := hturned mode' hturns
      refine ⟨fun mode'' hturns' => ?_, .inl (by decide)⟩
      have hsame : mode'' = mode' := appModeToStr_injective (hturns'.1.2.symm.trans hturns.1.2)
      exact hsame ▸ (unchanged_iff_of_turned h hmode hturns.1 h' hmode').mp hunchanged
    · exact ⟨fun mode' hturns => absurd hturns (hstays mode'),
        (unchanged_iff_of_sameMode h h' hmode hmode' hmapping hflag).mp hunchanged⟩
  · rintro ⟨hthrough, halike, hlogging⟩
    obtain ⟨final, happly⟩ := (applyOverrides_added_iff h).mpr hthrough
    rcases getMode_added h hmode happly with ⟨mode', hturns, hmode'⟩ | ⟨-, hmode'⟩
    · obtain rfl := hturned mode' hturns
      obtain ⟨dataLoc, hdata⟩ :=
        dataLocation_of_readsAlike h hmode happly hturns.1 hmode' (halike mode' hturns)
      obtain ⟨s', h', rfl⟩ := exists_starts_added h happly hfile hdata
      exact ⟨s', h',
        (unchanged_iff_of_turned h hmode hturns.1 h' hmode').mpr (halike mode' hturns)⟩
    · obtain ⟨dataLoc, hdata⟩ := dataLocation_of_sameMode h hmode happly hmode'
      obtain ⟨s', h', rfl⟩ := exists_starts_added h happly hfile hdata
      exact ⟨s', h', (unchanged_iff_of_sameMode h h' hmode hmode' hmapping hflag).mpr hlogging⟩


/-- `logging` is in the section of the window mode. -/
def sectionConfig : Json :=
  .obj [("logging", .obj [("writeToLogFile", .bool false)]),
    ("modes", .obj [("window", .obj [("logging", .obj [("format", .str "%msg")])])])]

/-- Here a logging flag touches only its own option. -/
theorem sectionConfig_unchanged :
    ∃ s, Starts (environmentOf sectionConfig) "/" ["/app/bin/app"] sectionConfig s ∧
      ((∃ s', Starts (environmentOf sectionConfig) "/" ["/app/bin/app", "--logging-enabled=false"]
          sectionConfig s' ∧
          Unchanged ⟨"--logging-enabled", ["logging", "enabled"], .bool⟩ .window s.options s'.options) ↔
        GoesThrough "--logging-enabled=false" sectionConfig ∧
          (∀ mode', TurnsTo "--logging-enabled=false" [] mode' →
            ReadsAlike sectionConfig s.options .window mode') ∧
          LeavesLogging ⟨"--logging-enabled", ["logging", "enabled"], .bool⟩ .window
            (["/app/bin/app".toList] ++ []) sectionConfig) := by
  have hstarts : ∃ s, Starts (environmentOf sectionConfig) "/" ["/app/bin/app"] sectionConfig s ∧
      getMode s.options = .ok .window := ⟨_, ⟨loads_environmentOf _ _, rfl⟩, rfl⟩
  obtain ⟨s, hs, hmode⟩ := hstarts
  exact ⟨s, hs, @unchanged_iff _ _ ["/app/bin/app".toList] [] _ _ s _ _ hs hmode
    (by simp [cliMappings]) rfl⟩

/-- `logging` is at the root, and asks for no log file. -/
def rootConfig : Json := .obj [("logging", .obj [("writeToLogFile", .bool false)])]

/-- Turning the logger on turns its log file on. -/
theorem logging_flag_shadows :
    ∃ s s', Starts (environmentOf rootConfig) "/" ["/app/bin/app"] rootConfig s ∧
      Starts (environmentOf rootConfig) "/" ["/app/bin/app", "--logging-enabled"] rootConfig s' ∧
      getMode s.options = .ok .window ∧ getMode s'.options = .ok .window ∧
      enableLogFile s.options = .ok false ∧ enableLogFile s'.options = .ok true :=
  ⟨_, _, ⟨loads_environmentOf _ _, rfl⟩, ⟨loads_environmentOf _ _, rfl⟩, rfl, rfl, rfl, rfl⟩

end Neutralino.settings
