import Neutralino.Config.Shadowing
import Neutralino.Server.FieldReads

/-!
The configuration schema: which options there are, where they stand, and of what type
they are.

* `Scalar`, `OptionType`: the types; `fits`: a value is left out, or has the type.
* `modeOptions`, `windowFields`, `chromeFields`, `places`: the options and their places.
* `Typed`: a configuration in which every option is left out or has its type.
* `Typed.option_eq`, `optionOr_eq`, `fieldOr_member`: what the readers return for one.
-/

namespace Neutralino.settings

open Paths

/-! ### Types -/

/-- The types of single values. -/
inductive Scalar where
  | integer
  | boolean
  | string

namespace Scalar

/-- A value has a type. -/
def has : Scalar → Json → Bool
  | integer, .num _ => true
  | boolean, .bool _ => true
  | string, .str _ => true
  | _, _ => false

/-- A value is left out, or has a type. -/
def fits (t : Scalar) (j : Json) : Bool := j.isNull || t.has j

/-- `get<int>`, `get<bool>` and `get<string>`, where only the type matters. -/
def get : Scalar → Json → Except Fault Unit
  | integer, j => do let _ ← j.getInt
  | boolean, j => do let _ ← j.getBool
  | string, j => do let _ ← j.getString

end Scalar

/-- An object whose members fit the fields of a record. -/
def isRecord (fields : List (String × Scalar)) : Json → Bool
  | .obj members => fields.all fun field => field.2.fits (Json.lookup field.1.toList members)
  | _ => false

/-- The types of the options. -/
inductive OptionType where
  | scalar (t : Scalar)
  | strings
  | stringMap
  | object
  | record (fields : List (String × Scalar))
  | records (fields : List (String × Scalar))

namespace OptionType

/-- A value has a type. -/
def has : OptionType → Json → Bool
  | scalar t, j => t.has j
  | strings, .arr xs => xs.all Json.isStr
  | stringMap, .obj members => members.all fun m => m.2.isStr
  | object, .obj _ => true
  | record fields, j => isRecord fields j
  | records fields, .arr xs => xs.all fun x => isRecord fields x
  | _, _ => false

/-- A value is left out, or has a type. -/
def fits (t : OptionType) (j : Json) : Bool := j.isNull || t.has j

end OptionType

/-! ### Options -/

/-- The fields of an extension. -/
def extensionFields : List (String × Scalar) :=
  [("id", .string), ("command", .string), ("commandLinux", .string), ("commandWindows", .string),
    ("commandDarwin", .string), ("commandFreeBSD", .string)]

/-- The fields of `logging`. -/
def loggingFields : List (String × Scalar) :=
  [("enabled", .boolean), ("writeToLogFile", .boolean), ("format", .string)]

/-- The options that stand at the root or in the section of a mode. -/
def modeOptions : List (String × OptionType) :=
  [("port", .scalar .integer), ("enableServer", .scalar .boolean), ("url", .scalar .string),
    ("tokenSecurity", .scalar .string), ("exportAuthInfo", .scalar .boolean),
    ("enableExtensions", .scalar .boolean), ("extensions", .records extensionFields),
    ("nativeBlockList", .strings), ("nativeAllowList", .strings), ("commandAllowList", .strings),
    ("globalVariables", .object), ("logging", .record loggingFields),
    ("filesystemScopes", .stringMap), ("systemEnvs", .stringMap),
    ("storageLocation", .scalar .string), ("injectScript", .scalar .string)]

/-- The options that stand at the root only. -/
def rootOptions : List (String × Scalar) :=
  [("defaultMode", .string), ("applicationId", .string), ("version", .string)]

/-- The fields of the window mode, in the order in which `window::init` reads them. -/
def windowFields : List (String × Scalar) :=
  [("width", .integer), ("height", .integer), ("minWidth", .integer), ("minHeight", .integer),
    ("maxWidth", .integer), ("maxHeight", .integer), ("resizable", .boolean), ("x", .integer),
    ("useLogicalPixels", .boolean), ("y", .integer), ("fullScreen", .boolean),
    ("alwaysOnTop", .boolean), ("title", .string), ("url", .string), ("icon", .string),
    ("extendUserAgentWith", .string), ("injectScript", .string), ("enableInspector", .boolean),
    ("openInspectorOnStartup", .boolean), ("borderless", .boolean), ("maximize", .boolean),
    ("hidden", .boolean), ("center", .boolean), ("transparent", .boolean),
    ("exitProcessOnClose", .boolean), ("useSavedState", .boolean), ("injectGlobals", .boolean),
    ("injectClientLibrary", .boolean), ("webviewArgs", .string), ("skipTaskbar", .boolean),
    ("emitDropEvents", .boolean), ("newWindowPolicy", .string)]

/-- The fields of the Chrome mode. -/
def chromeFields : List (String × Scalar) :=
  [("width", .integer), ("height", .integer), ("args", .string), ("browserBinary", .string),
    ("browserBinaryLinux", .string), ("browserBinaryWindows", .string),
    ("browserBinaryDarwin", .string), ("browserBinaryFreeBSD", .string)]

/-- Where the options stand, with their types. -/
def places : List (List String × OptionType) :=
  modeOptions.map (fun o => ([o.1], o.2)) ++
    helpers.getModes.flatMap (fun mode => modeOptions.map fun o => (["modes", mode, o.1], o.2)) ++
    rootOptions.map (fun o => ([o.1], .scalar o.2)) ++
    windowFields.map (fun o => (["modes", "window", o.1], .scalar o.2)) ++
    chromeFields.map (fun o => (["modes", "chrome", o.1], .scalar o.2)) ++
    [(["cli", "clientLibrary"], .scalar .string)]

/-- **A configuration with no option of a wrong type**: every section is left out or an
object, and every option is left out or has its type. -/
structure Typed (options : Json) : Prop where
  sections : ∀ mode, Readable options mode
  cli : Reaches ["cli".toList, []] options
  option : ∀ p ∈ places, p.2.fits (getAt (p.1.map String.toList) options) = true

/-! ### Readers -/

/-- An option with a default. -/
def optionOr {α : Type} (options : Json) (key : Str) (read : Json → Except Fault α) (default : α) :
    Except Fault α := do
  readOr read default (← getOptionForCurrentMode options key)

/-- Whether a value is `true`. -/
def isSet : Json → Bool
  | .bool b => b
  | _ => false

section Readers

variable {α : Type} {j : Json} {t : Scalar}

lemma readOr_getBool (h : Scalar.boolean.fits j = true) :
    readOr Json.getBool false j = .ok (isSet j) := by
  cases j with
  | null => rfl
  | bool b => rfl
  | _ => cases h

lemma exists_readOr_getBool (h : Scalar.boolean.fits j = true) (default : Bool) :
    ∃ b, readOr Json.getBool default j = .ok b := by
  cases j with
  | null => exact ⟨default, rfl⟩
  | bool b => exact ⟨b, rfl⟩
  | _ => cases h

lemma exists_readOr_getString (h : Scalar.string.fits j = true) (default : Str) :
    ∃ s, readOr Json.getString default j = .ok s ∧ (j.isNull = false → j = .str s) := by
  cases j with
  | null => exact ⟨default, rfl, nofun⟩
  | str s => exact ⟨s, rfl, fun _ => rfl⟩
  | _ => cases h

lemma readOr_get (h : t.fits j = true) : readOr t.get () j = .ok () := by
  cases j with
  | null => rfl
  | _ =>
      cases t with
      | _ => first | rfl | cases h

/-- A field that is read where it is there, as a member with a default. -/
lemma fieldOr_member (input : Json) (key : Str) (read : Json → Except Fault α) (default : α) :
    fieldOr input key read default = readOr read default (input.member key) := by
  rw [fieldOr_eq]
  cases input with
  | obj members =>
      rw [Json.findMember, Json.member, Json.lookup, readOr]
      cases members.find? fun m => m.1 = key with
      | none => rfl
      | some m => rfl
  | _ => rfl

/-- A null value or a number. -/
lemma null_or_num {j : Json} (h : Scalar.integer.fits j = true) : j = .null ∨ ∃ n, j = .num n := by
  cases j with
  | null => exact .inl rfl
  | num n => exact .inr ⟨n, rfl⟩
  | _ => cases h

/-- A null value or a text. -/
lemma null_or_str {j : Json} (h : Scalar.string.fits j = true) : j = .null ∨ ∃ s, j = .str s := by
  cases j with
  | null => exact .inl rfl
  | str s => exact .inr ⟨s, rfl⟩
  | _ => cases h

/-- A null value or a map of texts. -/
lemma null_or_stringMap {j : Json} (h : OptionType.stringMap.fits j = true) :
    j = .null ∨ ∃ members, j = .obj members ∧ members.all (fun m => m.2.isStr) = true := by
  cases j with
  | null => exact .inl rfl
  | obj members => exact .inr ⟨members, rfl, h⟩
  | _ => cases h

/-- The values of a map of texts are read. -/
lemma exists_mapM_getString {β : Type} {members : List (Str × Json)}
    (h : members.all (fun m => m.2.isStr) = true) {read : Str × Json → Except Fault β}
    (hread : ∀ key text, ∃ b, read (key, .str text) = .ok b) :
    ∃ bs, members.mapM read = .ok bs := by
  induction members with
  | nil => exact ⟨[], rfl⟩
  | cons m members ih =>
      rw [List.all_cons, Bool.and_eq_true] at h
      obtain ⟨key, j⟩ := m
      obtain ⟨text, rfl⟩ : ∃ text, j = .str text := by
        cases j with
        | str text => exact ⟨text, rfl⟩
        | _ => exact absurd h.1 Bool.false_ne_true
      obtain ⟨b, hb⟩ := hread key text
      obtain ⟨bs, hbs⟩ := ih h.2
      rw [List.mapM_cons, hb, ok_bind, hbs]
      exact ⟨_, rfl⟩

end Readers

/-! ### Records -/

/-- A field of a record, where it is there, has its type. -/
lemma fits_of_isRecord {fields : List (String × Scalar)} {j : Json} (h : isRecord fields j = true)
    {key : String} {t : Scalar} (hfield : (key, t) ∈ fields) :
    t.fits (j.member key.toList) = true := by
  cases j with
  | obj members => exact List.all_eq_true.mp h (key, t) hfield
  | _ => cases h

/-- A field of a record that is there has its type. -/
lemma exists_value_of_has {fields : List (String × Scalar)} {j : Json}
    (hj : isRecord fields j = true) {key : String} {t : Scalar} (hkey : (key, t) ∈ fields)
    (hhas : j.has key.toList = true) :
    ∃ value, j.indexConst key.toList = .ok value ∧ t.has value = true := by
  have hfits := fits_of_isRecord hj hkey
  cases j with
  | obj members =>
      rw [Json.member, Json.lookup] at hfits
      rw [Json.has, Json.findMember] at hhas
      rw [Json.indexConst_eq, Json.findMember]
      cases hfind : members.find? fun m => m.1 = key.toList with
      | none =>
          rw [hfind] at hhas
          cases hhas
      | some m =>
          rw [hfind] at hhas hfits
          have hvalue : (m.2.isNull || t.has m.2) = true := hfits
          have hsome : (!m.2.isNull) = true := hhas
          rw [Bool.not_eq_true'] at hsome
          rw [hsome, Bool.false_or] at hvalue
          exact ⟨m.2, rfl, hvalue⟩
  | _ => cases hj

lemma indexConst_of_has {fields : List (String × Scalar)} {j : Json} (hj : isRecord fields j = true)
    {key : String} (hkey : (key, Scalar.string) ∈ fields) (hhas : j.has key.toList = true) :
    ∃ text, j.indexConst key.toList = .ok (.str text) := by
  obtain ⟨value, hindex, hvalue⟩ := exists_value_of_has hj hkey hhas
  cases value with
  | str text => exact ⟨text, hindex⟩
  | _ => cases hvalue

/-- A member that is a text is there. -/
lemma indexConst_of_member {j : Json} {key text : Str} (h : j.member key = .str text) :
    j.indexConst key = .ok (.str text) := by
  cases j with
  | obj members =>
      rw [Json.member, Json.lookup] at h
      rw [Json.indexConst_eq, Json.findMember]
      cases hfind : members.find? fun m => m.1 = key with
      | none =>
          rw [hfind] at h
          cases h
      | some m =>
          rw [hfind] at h
          exact congrArg Except.ok h
  | _ => cases h

/-- The options of a mode whose fields are left out or have their types. -/
def FieldsFit (fields : List (String × Scalar)) (input : Json) : Prop :=
  ∀ field ∈ fields, field.2.fits (input.member field.1.toList) = true

lemma fieldOr_flag {fields : List (String × Scalar)} {input : Json} (h : FieldsFit fields input)
    {key : String} (hkey : (key, Scalar.boolean) ∈ fields) :
    fieldOr input key.toList Json.getBool false = .ok (isSet (input.member key.toList)) :=
  (fieldOr_member _ _ _ _).trans (readOr_getBool (h (key, .boolean) hkey))

/-! ### What stands in its place -/

section Places

variable {options : Json} {mode : AppMode} {key : String} {t : OptionType} {s : Scalar}

lemma mem_places_root (h : (key, t) ∈ modeOptions) : ([key], t) ∈ places := by
  simp only [places, List.mem_append]
  exact .inl (.inl (.inl (.inl (.inl (List.mem_map.mpr ⟨_, h, rfl⟩)))))

lemma mem_places_mode {name : String} (hname : name ∈ helpers.getModes)
    (h : (key, t) ∈ modeOptions) : (["modes", name, key], t) ∈ places := by
  simp only [places, List.mem_append]
  exact .inl (.inl (.inl (.inl (.inr (List.mem_flatMap.mpr
    ⟨name, hname, List.mem_map.mpr ⟨_, h, rfl⟩⟩)))))

lemma mem_places_rootOption (h : (key, s) ∈ rootOptions) : ([key], .scalar s) ∈ places := by
  simp only [places, List.mem_append]
  exact .inl (.inl (.inl (.inr (List.mem_map.mpr ⟨_, h, rfl⟩))))

lemma mem_places_window (h : (key, s) ∈ windowFields) :
    (["modes", "window", key], .scalar s) ∈ places := by
  simp only [places, List.mem_append]
  exact .inl (.inl (.inr (List.mem_map.mpr ⟨_, h, rfl⟩)))

lemma mem_places_chrome (h : (key, s) ∈ chromeFields) :
    (["modes", "chrome", key], .scalar s) ∈ places := by
  simp only [places, List.mem_append]
  exact .inl (.inr (List.mem_map.mpr ⟨_, h, rfl⟩))

lemma mem_places_clientLibrary : (["cli", "clientLibrary"], .scalar .string) ∈ places := by
  simp only [places, List.mem_append, List.mem_singleton]
  exact .inr trivial

/-- What is effective has the type of its option. -/
lemma Typed.effective (h : Typed options) (ho : (key, t) ∈ modeOptions) (mode : AppMode) :
    t.fits (settings.effective options mode key.toList) = true := by
  obtain ⟨name, hname, hplace⟩ := exists_modePath mode
  have hpath : ["modes", name, key].map String.toList = modePath mode key.toList := hplace key []
  have hinMode := h.option _ (mem_places_mode hname ho)
  rw [hpath] at hinMode
  rw [settings.effective]
  split_ifs
  · exact h.option _ (mem_places_root ho)
  · exact hinMode

/-- What is returned for an option. -/
lemma Typed.option_eq (h : Typed options) (hmode : getMode options = .ok mode) (key : Str) :
    getOptionForCurrentMode options key = .ok (settings.effective options mode key) :=
  getOptionForCurrentMode_eq hmode (h.sections mode) key

lemma Typed.optionOr_eq {α : Type} (h : Typed options) (hmode : getMode options = .ok mode)
    (key : Str) (read : Json → Except Fault α) (default : α) :
    optionOr options key read default = readOr read default (settings.effective options mode key) := by
  rw [optionOr, h.option_eq hmode, ok_bind]

/-- A flag that is left out is not set. -/
lemma optionOr_flag (h : Typed options) (hmode : getMode options = .ok mode) {key : String}
    (ho : (key, OptionType.scalar .boolean) ∈ modeOptions) :
    optionOr options key.toList Json.getBool false =
      .ok (isSet (effective options mode key.toList)) :=
  (h.optionOr_eq hmode _ _ _).trans (readOr_getBool (h.effective ho mode))

/-- An option of the root that is left out or a text. -/
lemma rootOption_cases (h : Typed options) {key : String}
    (ho : (key, Scalar.string) ∈ rootOptions) :
    options.index key.toList = .ok .null ∨ ∃ text, options.index key.toList = .ok (.str text) := by
  have hfits : Scalar.string.fits (options.member key.toList) = true :=
    h.option _ (mem_places_rootOption ho)
  rw [Json.index_of_isNode (h.sections .window).1]
  rcases null_or_str hfits with hnull | ⟨text, hstr⟩
  · exact .inl (congrArg _ hnull)
  · exact .inr ⟨text, congrArg _ hstr⟩

end Places

end Neutralino.settings
