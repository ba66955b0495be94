import Neutralino.Api.FileReader
import Neutralino.Config.CommandLine

/-!
`settings::init`: the configuration with the overrides of the command line.

* `applyOverrides`: the overrides become a JSON patch.
* `init`: the configuration file is loaded and patched.
* `applyOverrides_eq_ok_iff`: when the patch is made and goes through.
* `getAt_applyOverrides`: **what is read at a pointer afterwards**.
-/

namespace Neutralino.settings

open Paths

/-! ### Patching -/

/-- The conversion of a value. -/
def ConfigOverride.convert (cfgOverride : ConfigOverride) : Except Fault Json :=
  match cfgOverride.convertTo with
  | .int => do return .num (← stoi cfgOverride.value)
  | .bool => .ok (.bool (cfgOverride.value = "true".toList))
  | .string => .ok (.str cfgOverride.value)

/-- The two operations of a patch that are used. -/
inductive PatchOp where
  | add
  | replace

structure Patch where
  op : PatchOp
  path : List Str
  value : Json

/-- The loop of `init`: the operation depends on what is there, and looking there
makes what is missing on the way. -/
def makePatches : List ConfigOverride → Json → Except Fault (Json × List Patch)
  | [], options => .ok (options, [])
  | cfgOverride :: configOverrides, options => do
      let options ← options.touch cfgOverride.key
      let op := if (getAt cfgOverride.key options).isNull then PatchOp.add else .replace
      let value ← cfgOverride.convert
      let (options, patches) ← makePatches configOverrides options
      return (options, ⟨op, cfgOverride.key, value⟩ :: patches)

def applyPatch (options : Json) (patch : Patch) : Except Fault Json :=
  match patch.op with
  | .add => Json.patchAdd patch.path patch.value options
  | .replace => Json.patchReplace patch.path patch.value options

/-- The options after the overrides. -/
def applyOverrides (options : Json) (configOverrides : List ConfigOverride) : Except Fault Json := do
  let (options, patches) ← makePatches configOverrides options
  patches.foldlM applyPatch options

/-! ### Initialisation -/

/-- What `init` asks for: the locale, the data directory of the system, the
resource file of a name, and the JSON parser. -/
structure Environment where
  localeName : Str
  dataHome : Str
  getFile : Str → Except Fault fs.FileReaderResult
  parse : Str → Option Json

/-- `debug::log` of an error. -/
def State.logError (code : errors.StatusCode) (param : Str) (s : State) : State :=
  { s with log := s.log ++ [errors.makeErrorMsg code param] }

/-- `dataLocation`, as `init` reads it. -/
def dataLocation (options : Json) : Except Fault Str := do
  let jLoc ← getOptionForCurrentMode options "dataLocation"
  if jLoc.isNull then return "app" else jLoc.getString

/-- The part of `init` after the configuration was loaded. -/
def State.initOptions (env : Environment) (s : State) : Except Fault (Bool × State) := do
  let options ← applyOverrides s.options s.configOverrides
  let systemDataPath :=
    helpers.normalizePath (env.dataHome ++ '/' :: (← getAppId options))
  let dataLoc ← dataLocation options
  return (true, { s with
    options := options
    systemDataPath := systemDataPath
    appDataPath := if dataLoc = "system".toList then systemDataPath else s.appPath })

/-- `init`: without a configuration file it goes on with an empty object, and
one that is not parsed makes it fail. -/
def init (env : Environment) (s : State) : Except Fault (Bool × State) := do
  let s := { s with localeName := env.localeName, options := .obj [] }
  let file ← env.getFile s.configFile
  if file.status = .NE_ST_OK then
    match env.parse file.data with
    | none => return (false, s.logError .NE_CF_UNBPRCF s.configFile)
    | some config => State.initOptions env { s with options := config }
  else (s.logError .NE_CF_UNBLDCF s.configFile).initOptions env

/-- The configuration that `init` starts from. -/
def Loads (env : Environment) (configFile : Str) (config : Json) : Prop :=
  ∃ file, env.getFile configFile = .ok file ∧
    if file.status = .NE_ST_OK then env.parse file.data = some config else config = .obj []

/-- A file loads one configuration. -/
lemma Loads.eq {env : Environment} {configFile : Str} {config config' : Json}
    (h : Loads env configFile config) (h' : Loads env configFile config') : config = config' := by
  obtain ⟨file, hfile, hconfig⟩ := h
  obtain ⟨file', hfile', hconfig'⟩ := h'
  obtain rfl := Except.ok.inj (hfile.symm.trans hfile')
  split_ifs at hconfig hconfig'
  · exact Option.some.inj (hconfig.symm.trans hconfig')
  · exact hconfig.trans hconfig'.symm

/-- What the part after the loading leaves. -/
structure Kept (env : Environment) (config : Json) (overrides : List ConfigOverride)
    (s : State) (appId dataLoc : Str) : Prop where
  options : applyOverrides config overrides = .ok s.options
  reads_appId : getAppId s.options = .ok appId
  reads_dataLoc : dataLocation s.options = .ok dataLoc
  systemDataPath : s.systemDataPath = helpers.normalizePath (env.dataHome ++ '/' :: appId)

lemma State.initOptions_spec {env : Environment} {s s' : State}
    (h : s.initOptions env = .ok (true, s')) :
    ∃ appId dataLoc, Kept env s.options s.configOverrides s' appId dataLoc := by
  obtain ⟨options, happly, h⟩ := bind_eq_ok.mp h
  obtain ⟨appId, happId, h⟩ := bind_eq_ok.mp h
  obtain ⟨dataLoc, hdata, h⟩ := bind_eq_ok.mp h
  obtain ⟨-, rfl⟩ := Prod.mk.inj (Except.ok.inj h)
  exact ⟨appId, dataLoc, happly, happId, hdata, rfl⟩

/-- **What `init` leaves where it returns**: the overridden options, which were read, and the
data directory made from their identifier. -/
lemma init_spec {env : Environment} {s s' : State} (h : init env s = .ok (true, s')) :
    ∃ config, Loads env s.configFile config ∧
      ∃ appId dataLoc, Kept env config s.configOverrides s' appId dataLoc := by
  obtain ⟨file, hfile, h⟩ := bind_eq_ok.mp h
  split_ifs at h with hstatus
  · cases hparse : env.parse file.data with
    | none => rw [hparse] at h; cases h
    | some config =>
        rw [hparse] at h
        exact ⟨config, ⟨file, hfile, by rw [if_pos hstatus, hparse]⟩, State.initOptions_spec h⟩
  · exact ⟨.obj [], ⟨file, hfile, by rw [if_neg hstatus]⟩, State.initOptions_spec h⟩

/-- The overridden options are the ones that are kept, and they can be read. -/
lemma init_options {env : Environment} {s s' : State} {config : Json}
    (hload : Loads env s.configFile config) (hinit : init env s = .ok (true, s')) :
    applyOverrides config s.configOverrides = .ok s'.options ∧
      ∃ jLoc, getOptionForCurrentMode s'.options "dataLocation" = .ok jLoc := by
  obtain ⟨config', hload', appId, dataLoc, hkept⟩ := init_spec hinit
  obtain rfl := hload.eq hload'
  obtain ⟨jLoc, hloc, -⟩ := bind_eq_ok.mp hkept.reads_dataLoc
  exact ⟨hkept.options, jLoc, hloc⟩

/-! ### What the patch writes -/

/-- The converted value; null where the conversion throws. -/
def ConfigOverride.converted (cfgOverride : ConfigOverride) : Json :=
  match cfgOverride.convert with
  | .ok value => value
  | .error _ => .null

lemma ConfigOverride.convert_eq {o : ConfigOverride} {value : Json} (h : o.convert = .ok value) :
    o.converted = value := by
  rw [converted, h]

/-- What each override writes. -/
def writes (configOverrides : List ConfigOverride) : List (List Str × Json) :=
  configOverrides.map fun o => (o.key, o.converted)

/-- The options after all overridden pointers were looked at. -/
def touched (configOverrides : List ConfigOverride) (options : Json) : Json :=
  configOverrides.foldl (fun options o => put o.key (getAt o.key options) options) options

/-- No pointer of an override leads on from another. -/
def Compatible (configOverrides : List ConfigOverride) : Prop :=
  ∀ o ∈ configOverrides, ∀ o' ∈ configOverrides, o.key <+: o'.key → o.key = o'.key

/-- A pointer stands aside of the overrides, or is one of theirs. -/
def Aside (configOverrides : List ConfigOverride) (q : List Str) : Prop :=
  ∀ o ∈ configOverrides, o.key = q ∨ Incomparable o.key q

section Patching

variable {o : ConfigOverride} {ops : List ConfigOverride} {options final : Json} {q : List Str}

lemma Compatible.tail (h : Compatible (o :: ops)) : Compatible ops := fun a ha b hb =>
  h a (List.mem_cons_of_mem _ ha) b (List.mem_cons_of_mem _ hb)

lemma Aside.tail (h : Aside (o :: ops) q) : Aside ops q := fun a ha =>
  h a (List.mem_cons_of_mem _ ha)

/-- A pointer aside reads as before. -/
lemma getAt_touched (h : Aside ops q) (options : Json) :
    getAt q (touched ops options) = getAt q options := by
  induction ops generalizing options with
  | nil => rfl
  | cons o ops ih =>
      rw [touched, List.foldl_cons, ← touched, ih h.tail]
      rcases h o List.mem_cons_self with rfl | haside
      · exact getAt_put_self _ _ _
      · exact getAt_put_of_incomparable haside _ _

/-- What no pointer leads on to stays there. -/
lemma present_touched_of_present (h : ∀ o ∈ ops, o.key <+: q → o.key = q)
    (hpresent : options.Present q) : (touched ops options).Present q := by
  induction ops generalizing options with
  | nil => exact hpresent
  | cons o ops ih =>
      exact ih (fun a ha => h a (List.mem_cons_of_mem _ ha))
        (Json.present_put (h o List.mem_cons_self) hpresent _)

/-- Every pointer that was looked at is there. -/
lemma present_touched (hc : Compatible ops) (options : Json) :
    ∀ o ∈ ops, (touched ops options).Present o.key := by
  induction ops generalizing options with
  | nil => simp
  | cons o ops ih =>
      intro a ha
      rcases List.mem_cons.mp ha with rfl | ha
      · have hthere : (touched ops (put a.key (getAt a.key options) options)).Present a.key :=
          present_touched_of_present
            (fun b hb => hc b (List.mem_cons_of_mem a hb) a List.mem_cons_self)
            (Json.present_put_self _ _ _)
        exact hthere
      · exact ih hc.tail _ a ha

/-- A pointer that no other leads on to is reached as before. -/
lemma reaches_touched (h : ∀ o ∈ ops, o.key <+: q → o.key = q) (hreaches : Reaches q options) :
    Reaches q (touched ops options) := by
  induction ops generalizing options with
  | nil => exact hreaches
  | cons o ops ih =>
      exact ih (fun a ha => h a (List.mem_cons_of_mem _ ha))
        (reaches_put (h o List.mem_cons_self) hreaches _)

/-- The patch is made where every pointer is reached and every value converts. -/
lemma makePatches_eq (hc : Compatible ops) (hreaches : ∀ o ∈ ops, Reaches o.key options)
    (hconvert : ∀ o ∈ ops, o.convert = .ok o.converted) :
    ∃ patches, makePatches ops options = .ok (touched ops options, patches) ∧
      patches.map (fun patch => (patch.path, patch.value)) = writes ops := by
  induction ops generalizing options with
  | nil => exact ⟨[], rfl, rfl⟩
  | cons o ops ih =>
      have hrest : ∀ a ∈ ops, Reaches a.key (put o.key (getAt o.key options) options) :=
        fun a ha => reaches_put (hc o List.mem_cons_self a (List.mem_cons_of_mem _ ha))
          (hreaches a (List.mem_cons_of_mem _ ha)) _
      obtain ⟨patches, hpatches, hwrites⟩ :=
        ih hc.tail hrest fun a ha => hconvert a (List.mem_cons_of_mem _ ha)
      rw [makePatches, Json.touch_eq (hreaches o List.mem_cons_self), ok_bind,
        hconvert o List.mem_cons_self, ok_bind, hpatches]
      exact ⟨_, rfl, congrArg _ hwrites⟩

/-- Where the patch is made, every pointer is reached and every value converts. -/
lemma of_makePatches {patches : List Patch} {options' : Json}
    (hc : Compatible ops) (h : makePatches ops options = .ok (options', patches)) :
    ∀ o ∈ ops, Reaches o.key options ∧ o.convert = .ok o.converted := by
  induction ops generalizing options options' patches with
  | nil => simp
  | cons o ops ih =>
      obtain ⟨looked, htouch, h⟩ := bind_eq_ok.mp h
      obtain ⟨value, hvalue, h⟩ := bind_eq_ok.mp h
      obtain ⟨rest, hrest, -⟩ := bind_eq_ok.mp h
      have hreaches := Json.reaches_of_touch htouch
      obtain rfl := Except.ok.inj (Json.touch_eq hreaches ▸ htouch)
      intro a ha
      rcases List.mem_cons.mp ha with rfl | hmem
      · exact ⟨hreaches, hvalue.trans (congrArg _ (ConfigOverride.convert_eq hvalue).symm)⟩
      · obtain ⟨hreached, hconvert⟩ := ih hc.tail hrest a hmem
        exact ⟨reaches_of_put (hc o List.mem_cons_self a ha) hreaches hreached, hconvert⟩

/-- A patch whose pointers are there writes its values. -/
lemma foldlM_applyPatch {patches : List Patch}
    (hwrites : patches.map (fun patch => (patch.path, patch.value)) = writes ops)
    (hpresent : ∀ o ∈ ops, options.Present o.key) (hc : Compatible ops) :
    patches.foldlM applyPatch options = .ok (putAll (writes ops) options) := by
  induction ops generalizing options patches with
  | nil =>
      obtain rfl := List.map_eq_nil_iff.mp hwrites
      rfl
  | cons o ops ih =>
      obtain ⟨patch, rest, rfl, hpatch, hrest⟩ := List.map_eq_cons_iff.mp hwrites
      obtain ⟨hpath, hvalue⟩ := Prod.mk.inj hpatch
      have hfirst : applyPatch options patch = .ok (put o.key o.converted options) := by
        have hthere := hpresent o List.mem_cons_self
        rw [applyPatch, hpath, hvalue]
        cases patch.op with
        | add => exact Json.patchAdd_eq hthere _
        | replace => exact Json.patchReplace_eq hthere _
      rw [List.foldlM_cons, hfirst, ok_bind]
      exact ih hrest (fun a ha => Json.present_put
        (hc o List.mem_cons_self a (List.mem_cons_of_mem _ ha))
        (hpresent a (List.mem_cons_of_mem _ ha)) _) hc.tail

/-- **When the overrides go through**: where every pointer leads through objects
and null values, and every value converts. -/
theorem applyOverrides_eq_ok_iff (hc : Compatible ops) :
    applyOverrides options ops = .ok final ↔
      (∀ o ∈ ops, Reaches o.key options ∧ o.convert = .ok o.converted) ∧
        final = putAll (writes ops) (touched ops options) := by
  have hthrough : (∀ o ∈ ops, Reaches o.key options ∧ o.convert = .ok o.converted) →
      applyOverrides options ops = .ok (putAll (writes ops) (touched ops options)) := by
    intro h
    obtain ⟨patches, hpatches, hwrites⟩ :=
      makePatches_eq hc (fun o ho => (h o ho).1) fun o ho => (h o ho).2
    rw [applyOverrides, hpatches, ok_bind]
    exact foldlM_applyPatch hwrites (present_touched hc options) hc
  refine ⟨fun h => ?_, fun ⟨h, heq⟩ => heq ▸ hthrough h⟩
  obtain ⟨⟨options', patches⟩, hpatches, -⟩ := bind_eq_ok.mp h
  have hall := of_makePatches hc hpatches
  exact ⟨hall, (Except.ok.inj ((hthrough hall).symm.trans h)).symm⟩

/-- **What is read afterwards** at a pointer aside: the value of the last override
of this pointer, or what was there. -/
theorem getAt_applyOverrides (hc : Compatible ops) (h : applyOverrides options ops = .ok final)
    (hq : Aside ops q) :
    getAt q final = (((ops.filter fun o => o.key = q).getLast?).map (·.converted)).getD
      (getAt q options) := by
  obtain ⟨-, rfl⟩ := (applyOverrides_eq_ok_iff hc).mp h
  have haside : ∀ write ∈ writes ops, write.1 = q ∨ Incomparable write.1 q := by
    intro write hwrite
    obtain ⟨o, ho, rfl⟩ := List.mem_map.mp hwrite
    exact hq o ho
  rw [getAt_putAll haside, getAt_touched hq, writes, List.filter_map, List.getLast?_map,
    Option.map_map]
  rfl

/-- A pointer that no other leads on to is reached afterwards. -/
lemma reaches_applyOverrides (hc : Compatible ops) (h : applyOverrides options ops = .ok final)
    (hq : ∀ o ∈ ops, o.key <+: q → o.key = q) (hreaches : Reaches q options) : Reaches q final := by
  obtain ⟨-, rfl⟩ := (applyOverrides_eq_ok_iff hc).mp h
  refine reaches_putAll (fun write hwrite => ?_) (reaches_touched hq hreaches)
  obtain ⟨o, ho, rfl⟩ := List.mem_map.mp hwrite
  exact hq o ho

/-- **When `init` returns**: where the overrides go through, and the identifier
and the data location can then be read. -/
theorem init_returns {env : Environment} {s : State} {config : Json} {appId dataLoc : Str}
    (hload : Loads env s.configFile config)
    (happly : applyOverrides config s.configOverrides = .ok final)
    (happId : getAppId final = .ok appId) (hdata : dataLocation final = .ok dataLoc) :
    ∃ s', init env s = .ok (true, s') ∧ s'.options = final := by
  have hrest : ∀ t : State, t.configOverrides = s.configOverrides → t.options = config →
      ∃ s', t.initOptions env = .ok (true, s') ∧ s'.options = final := by
    intro t hoverrides hoptions
    rw [State.initOptions, hoverrides, hoptions, happly, ok_bind, happId, ok_bind, hdata]
    exact ⟨_, rfl, rfl⟩
  obtain ⟨file, hfile, hconfig⟩ := hload
  simp only [init, hfile, ok_bind]
  split_ifs at hconfig ⊢
  · rw [hconfig]
    exact hrest _ rfl rfl
  · exact hrest _ rfl hconfig.symm

end Patching

end Neutralino.settings
