import Neutralino.Config.Effective

/-!
What one more argument does to a program that starts.

* `reaches_of_applyOverrides`: a pointer that is reached after the overrides was so before.
* `getAt_applyOverrides_insert`, `getAt_added`: a pointer that no override of the argument is
  comparable to reads as without it.
* `GoesThrough`: the overrides of the argument go through; `applyOverrides_added_iff`: they do
  among the others exactly if they do alone.
-/

namespace Neutralino.settings

open Paths

/-! ### What is reached before the overrides -/

section Reached

variable {ops : List ConfigOverride} {options final : Json} {q : List Str}

/-- Writes of pointers that are reached make no other one reached. -/
lemma reaches_of_putAll {writes : List (List Str × Json)}
    (hq : ∀ write ∈ writes, write.1 <+: q → write.1 = q)
    (hc : ∀ write ∈ writes, ∀ write' ∈ writes, write.1 <+: write'.1 → write.1 = write'.1)
    (hp : ∀ write ∈ writes, Reaches write.1 options)
    (hreaches : Reaches q (putAll writes options)) : Reaches q options := by
  induction writes generalizing options with
  | nil => exact hreaches
  | cons write writes ih =>
      refine reaches_of_put (hq _ List.mem_cons_self) (hp _ List.mem_cons_self)
        (ih (fun w hw => hq w (List.mem_cons_of_mem _ hw))
          (fun w hw w' hw' => hc w (List.mem_cons_of_mem _ hw) w' (List.mem_cons_of_mem _ hw'))
          (fun w hw => ?_) hreaches)
      exact reaches_put (hc _ List.mem_cons_self w (List.mem_cons_of_mem _ hw))
        (hp w (List.mem_cons_of_mem _ hw)) _

/-- Looking at pointers that are reached makes no other one reached. -/
lemma reaches_of_touched (hq : ∀ o ∈ ops, o.key <+: q → o.key = q) (hc : Compatible ops)
    (hp : ∀ o ∈ ops, Reaches o.key options) (hreaches : Reaches q (touched ops options)) :
    Reaches q options := by
  induction ops generalizing options with
  | nil => exact hreaches
  | cons o ops ih =>
      refine reaches_of_put (hq _ List.mem_cons_self) (hp _ List.mem_cons_self)
        (ih (fun a ha => hq a (List.mem_cons_of_mem _ ha)) hc.tail (fun a ha => ?_) hreaches)
      exact reaches_put (hc _ List.mem_cons_self a (List.mem_cons_of_mem _ ha))
        (hp a (List.mem_cons_of_mem _ ha)) _

/-- A pointer that is reached afterwards was reached before. -/
lemma reaches_of_applyOverrides (hc : Compatible ops) (h : applyOverrides options ops = .ok final)
    (hq : ∀ o ∈ ops, o.key <+: q → o.key = q) (hreaches : Reaches q final) : Reaches q options := by
  obtain ⟨hall, rfl⟩ := (applyOverrides_eq_ok_iff hc).mp h
  have hp : ∀ o ∈ ops, Reaches o.key options := fun o ho => (hall o ho).1
  have hof : ∀ write ∈ writes ops, ∃ o ∈ ops, o.key = write.1 := by
    intro write hwrite
    obtain ⟨o, ho, rfl⟩ := List.mem_map.mp hwrite
    exact ⟨o, ho, rfl⟩
  refine reaches_of_touched hq hc hp (reaches_of_putAll ?_ ?_ ?_ hreaches)
  · intro write hwrite
    obtain ⟨o, ho, heq⟩ := hof write hwrite
    exact heq ▸ hq o ho
  · intro write hwrite write' hwrite'
    obtain ⟨o, ho, heq⟩ := hof write hwrite
    obtain ⟨o', ho', heq'⟩ := hof write' hwrite'
    exact heq ▸ heq' ▸ hc o ho o' ho'
  · intro write hwrite
    obtain ⟨o, ho, heq⟩ := hof write hwrite
    exact heq ▸ reaches_touched (fun a ha => hc a ha o ho) (hp o ho)

end Reached

/-! ### Overrides in between -/

section Between

variable {ops ops' new : List ConfigOverride} {options final final' : Json} {q : List Str}

lemma getAt_touched_congr {j j' : Json} (h : getAt q j = getAt q j') (ops : List ConfigOverride) :
    getAt q (touched ops j) = getAt q (touched ops j') := by
  induction ops generalizing j j' with
  | nil => exact h
  | cons o ops ih => exact ih (getAt_put_getAt_congr h o.key)

lemma touched_append (ops ops' : List ConfigOverride) (j : Json) :
    touched (ops ++ ops') j = touched ops' (touched ops j) := List.foldl_append

/-- Overrides that a pointer is not comparable to may be left out. -/
lemma getAt_applyOverrides_insert (hc : Compatible (ops ++ ops'))
    (hc' : Compatible (ops ++ (new ++ ops')))
    (h : applyOverrides options (ops ++ ops') = .ok final)
    (h' : applyOverrides options (ops ++ (new ++ ops')) = .ok final')
    (hq : ∀ o ∈ new, Incomparable o.key q) : getAt q final' = getAt q final := by
  obtain ⟨-, rfl⟩ := (applyOverrides_eq_ok_iff hc).mp h
  obtain ⟨-, rfl⟩ := (applyOverrides_eq_ok_iff hc').mp h'
  have hnew : ∀ j : Json, getAt q (putAll (writes new) j) = getAt q j := fun j => by
    refine getAt_putAll_of_incomparable (fun write hwrite => ?_) j
    obtain ⟨o, ho, rfl⟩ := List.mem_map.mp hwrite
    exact hq o ho
  have htouched : getAt q (touched (ops ++ (new ++ ops')) options) =
      getAt q (touched (ops ++ ops') options) := by
    rw [touched_append, touched_append, touched_append]
    exact getAt_touched_congr (getAt_touched (fun o ho => .inr (hq o ho)) _) ops'
  simp only [writes, List.map_append, putAll_append]
  refine getAt_putAll_congr ((hnew _).trans ?_) _
  exact getAt_putAll_congr htouched _

end Between

/-! ### One more argument -/

section Start

variable {env : Environment} {currentDirectory : Str} {before after args : List Str} {given : Str}
  {config final : Json} {s : State}

/-- An argument changes the configuration file where it is the flag for it. -/
lemma setGlobalArg_configFile (acc : State × ℕ) (arg : Str) :
    (setGlobalArg currentDirectory acc arg).1.configFile =
      if (parseArg arg).key = "--config-file".toList then (parseArg arg).value
      else acc.1.configFile := by
  obtain ⟨s, argIndex⟩ := acc
  obtain ⟨t, ht, hfile⟩ : ∃ t : State,
      (if argIndex = 0 then s.setDefaultPath currentDirectory arg else s) = t ∧
        t.configFile = s.configFile := by
    refine ⟨_, rfl, ?_⟩
    split_ifs <;> rfl
  have hres : ∀ value, (t.setResMode value).configFile = t.configFile := fun value => by
    unfold State.setResMode
    split_ifs <;> rfl
  simp only [setGlobalArg, ht]
  by_cases hconfig : (parseArg arg).key = "--config-file".toList
  · have hne : ∀ flag : String, flag.toList ≠ "--config-file".toList →
        ¬ (parseArg arg).key = flag.toList := fun flag hflag heq => hflag (heq.symm.trans hconfig)
    rw [if_neg (hne "--load-dir-res" (by decide)), if_neg (hne "--res-mode" (by decide)),
      if_neg (hne "--path" (by decide)), if_pos hconfig, if_pos hconfig]
  · rw [if_neg hconfig, if_neg hconfig]
    split_ifs
    · exact hfile
    · exact (hres _).trans hfile
    · exact hfile
    · exact hfile
    · exact hfile

/-- An argument that is no such flag leaves the file that is loaded. -/
lemma configFile_insert (hgiven : (parseArg given).key ≠ "--config-file".toList) :
    (setGlobalArgs currentDirectory (before ++ given :: after) {}).configFile =
      (setGlobalArgs currentDirectory (before ++ after) {}).configFile := by
  have hloop : ∀ (args : List Str) (acc : State × ℕ),
      (args.foldl (setGlobalArg currentDirectory) acc).1.configFile =
        args.foldl (fun file arg => if (parseArg arg).key = "--config-file".toList then
          (parseArg arg).value else file) acc.1.configFile := by
    intro args
    induction args with
    | nil => exact fun acc => rfl
    | cons arg args ih =>
        intro acc
        rw [List.foldl_cons, ih, setGlobalArg_configFile, List.foldl_cons]
  rw [setGlobalArgs, setGlobalArgs, hloop, hloop, List.foldl_append, List.foldl_append,
    List.foldl_cons, if_neg hgiven]

/-- No pointer of an override leads on to the section of a mode. -/
lemma eq_modePath_of_prefix {mode : AppMode} {o : ConfigOverride} (ho : o ∈ collected args)
    (hlead : o.key <+: modePath mode []) : o.key = modePath mode [] :=
  have htarget : isTarget (modePath mode []) = true := by cases mode <;> rfl
  eq_of_prefix_of_isTarget (isTarget_of_collected ho) htarget hlead

/-- The overrides keep what leads to the section of a mode. -/
lemma readable_applyOverrides {mode : AppMode}
    (happly : applyOverrides config (collected args) = .ok final) (h : Readable config mode) :
    Readable final mode :=
  reaches_applyOverrides (compatible_collected _) happly (fun _ ho => eq_modePath_of_prefix ho) h

lemma readable_of_applyOverrides {mode : AppMode}
    (happly : applyOverrides config (collected args) = .ok final) (h : Readable final mode) :
    Readable config mode :=
  reaches_of_applyOverrides (compatible_collected _) happly (fun _ ho => eq_modePath_of_prefix ho) h

/-- The identifier depends on its option only. -/
lemma getAppId_congr {options options' : Json} (hroot : options.IsNode) (hroot' : options'.IsNode)
    (h : getAt ["applicationId".toList] options' = getAt ["applicationId".toList] options) :
    getAppId options' = getAppId options := by
  have hsame : options'.member "applicationId".toList = options.member "applicationId".toList := h
  rw [getAppId, getAppId, Json.index_of_isNode hroot, Json.index_of_isNode hroot', hsame]

lemma collected_insert : collected (before ++ given :: after) =
    collected before ++ (overridesOf (parseArg given) ++ collected after) := by
  rw [collected, List.flatMap_append, List.flatMap_cons, ← collected, ← collected]

lemma collected_append : collected (before ++ after) = collected before ++ collected after := by
  rw [collected, List.flatMap_append, ← collected, ← collected]

end Start

/-! ### The overrides of the argument -/

section Added

variable {env : Environment} {currentDirectory : Str} {before after : List Str} {given : Str}
  {config final : Json} {s : State} {q : List Str}

/-- The overrides of an argument go through: their pointers lead through objects and null
values, and their texts convert. -/
def GoesThrough (given : Str) (config : Json) : Prop :=
  ∀ o ∈ overridesOf (parseArg given), Reaches o.key config ∧ ∃ value, o.convert = .ok value

/-- They go through among the others exactly if they do alone. -/
lemma applyOverrides_added_iff (h : Starts env currentDirectory (before ++ after) config s) :
    (∃ final, applyOverrides config (collected (before ++ given :: after)) = .ok final) ↔
      GoesThrough given config := by
  have hiff : ∀ final, applyOverrides config (collected (before ++ given :: after)) = .ok final ↔ _ :=
    fun final => applyOverrides_eq_ok_iff (compatible_collected (before ++ given :: after))
  have hold := ((applyOverrides_eq_ok_iff (compatible_collected _)).mp h.applies.1).1
  constructor
  · rintro ⟨final, happly⟩ o ho
    obtain ⟨hreaches, hconvert⟩ := ((hiff final).mp happly).1 o (by
      rw [collected_insert]
      exact List.mem_append_right _ (List.mem_append_left _ ho))
    exact ⟨hreaches, _, hconvert⟩
  · intro hthrough
    refine ⟨_, (hiff _).mpr ⟨fun o ho => ?_, rfl⟩⟩
    rw [collected_insert, List.mem_append, List.mem_append] at ho
    rcases ho with ho | ho | ho
    · exact hold o (by rw [collected_append]; exact List.mem_append_left _ ho)
    · obtain ⟨hreaches, value, hconvert⟩ := hthrough o ho
      exact ⟨hreaches, hconvert.trans (congrArg _ (ConfigOverride.convert_eq hconvert).symm)⟩
    · exact hold o (by rw [collected_append]; exact List.mem_append_right _ ho)

variable (h : Starts env currentDirectory (before ++ after) config s)
  (happly : applyOverrides config (collected (before ++ given :: after)) = .ok final)

include h happly

/-- A pointer that no override of the argument is comparable to reads as without it. -/
lemma getAt_added (hq : ∀ o ∈ overridesOf (parseArg given), Incomparable o.key q) :
    getAt q final = getAt q s.options := by
  have happlies := h.applies.1
  rw [collected_append] at happlies
  rw [collected_insert] at happly
  exact getAt_applyOverrides_insert (collected_append ▸ compatible_collected (before ++ after))
    (collected_insert ▸ compatible_collected (before ++ given :: after)) happlies happly hq

/-- A pointer of the tables that no override of the argument is for reads as without it. -/
lemma getAt_added_of_ne (htarget : isTarget q = true)
    (hq : ∀ o ∈ overridesOf (parseArg given), o.key ≠ q) : getAt q final = getAt q s.options := by
  refine getAt_added h happly fun o ho => ?_
  have hmem : o ∈ collected (before ++ given :: after) := by
    rw [collected_insert]
    exact List.mem_append_right _ (List.mem_append_left _ ho)
  exact (eq_or_incomparable (isTarget_of_collected hmem) htarget).resolve_left (hq o ho)

/-- What leads to the section of a mode stays. -/
lemma readable_added {mode : AppMode} (hreadable : Readable s.options mode) : Readable final mode :=
  readable_applyOverrides happly (readable_of_applyOverrides h.applies.1 hreadable)

/-- No flag overrides the identifier. -/
lemma getAppId_added : getAppId final = getAppId s.options := by
  have hall : ∀ m ∈ cliMappings, ["applicationId"] ∉ m.targets := by
    decide +kernel
  obtain ⟨-, jLoc, hloc⟩ := h.applies
  obtain ⟨mode, hmode, -⟩ := bind_eq_ok.mp hloc
  have hreadable := h.readable hmode
  refine getAppId_congr hreadable.1 (readable_added h happly hreadable).1 ?_
  refine getAt_added_of_ne h happly rfl fun o ho heq => ?_
  obtain ⟨mapping, hmapping, -, target, htarget, rfl⟩ := mem_overridesOf ho
  obtain rfl : target = ["applicationId"] :=
    List.map_injective_iff.mpr (fun _ _ => String.toList_inj.mp) heq
  exact hall mapping hmapping htarget

/-- **With the argument the program starts** where its overrides go through and the data location
can then be read. -/
lemma exists_starts_added (hgiven : (parseArg given).key ≠ "--config-file".toList) {dataLoc : Str}
    (hdata : dataLocation final = .ok dataLoc) :
    ∃ s', Starts env currentDirectory (before ++ given :: after) config s' ∧ s'.options = final := by
  obtain ⟨⟨appId, happId⟩, -⟩ := h.reads
  exact exists_starts ((configFile_insert hgiven).symm ▸ h.loads) happly
    ((getAppId_added h happly).trans happId) hdata

omit happly in
/-- An argument that overrides nothing leaves the options. -/
lemma Starts.insert_of_nil (hgiven : (parseArg given).key ≠ "--config-file".toList)
    (hnone : overridesOf (parseArg given) = []) :
    ∃ s', Starts env currentDirectory (before ++ given :: after) config s' ∧
      s'.options = s.options := by
  obtain ⟨-, dataLoc, hdata⟩ := h.reads
  refine exists_starts_added h ?_ hgiven hdata
  rw [collected_insert, hnone, List.nil_append, ← collected_append]
  exact h.applies.1

end Added

end Neutralino.settings
