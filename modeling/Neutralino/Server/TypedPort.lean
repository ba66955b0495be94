import Neutralino.Config.Schema
import Neutralino.Server.PortAgreement

/-!
The port in a configuration whose options have their types.

* `portPlaces`, `port_or_aside`: where the port stands; every other option stands aside.
* `Sectioned`, `exists_setPort`: a port can be written where every section is left out or
  an object.
* `setPort_typed`: **what writing the port leaves**: a configuration of the right types, in
  the same mode.
* `init_typed`: what the server leaves.
-/

namespace Neutralino

open settings Paths

/-! ### The places of the port -/

/-- The places of the port. -/
def portPlaces : List (List String) :=
  ["port"] :: helpers.getModes.map fun mode => ["modes", mode, "port"]

section Port

variable {options : Json} {mode : AppMode}

lemma port_mem_portPlaces : ["port"] ∈ portPlaces := List.mem_cons_self

lemma exists_portPlace (mode : AppMode) :
    ∃ p ∈ portPlaces, p.map String.toList = modePath mode "port" := by
  obtain ⟨name, hname, hplace⟩ := exists_modePath mode
  exact ⟨["modes", name, "port"], List.mem_cons_of_mem _ (List.mem_map_of_mem hname),
    hplace "port" []⟩

lemma portPlace_cases {p : List String} (hp : p ∈ portPlaces) :
    p.map String.toList = ["port".toList] ∨ ∃ mode, p.map String.toList = modePath mode "port" := by
  simp only [portPlaces, helpers.getModes, List.map_cons, List.map_nil, List.mem_cons,
    List.not_mem_nil, or_false] at hp
  rcases hp with rfl | rfl | rfl | rfl | rfl
  · exact .inl rfl
  · exact .inr ⟨.window, rfl⟩
  · exact .inr ⟨.browser, rfl⟩
  · exact .inr ⟨.cloud, rfl⟩
  · exact .inr ⟨.chrome, rfl⟩

/-- A place of an option is one of the port, for a number, or stands aside of it. -/
lemma port_or_aside {p : List String × OptionType} (hp : p ∈ places) :
    p.1 ∈ portPlaces ∧ (∀ n, p.2.fits (.num n) = true) ∨ AsideOfPort (p.1.map String.toList) := by
  have hall : ∀ p ∈ places, p.1 ∈ portPlaces ∧ p.2.fits (.num 0) = true ∨
      ∀ q ∈ portPlaces, ¬ q <+: p.1 ∧ ¬ p.1 <+: q := by
    decide +kernel
  have hinj : Function.Injective String.toList := fun _ _ => String.toList_inj.mp
  rcases hall p hp with ⟨hport, hzero⟩ | haside
  · refine .inl ⟨hport, fun n => ?_⟩
    obtain ⟨path, t⟩ := p
    cases t with
    | scalar t => cases t <;> first | rfl | cases hzero
    | _ => cases hzero
  · have hincomparable : ∀ q ∈ portPlaces,
        Incomparable (q.map String.toList) (p.1.map String.toList) := fun q hq =>
      ⟨fun h => (haside q hq).1 ((List.prefix_map_iff_of_injective hinj).mp h),
        fun h => (haside q hq).2 ((List.prefix_map_iff_of_injective hinj).mp h)⟩
    refine .inr ⟨hincomparable _ port_mem_portPlaces, fun mode => ?_⟩
    obtain ⟨q, hq, hpath⟩ := exists_portPlace mode
    rw [← hpath]
    exact hincomparable q hq

/-- The paths of the sections, none of which leads on from a place of the port. -/
def IsSection (q : List Str) : Prop := q = ["cli".toList, []] ∨ ∃ mode, q = modePath mode []

lemma eq_of_prefix_of_isSection {p q : List Str} (hq : IsSection q)
    (hp : p = ["port".toList] ∨ ∃ mode, p = modePath mode "port") (h : p <+: q) : p = q := by
  have hroot : ∀ {key : Str} {rest : List Str}, ["port".toList] <+: key :: rest → key = "port".toList :=
    fun h => (List.cons_prefix_cons.mp h).1.symm
  rcases hp with rfl | ⟨mode, rfl⟩
  · rcases hq with rfl | ⟨mode', rfl⟩
    · exact absurd (hroot h) (by decide)
    · exact absurd (hroot h) (by decide)
  · rcases hq with rfl | ⟨mode', rfl⟩
    · exact absurd h.length_le (by simp [modePath])
    · exact h.eq_of_length rfl

/-- Every section is left out or an object. -/
def Sectioned (j : Json) : Prop := ∀ q, IsSection q → Reaches q j

lemma settings.Typed.sectioned (h : Typed options) : Sectioned options := by
  rintro q (rfl | ⟨mode, rfl⟩)
  · exact h.cli
  · exact h.sections mode

/-- A port can be written to a section, and the sections stay. -/
lemma exists_assign_port {j : Json} (h : Sectioned j) (mode : AppMode) (port : ℤ) :
    ∃ j', j.assign (modePath mode "port") (.num port) = .ok j' ∧ Sectioned j' := by
  obtain ⟨hroot, hmodes, hsection, -⟩ := h _ (.inr ⟨mode, rfl⟩)
  have hreaches : Reaches (modePath mode "port") j := ⟨hroot, hmodes, hsection, trivial⟩
  rw [Json.assign, Json.touch_eq hreaches, ok_bind]
  refine ⟨_, rfl, fun q hq => ?_⟩
  have hpath := eq_of_prefix_of_isSection hq (.inr ⟨mode, rfl⟩)
  exact reaches_put hpath (reaches_put hpath (h q hq) _) _

/-- The port can be written, and the sections stay. -/
lemma exists_setPort (h : Sectioned options) (port : ℤ) :
    ∃ options', setPort port options = .ok options' ∧ Sectioned options' := by
  have hroot : Sectioned (options.set "port" (.num port)) := fun q hq =>
    reaches_put (p := ["port".toList]) (eq_of_prefix_of_isSection hq (.inl rfl)) (h q hq) (.num port)
  obtain ⟨window, hwindow, h'⟩ := exists_assign_port hroot .window port
  obtain ⟨browser, hbrowser, h'⟩ := exists_assign_port h' .browser port
  obtain ⟨cloud, hcloud, h'⟩ := exists_assign_port h' .cloud port
  obtain ⟨chrome, hchrome, h'⟩ := exists_assign_port h' .chrome port
  refine ⟨chrome, ?_, h'⟩
  have hindex : options.index "port" = .ok (options.member "port") :=
    Json.index_of_isNode (h _ (.inr ⟨.window, rfl⟩)).1 _
  rw [setPort, hindex, ok_bind]
  exact bind_eq_ok.mpr ⟨window, hwindow, bind_eq_ok.mpr ⟨browser, hbrowser,
    bind_eq_ok.mpr ⟨cloud, hcloud, hchrome⟩⟩⟩

/-- The port is also at the root. -/
lemma root_of_setPort {port : ℤ} {options' : Json} (h : setPort port options = .ok options') :
    getAt ["port".toList] options' = .num port := by
  have haside : ∀ mode, Incomparable (modePath mode "port") ["port".toList] := fun mode =>
    ⟨fun hp => absurd hp.length_le (by simp [modePath]),
      fun hp => absurd (List.cons_prefix_cons.mp hp).1 (by decide)⟩
  obtain ⟨_, -, h⟩ := bind_eq_ok.mp h
  obtain ⟨window, hwindow, h⟩ := bind_eq_ok.mp h
  obtain ⟨browser, hbrowser, h⟩ := bind_eq_ok.mp h
  obtain ⟨cloud, hcloud, hchrome⟩ := bind_eq_ok.mp h
  rw [(Json.assign_eq_ok hchrome).2 _ (haside .chrome), (Json.assign_eq_ok hcloud).2 _ (haside .cloud),
    (Json.assign_eq_ok hbrowser).2 _ (haside .browser), (Json.assign_eq_ok hwindow).2 _ (haside .window)]
  exact getAt_put_self (J := Json) ["port".toList] (.num port) options

/-- **The port is written to a configuration of the right types**: it stays one, in the same
mode, and has the port. -/
theorem setPort_typed (h : Typed options) (port : ℤ) :
    ∃ options', setPort port options = .ok options' ∧ Typed options' ∧
      getMode options' = getMode options ∧ ∀ mode, effective options' mode "port" = .num port := by
  obtain ⟨options', hset, hsections⟩ := exists_setPort h.sectioned port
  obtain ⟨hport, haside⟩ := setPort_eq_ok hset
  have hoption : ∀ p ∈ places, p.2.fits (getAt (p.1.map String.toList) options') = true := by
    intro p hp
    rcases port_or_aside hp with ⟨hmem, hnum⟩ | hp'
    · have hvalue : getAt (p.1.map String.toList) options' = .num port := by
        rcases portPlace_cases hmem with hpath | ⟨mode, hpath⟩
        · rw [hpath, root_of_setPort hset]
        · rw [hpath, hport mode]
      rw [hvalue]
      exact hnum port
    · rw [haside _ hp']
      exact h.option p hp
  refine ⟨options', hset, ⟨fun mode => hsections _ (.inr ⟨mode, rfl⟩), hsections _ (.inl rfl),
    hoption⟩, ?_, fun mode => ?_⟩
  · exact getMode_congr (h.sections .window).1 (hsections _ (.inr ⟨.window, rfl⟩)).1
      (haside _ (asideOfPort (by decide) (by decide)))
  · rw [effective, hport mode]
    rfl

lemma port_fits (h : Typed options) (mode : AppMode) :
    Scalar.integer.fits (effective options mode "port") = true :=
  h.effective (List.mem_cons_self : ("port", OptionType.scalar .integer) ∈ modeOptions) mode

lemma url_fits (h : Typed options) (mode : AppMode) :
    Scalar.string.fits (effective options mode "url") = true :=
  h.effective (by simp [modeOptions] : ("url", OptionType.scalar .string) ∈ modeOptions) mode

/-- The port that is asked for is zero where none is configured. -/
lemma configuredPort_typed (h : Typed options) (hmode : getMode options = .ok mode) :
    ∃ port, neuserver.configuredPort options = .ok port ∧
      (effective options mode "port" = .null ∧ port = 0 ∨
        ∃ n, effective options mode "port" = .num n) := by
  rw [neuserver.configuredPort, h.option_eq hmode, ok_bind]
  rcases null_or_num (port_fits h mode) with hport | ⟨n, hport⟩
  · rw [hport]
    exact ⟨0, rfl, .inl ⟨rfl, rfl⟩⟩
  · rw [hport]
    exact ⟨_, rfl, .inr ⟨n, rfl⟩⟩

/-- **What the server leaves**: a configuration of the right types, in the same mode, with a
port. -/
theorem init_typed (h : Typed options) (hmode : getMode options = .ok mode) {port : ℕ}
    (hbound : 0 < port) : ∃ started, neuserver.init port options = .ok started ∧
      Typed started.options ∧ getMode started.options = .ok mode ∧
      (effective started.options mode "port").isNull = false := by
  obtain ⟨configured, hconfigured, hvalue⟩ := configuredPort_typed h hmode
  have hupdated : ∃ options', neuserver.updatePort configured port options = .ok options' ∧
      Typed options' ∧ getMode options' = .ok mode ∧
      (effective options' mode "port").isNull = false := by
    rw [neuserver.updatePort]
    by_cases hne : configured ≠ port
    · obtain ⟨options', hset, htyped, hmode', hport⟩ := setPort_typed h port
      rw [if_pos hne]
      exact ⟨options', hset, htyped, hmode'.trans hmode, by rw [hport mode]; rfl⟩
    · rw [if_neg hne]
      refine ⟨options, rfl, h, hmode, ?_⟩
      rcases hvalue with ⟨-, rfl⟩ | ⟨n, hvalue⟩
      · omega
      · rw [hvalue]
        rfl
  obtain ⟨options', hupdate, htyped, hmode', hport⟩ := hupdated
  have hurl : ∃ url, neuserver.navigationUrl (neuserver.localAddress ++ decimal port)
      (effective options' mode "url") = .ok url := by
    rcases null_or_str (url_fits htyped mode) with hnull | ⟨url, hstr⟩
    · rw [hnull]
      exact ⟨_, rfl⟩
    · rw [hstr]
      exact ⟨_, neuserver.navigationUrl_str _ _⟩
  obtain ⟨url, hurl⟩ := hurl
  rw [neuserver.init, hconfigured, ok_bind, hmode, ok_bind, hupdate, ok_bind,
    htyped.option_eq hmode', ok_bind, hurl, ok_bind, htyped.option_eq hmode']
  exact ⟨_, rfl, htyped, hmode', hport⟩

end Port

end Neutralino
