import Neutralino.Server.Connections

/-!
The idle check: `__exitProcessIfIdle`, which every close of an app connection sets off.

* `Check`: a check that waits, with whether an app connection was open at some point
  since the close that scheduled it.
* `IdleWorld`, `IdleStep`: the server with the checks that wait, in the order in which
  they were scheduled; a check looks at the number of app connections when it fires.
* `PendingKept`: a check was interrupted exactly if an app connection is open, or one
  was closed later and its check waits too.
* `idle_exits_iff`: **when only uninterrupted checks end the process**.
-/

namespace Neutralino.neuserver

open Runs

/-! ### The checks -/

/-- An app connection is open. -/
def appOpen (w : World) : Bool := w.connections.any fun c => c.extensionId = none

/-- A check that waits. -/
structure Check where
  /-- An app connection was open at some point since the check was scheduled. -/
  interrupted : Bool := false
  deriving DecidableEq

/-- A check that goes on waiting in a world. -/
def Check.wait (w : World) (check : Check) : Check := ⟨check.interrupted || appOpen w⟩

/-- Whether a notice is the idle check. -/
def Notice.isIdleCheck : Notice → Bool
  | .exitProcessIfIdle => true
  | .event _ _ => false

/-- The checks that an event schedules. -/
def scheduled (config : Config) (w : World) : Event → List Check
  | .disconnect c =>
      ((handleDisconnect config.mode w.registry c.handler c.url).2.filter Notice.isIdleCheck).map
        fun _ => {}
  | _ => []

/-- The server with the checks that wait, and the check that has ended the process. -/
structure IdleWorld where
  world : World := {}
  pending : List Check := []
  exited : Option Check := none

/-- What happens: something at the server, or the first check fires. -/
inductive IdleEvent where
  | server (e : Event)
  | fire

/-- The steps of a process that runs. -/
inductive IdleStep (config : Config) : IdleWorld → IdleEvent → IdleWorld → Prop
  | server (s : IdleWorld) (e : Event) (w : World) : s.exited = none → Step config s.world e w →
      IdleStep config s (.server e)
        { s with
          world := w
          pending := (s.pending ++ scheduled config s.world e).map (Check.wait w) }
  | fire (s : IdleWorld) (check : Check) (pending : List Check) : s.exited = none →
      s.pending = check :: pending →
      IdleStep config s .fire
        { s with
          pending := pending
          exited := if s.world.registry.appConnections.card = 0 then some check else none }

/-- A check that has ended the process was not interrupted. -/
def ExitsIdle (s : IdleWorld) : Prop := ∀ check ∈ s.exited, check.interrupted = false

/-- Where no app connection is open, the check that fires is the only one that waits:
no app connection was closed after the one that scheduled it. -/
def FiresAlone (s : IdleWorld) : IdleEvent → Prop
  | .server _ => True
  | .fire => appOpen s.world = false → s.pending.length ≤ 1

/-! ### What is scheduled -/

section Scheduled

variable {config : Config} {w w' : World} {e : Event}

lemma appOpen_iff : appOpen w = true ↔ ∃ c ∈ w.connections, c.extensionId = none := by
  simp [appOpen]

/-- The set of the app connections is empty where none is open. -/
lemma card_eq_zero_iff (hlisted : ListedOpen w) :
    w.registry.appConnections.card = 0 ↔ appOpen w = false := by
  rw [Finset.card_eq_zero, ← Bool.not_eq_true, appOpen_iff, Finset.eq_empty_iff_forall_notMem]
  constructor
  · rintro h ⟨c, hc, hid⟩
    exact h c.handler ((hlisted.apps _).mpr ⟨c, hc, hid, rfl⟩)
  · intro h handler hmem
    obtain ⟨c, hc, hid, -⟩ := (hlisted.apps _).mp hmem
    exact h ⟨c, hc, hid⟩

/-- In the browser and chrome modes the close of an app connection schedules a check,
and nothing else does. -/
lemma scheduled_eq (hmode : config.mode = .browser ∨ config.mode = .chrome) (w : World) (e : Event) :
    scheduled config w e =
      match e with
      | .disconnect c => if c.extensionId = none then [{}] else []
      | _ => [] := by
  cases e with
  | connect url host => rfl
  | message c opcode => rfl
  | disconnect c =>
      by_cases hext : isExtensionEndpoint c.url
      · simp [scheduled, handleDisconnect, hext, Notice.isIdleCheck, extensionId_eq_some]
      · simp only [scheduled, handleDisconnect, hext, hmode, extensionId_eq_none, if_true,
          if_false, Bool.false_eq_true, not_false_eq_true]
        rfl

/-- Where an app connection is closed, it was open before. -/
lemma appOpen_of_scheduled (hmode : config.mode = .browser ∨ config.mode = .chrome)
    (hst : Step config w e w') (h : scheduled config w e ≠ []) : appOpen w = true := by
  rw [scheduled_eq hmode] at h
  cases hst with
  | connect url host _ => exact absurd rfl h
  | message c opcode _ => exact absurd rfl h
  | disconnect c hc =>
      by_contra hclosed
      refine h (if_neg fun hid => hclosed (appOpen_iff.mpr ⟨c, hc, hid⟩))

/-- The last app connection goes with a check. -/
lemma scheduled_of_closed (hmode : config.mode = .browser ∨ config.mode = .chrome)
    (hst : Step config w e w') (hopen : appOpen w = true) (hclosed : appOpen w' = false) :
    scheduled config w e ≠ [] := by
  obtain ⟨c', hc', hid'⟩ := appOpen_iff.mp hopen
  rw [← Bool.not_eq_true, appOpen_iff] at hclosed
  rw [scheduled_eq hmode]
  cases hst with
  | connect url host _ => exact absurd ⟨c', List.mem_cons_of_mem _ hc', hid'⟩ hclosed
  | message c opcode _ => exact absurd ⟨c', hc', hid'⟩ hclosed
  | disconnect c hc =>
      -- the connection that was open is the one that is closed
      have hsame : c' = c := by
        by_contra hne
        exact hclosed ⟨c', (List.mem_erase_of_ne hne).mpr hc', hid'⟩
      rw [hsame] at hid'
      simp [hid']

end Scheduled

/-! ### The checks that wait -/

/-- A check was interrupted exactly if another waits behind it or an app connection
is open. -/
def PendingKept (w : World) (pending : List Check) : Prop :=
  ∀ before check after, pending = before ++ check :: after →
    (check.interrupted = true ↔ after ≠ [] ∨ appOpen w = true)

/-- What every step keeps. -/
structure IdleKept (s : IdleWorld) : Prop where
  distinct : Distinct s.world
  listed : ListedOpen s.world
  pending : PendingKept s.world s.pending

section Kept

variable {config : Config} {s t : IdleWorld} {e : IdleEvent}

/-- An event at the server: a check that goes on waiting is interrupted by the
connections that are open, and a check that is added stands behind it. -/
lemma PendingKept.wait {w w' : World} {pending added : List Check} (h : PendingKept w pending)
    (hclosed : appOpen w = true → appOpen w' = false → added ≠ [])
    (hadded : added ≠ [] → appOpen w = true) (hone : added = [] ∨ added = [{}]) :
    PendingKept w' ((pending ++ added).map (Check.wait w')) := by
  intro before check after hsplit
  obtain ⟨before, rest, hparts, -, hrest⟩ := List.map_eq_append_iff.mp hsplit
  obtain ⟨check, after, rfl, rfl, rfl⟩ := List.map_eq_cons_iff.mp hrest
  rw [Check.wait, Bool.or_eq_true, Ne, List.map_eq_nil_iff]
  cases hopen : appOpen w' with
  | true => simp
  | false =>
      simp only [Bool.false_eq_true, or_false]
      rcases hone with rfl | rfl
      · rw [List.append_nil] at hparts
        have hwas : appOpen w = false := by
          by_contra hwas
          exact hclosed (Bool.not_eq_false _ ▸ hwas) hopen rfl
        rw [h before check after hparts, hwas]
        simp
      · have hwas : appOpen w = true := hadded (by simp)
        rcases List.eq_nil_or_concat after with rfl | ⟨after, last, rfl⟩
        · -- the check that was just scheduled
          obtain ⟨-, rfl⟩ := List.append_singleton_inj.mp hparts
          simp
        · rw [List.concat_eq_append, ← List.cons_append, ← List.append_assoc] at hparts
          obtain ⟨hpending, -⟩ := List.append_singleton_inj.mp hparts
          refine iff_of_true ((h before check after hpending).mpr (.inr hwas)) (by simp)

lemma IdleKept.step (hmode : config.mode = .browser ∨ config.mode = .chrome) (hs : IdleKept s)
    (h : IdleStep config s e t) : IdleKept t := by
  cases h with
  | server e w hrun hst =>
      refine ⟨hs.distinct.step hst, hs.listed.step hs.distinct hst, hs.pending.wait
        (scheduled_of_closed hmode hst) (appOpen_of_scheduled hmode hst) ?_⟩
      rw [scheduled_eq hmode]
      cases e with
      | disconnect c => by_cases hid : c.extensionId = none <;> simp [hid]
      | _ => exact .inl rfl
  | fire check pending hrun hpending =>
      refine ⟨hs.distinct, hs.listed, fun before check' after hsplit => ?_⟩
      refine hs.pending (check :: before) check' after ?_
      have hrest : pending = before ++ check' :: after := hsplit
      rw [hpending, hrest, List.cons_append]

/-- A step ends the process by an uninterrupted check only, exactly if the check that
fires where no app connection is open is alone. -/
lemma exitsIdle_step_iff (hs : IdleKept s) (hgood : ExitsIdle s) (h : IdleStep config s e t) :
    ExitsIdle t ↔ FiresAlone s e := by
  cases h with
  | server e w hrun hst => exact iff_of_true hgood trivial
  | fire check pending hrun hpending =>
      have hcheck := hs.pending [] check pending hpending
      rw [ExitsIdle, FiresAlone, hpending]
      simp only [card_eq_zero_iff hs.listed]
      by_cases hclosed : appOpen s.world = false
      · rw [hclosed] at hcheck
        simp [hclosed, ← Bool.not_eq_true, hcheck]
      · simp [hclosed]

end Kept

/-- **Only a check that was not interrupted ends the process**, in the browser and
chrome modes, exactly if each check that fires while no app connection is open is the
only one that waits. -/
theorem idle_exits_iff {config : Config} (hmode : config.mode = .browser ∨ config.mode = .chrome)
    {trace : List (IdleEvent × IdleWorld)} (h : Run (IdleStep config) {} trace) :
    (∀ x ∈ trace, ExitsIdle x.2) ↔ Along FiresAlone {} trace := by
  have hkept : IdleKept ({} : IdleWorld) :=
    ⟨⟨by simp, by simp⟩, ⟨by simp, by simp⟩, fun before check after hsplit => by simp at hsplit⟩
  have hgood : ExitsIdle ({} : IdleWorld) := by simp [ExitsIdle]
  refine Run.good_iff (I := IdleKept) (fun s e t hs hst => ?_) (fun s e t hs hgood hst => ?_) h
    hkept hgood
  · exact hs.step hmode hst
  · exact exitsIdle_step_iff hs hgood hst

/-- A server of the browser mode, and the URL of its client. -/
def browserServer : Config := ⟨.browser, "token", []⟩

def clientUrl : Str := "/?connectToken=token"

/-- The client connects. -/
def opened (s : IdleWorld) : IdleWorld :=
  let w : World :=
    { registry := (handleConnect s.world.registry s.world.made clientUrl).1
      connections := ⟨s.world.made, clientUrl⟩ :: s.world.connections
      made := s.world.made + 1 }
  { s with world := w, pending := (s.pending ++ []).map (Check.wait w) }

/-- A connection of the client is closed. -/
def closed (s : IdleWorld) (handler : ℕ) : IdleWorld :=
  let c : Connection := ⟨handler, clientUrl⟩
  let w : World :=
    { s.world with
      registry := (handleDisconnect browserServer.mode s.world.registry handler clientUrl).1
      connections := s.world.connections.erase c }
  { s with
    world := w
    pending := (s.pending ++ scheduled browserServer s.world (.disconnect c)).map (Check.wait w) }

/-- The first check fires. -/
def fired (s : IdleWorld) : IdleWorld :=
  { s with
    pending := s.pending.tail
    exited := if s.world.registry.appConnections.card = 0 then s.pending.head? else none }

lemma step_opened {s : IdleWorld} (hrun : s.exited = none) :
    IdleStep browserServer s (.server (.connect clientUrl "localhost")) (opened s) :=
  .server s _ _ hrun (.connect s.world _ _ (by decide))

lemma step_closed {s : IdleWorld} {handler : ℕ} (hrun : s.exited = none)
    (hopen : ⟨handler, clientUrl⟩ ∈ s.world.connections) :
    IdleStep browserServer s (.server (.disconnect ⟨handler, clientUrl⟩)) (closed s handler) :=
  .server s _ _ hrun (.disconnect s.world _ hopen)

lemma step_fired {s : IdleWorld} {check : Check} {pending : List Check} (hrun : s.exited = none)
    (hpending : s.pending = check :: pending) : IdleStep browserServer s .fire (fired s) := by
  have hstep : IdleStep browserServer s .fire _ := .fire s check pending hrun hpending
  rwa [show pending = s.pending.tail by rw [hpending]; rfl,
    show some check = s.pending.head? by rw [hpending]; rfl] at hstep

/-- The client connects and leaves, and its check fires. -/
def leavingTrace : List (IdleEvent × IdleWorld) :=
  [(.server (.connect clientUrl "localhost"), opened {}),
    (.server (.disconnect ⟨0, clientUrl⟩), closed (opened {}) 0),
    (.fire, fired (closed (opened {}) 0))]

lemma run_leavingTrace : Run (IdleStep browserServer) {} leavingTrace :=
  .cons (step_opened rfl) (.cons (step_closed rfl (by decide)) (.cons (step_fired rfl rfl) (.nil _)))

theorem leavingTrace_exits_idle :
    Along FiresAlone {} leavingTrace ∧ ∀ x ∈ leavingTrace, ExitsIdle x.2 := by
  have halong : Along FiresAlone {} leavingTrace := ⟨trivial, trivial, fun _ => by decide, trivial⟩
  exact ⟨halong, (idle_exits_iff (.inl rfl) run_leavingTrace).mpr halong⟩

/-- The client connects again and leaves again before the first check fires, which then
ends the process. -/
def reloadTrace : List (IdleEvent × IdleWorld) :=
  leavingTrace.take 2 ++
    [(.server (.connect clientUrl "localhost"), opened (closed (opened {}) 0)),
      (.server (.disconnect ⟨1, clientUrl⟩), closed (opened (closed (opened {}) 0)) 1),
      (.fire, fired (closed (opened (closed (opened {}) 0)) 1))]

theorem reload_exits_early :
    ¬ ∀ (config : Config) (trace : List (IdleEvent × IdleWorld)),
      config.mode = .browser ∨ config.mode = .chrome → Run (IdleStep config) {} trace →
        ∀ x ∈ trace, ExitsIdle x.2 := by
  intro h
  have hrun : Run (IdleStep browserServer) {} reloadTrace :=
    .cons (step_opened rfl) (.cons (step_closed rfl (by decide))
      (.cons (step_opened rfl) (.cons (step_closed rfl (by decide))
        (.cons (step_fired rfl rfl) (.nil _)))))
  have hexits := h browserServer reloadTrace (.inl rfl) hrun
    (.fire, fired (closed (opened (closed (opened {}) 0)) 1)) (by simp [reloadTrace])
  have hended : (fired (closed (opened (closed (opened {}) 0)) 1)).exited = some ⟨true⟩ := by
    decide
  exact absurd (hexits _ hended) (by decide)

end Neutralino.neuserver
