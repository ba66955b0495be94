import Neutralino.Server.OutgoingFrames

/-!
The queue of the messages that a connection is to write.

* `Writer`: the queue, the messages that are being written, and the flag that holds other
  writes off; on record are the messages that were pushed and those that the transport has.
* `writePush`, `writeFrame`, `handleWriteFrame`: the operations.
* `Writer.Sound`: **nothing is lost, written twice or out of order**, and nothing follows a
  message that the connection ends with.
-/

namespace Neutralino.websocketpp.connection

open processor (Outgoing)

/-- What writing keeps of a connection. -/
structure Writer where
  sendQueue : List Outgoing := []
  currentMsgs : List Outgoing := []
  writeFlag : Bool := false
  pushed : List Outgoing := []
  written : List Outgoing := []

/-- The messages that are ready to be written, up to one that the connection ends with, and
what is left of the queue. -/
def popReady : List Outgoing → List Outgoing × List Outgoing
  | [] => ([], [])
  | m :: queue => if m.terminal then ([m], queue) else (m :: (popReady queue).1, (popReady queue).2)

namespace Writer

variable (w : Writer)

/-- `write_push`. -/
def writePush (m : Outgoing) : Writer :=
  { w with sendQueue := w.sendQueue ++ [m], pushed := w.pushed ++ [m] }

/-- `write_frame`. -/
def writeFrame : Writer :=
  if w.writeFlag then w
  else
    let currentMsgs := w.currentMsgs ++ (popReady w.sendQueue).1
    if currentMsgs = [] then w
    else
      { w with
        sendQueue := (popReady w.sendQueue).2
        currentMsgs
        writeFlag := true
        written := w.written ++ currentMsgs }

/-- `handle_write_frame`, and whether it terminates the connection. -/
def handleWriteFrame (failed : Bool) : Writer × Bool :=
  let terminal := w.currentMsgs.getLast?.any (·.terminal)
  let w := { w with currentMsgs := [] }
  if failed || terminal then (w, true) else ({ w with writeFlag := false }, false)

/-- What holds of a queue. -/
structure Sound (w : Writer) : Prop where
  pushed : w.written ++ w.sendQueue = w.pushed
  idle : w.writeFlag = false → w.currentMsgs = []
  current : w.currentMsgs <:+ w.written
  last : ∀ m ∈ w.written.dropLast, m.terminal = false
  released : w.writeFlag = false → ∀ m ∈ w.written, m.terminal = false

end Writer

/-! ### What the operations keep -/

section

variable {w : Writer} {m : Outgoing} {queue : List Outgoing}

lemma popReady_append (queue : List Outgoing) :
    (popReady queue).1 ++ (popReady queue).2 = queue := by
  induction queue with
  | nil => rfl
  | cons m queue ih =>
      rw [popReady]
      split_ifs
      · rfl
      · exact congrArg (m :: ·) ih

/-- What is ready ends with the first message that ends the connection. -/
lemma popReady_dropLast (queue : List Outgoing) :
    ∀ m ∈ (popReady queue).1.dropLast, m.terminal = false := by
  induction queue with
  | nil => simp [popReady]
  | cons m queue ih =>
      rw [popReady]
      split_ifs with hterminal
      · simp
      · intro m' hm'
        cases hready : (popReady queue).1 with
        | nil => simp [hready] at hm'
        | cons m'' ready =>
            simp only [hready, List.dropLast_cons_cons, List.mem_cons] at hm'
            obtain rfl | hm' := hm'
            · exact Bool.eq_false_iff.mpr hterminal
            · exact ih m' (by rwa [hready])

/-- All messages are harmless, if the last one is. -/
lemma terminal_of_getLast {written : List Outgoing}
    (hlast : ∀ m ∈ written.dropLast, m.terminal = false)
    (hend : ∀ m ∈ written.getLast?, m.terminal = false) : ∀ m ∈ written, m.terminal = false := by
  intro m hm
  have hne : written ≠ [] := List.ne_nil_of_mem hm
  rw [← List.dropLast_append_getLast hne, List.mem_append, List.mem_singleton] at hm
  obtain hm | rfl := hm
  · exact hlast m hm
  · exact hend _ (List.getLast?_eq_some_getLast hne)

lemma Writer.pushed_writeFrame : w.writeFrame.pushed = w.pushed := by
  rw [Writer.writeFrame]
  dsimp only
  split_ifs <;> rfl

lemma Writer.pushed_handleWriteFrame (failed : Bool) :
    (w.handleWriteFrame failed).1.pushed = w.pushed := by
  rw [Writer.handleWriteFrame]
  dsimp only
  split_ifs <;> rfl

lemma Writer.sound_new : ({} : Writer).Sound :=
  ⟨rfl, fun _ => rfl, List.suffix_refl _, by simp, by simp⟩

lemma Writer.Sound.writePush (h : w.Sound) (m : Outgoing) : (w.writePush m).Sound where
  pushed := by
    show w.written ++ (w.sendQueue ++ [m]) = w.pushed ++ [m]
    rw [← List.append_assoc, h.pushed]
  idle := h.idle
  current := h.current
  last := h.last
  released := h.released

lemma Writer.Sound.writeFrame (h : w.Sound) : w.writeFrame.Sound := by
  rw [Writer.writeFrame]
  cases hflag : w.writeFlag with
  | true => exact h
  | false =>
      simp only [Bool.false_eq_true, if_false, h.idle hflag, List.nil_append]
      split_ifs with hready
      · exact h
      · refine ⟨?_, nofun, List.suffix_append _ _, ?_, nofun⟩
        · show w.written ++ (popReady w.sendQueue).1 ++ (popReady w.sendQueue).2 = w.pushed
          rw [List.append_assoc, popReady_append, h.pushed]
        · intro m hm
          rw [List.dropLast_append_of_ne_nil hready, List.mem_append] at hm
          exact hm.elim (h.released hflag m) (popReady_dropLast _ m)

/-- A write that ends leaves the flag to the next one, unless the connection ends. -/
lemma Writer.Sound.handleWriteFrame (h : w.Sound) (hwriting : w.currentMsgs ≠ []) (failed : Bool) :
    (w.handleWriteFrame failed).1.Sound := by
  simp only [Writer.handleWriteFrame]
  split_ifs with hend
  · exact ⟨h.pushed, fun _ => rfl, List.nil_suffix, h.last, h.released⟩
  · refine ⟨h.pushed, fun _ => rfl, List.nil_suffix, h.last, fun _ => terminal_of_getLast h.last ?_⟩
    intro m hm
    obtain ⟨before, hwritten⟩ := h.current
    rw [← hwritten, List.getLast?_append_of_ne_nil _ hwriting] at hm
    rw [Bool.or_eq_true, not_or, Bool.not_eq_true, Bool.not_eq_true] at hend
    rw [Option.mem_def.mp hm] at hend
    exact hend.2

/-- A message that ends the connection is the last one that is written. -/
lemma Writer.Sound.eq_nil_of_terminal (h : w.Sound) {before after : List Outgoing}
    (hwritten : w.written = before ++ m :: after) (hterminal : m.terminal = true) : after = [] := by
  by_contra hne
  have hm : m ∈ w.written.dropLast := by
    rw [hwritten, List.dropLast_append_of_ne_nil (List.cons_ne_nil _ _)]
    cases after with
    | nil => exact absurd rfl hne
    | cons _ _ => simp
  rw [h.last m hm] at hterminal
  cases hterminal

end

end Neutralino.websocketpp.connection
