import Neutralino.Server.FrameRounds

/-!
The messages that come over a WebSocket are those of the frames that the client sends.

* `Consumes`, `consume_consumes`: the loop of `consume` reads to the end of the buffer or of a
  message.
* `ReadsTo`, `readAll_reads`: the reads of a connection.
* `Behind.unfinished`, `receivesAll_unique`: what is left holds no frame, and the frames before it
  are the only ones.
* `messages_read`: **the messages are those of the frames, however the bytes come.**
-/

namespace Neutralino.websocketpp.processor

open frame
open WebSocket (Frame Opcode Key Receives ReceivesAll headBytes mask)

/-! ### The loops -/

section Loops

variable {p : Processor} {part : Option WebSocket.Message} {behind buf : List UInt8}

/-- What the loop of `consume` makes of the bytes behind those of a frame. -/
inductive Consumes (part : Option WebSocket.Message) (behind buf : List UInt8) (c : Consumed) :
    Prop
  | fails (fs : List Frame) (part' : Option WebSocket.Message) (tail : List UInt8) :
      c.error ≠ none → ReceivesAll rules part fs part' [] →
      behind ++ buf = fs.flatMap Frame.encode ++ tail → Refused part' tail →
      Consumes part behind buf c
  | stays (fs : List Frame) (part' : Option WebSocket.Message) (behind' : List UInt8) :
      c.error = none → c.after.bytesNeeded ≠ 0 → c.rest = [] → ReceivesAll rules part fs part' [] →
      behind ++ buf = fs.flatMap Frame.encode ++ behind' → Behind c.after part' behind' →
      Consumes part behind buf c
  | message (fs : List Frame) (part' : Option WebSocket.Message) (m : WebSocket.Message) :
      c.error = none → c.after.state = .ready → ReceivesAll rules part fs part' [m] →
      behind ++ buf = fs.flatMap Frame.encode ++ c.rest → c.after.getMessage.1 = some (.of m) →
      Behind c.after.getMessage.2 part' [] → Consumes part behind buf c

/-- A frame before what the loop reads. -/
lemma Consumes.cons {part' : Option WebSocket.Message} {f : Frame} {rest : List UInt8}
    {c : Consumed} (hreceives : Receives rules part f part' [])
    (hbytes : behind ++ buf = f.encode ++ rest) (h : Consumes part' [] rest c) :
    Consumes part behind buf c := by
  cases h with
  | fails fs part'' tail herror hall hrest hrefused =>
      refine .fails (f :: fs) part'' tail herror (.cons hreceives hall) ?_ hrefused
      rw [hbytes, List.flatMap_cons, List.append_assoc, ← hrest, List.nil_append]
  | stays fs part'' behind' hok hneeded hempty hall hrest hbehind =>
      refine .stays (f :: fs) part'' behind' hok hneeded hempty (.cons hreceives hall) ?_ hbehind
      rw [hbytes, List.flatMap_cons, List.append_assoc, ← hrest, List.nil_append]
  | message fs part'' m hok hready hall hrest hget hbehind =>
      refine .message (f :: fs) part'' m hok hready (.cons hreceives hall) ?_ hget hbehind
      rw [hbytes, List.flatMap_cons, List.append_assoc, ← hrest, List.nil_append]

lemma Consumes.congr {behind' buf' : List UInt8} {c : Consumed}
    (h : Consumes part behind' buf' c) (heq : behind ++ buf = behind' ++ buf') :
    Consumes part behind buf c := by
  cases h with
  | fails fs part' tail herror hall hrest hrefused =>
      exact .fails fs part' tail herror hall (heq.trans hrest) hrefused
  | stays fs part' behind'' hok hneeded hempty hall hrest hbehind =>
      exact .stays fs part' behind'' hok hneeded hempty hall (heq.trans hrest) hbehind
  | message fs part' m hok hready hall hrest hget hbehind =>
      exact .message fs part' m hok hready hall (heq.trans hrest) hget hbehind

/-- The loop reads to the end of the buffer or of a message. -/
lemma consume_consumes (buf : List UInt8) (h : Behind p part behind) :
    Consumes part behind buf (p.consume buf) := by
  induction p, buf using Processor.consume.induct generalizing part behind with
  | case1 p buf hcontinues hround ih =>
      rw [Processor.consume, if_pos hcontinues, if_pos hround]
      cases round_advances h hcontinues with
      | fails herror => exact absurd hround herror
      | stays behind' _ hbehind hbytes => exact (ih hbehind).congr hbytes
      | frame f part' _ hreceives hbehind hbytes => exact (ih hbehind).cons hreceives hbytes
      | message f part' m hok hready hreceives hget hbehind hbytes =>
          rw [Processor.consume, if_neg fun hmore => hmore.1 hready]
          refine .message [f] part' m rfl hready (.single hreceives) ?_ hget hbehind
          rw [List.flatMap_singleton]
          exact hbytes
  | case2 p buf hcontinues hround =>
      rw [Processor.consume, if_pos hcontinues, if_neg hround]
      cases round_advances h hcontinues with
      | fails herror hrefused => exact .fails [] part _ herror (.nil part) rfl hrefused
      | stays _ hok => exact absurd hok hround
      | frame _ _ hok => exact absurd hok hround
      | message _ _ _ hok => exact absurd hok hround
  | case3 p buf hcontinues =>
      rw [Processor.consume, if_neg hcontinues]
      have hend : ¬ (buf ≠ [] ∨ p.bytesNeeded = 0) := fun hmore => hcontinues ⟨h.not_ready, hmore⟩
      rw [not_or, not_not] at hend
      refine .stays [] part behind rfl hend.2 hend.1 (.nil part) ?_ h
      rw [hend.1, List.append_nil]
      rfl

/-- What reading makes of the bytes behind those of a frame. -/
inductive ReadsTo (part : Option WebSocket.Message) (behind buf : List UInt8) (r : Read) : Prop
  | fails (fs : List Frame) (part' : Option WebSocket.Message) (tail : List UInt8)
      (messages : List WebSocket.Message) : r.error ≠ none →
      ReceivesAll rules part fs part' messages → r.messages = messages.map .of →
      behind ++ buf = fs.flatMap Frame.encode ++ tail → Refused part' tail →
      ReadsTo part behind buf r
  | stays (fs : List Frame) (part' : Option WebSocket.Message) (behind' : List UInt8)
      (messages : List WebSocket.Message) : r.error = none → r.after.bytesNeeded ≠ 0 →
      ReceivesAll rules part fs part' messages → r.messages = messages.map .of →
      behind ++ buf = fs.flatMap Frame.encode ++ behind' → Behind r.after part' behind' →
      ReadsTo part behind buf r

/-- Frames before what is read. -/
lemma ReadsTo.append {part' : Option WebSocket.Message} {fs : List Frame}
    {messages : List WebSocket.Message} {behind' rest : List UInt8} {r r' : Read}
    (hall : ReceivesAll rules part fs part' messages)
    (hbytes : behind ++ buf = fs.flatMap Frame.encode ++ (behind' ++ rest))
    (h : ReadsTo part' behind' rest r) (hafter : r'.after = r.after) (herror : r'.error = r.error)
    (hmessages : r'.messages = messages.map .of ++ r.messages) : ReadsTo part behind buf r' := by
  cases h with
  | fails fs' part'' tail messages' hfail hall' hmap hrest hrefused =>
      refine .fails (fs ++ fs') part'' tail (messages ++ messages') ?_ (hall.append hall') ?_ ?_
        hrefused
      · rwa [herror]
      · rw [hmessages, hmap, List.map_append]
      · rw [hbytes, hrest, List.flatMap_append, List.append_assoc]
  | stays fs' part'' behind'' messages' hok hneeded hall' hmap hrest hbehind =>
      refine .stays (fs ++ fs') part'' behind'' (messages ++ messages') ?_ ?_ (hall.append hall') ?_
        ?_ ?_
      · rw [herror, hok]
      · rwa [hafter]
      · rw [hmessages, hmap, List.map_append]
      · rw [hbytes, hrest, List.flatMap_append, List.append_assoc]
      · rwa [hafter]

lemma Behind.needed_of_nil (h : Behind p part []) : p.bytesNeeded = 2 := by
  generalize hnil : ([] : List UInt8) = behind at h
  cases h with
  | nothing _ hneeded => exact hneeded
  | _ => cases hnil

/-- One read. -/
lemma readFrame_reads (buf : List UInt8) (h : Behind p part behind)
    (hneeded : p.bytesNeeded ≠ 0) : ReadsTo part behind buf (readFrame p buf) := by
  induction p, buf using readFrame.induct generalizing part behind with
  | case1 p =>
      rw [readFrame, if_pos rfl]
      refine .stays [] part behind [] rfl hneeded (.nil part) rfl ?_ h
      rw [List.append_nil]
      rfl
  | case2 p buf hbuf hok hready ih =>
      rw [readFrame, if_neg hbuf, if_pos hok, if_pos hready]
      cases consume_consumes buf h with
      | fails _ _ _ herror => exact absurd hok herror
      | stays _ _ _ _ _ _ _ _ hbehind => exact absurd hready hbehind.not_ready
      | message fs part' m _ _ hall hbytes hget hbehind =>
          have hneeded' : (p.consume buf).after.getMessage.2.bytesNeeded ≠ 0 := by
            rw [hbehind.needed_of_nil]
            decide
          refine ReadsTo.append hall hbytes (ih hbehind hneeded') rfl rfl ?_
          show (p.consume buf).after.getMessage.1.toList ++ _ = _
          rw [hget]
          rfl
  | case3 p buf hbuf hok hready ih =>
      rw [readFrame, if_neg hbuf, if_pos hok, if_neg hready]
      cases consume_consumes buf h with
      | fails _ _ _ herror => exact absurd hok herror
      | stays fs part' behind' _ hneeded' hempty hall hbytes hbehind =>
          refine ReadsTo.append hall ?_ (ih hbehind hneeded') rfl rfl rfl
          rw [hempty, List.append_nil]
          exact hbytes
      | message _ _ _ _ hready' => exact absurd hready' hready
  | case4 p buf hbuf hok =>
      rw [readFrame, if_neg hbuf, if_neg hok]
      cases consume_consumes buf h with
      | fails fs part' tail herror hall hbytes hrefused =>
          exact .fails fs part' tail [] herror hall rfl hbytes hrefused
      | stays _ _ _ hok' => exact absurd hok' hok
      | message _ _ _ hok' => exact absurd hok' hok

/-- The reads of a connection. -/
lemma readAll_reads (bufs : List (List UInt8)) (h : Behind p part behind)
    (hneeded : p.bytesNeeded ≠ 0) : ReadsTo part behind bufs.flatten (readAll p bufs) := by
  induction bufs generalizing p part behind with
  | nil =>
      refine .stays [] part behind [] rfl hneeded (.nil part) rfl ?_ h
      rw [List.flatten_nil, List.append_nil]
      rfl
  | cons buf bufs ih =>
      rw [readAll]
      cases readFrame_reads buf h hneeded with
      | fails fs part' tail messages herror hall hmap hbytes hrefused =>
          simp only [if_pos (Option.isSome_iff_ne_none.mpr herror)]
          refine .fails fs part' (tail ++ bufs.flatten) messages herror hall hmap ?_
            (hrefused.append _)
          rw [List.flatten_cons, ← List.append_assoc, hbytes, List.append_assoc]
      | stays fs part' behind' messages hok hneeded' hall hmap hbytes hbehind =>
          simp only [hok, Option.isSome_none, Bool.false_eq_true, if_false]
          refine ReadsTo.append hall ?_ (ih hbehind hneeded') rfl rfl ?_
          · rw [List.flatten_cons, ← List.append_assoc, hbytes, List.append_assoc]
          · rw [hmap]

end Loops

/-! ### The messages of a connection -/

/-- Bytes that hold no whole frame at their beginning. -/
def Unfinished (bytes : List UInt8) : Prop := ∀ f more, bytes ≠ Frame.encode f ++ more

/-- Bytes that begin with no frame that is received. -/
def Ends (part : Option WebSocket.Message) (bytes : List UInt8) : Prop :=
  ∀ f more part' messages, bytes = Frame.encode f ++ more → ¬ Receives rules part f part' messages

section Connection

variable {p : Processor} {part : Option WebSocket.Message} {behind bytes : List UInt8}

lemma Refused.ends (h : Refused part bytes) : Ends part bytes := by
  intro f more part' messages heq
  refine h f part' messages [] more ?_
  rw [List.append_nil, heq]

lemma Unfinished.ends (h : Unfinished bytes) : Ends part bytes :=
  fun f more _ _ heq => absurd heq (h f more)

lemma payload_unfinished {fin : Bool} {op : Opcode} {key : Key} {n : ℕ} {taken : List UInt8}
    (hn : n < 2 ^ 64) (htaken : taken.length < n) :
    Unfinished (headBytes fin op key n ++ mask key 0 taken) := by
  intro f more heq
  rw [Frame.encode, List.append_assoc] at heq
  obtain ⟨-, -, -, hlength, hrest⟩ := headBytes_append_inj hn f.length_lt heq
  have hsum := congrArg List.length hrest
  rw [List.length_append, WebSocket.length_mask, WebSocket.length_mask] at hsum
  omega

/-- The processor waits for the end of a frame. -/
lemma Behind.unfinished (h : Behind p part behind) (hneeded : p.bytesNeeded ≠ 0) :
    Unfinished behind := by
  cases h with
  | nothing => exact fun f more heq => nomatch heq
  | byte =>
      intro f more heq
      cases (List.cons.inj heq).2
  | header ext zeros _ _ _ _ hlength _ =>
      intro f more heq
      obtain ⟨hheader, hmore⟩ := basicHeader_of_frame heq
      have hsum := congrArg List.length hmore
      rw [hheader, getHeaderLen_eq, basicHeaderLength] at hlength
      rw [List.length_append, List.length_append, List.length_ofFn] at hsum
      omega
  | control fin op key n taken _ _ hbegins hlength =>
      exact payload_unfinished hbegins.lt (by omega)
  | data fin op key n taken _ _ hbegins hlength =>
      exact payload_unfinished hbegins.lt (by omega)

/-- The frames in bytes, and their messages, are the only ones. -/
lemma receivesAll_unique {fs fs' : List Frame} {part' part'' : Option WebSocket.Message}
    {messages messages' : List WebSocket.Message} {tail tail' : List UInt8}
    (h : ReceivesAll rules part fs part' messages)
    (h' : ReceivesAll rules part fs' part'' messages')
    (hends : Ends part' tail) (hends' : Ends part'' tail')
    (heq : fs.flatMap Frame.encode ++ tail = fs'.flatMap Frame.encode ++ tail') :
    messages = messages' := by
  induction h generalizing fs' messages' with
  | nil part =>
      cases h' with
      | nil => rfl
      | cons hreceives _ =>
          rw [List.flatMap_cons, List.append_assoc] at heq
          exact absurd hreceives (hends _ _ _ _ heq)
  | cons hreceives hall ih =>
      rw [List.flatMap_cons, List.append_assoc] at heq
      cases h' with
      | nil => exact absurd hreceives (hends' _ _ _ _ heq.symm)
      | cons hreceives' hall' =>
          rw [List.flatMap_cons, List.append_assoc] at heq
          obtain ⟨rfl, hrest⟩ := encode_append_inj heq
          obtain ⟨rfl, rfl⟩ := receives_unique hreceives hreceives'
          rw [ih hall' hends hrest]

lemma of_inj {m m' : WebSocket.Message} (h : Message.of m = Message.of m') : m = m' := by
  obtain ⟨op, payload⟩ := m
  obtain ⟨op', payload'⟩ := m'
  obtain rfl : op = op' := code_inj (congrArg Message.opcode h)
  obtain rfl : payload = payload' := congrArg Message.payload h
  rfl

/-- What a new connection makes of what it reads. -/
lemma readAll_new (bufs : List (List UInt8)) : ∃ fs part tail messages,
    (readAll {} bufs).messages = messages.map .of ∧
    bufs.flatten = fs.flatMap Frame.encode ++ tail ∧
    ReceivesAll rules none fs part messages ∧
    ((readAll {} bufs).error ≠ none → Refused part tail) ∧
    ((readAll {} bufs).error = none → Unfinished tail) := by
  have hnew : Behind {} none [] := .nothing rfl rfl rfl
  cases readAll_reads bufs hnew (by decide) with
  | fails fs part tail messages herror hall hmap hbytes hrefused =>
      exact ⟨fs, part, tail, messages, hmap, hbytes, hall, fun _ => hrefused,
        fun hok => absurd hok herror⟩
  | stays fs part behind messages hok hneeded hall hmap hbytes hbehind =>
      exact ⟨fs, part, behind, messages, hmap, hbytes, hall, fun herror => absurd hok herror,
        fun _ => hbehind.unfinished hneeded⟩

/-- **The messages are those of the frames, however the bytes come**, up to the first frame that
is not received; reading fails only where no more bytes could make one. -/
theorem messages_read (bufs : List (List UInt8)) (messages : List WebSocket.Message) :
    (readAll {} bufs).messages = messages.map .of ↔ ∃ fs part tail,
      bufs.flatten = fs.flatMap Frame.encode ++ tail ∧
      ReceivesAll rules none fs part messages ∧
      ((readAll {} bufs).error ≠ none → Refused part tail) ∧
      ((readAll {} bufs).error = none → Unfinished tail) := by
  obtain ⟨fs, part, tail, messages', hmap, hbytes, hall, hfails, hends⟩ := readAll_new bufs
  constructor
  · intro h
    have heq : messages = messages' := List.map_injective_iff.mpr (fun _ _ => of_inj)
      (h.symm.trans hmap)
    rw [heq]
    exact ⟨fs, part, tail, hbytes, hall, hfails, hends⟩
  · rintro ⟨fs', part', tail', hbytes', hall', hfails', hends'⟩
    have hend {part : Option WebSocket.Message} {tail : List UInt8}
        (hrefused : (readAll {} bufs).error ≠ none → Refused part tail)
        (hunfinished : (readAll {} bufs).error = none → Unfinished tail) : Ends part tail := by
      by_cases hok : (readAll {} bufs).error = none
      · exact (hunfinished hok).ends
      · exact (hrefused hok).ends
    rw [hmap, receivesAll_unique hall hall' (hend hfails hends) (hend hfails' hends')
      (hbytes.symm.trans hbytes')]

end Connection

end Neutralino.websocketpp.processor
