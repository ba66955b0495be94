import Neutralino.Api.OpenedFiles
import Neutralino.Server.Broadcast
import Neutralino.Server.Serializer

/-!
Text that is streamed to a client in chunks: the blocks of an opened file, and what a
spawned process writes.

* `Source`, `Source.message`: where a chunk comes from, and the event it is sent in.
* `Obtains`: what a client obtains by parsing a message.
* `obtains_iff`: it is the repaired text of the chunk.
* `survives_iff`: **when a streamed text survives**: every chunk is written on its
  own, so every cut must fall between two characters.
* `readRun_chunks`: the chunks of a file that is read from its beginning to its end.
-/

namespace Neutralino

open JsonText serializer
open Utf8 (encode)

/-! ### Events -/

/-- An event about something with an id, as `__dispatchOpenedFileEvt` and
`__dispatchSpawnedProcessEvt` make it. -/
def eventWith (id : ℤ) (action : Str) (data : Json) : Json :=
  ((Json.null.set "id" (.num id)).set "action" (.str action)).set "data" data

/-- The message of `__dispatchOpenedFileEvt`. -/
def fs.openedFileMessage (virtualFileId : ℤ) (action : Str) (data : Json) : Json :=
  neuserver.makeEventPayload "openedFile" (eventWith virtualFileId action data)

/-- The message of `__dispatchSpawnedProcessEvt`. -/
def os.spawnedProcessMessage (virtualPid : ℤ) (action : Str) (data : Json) : Json :=
  neuserver.makeEventPayload "spawnedProcess" (eventWith virtualPid action data)

/-- The `string` of bytes. -/
def charsOf (bytes : List UInt8) : Str := bytes.map fun b => Char.ofNat b.toNat

/-- Where chunks of text come from. -/
inductive Source where
  | openedFile (virtualFileId : ℤ)
  | stdOut (virtualPid : ℤ)
  | stdErr (virtualPid : ℤ)

/-- The message for a chunk: that of `__readStreamBlock`, of `stdOutHandler` or of
`stdErrHandler`. -/
def Source.message (source : Source) (chunk : List UInt8) : Json :=
  match source with
  | openedFile virtualFileId => fs.openedFileMessage virtualFileId "data" (.str (charsOf chunk))
  | stdOut virtualPid => os.spawnedProcessMessage virtualPid "stdOut" (.str (charsOf chunk))
  | stdErr virtualPid => os.spawnedProcessMessage virtualPid "stdErr" (.str (charsOf chunk))

/-! ### The client -/

/-- The text in an event. -/
def eventText (event : Value ℤ) : Option Str := do
  let detail ← event.member "data"
  match ← detail.member "data" with
  | .str s => some s
  | _ => none

/-- A client obtains a text by parsing a message. -/
def Obtains (message : List UInt8) (text : Str) : Prop :=
  ∃ document value, encode document = message ∧ Parses document value ∧ eventText value = some text

/-- A text that is streamed in chunks survives: what the client obtains from the
messages, one after the other, is the text. -/
def Survives (source : Source) (chunks : List (List UInt8)) (text : Str) : Prop :=
  ∃ parts : List Str,
    List.Forall₂ Obtains (chunks.map fun chunk => dump (source.message chunk)) parts ∧
      parts.flatten = text

/-- Every cut falls between two characters: the chunks are the bytes of parts of the text. -/
def CutsBetweenCharacters (chunks : List (List UInt8)) (text : Str) : Prop :=
  ∃ parts : List Str, parts.flatten = text ∧ parts.map encode = chunks

section Client

variable {source : Source} {chunk : List UInt8} {chunks : List (List UInt8)} {text : Str}

lemma bytesOf_charsOf (bytes : List UInt8) : bytesOf (charsOf bytes) = bytes := by
  have hbyte : ∀ b : UInt8, UInt8.ofNat (Char.ofNat b.toNat).toNat = b := fun b => by
    rw [toNat_ofNat_of_lt b.toNat_lt, UInt8.ofNat_toNat]
  rw [bytesOf, charsOf, List.map_map]
  exact (List.map_congr_left fun b _ => hbyte b).trans (List.map_id _)

lemma repairString_charsOf (bytes : List UInt8) :
    repairString (charsOf bytes) = Utf8.repair bytes := by
  rw [repairString, bytesOf_charsOf]

/-- The members of a message stand in the order of their keys. -/
lemma makeEventPayload_eventWith (id : ℤ) (event action : Str) (data : Json) :
    neuserver.makeEventPayload event (eventWith id action data) =
      .obj [("data".toList, .obj [("action".toList, .str action), ("data".toList, data),
        ("id".toList, .num id)]), ("event".toList, .str event)] := rfl

/-- The repaired message. -/
lemma repaired_makeEventPayload (id : ℤ) {event action : Str} (hevent : repairString event = event)
    (haction : repairString action = action) :
    repaired (neuserver.makeEventPayload event (eventWith id action (.str (charsOf chunk)))) =
      neuserver.makeEventPayload event (eventWith id action (.str (Utf8.repair chunk))) := by
  have hkeys : repairString "data".toList = "data" ∧ repairString "action".toList = "action" ∧
      repairString "id".toList = "id" ∧ repairString "event".toList = "event" := by decide
  simp only [makeEventPayload_eventWith, repaired, repairedMembers, hkeys, hevent, haction,
    repairString_charsOf]

/-- What a client obtains from an event is the data of the repaired event. -/
lemma obtains_iff_of_repaired {message : Json} {id : ℤ} {event action data : Str}
    (h : repaired message = neuserver.makeEventPayload event (eventWith id action (.str data))) :
    Obtains (dump message) text ↔ text = data := by
  have hparses : Parses (JsonText.dump (repaired message).value) (repaired message).value :=
    parses_dump fun n _ => readBack_int n
  have htext : eventText (repaired message).value = some data := by
    rw [h, makeEventPayload_eventWith]
    rfl
  constructor
  · rintro ⟨document, value, hencode, hparse, htext'⟩
    rw [dump_eq] at hencode
    obtain rfl := Utf8.encode_injective hencode
    obtain rfl := parses_unique hparse hparses
    exact Option.some.inj (htext'.symm.trans htext)
  · rintro rfl
    exact ⟨_, _, (dump_eq _).symm, hparses, htext⟩

/-- What a client obtains from a message is the text that the chunk is taken for. -/
lemma obtains_iff : Obtains (dump (source.message chunk)) text ↔ text = Utf8.repair chunk := by
  cases source with
  | openedFile id =>
      exact obtains_iff_of_repaired (repaired_makeEventPayload id (by decide) (by decide))
  | stdOut id =>
      exact obtains_iff_of_repaired (repaired_makeEventPayload id (by decide) (by decide))
  | stdErr id =>
      exact obtains_iff_of_repaired (repaired_makeEventPayload id (by decide) (by decide))

/-- What survives is what the repaired chunks are together. -/
lemma survives_iff_repair :
    Survives source chunks text ↔ (chunks.map Utf8.repair).flatten = text := by
  have hparts : ∀ parts : List Str,
      List.Forall₂ Obtains (chunks.map fun chunk => dump (source.message chunk)) parts ↔
        parts = chunks.map Utf8.repair := by
    intro parts
    rw [List.forall₂_map_left_iff, eq_comm, ← List.forall₂_eq_eq_eq, List.forall₂_map_left_iff]
    simp only [obtains_iff, eq_comm]
  rw [Survives]
  simp only [hparts, exists_eq_left]

/-- **When a streamed text survives**: every cut falls between two characters. -/
theorem survives_iff (source : Source) {chunks : List (List UInt8)} {text : Str}
    (h : chunks.flatten = encode text) :
    Survives source chunks text ↔ CutsBetweenCharacters chunks text := by
  rw [survives_iff_repair]
  exact Utf8.repair_chunks_iff h

/-- A text that is cut after a character of two bytes. -/
theorem whole_characters_survive :
    Survives (.stdOut 3) [[0x68, 0xC3, 0xA9], [0x6C, 0x6C, 0x6F]] "héllo" :=
  (survives_iff (.stdOut 3) (by decide)).mpr ⟨["hé".toList, "llo".toList], by decide, by decide⟩

/-- A character that is cut becomes two replacement characters. -/
theorem cut_character_lost : ¬ ∀ (source : Source) (chunks : List (List UInt8)) (text : Str),
    (∀ chunk ∈ chunks, chunk ≠ []) → chunks.flatten = encode text →
      Survives source chunks text := by
  intro h
  have hsurvives := h (.openedFile 0) [[0xC3], [0xA9]] "é" (by decide) (by decide)
  rw [survives_iff_repair] at hsurvives
  exact absurd hsurvives (by decide)

end Client

/-! ### The chunks of a file -/

namespace fs

/-- The chunks in the events of a file. -/
def dataChunks (events : List OpenedFileEvt) : List Str :=
  events.filterMap fun event => if event.action = "data".toList then event.data else none

/-- What is left to read of a file. -/
def Stream.rest (reader : Stream) : Str := reader.bytes.drop reader.pos

/-- An event that reads text. -/
def ReadsText (evt : OpenedFileEvent) : Prop :=
  evt.type = "read".toList ∨ evt.type = "readAll".toList

/-- One read event after another: the events dispatched, and the stream that is left. -/
def readRun (maxSize : ℕ) : List OpenedFileEvent → Stream → Option (List OpenedFileEvt × Stream)
  | [], reader => some ([], reader)
  | evt :: evts, reader =>
      (readStream maxSize evt reader).bind fun result =>
        (readRun maxSize evts result.stream).map fun run => (result.events ++ run.1, run.2)

section Reading

variable {maxSize : ℕ} {evt : OpenedFileEvent} {reader : Stream} {result : ReadResult}
  {take : OpenedFileEvt → Option Str}

lemma dataChunks_append (events events' : List OpenedFileEvt) :
    dataChunks (events ++ events') = dataChunks events ++ dataChunks events' :=
  List.filterMap_append

lemma peek_rest (reader : Stream) : reader.peek.2.rest = reader.rest := by
  unfold Stream.peek
  split
  · rfl
  · split <;> rfl

lemma read_rest (size : ℕ) (reader : Stream) :
    (reader.read size).1 ++ (reader.read size).2.rest = reader.rest := by
  unfold Stream.read
  split
  · rfl
  · show (reader.rest).take size ++
      reader.bytes.drop (reader.pos + (reader.rest.take size).length) = _
    rw [← List.drop_drop, ← Stream.rest]
    exact List.prefix_iff_eq_append.mp (List.take_prefix _ _)

/-- A selection takes the blocks out of what an event dispatches. -/
structure TakesBlocks (evt : OpenedFileEvent) (take : OpenedFileEvt → Option Str) : Prop where
  endEvent : take ⟨evt.id, "end", none⟩ = none
  block : ∀ block, take
    ⟨evt.id, if binaryEvent.test evt.type then "dataBinary" else "data", some block⟩ = some block

/-- A block is taken, and what follows it is left. -/
lemma readStreamBlock_taken (h : TakesBlocks evt take) (reader : Stream) :
    ((readStreamBlock maxSize evt reader).events.filterMap take).flatten ++
      (readStreamBlock maxSize evt reader).stream.rest = reader.rest := by
  unfold readStreamBlock
  split
  · rfl
  · rw [← read_rest (blockSize evt) reader, List.filterMap_cons_some (h.block _)]
    simp

lemma readLoop_taken (h : TakesBlocks evt take) {fuel : ℕ}
    (hresult : readLoop maxSize evt fuel reader = some result) :
    (result.events.filterMap take).flatten ++ result.stream.rest = reader.rest := by
  induction fuel generalizing reader result with
  | zero => cases hresult
  | succ fuel ih =>
      have hblock : ((readStreamBlock maxSize evt reader.peek.2).events.filterMap take).flatten ++
          (readStreamBlock maxSize evt reader.peek.2).stream.rest = reader.rest := by
        calc ((readStreamBlock maxSize evt reader.peek.2).events.filterMap take).flatten ++
              (readStreamBlock maxSize evt reader.peek.2).stream.rest = reader.peek.2.rest :=
            readStreamBlock_taken h _
          _ = reader.rest := peek_rest reader
      simp only [readLoop] at hresult
      split_ifs at hresult with hnone hstop
      · cases hresult
        exact peek_rest reader
      · cases hresult
        exact hblock
      · obtain ⟨rest, hrest, rfl⟩ := Option.map_eq_some_iff.mp hresult
        rw [List.filterMap_append, List.flatten_append, List.append_assoc, ih hrest, hblock]

/-- **A read neither skips nor repeats**: the blocks of an event are what it takes from the
stream. -/
theorem readStream_taken (h : TakesBlocks evt take)
    (hresult : readStream maxSize evt reader = some result) :
    (result.events.filterMap take).flatten ++ result.stream.rest = reader.rest := by
  have hend : [(⟨evt.id, "end", none⟩ : OpenedFileEvt)].filterMap take = [] := by
    rw [List.filterMap_cons_none h.endEvent]
    rfl
  simp only [readStream] at hresult
  split_ifs at hresult with heof
  · cases hresult
    rw [hend]
    rfl
  · obtain ⟨rest, hrest, rfl⟩ := Option.map_eq_some_iff.mp hresult
    rw [← readLoop_taken h hrest]
    split_ifs
    · rw [List.filterMap_append, hend, List.append_nil]
    · rfl

lemma takesBlocks_dataChunks (h : ReadsText evt) : TakesBlocks evt fun event =>
    if event.action = "data".toList then event.data else none := by
  have htext : binaryEvent.test evt.type = false := by
    rcases h with h | h <;> rw [h] <;> decide
  exact ⟨rfl, fun block => by rw [htext]; rfl⟩

/-- The chunks of a run are what was read. -/
lemma readRun_chunks {evts : List OpenedFileEvent} {events : List OpenedFileEvt} {final : Stream}
    (h : ∀ evt ∈ evts, ReadsText evt) (hrun : readRun maxSize evts reader = some (events, final)) :
    (dataChunks events).flatten ++ final.rest = reader.rest := by
  induction evts generalizing reader events with
  | nil =>
      cases hrun
      rfl
  | cons evt evts ih =>
      obtain ⟨hevt, hevts⟩ := List.forall_mem_cons.mp h
      obtain ⟨result, hresult, hrun⟩ := Option.bind_eq_some_iff.mp hrun
      obtain ⟨⟨events', final'⟩, hrest, heq⟩ := Option.map_eq_some_iff.mp hrun
      obtain ⟨rfl, rfl⟩ := Prod.mk.inj heq
      rw [dataChunks_append, List.flatten_append, List.append_assoc, ih hevts hrest,
        ← readStream_taken (takesBlocks_dataChunks hevt) hresult]
      rfl

/-- **When the text of a file survives** the reads up to its end: the blocks end
between its characters. -/
theorem readRun_survives_iff (id : ℤ) {evts : List OpenedFileEvent} {events : List OpenedFileEvt}
    {final : Stream} {text : Str} (h : ∀ evt ∈ evts, ReadsText evt)
    (htext : reader.rest = charsOf (encode text))
    (hrun : readRun maxSize evts reader = some (events, final)) (hfinal : final.rest = []) :
    Survives (.openedFile id) ((dataChunks events).map bytesOf) text ↔
      CutsBetweenCharacters ((dataChunks events).map bytesOf) text := by
  have hchunks := readRun_chunks h hrun
  rw [hfinal, List.append_nil, htext] at hchunks
  rw [survives_iff_repair]
  refine Utf8.repair_chunks_iff ?_
  rw [← bytesOf_charsOf (encode text), ← hchunks, bytesOf, List.map_flatten]
  rfl

end Reading

end fs

end Neutralino
