import Neutralino.Api.ReadTermination
import Neutralino.Api.StreamedText

/-!
What the reads of an opened file hand over, over the flags that its stream keeps from one
event to the next.

* `Blocks`: a list cut into blocks of a length, and a shorter one at its end.
* `AtEndOnly`: the flags of a stream are set at its end only, which every read keeps.
* `readStream_all`, `readStream_one`: what one event dispatches.
* `updateAll`: one event after another.
* `handsOver_or_refuses`: **what the reads of a file hand over**.  A buffer for a block is
  allocated before it is read, however few bytes are left; whatever is read, no byte is
  skipped or repeated.  A cursor that the file system refuses leaves a failed stream, of which
  nothing is read.
-/

namespace Neutralino.fs

/-! ### Blocks -/

/-- A list cut into blocks: each has the given length, but for the last one. -/
inductive Blocks {α : Type} (k : ℕ) : List α → List (List α) → Prop
  | nil : Blocks k [] []
  | cons {rest : List α} {blocks : List (List α)} : rest ≠ [] → Blocks k (rest.drop k) blocks →
      Blocks k rest (rest.take k :: blocks)

section Blocks

variable {α : Type} {k : ℕ} {rest : List α} {blocks : List (List α)}

lemma Blocks.flatten (h : Blocks k rest blocks) : blocks.flatten = rest := by
  induction h with
  | nil => rfl
  | @cons rest blocks hne h ih => rw [List.flatten_cons, ih, List.take_append_drop]

lemma Blocks.mem (hk : 0 < k) (h : Blocks k rest blocks) :
    ∀ block ∈ blocks, block ≠ [] ∧ block.length ≤ k := by
  induction h with
  | nil => simp
  | @cons rest blocks hne h ih =>
      refine List.forall_mem_cons.mpr ⟨⟨?_, List.length_take_le _ _⟩, ih⟩
      rw [Ne, List.take_eq_nil_iff, not_or]
      exact ⟨hk.ne', hne⟩

lemma Blocks.length_le (hk : 0 < k) (h : Blocks k rest blocks) : blocks.length ≤ rest.length := by
  induction h with
  | nil => rfl
  | @cons rest blocks hne h ih =>
      have := List.length_pos_iff.mpr hne
      rw [List.length_drop] at ih
      rw [List.length_cons]
      omega

lemma Blocks.eq_nil (h : Blocks k [] blocks) : blocks = [] := by
  cases h with
  | nil => rfl
  | cons hne => exact absurd rfl hne

lemma exists_blocks (hk : 0 < k) (rest : List α) : ∃ blocks, Blocks k rest blocks := by
  induction hlength : rest.length using Nat.strong_induction_on generalizing rest with
  | _ n ih =>
      by_cases hne : rest = []
      · exact ⟨[], hne ▸ .nil⟩
      · have := List.length_pos_iff.mpr hne
        obtain ⟨blocks, hblocks⟩ := ih (rest.drop k).length (by rw [List.length_drop]; omega) _ rfl
        exact ⟨_, .cons hne hblocks⟩

end Blocks

/-! ### The flags of a stream -/

/-- A stream whose flags are set at its end only, where the end flag is among them. -/
def AtEndOnly (reader : Stream) : Prop :=
  (reader.eof || reader.fail) = true → reader.eof = true ∧ reader.rest = []

/-- What a block is dispatched in. -/
def blockEvt (evt : OpenedFileEvent) (block : Str) : OpenedFileEvt :=
  ⟨evt.id, if binaryEvent.test evt.type then "dataBinary" else "data", some block⟩

/-- The event that reports the end. -/
def endEvt (id : ℤ) : OpenedFileEvt := ⟨id, "end", none⟩

section Streams

variable {maxSize : ℕ} {evt : OpenedFileEvent} {reader : Stream}

lemma rest_eq_nil_iff : reader.rest = [] ↔ reader.bytes.length ≤ reader.pos :=
  List.drop_eq_nil_iff

lemma seek_of_le {pos : ℕ} (h : pos ≤ reader.maxOffset) :
    reader.seek pos = { reader with pos := pos, eof := false, fail := false } := if_pos h

lemma atEndOnly_seek {pos : ℕ} (h : pos ≤ reader.maxOffset) : AtEndOnly (reader.seek pos) :=
  fun hflags => absurd hflags (by simp [seek_of_le h])

/-- A stream that failed without being at its end, as a refused seek leaves it. -/
def Failed (reader : Stream) : Prop := reader.eof = false ∧ reader.fail = true

lemma failed_seek {pos : ℕ} (h : reader.maxOffset < pos) : Failed (reader.seek pos) := by
  rw [Failed, Stream.seek, if_neg h.not_ge]
  exact ⟨rfl, rfl⟩

variable (maxSize evt) in
/-- Nothing is read of a failed stream, and it stays failed. -/
lemma readStream_failed (h : Failed reader) :
    readStream maxSize evt reader = some { stream := { reader with gcount := 0 } } := by
  obtain ⟨file, bytes, maxOffset, pos, eof, fail, gcount⟩ := reader
  obtain ⟨heof, hfail⟩ : eof = false ∧ fail = true := h
  subst heof hfail
  rfl

/-- A stream with a byte to come is good. -/
lemma hasNext_of_rest (h : AtEndOnly reader) (hrest : reader.rest ≠ []) : reader.HasNext := by
  have hgood : ¬ (reader.eof || reader.fail) = true := fun hflags => hrest (h hflags).2
  rw [Bool.not_eq_true, Bool.or_eq_false_iff] at hgood
  refine ⟨hgood.1, hgood.2, ?_⟩
  rw [Ne, rest_eq_nil_iff] at hrest
  omega

lemma not_eof_of_rest (h : AtEndOnly reader) (hrest : reader.rest ≠ []) : ¬ reader.eof = true :=
  fun heof => hrest (h (by rw [heof]; rfl)).2

lemma peek_of_rest (h : AtEndOnly reader) (hrest : reader.rest ≠ []) :
    ¬ reader.peek.1.isNone = true := by
  rw [(peek_of_hasNext (hasNext_of_rest h hrest)).1]
  exact Bool.false_ne_true

/-- At its end a stream has nothing to peek at, and the end flag is set. -/
lemma peek_at_end (h : AtEndOnly reader) (hrest : reader.rest = []) :
    reader.peek.1.isNone = true ∧ reader.peek.2.eof = true := by
  by_cases hflags : (reader.eof || reader.fail) = true
  · simp [Stream.peek, (h hflags).1]
  · have hnone : reader.bytes[reader.pos]? = none :=
      List.getElem?_eq_none (rest_eq_nil_iff.mp hrest)
    simp [Stream.peek, hflags, hnone]

/-- **What a block takes**: the bytes up to its size, and it sets the flags where there are
fewer. -/
lemma read_of_hasNext (size : ℕ) (h : reader.HasNext) :
    (reader.read size).1 = reader.rest.take size ∧
      (reader.read size).2.rest = reader.rest.drop size ∧
      ((reader.read size).2.eof = true ↔ reader.rest.length < size) ∧
      AtEndOnly (reader.read size).2 := by
  obtain ⟨heof, hfail, -⟩ := h
  have hread : reader.read size = (reader.rest.take size, { reader with
      pos := reader.pos + (reader.rest.take size).length
      eof := (reader.rest.take size).length < size
      fail := (reader.rest.take size).length < size
      gcount := (reader.rest.take size).length }) := by
    simp [Stream.read, heof, hfail, Stream.rest]
  have hdrop : (reader.read size).2.rest = reader.rest.drop size := by
    have happend : reader.rest.take size ++ (reader.read size).2.rest = reader.rest := by
      have hrest := read_rest size reader
      rwa [show (reader.read size).1 = reader.rest.take size by rw [hread]] at hrest
    exact List.append_cancel_left (happend.trans (List.take_append_drop size reader.rest).symm)
  have hshort : (reader.read size).2.eof = true ↔ reader.rest.length < size := by
    simp [hread]
  refine ⟨by rw [hread], hdrop, hshort, fun hflags => ?_⟩
  have heof' : (reader.read size).2.eof = true := by
    rw [hread] at hflags ⊢
    simpa using hflags
  refine ⟨heof', ?_⟩
  rw [hdrop, List.drop_eq_nil_iff]
  exact (hshort.mp heof').le

variable (maxSize) in
/-- A block whose buffer can be allocated, in a stream with a byte to come. -/
lemma readStreamBlock_of_rest (hmax : blockSize evt ≤ maxSize) (h : AtEndOnly reader)
    (hrest : reader.rest ≠ []) :
    ∃ next : Stream, readStreamBlock maxSize evt reader.peek.2 =
        { stream := next, events := [blockEvt evt (reader.rest.take (blockSize evt))] } ∧
      next.rest = reader.rest.drop (blockSize evt) ∧ AtEndOnly next ∧
      (next.eof = true ↔ reader.rest.length < blockSize evt) := by
  have hnext := hasNext_of_rest h hrest
  obtain ⟨-, hpeek⟩ := peek_of_hasNext hnext
  have hpeeked : reader.peek.2.HasNext := hpeek ▸ hnext
  obtain ⟨hblock, hdrop, hshort, hflags⟩ := read_of_hasNext (blockSize evt) hpeeked
  rw [peek_rest] at hblock hdrop hshort
  refine ⟨(reader.peek.2.read (blockSize evt)).2, ?_, hdrop, hflags, hshort⟩
  rw [readStreamBlock, if_neg hmax.not_gt, ← hblock]
  rfl

/-- At the end every read reports it, and nothing else. -/
lemma readStream_at_end (maxSize : ℕ) (evt : OpenedFileEvent) (h : AtEndOnly reader)
    (hrest : reader.rest = []) : ∃ next : Stream, readStream maxSize evt reader =
      some { stream := next, events := [endEvt evt.id] } ∧ next.eof = true ∧ next.rest = [] := by
  by_cases heof : reader.eof = true
  · exact ⟨reader, by rw [readStream, if_pos heof]; rfl, heof, hrest⟩
  · obtain ⟨hnone, hend⟩ := peek_at_end h hrest
    refine ⟨reader.peek.2, ?_, hend, by rw [peek_rest, hrest]⟩
    rw [readStream, if_neg heof, readLoop, if_pos hnone, Option.map_some]
    exact congrArg some (if_pos (by rw [hend]; rfl))

/-- **A single read**: one block, and the end where the block was cut short by it. -/
lemma readStream_one (hone : evt.type = "read".toList ∨ evt.type = "readBinary".toList)
    (hmax : blockSize evt ≤ maxSize) (h : AtEndOnly reader) (hrest : reader.rest ≠ []) :
    ∃ next : Stream, readStream maxSize evt reader =
      some { stream := next
             events := blockEvt evt (reader.rest.take (blockSize evt)) ::
               if reader.rest.length < blockSize evt then [endEvt evt.id] else [] } ∧
      next.rest = reader.rest.drop (blockSize evt) ∧ AtEndOnly next := by
  obtain ⟨next, hblock, hdrop, hflags, hshort⟩ := readStreamBlock_of_rest maxSize hmax h hrest
  have hnone := peek_of_rest h hrest
  have heof := not_eof_of_rest h hrest
  refine ⟨next, ?_, hdrop, hflags⟩
  rw [readStream, if_neg heof, readLoop, if_neg hnone, if_pos (.inr hone), hblock, Option.map_some]
  by_cases hend : reader.rest.length < blockSize evt
  · have hnexteof := hshort.mpr hend
    rw [if_pos hend]
    exact congrArg some (if_pos (by rw [hnexteof]; rfl))
  · have hnexteof := mt hshort.mp hend
    rw [if_neg hend]
    exact congrArg some (if_neg (by simpa [Except.toBool] using hnexteof))

/-- The loop goes through the blocks of what is left. -/
lemma readLoop_all (hall : ReadsAll evt) (hmax : blockSize evt ≤ maxSize) {blocks : List Str}
    (h : AtEndOnly reader) (hblocks : Blocks (blockSize evt) reader.rest blocks) :
    ∃ next : Stream, readLoop maxSize evt (blocks.length + 1) reader =
      some { stream := next, events := blocks.map (blockEvt evt) } ∧
      next.eof = true ∧ next.rest = [] := by
  generalize hrest : reader.rest = rest at hblocks
  induction hblocks generalizing reader with
  | nil =>
      obtain ⟨hnone, hend⟩ := peek_at_end h hrest
      exact ⟨reader.peek.2, by rw [readLoop, if_pos hnone]; rfl, hend, by rw [peek_rest, hrest]⟩
  | @cons rest blocks hne hblocks ih =>
      subst hrest
      obtain ⟨next, hblock, hdrop, hflags, -⟩ := readStreamBlock_of_rest maxSize hmax h hne
      have hnone := peek_of_rest h hne
      have hgo : ¬ ((readStreamBlock maxSize evt reader.peek.2).ended.toBool = false ∨
          evt.type = "read".toList ∨ evt.type = "readBinary".toList) := by
        rw [hblock]
        exact fun hstop => hstop.elim (fun hended => by cases hended) (not_one_of_readsAll hall)
      obtain ⟨final, hloop, hfinal⟩ := ih hflags hdrop
      refine ⟨final, ?_, hfinal⟩
      rw [List.length_cons, readLoop, if_neg hnone, if_neg hgo, hblock, hloop]
      rfl

/-- **A read to the end**: every block of what is left, and then the end. -/
lemma readStream_all (hall : ReadsAll evt) (hk : 0 < blockSize evt) (hmax : blockSize evt ≤ maxSize)
    {blocks : List Str} (h : AtEndOnly reader)
    (hblocks : Blocks (blockSize evt) reader.rest blocks) :
    ∃ next : Stream, readStream maxSize evt reader =
      some { stream := next, events := blocks.map (blockEvt evt) ++ [endEvt evt.id] } ∧
      next.eof = true ∧ next.rest = [] := by
  by_cases hrest : reader.rest = []
  · rw [hrest] at hblocks
    rw [hblocks.eq_nil]
    exact readStream_at_end maxSize evt h hrest
  · have heof := not_eof_of_rest h hrest
    obtain ⟨next, hloop, hend, hnext⟩ := readLoop_all hall hmax h hblocks
    have hfuel : blocks.length ≤ reader.bytes.length :=
      (hblocks.length_le hk).trans (by rw [Stream.rest, List.length_drop]; omega)
    refine ⟨next, ?_, hend, hnext⟩
    rw [readStream, if_neg heof, show reader.bytes.length + 2 =
      blocks.length + 1 + (reader.bytes.length - blocks.length + 1) by omega, readLoop_add hloop,
      Option.map_some]
    exact congrArg some (if_pos (by rw [hend]; rfl))

/-- **A buffer that cannot be allocated**: the event throws before anything is read. -/
lemma readStream_refused (hmax : maxSize < blockSize evt) (h : AtEndOnly reader)
    (hrest : reader.rest ≠ []) : readStream maxSize evt reader =
      some { stream := reader.peek.2, ended := .error .badAlloc } := by
  have hnone := peek_of_rest h hrest
  have heof := not_eof_of_rest h hrest
  have hblock : readStreamBlock maxSize evt reader.peek.2 =
      { stream := reader.peek.2, ended := .error .badAlloc } := by
    rw [readStreamBlock, if_pos hmax]
  rw [readStream, if_neg heof, readLoop, if_neg hnone, hblock, if_pos (.inl rfl), Option.map_some]
  rfl

end Streams

/-! ### One event after another -/

/-- What an event is answered with: what it returns or throws, and what it dispatches. -/
structure Response where
  result : Except Fault Bool
  events : List OpenedFileEvt := []

/-- The response to an event that returns `true`. -/
def Response.done (events : List OpenedFileEvt) : Response := ⟨.ok true, events⟩

/-- One event after another: the responses, and the registry that is left. -/
def updateAll (maxSize : ℕ) :
    List OpenedFileEvent → OpenedFiles → Option (List Response × OpenedFiles)
  | [], s => some ([], s)
  | evt :: evts, s =>
      (updateOpenedFile maxSize s evt).bind fun updated =>
        (updateAll maxSize evts updated.state).map fun run =>
          (⟨updated.result, updated.events⟩ :: run.1, run.2)

/-- The reader behind an id. -/
def OpenedFiles.ReaderOf (s : OpenedFiles) (id : ℤ) (reader : Stream) : Prop :=
  ∃ address, s.openedFiles.lookup id = some address ∧ s.readers[address]? = some reader

/-- The event that sets the cursor. -/
def seekEvent (id : ℤ) (o : ℕ) : OpenedFileEvent := { id := id, type := "seek", pos := o }

/-- The types of the events that read one block, or all of them, in text or binary form. -/
def readType : Bool → Bool → Str
  | false, false => "read"
  | false, true => "readBinary"
  | true, false => "readAll"
  | true, true => "readAllBinary"

/-- The event that reads one block, or all of them. -/
def readEvent (id : ℤ) (all binary : Bool) (size : ℤ) : OpenedFileEvent :=
  { id := id, type := readType all binary, size := size }

/-- The event that hands a block over. -/
def dataEvt (id : ℤ) (binary : Bool) (block : Str) : OpenedFileEvt :=
  ⟨id, if binary then "dataBinary" else "data", some block⟩

section Updates

variable {maxSize : ℕ} {s s' : OpenedFiles} {id : ℤ} {evt : OpenedFileEvent}
  {evts : List OpenedFileEvent} {reader : Stream} {result : ReadResult} {updated : Updated}
  {responses : List Response}

lemma updateAll_cons (h : updateOpenedFile maxSize s evt = some updated)
    (hrest : updateAll maxSize evts updated.state = some (responses, s')) :
    updateAll maxSize (evt :: evts) s =
      some (⟨updated.result, updated.events⟩ :: responses, s') := by
  rw [updateAll, h, Option.bind_some, hrest, Option.map_some]

lemma readerOf_set {address : ℕ} (hlookup : s.openedFiles.lookup id = some address)
    (hreader : s.readers[address]? = some reader) (next : Stream) :
    OpenedFiles.ReaderOf { s with readers := s.readers.set address next } id next :=
  ⟨address, hlookup, by simp [(List.getElem?_eq_some_iff.mp hreader).1]⟩

/-- A read event of an id is a read of the reader behind it. -/
lemma updateOpenedFile_read (hreader : s.ReaderOf evt.id reader)
    (hread : isReadEvent evt.type = true) (h : readStream maxSize evt reader = some result) :
    ∃ s', updateOpenedFile maxSize s evt =
      some { result := result.ended.map fun _ => true, events := result.events, state := s' } ∧
      s'.ReaderOf evt.id result.stream := by
  obtain ⟨address, hlookup, hget⟩ := hreader
  have hclose : evt.type ≠ "close".toList := ne_of_isReadEvent hread rfl
  refine ⟨{ s with readers := s.readers.set address result.stream }, ?_,
    readerOf_set hlookup hget _⟩
  simp only [updateOpenedFile, hlookup, hget, if_neg hclose, hread, if_true, h, Option.map_some]

variable (maxSize) in
lemma updateOpenedFile_seek (hreader : s.ReaderOf id reader) (o : ℕ) :
    ∃ s', updateOpenedFile maxSize s (seekEvent id o) = some { result := .ok true, state := s' } ∧
      s'.ReaderOf id (reader.seek o) := by
  obtain ⟨address, hlookup, hget⟩ := hreader
  refine ⟨{ s with readers := s.readers.set address (reader.seek o) }, ?_,
    readerOf_set hlookup hget _⟩
  have hpos : (if -1 < (seekEvent id o).pos then (seekEvent id o).pos.toNat else 0) = o := by
    have hlt : (-1 : ℤ) < o := by omega
    simp [seekEvent, hlt]
  have hlookup' : s.openedFiles.lookup (seekEvent id o).id = some address := hlookup
  rw [updateOpenedFile, hlookup']
  dsimp only
  rw [hget, hpos]
  rfl

lemma isReadEvent_readType (all binary : Bool) : isReadEvent (readType all binary) = true := by
  cases all <;> cases binary <;> decide

lemma updateOpenedFile_readEvent {all binary : Bool} {size : ℤ} (hreader : s.ReaderOf id reader)
    (h : readStream maxSize (readEvent id all binary size) reader = some result) :
    ∃ s', updateOpenedFile maxSize s (readEvent id all binary size) =
      some { result := result.ended.map fun _ => true, events := result.events, state := s' } ∧
      s'.ReaderOf id result.stream :=
  updateOpenedFile_read hreader (isReadEvent_readType all binary) h

lemma blockEvt_readEvent (all binary : Bool) (size : ℤ) :
    blockEvt (readEvent id all binary size) = dataEvt id binary := by
  have htest : binaryEvent.test (readType all binary) = binary := by
    cases all <;> cases binary <;> decide
  funext block
  simp only [blockEvt, readEvent, htest, dataEvt]

lemma readsAll_readType (binary : Bool) (size : ℤ) : ReadsAll (readEvent id true binary size) := by
  cases binary with
  | false => exact .inl rfl
  | true => exact .inr rfl

lemma reads_one_readType (binary : Bool) :
    readType false binary = "read".toList ∨ readType false binary = "readBinary".toList := by
  cases binary with
  | false => exact .inl rfl
  | true => exact .inr rfl

end Updates

/-! ### Single reads -/

/-- What single reads dispatch, each with its events, until the last one reports the end:
blocks, one after the other. -/
structure OneByOne (id : ℤ) (binary : Bool) (blocks : List Str) (reads : List (List OpenedFileEvt))
    (last : List OpenedFileEvt) : Prop where
  running : ∀ events ∈ reads, endEvt id ∉ events
  ended : endEvt id ∈ last
  atMostOne : ∀ events ∈ reads ++ [last], (events.filterMap OpenedFileEvt.data).length ≤ 1
  together : (reads ++ [last]).flatten = blocks.map (dataEvt id binary) ++ [endEvt id]

section SingleReads

variable {maxSize : ℕ} {s : OpenedFiles} {id : ℤ} {binary : Bool} {size : ℤ} {reader : Stream}
  {blocks : List Str} {block : Str} {reads : List (List OpenedFileEvt)} {last : List OpenedFileEvt}

lemma data_dataEvt : (dataEvt id binary block).data = some block := rfl

lemma data_endEvt : (endEvt id).data = none := rfl

lemma dataEvt_ne_endEvt : endEvt id ≠ dataEvt id binary block :=
  fun h => Option.some_ne_none block (congrArg OpenedFileEvt.data h).symm

lemma oneByOne_at_end (id : ℤ) (binary : Bool) : OneByOne id binary [] [] [endEvt id] where
  running := List.forall_mem_nil _
  ended := List.mem_singleton_self _
  atMostOne := by simp [List.filterMap_cons, data_endEvt]
  together := rfl

/-- A block that the end cuts short. -/
lemma oneByOne_cut (id : ℤ) (binary : Bool) (block : Str) :
    OneByOne id binary [block] [] [dataEvt id binary block, endEvt id] where
  running := List.forall_mem_nil _
  ended := List.mem_cons_of_mem _ (List.mem_singleton_self _)
  atMostOne := by simp [data_dataEvt, data_endEvt]
  together := rfl

lemma OneByOne.cons (h : OneByOne id binary blocks reads last) (block : Str) :
    OneByOne id binary (block :: blocks) ([dataEvt id binary block] :: reads) last where
  running := List.forall_mem_cons.mpr ⟨by simp [dataEvt_ne_endEvt], h.running⟩
  ended := h.ended
  atMostOne := List.forall_mem_cons.mpr ⟨by simp [data_dataEvt], h.atMostOne⟩
  together := congrArg (dataEvt id binary block :: ·) h.together

/-- Single reads go through the blocks of what is left, and the last one reports the end. -/
lemma updateAll_reads (hmax : blockSize (readEvent id false binary size) ≤ maxSize)
    (hreader : s.ReaderOf id reader) (h : AtEndOnly reader)
    (hblocks : Blocks (blockSize (readEvent id false binary size)) reader.rest blocks) :
    ∃ reads last s', updateAll maxSize
        (List.replicate (reads.length + 1) (readEvent id false binary size)) s =
          some ((reads ++ [last]).map Response.done, s') ∧
      OneByOne id binary blocks reads last := by
  generalize hrest : reader.rest = rest at hblocks
  induction hblocks generalizing s reader with
  | nil =>
      obtain ⟨next, hstream, -⟩ :=
        readStream_at_end maxSize (readEvent id false binary size) h hrest
      obtain ⟨s', hupdate, -⟩ := updateOpenedFile_readEvent hreader hstream
      exact ⟨[], _, s', updateAll_cons hupdate rfl, oneByOne_at_end id binary⟩
  | @cons rest blocks hne hblocks ih =>
      subst hrest
      obtain ⟨next, hstream, hdrop, hflags⟩ := readStream_one (reads_one_readType binary) hmax h hne
      obtain ⟨s', hupdate, hreader'⟩ := updateOpenedFile_readEvent hreader hstream
      rw [blockEvt_readEvent] at hupdate
      by_cases hshort : reader.rest.length < blockSize (readEvent id false binary size)
      · -- the end is reported along with the block, and no read follows
        rw [List.drop_eq_nil_of_le hshort.le] at hblocks
        rw [if_pos hshort] at hupdate
        refine ⟨[], _, s', updateAll_cons hupdate rfl, ?_⟩
        rw [hblocks.eq_nil]
        exact oneByOne_cut id binary _
      · rw [if_neg hshort] at hupdate
        obtain ⟨reads, last, final, hrun, hreads⟩ := ih hreader' hflags hdrop
        exact ⟨_ :: reads, last, final, updateAll_cons hupdate hrun, hreads.cons _⟩

end SingleReads

/-! ### Handing over a file -/

/-- One event dispatches the blocks, and then the end. -/
def HandsOverAtOnce (maxSize : ℕ) (s : OpenedFiles) (id : ℤ) (o : ℕ) (size : ℤ) (binary : Bool)
    (blocks : List Str) : Prop :=
  ∃ s', updateAll maxSize [seekEvent id o, readEvent id true binary size] s =
    some ([.done [], .done (blocks.map (dataEvt id binary) ++ [endEvt id])], s')

/-- Single reads dispatch the blocks one by one, until the end is reported. -/
def HandsOverOneByOne (maxSize : ℕ) (s : OpenedFiles) (id : ℤ) (o : ℕ) (size : ℤ) (binary : Bool)
    (blocks : List Str) : Prop :=
  ∃ reads last s', updateAll maxSize
      (seekEvent id o :: List.replicate (reads.length + 1) (readEvent id false binary size)) s =
        some (.done [] :: (reads ++ [last]).map .done, s') ∧ OneByOne id binary blocks reads last

/-- **The blocks are handed over**, at once and one by one: they are not empty, no block is
larger than the size, and together they are the bytes from the cursor on. -/
def HandsOver (maxSize : ℕ) (s : OpenedFiles) (id : ℤ) (c : Str) (o : ℕ) (size : ℤ)
    (binary : Bool) : Prop :=
  ∃ blocks : List Str,
    (∀ block ∈ blocks, block ≠ [] ∧ block.length ≤ blockSize { size := size }) ∧
      blocks.flatten = c.drop o ∧ HandsOverAtOnce maxSize s id o size binary blocks ∧
      HandsOverOneByOne maxSize s id o size binary blocks

/-- **A read is refused**: it throws, hands nothing over and leaves the cursor. -/
def Refuses (maxSize : ℕ) (s : OpenedFiles) (id : ℤ) (c : Str) (o : ℕ) (size : ℤ)
    (binary : Bool) : Prop :=
  ∀ all, ∃ s' reader, updateAll maxSize [seekEvent id o, readEvent id all binary size] s =
    some ([.done [], ⟨.error .badAlloc, []⟩], s') ∧ s'.ReaderOf id reader ∧ reader.rest = c.drop o

/-- **No byte is skipped or repeated**: in whatever sizes and forms a file is read on from
the cursor, the blocks handed over and what is then left are the bytes from the cursor on. -/
def NeverSkips (maxSize : ℕ) (s : OpenedFiles) (id : ℤ) (c : Str) (o : ℕ) : Prop :=
  ∀ evts : List OpenedFileEvent,
    (∀ evt ∈ evts, evt.id = id ∧ isReadEvent evt.type = true ∧ evt.size ≠ 0) →
      ∃ responses s' reader,
        updateAll maxSize (seekEvent id o :: evts) s = some (responses, s') ∧
          s'.ReaderOf id reader ∧
          ((responses.flatMap Response.events).filterMap OpenedFileEvt.data).flatten ++
            reader.rest = c.drop o

/-- **Nothing is handed over**, whatever is read from then on: neither a block nor an end. -/
def HandsNothing (maxSize : ℕ) (s : OpenedFiles) (id : ℤ) (o : ℕ) : Prop :=
  ∀ evts : List OpenedFileEvent, (∀ evt ∈ evts, evt.id = id ∧ isReadEvent evt.type = true) →
    ∃ s', updateAll maxSize (seekEvent id o :: evts) s =
      some (.done [] :: evts.map fun _ => .done [], s')

/-- A file with the given content is open under an id, on a file system that lets it be read up
to an offset. -/
def OpenedOn (s : OpenedFiles) (id : ℤ) (c : Str) (limit : ℕ) : Prop :=
  ∃ reader, s.ReaderOf id reader ∧ reader.bytes = c ∧ reader.maxOffset = limit

section HandingOver

variable {maxSize limit : ℕ} {s : OpenedFiles} {id : ℤ} {c : Str} {o : ℕ} {size : ℤ}
  {binary : Bool} {evt : OpenedFileEvent}

lemma blockSize_pos (hsize : evt.size ≠ 0) : 0 < blockSize evt :=
  not_imp_comm.mp size_eq_zero_of_blockSize hsize

variable (maxSize) in
/-- After the cursor is set, the stream is good and its rest are the bytes from there on. -/
lemma updateOpenedFile_seekEvent (hopened : OpenedOn s id c limit) (ho : o ≤ limit) :
    ∃ s' reader, updateOpenedFile maxSize s (seekEvent id o) =
      some { result := .ok true, state := s' } ∧ s'.ReaderOf id reader ∧ AtEndOnly reader ∧
      reader.rest = c.drop o := by
  obtain ⟨reader, hreader, rfl, rfl⟩ := hopened
  obtain ⟨s', hupdate, hreader'⟩ := updateOpenedFile_seek maxSize hreader o
  exact ⟨s', reader.seek o, hupdate, hreader', atEndOnly_seek ho, by rw [seek_of_le ho]; rfl⟩

lemma handsOver_of_blocks (hopened : OpenedOn s id c limit) (ho : o ≤ limit) (hsize : size ≠ 0)
    (hmax : blockSize { size := size } ≤ maxSize) : HandsOver maxSize s id c o size binary := by
  have hk : 0 < blockSize { size := size } := blockSize_pos hsize
  obtain ⟨blocks, hblocks⟩ := exists_blocks hk (c.drop o)
  obtain ⟨s', reader, hseek, hreader, hflags, hrest⟩ := updateOpenedFile_seekEvent maxSize hopened ho
  rw [← hrest] at hblocks
  refine ⟨blocks, hblocks.mem hk, by rw [hblocks.flatten, hrest], ?_, ?_⟩
  · obtain ⟨next, hstream, -⟩ :=
      readStream_all (readsAll_readType binary size) hk hmax hflags hblocks
    obtain ⟨final, hupdate, -⟩ := updateOpenedFile_readEvent hreader hstream
    rw [blockEvt_readEvent] at hupdate
    exact ⟨final, updateAll_cons hseek (updateAll_cons hupdate rfl)⟩
  · obtain ⟨reads, last, final, hrun, hreads⟩ := updateAll_reads hmax hreader hflags hblocks
    exact ⟨reads, last, final, updateAll_cons hseek hrun, hreads⟩

/-- With nothing left there are no blocks, and no buffer is needed. -/
lemma handsOver_at_end (hopened : OpenedOn s id c limit) (ho : o ≤ limit) (hend : c.length ≤ o) :
    HandsOver maxSize s id c o size binary := by
  obtain ⟨s', reader, hseek, hreader, hflags, hrest⟩ := updateOpenedFile_seekEvent maxSize hopened ho
  have hnil : c.drop o = [] := List.drop_eq_nil_of_le hend
  have hread : ∀ all, ∃ final, updateAll maxSize [seekEvent id o, readEvent id all binary size] s =
      some ([.done [], .done [endEvt id]], final) := by
    intro all
    obtain ⟨next, hstream, -⟩ := readStream_at_end maxSize (readEvent id all binary size) hflags
      (hrest.trans hnil)
    obtain ⟨final, hupdate, -⟩ := updateOpenedFile_readEvent hreader hstream
    exact ⟨final, updateAll_cons hseek (updateAll_cons hupdate rfl)⟩
  obtain ⟨final, honce⟩ := hread true
  obtain ⟨final', hone⟩ := hread false
  exact ⟨[], List.forall_mem_nil _, hnil.symm, ⟨final, honce⟩,
    [], _, final', hone, oneByOne_at_end id binary⟩

lemma refuses_of_rest (hopened : OpenedOn s id c limit) (ho : o ≤ limit)
    (hmax : maxSize < blockSize { size := size }) (hrest : o < c.length) :
    Refuses maxSize s id c o size binary := by
  intro all
  obtain ⟨s', reader, hseek, hreader, hflags, hdrop⟩ := updateOpenedFile_seekEvent maxSize hopened ho
  have hne : reader.rest ≠ [] := by
    rw [hdrop, Ne, List.drop_eq_nil_iff]
    omega
  have hstream : readStream maxSize (readEvent id all binary size) reader =
      some { stream := reader.peek.2, ended := .error .badAlloc } :=
    readStream_refused hmax hflags hne
  obtain ⟨final, hupdate, hfinal⟩ := updateOpenedFile_readEvent hreader hstream
  exact ⟨final, reader.peek.2, updateAll_cons hseek (updateAll_cons hupdate rfl), hfinal,
    (peek_rest reader).trans hdrop⟩

variable (maxSize) in
/-- A read of blocks that are not empty ends. -/
lemma exists_readStream (hsize : evt.size ≠ 0) (reader : Stream) :
    ∃ result, readStream maxSize evt reader = some result := by
  by_cases heof : reader.eof = true
  · exact ⟨_, by rw [readStream, if_pos heof]⟩
  · have hloop : (readLoop maxSize evt (reader.bytes.length + 2) reader).isSome :=
      readLoop_isSome (blockSize_pos hsize) (by omega)
    obtain ⟨result, hresult⟩ := Option.isSome_iff_exists.mp hloop
    exact ⟨_, by rw [readStream, if_neg heof, hresult, Option.map_some]⟩

variable (maxSize) in
/-- The blocks of one read after another are what they take from the stream. -/
lemma exists_updateAll {evts : List OpenedFileEvent} {reader : Stream}
    (hreader : s.ReaderOf id reader)
    (h : ∀ evt ∈ evts, evt.id = id ∧ isReadEvent evt.type = true ∧ evt.size ≠ 0) :
    ∃ responses s' reader', updateAll maxSize evts s = some (responses, s') ∧
      s'.ReaderOf id reader' ∧
      ((responses.flatMap Response.events).filterMap OpenedFileEvt.data).flatten ++ reader'.rest =
        reader.rest := by
  induction evts generalizing s reader with
  | nil => exact ⟨[], s, reader, rfl, hreader, rfl⟩
  | cons evt evts ih =>
      obtain ⟨⟨rfl, hread, hsize⟩, hevts⟩ := List.forall_mem_cons.mp h
      obtain ⟨result, hstream⟩ := exists_readStream maxSize hsize reader
      have htaken : (result.events.filterMap OpenedFileEvt.data).flatten ++ result.stream.rest =
          reader.rest := readStream_taken ⟨rfl, fun _ => rfl⟩ hstream
      obtain ⟨next, hupdate, hnext⟩ := updateOpenedFile_read hreader hread hstream
      obtain ⟨responses, s', reader', hrun, hreader', hrest⟩ := ih hnext hevts
      refine ⟨_, s', reader', updateAll_cons hupdate hrun, hreader', ?_⟩
      rw [List.flatMap_cons, List.filterMap_append, List.flatten_append, List.append_assoc, hrest,
        htaken]

lemma neverSkips_of_openedOn (hopened : OpenedOn s id c limit) (ho : o ≤ limit) :
    NeverSkips maxSize s id c o := by
  intro evts hevts
  obtain ⟨s', reader, hseek, hreader, -, hdrop⟩ := updateOpenedFile_seekEvent maxSize hopened ho
  obtain ⟨responses, final, reader', hrun, hreader', hrest⟩ :=
    exists_updateAll maxSize hreader hevts
  exact ⟨_, final, reader', updateAll_cons hseek hrun, hreader', hrest.trans hdrop⟩

/-- Reads of a failed stream, one after another. -/
lemma updateAll_failed {evts : List OpenedFileEvent} {reader : Stream}
    (hreader : s.ReaderOf id reader) (hfailed : Failed reader)
    (h : ∀ evt ∈ evts, evt.id = id ∧ isReadEvent evt.type = true) :
    ∃ s', updateAll maxSize evts s = some (evts.map fun _ => .done [], s') := by
  induction evts generalizing s reader with
  | nil => exact ⟨s, rfl⟩
  | cons evt evts ih =>
      obtain ⟨⟨rfl, hread⟩, hevts⟩ := List.forall_mem_cons.mp h
      obtain ⟨next, hupdate, hnext⟩ :=
        updateOpenedFile_read hreader hread (readStream_failed maxSize evt hfailed)
      obtain ⟨final, hrun⟩ := ih hnext hfailed hevts
      exact ⟨final, updateAll_cons hupdate hrun⟩

lemma handsNothing_of_lt (hopened : OpenedOn s id c limit) (ho : limit < o) :
    HandsNothing maxSize s id o := by
  intro evts hevts
  obtain ⟨reader, hreader, -, rfl⟩ := hopened
  obtain ⟨s', hseek, hreader'⟩ := updateOpenedFile_seek maxSize hreader o
  obtain ⟨final, hrun⟩ := updateAll_failed hreader' (failed_seek ho) hevts
  exact ⟨final, updateAll_cons hseek hrun⟩

/-- **What the reads of a file hand over**: its blocks, at once or one by one, where a buffer
for a block can be allocated or nothing is left; elsewhere they are refused.  Reads of
whatever sizes neither skip nor repeat a byte.  Behind a cursor that the file system refuses
nothing is handed over. -/
theorem handsOver_or_refuses (maxSize : ℕ) (hopened : OpenedOn s id c limit) (o : ℕ)
    (hsize : size = -1 ∨ 1 ≤ size) (binary : Bool) :
    (o ≤ limit →
      (blockSize { size := size } ≤ maxSize ∨ c.length ≤ o →
        HandsOver maxSize s id c o size binary) ∧
      (maxSize < blockSize { size := size } ∧ o < c.length →
        Refuses maxSize s id c o size binary) ∧
      NeverSkips maxSize s id c o) ∧
    (limit < o → HandsNothing maxSize s id o) := by
  refine ⟨fun ho => ⟨fun h => ?_, fun ⟨hmax, hrest⟩ => refuses_of_rest hopened ho hmax hrest,
    neverSkips_of_openedOn hopened ho⟩, handsNothing_of_lt hopened⟩
  rcases h with hmax | hend
  · exact handsOver_of_blocks hopened ho (by omega) hmax
  · exact handsOver_at_end hopened ho hend

lemma openedOn_openedWorld : OpenedOn openedWorld.openedFiles 0 "hi" (2 ^ 63 - 1) :=
  ⟨_, ⟨0, rfl, rfl⟩, rfl, rfl⟩

/-- The same file on a file system whose files end before 2^44 bytes. -/
def openedSmall : OpenedFiles where
  openedFiles := (∅ : AList fun _ : ℤ => ℕ).insert 0 0
  readers := [{ file := "a.txt", bytes := "hi", maxOffset := 2 ^ 44 - 4096 }]

/-- The bytes of a file one by one, a size for which there is no memory, and a cursor that is
refused. -/
theorem hi_handed_over : HandsOver (2 ^ 47) openedWorld.openedFiles 0 "hi" 0 1 false ∧
    Refuses (2 ^ 47) openedWorld.openedFiles 0 "hi" 0 (2 ^ 62) false ∧
    NeverSkips (2 ^ 47) openedWorld.openedFiles 0 "hi" 0 ∧
    HandsNothing (2 ^ 47) openedSmall 0 (2 ^ 44) := by
  have hsize : (1 : ℤ) = -1 ∨ (1 : ℤ) ≤ 1 := .inr le_rfl
  have hhuge : (2 ^ 62 : ℤ) = -1 ∨ (1 : ℤ) ≤ 2 ^ 62 := .inr (by decide)
  have hsmall : OpenedOn openedSmall 0 "hi" (2 ^ 44 - 4096) := ⟨_, ⟨0, rfl, rfl⟩, rfl, rfl⟩
  have hreads := (handsOver_or_refuses (2 ^ 47) openedOn_openedWorld 0 hsize false).1 (by decide)
  have hrefused := (handsOver_or_refuses (2 ^ 47) openedOn_openedWorld 0 hhuge false).1 (by decide)
  exact ⟨hreads.1 (.inl (by decide)), hrefused.2.1 ⟨by decide, by decide⟩, hreads.2.2,
    (handsOver_or_refuses (2 ^ 47) hsmall (2 ^ 44) hsize false).2 (by decide)⟩

/-- A platform on which no buffer is longer than the address space. -/
def addressed : Os := { Os.idle emptyWorkDir with maxSize := 2 ^ 47 }

/-- With a size for which there is no memory nothing is handed over. -/
theorem huge_blocks_not_handed_over : ¬ ∀ (os : Os) (s : OpenedFiles) (id : ℤ) (c : Str)
    (limit o : ℕ) (size : ℤ) (binary : Bool), OpenedOn s id c limit → o ≤ limit →
      size = -1 ∨ 1 ≤ size → size < 2 ^ 63 → HandsOver os.maxSize s id c o size binary := by
  intro h
  obtain ⟨blocks, -, -, ⟨final, honce⟩, -⟩ := h addressed openedWorld.openedFiles 0 "hi" _ 0
    (2 ^ 62) false openedOn_openedWorld (by decide) (by decide) (by decide)
  have hrefuses : Refuses addressed.maxSize openedWorld.openedFiles 0 "hi" 0 (2 ^ 62) false :=
    refuses_of_rest openedOn_openedWorld (by decide) (by decide) (by decide)
  obtain ⟨final', reader, hrefused, -⟩ := hrefuses true
  rw [hrefused] at honce
  cases honce

end HandingOver

end Neutralino.fs
