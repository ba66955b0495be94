import Neutralino.Api.OpenedReading

/-!
What `getOpenedFileInfo` reports of a file, against what has happened to the file since
it was opened.

* `History`: the cursor, the last block, the end and whether the last seek was refused, as the
  events of a file tell them.
* `MovedOver`: what reading does to a stream; `readLoop_moved`, `readStream_moved`.
* `Recorded`: a history and the stream it is the history of, which every request keeps.
* `info_exact_iff`: **when the reported information is exact**.  A stream at its end has no
  position, nor has one whose file system refused a cursor, and a stream that looks for a further
  byte forgets how long the last block was.
-/

namespace Neutralino.fs

open Runs

/-! ### Histories -/

/-- An event that hands over one block at most. -/
def ReadsOne (evt : OpenedFileEvent) : Prop :=
  evt.type = "read".toList ∨ evt.type = "readBinary".toList

instance (evt : OpenedFileEvent) : Decidable (ReadsOne evt) :=
  inferInstanceAs (Decidable (_ ∨ _))

/-- The blocks that events hand over. -/
def blocksOf (events : List OpenedFileEvt) : List Str := events.filterMap OpenedFileEvt.data

/-- The length of the last of some blocks. -/
def lastLength (blocks : List Str) : Option ℕ := blocks.getLast?.map List.length

/-- Where a seek sets the cursor. -/
def seekPos (evt : OpenedFileEvent) : ℕ := if -1 < evt.pos then evt.pos.toNat else 0

/-- What has happened to a file since it was opened: where the cursor is, how long the last
block was, whether the end was reported and nothing was sought since, whether a read has
looked for a further byte since the last block, and whether the last seek was refused. -/
structure History where
  cursor : ℕ := 0
  lastBlock : ℕ := 0
  ended : Bool := false
  lookedOn : Bool := false
  refused : Bool := false

/-- The history after an event, by what the event dispatches and the largest offset in the file.
A seek beyond that leaves the cursor.  After the end was reported no read looks for a byte;
elsewhere a read looks for one before every block. -/
def History.update (limit : ℕ) (h : History) (evt : OpenedFileEvent)
    (events : List OpenedFileEvt) : History :=
  if evt.type = "seek" then
    if seekPos evt ≤ limit then { h with cursor := seekPos evt, ended := false, refused := false }
    else { h with ended := false, refused := true }
  else
    { h with
      cursor := h.cursor + (blocksOf events).flatten.length
      lastBlock := (lastLength (blocksOf events)).getD h.lastBlock
      ended := h.ended || decide (endEvt evt.id ∈ events)
      lookedOn := if h.ended then h.lookedOn else !decide (ReadsOne evt ∧ blocksOf events ≠ []) }

/-- The stream still knows how long the last block was. -/
def History.KnowsLast (h : History) : Prop := h.lookedOn = true → h.lastBlock = 0

instance (h : History) : Decidable h.KnowsLast := inferInstanceAs (Decidable (_ → _))

/-! ### What a read does to a stream -/

/-- A stream is moved over blocks, and not beyond the end of its file. -/
structure MovedOver (blocks : List Str) (before after : Stream) : Prop where
  bytes : after.bytes = before.bytes
  maxOffset : after.maxOffset = before.maxOffset
  pos : after.pos = before.pos + blocks.flatten.length
  within : before.pos ≤ before.bytes.length → after.pos ≤ before.bytes.length

section Streams

variable {maxSize : ℕ} {evt : OpenedFileEvent} {reader next last : Stream} {result : ReadResult}
  {blocks blocks' : List Str}

lemma MovedOver.trans (h : MovedOver blocks reader next) (h' : MovedOver blocks' next last) :
    MovedOver (blocks ++ blocks') reader last where
  bytes := h'.bytes.trans h.bytes
  maxOffset := h'.maxOffset.trans h.maxOffset
  pos := by rw [h'.pos, h.pos, List.flatten_append, List.length_append, Nat.add_assoc]
  within hpos := by
    have := h'.within (by rw [h.bytes]; exact h.within hpos)
    rwa [h.bytes] at this

/-- A look ahead moves nothing, and makes the stream forget its count. -/
lemma peek_moved (reader : Stream) :
    MovedOver [] reader reader.peek.2 ∧ reader.peek.2.gcount = 0 := by
  unfold Stream.peek
  split
  · exact ⟨⟨rfl, rfl, rfl, id⟩, rfl⟩
  · split
    · exact ⟨⟨rfl, rfl, rfl, id⟩, rfl⟩
    · exact ⟨⟨rfl, rfl, rfl, id⟩, rfl⟩

lemma atEndOnly_peek (h : AtEndOnly reader) : AtEndOnly reader.peek.2 := by
  intro hflags
  rw [peek_rest]
  by_cases hrest : reader.rest = []
  · exact ⟨(peek_at_end h hrest).2, hrest⟩
  · have hnext := hasNext_of_rest h hrest
    rw [(peek_of_hasNext hnext).2] at hflags
    exact absurd (show (reader.eof || reader.fail) = true from hflags)
      (by rw [hnext.1, hnext.2.1]; exact Bool.false_ne_true)

/-- What is read moves the stream, and the stream counts it. -/
lemma read_moved (size : ℕ) (reader : Stream) :
    MovedOver [(reader.read size).1] reader (reader.read size).2 ∧
      (reader.read size).2.gcount = (reader.read size).1.length := by
  unfold Stream.read
  split
  · exact ⟨⟨rfl, rfl, rfl, id⟩, rfl⟩
  · refine ⟨⟨rfl, rfl, by simp, fun hpos => ?_⟩, rfl⟩
    simp only [List.length_take, List.length_drop]
    omega

/-- The blocks of a loop: the stream is moved over them, a loop that throws has not reached
the end, and only a single read leaves their length in the stream. -/
structure LoopMoved (evt : OpenedFileEvent) (reader : Stream) (result : ReadResult)
    (blocks : List Str) : Prop where
  events : result.events = blocks.map (blockEvt evt)
  moved : MovedOver blocks reader result.stream
  flags : AtEndOnly result.stream
  thrown : result.ended.toBool = false → result.stream.eof = false
  gcount : result.stream.gcount = if ReadsOne evt then (lastLength blocks).getD 0 else 0

/-- A round of the loop in which nothing is to come. -/
lemma loopMoved_peek (h : AtEndOnly reader) :
    LoopMoved evt reader { stream := reader.peek.2 } [] where
  events := rfl
  moved := (peek_moved reader).1
  flags := atEndOnly_peek h
  thrown hended := by cases hended
  gcount := by rw [(peek_moved reader).2]; exact (ite_self 0).symm

/-- A block that is refused. -/
lemma loopMoved_refused (h : AtEndOnly reader) (hnext : reader.HasNext) :
    LoopMoved evt reader { stream := reader.peek.2, ended := .error .badAlloc } [] where
  events := rfl
  moved := (peek_moved reader).1
  flags := atEndOnly_peek h
  thrown _ := by rw [(peek_of_hasNext hnext).2]; exact hnext.1
  gcount := by rw [(peek_moved reader).2]; exact (ite_self 0).symm

/-- A block that is read, where a byte is to come. -/
lemma readStreamBlock_moved (hmax : ¬ maxSize < blockSize evt) (hnext : reader.HasNext) :
    ∃ block next, readStreamBlock maxSize evt reader.peek.2 =
        { stream := next, events := [blockEvt evt block] } ∧
      MovedOver [block] reader next ∧ AtEndOnly next ∧ next.gcount = block.length := by
  have hpeeked : reader.peek.2.HasNext := (peek_of_hasNext hnext).2 ▸ hnext
  obtain ⟨hmoved, hcount⟩ := read_moved (blockSize evt) reader.peek.2
  refine ⟨_, (reader.peek.2.read (blockSize evt)).2, ?_, (peek_moved reader).1.trans hmoved,
    (read_of_hasNext _ hpeeked).2.2.2, hcount⟩
  rw [readStreamBlock, if_neg hmax]
  rfl

/-- The block of a single read. -/
lemma loopMoved_one {block : Str} (hone : ReadsOne evt) (hmoved : MovedOver [block] reader next)
    (hflags : AtEndOnly next) (hcount : next.gcount = block.length) :
    LoopMoved evt reader { stream := next, events := [blockEvt evt block] } [block] where
  events := rfl
  moved := hmoved
  flags := hflags
  thrown hended := by cases hended
  gcount := by rw [if_pos hone, hcount]; rfl

/-- A block before the blocks of the rest of a loop. -/
lemma LoopMoved.cons {block : Str} {rest : ReadResult} (hall : ¬ ReadsOne evt)
    (hblock : MovedOver [block] reader next) (h : LoopMoved evt next rest blocks) :
    LoopMoved evt reader { rest with events := [blockEvt evt block] ++ rest.events }
      (block :: blocks) where
  events := congrArg (blockEvt evt block :: ·) h.events
  moved := hblock.trans h.moved
  flags := h.flags
  thrown := h.thrown
  gcount := by rw [h.gcount, if_neg hall, if_neg hall]

/-- **What a loop does to a stream**, round by round. -/
theorem readLoop_moved {fuel : ℕ} (h : AtEndOnly reader)
    (hloop : readLoop maxSize evt fuel reader = some result) :
    ∃ blocks, LoopMoved evt reader result blocks := by
  induction fuel generalizing reader result with
  | zero => cases hloop
  | succ fuel ih =>
      rw [readLoop] at hloop
      by_cases hnone : reader.peek.1.isNone = true
      · rw [if_pos hnone] at hloop
        cases hloop
        exact ⟨[], loopMoved_peek h⟩
      have hnext : reader.HasNext := by
        obtain ⟨hpos, -, hgood⟩ := peek_isSome (Bool.not_eq_true _ ▸ hnone)
        obtain ⟨heof, hfail⟩ := Bool.or_eq_false_iff.mp hgood
        exact ⟨heof, hfail, hpos⟩
      rw [if_neg hnone] at hloop
      by_cases hmax : maxSize < blockSize evt
      · have hblock : readStreamBlock maxSize evt reader.peek.2 =
            { stream := reader.peek.2, ended := .error .badAlloc } := by
          rw [readStreamBlock, if_pos hmax]
        rw [hblock, if_pos (.inl rfl)] at hloop
        cases hloop
        exact ⟨[], loopMoved_refused h hnext⟩
      obtain ⟨block, next, hblock, hmoved, hflags, hcount⟩ := readStreamBlock_moved hmax hnext
      rw [hblock] at hloop
      dsimp only at hloop
      by_cases hone : ReadsOne evt
      · rw [if_pos (.inr hone)] at hloop
        cases hloop
        exact ⟨[block], loopMoved_one hone hmoved hflags hcount⟩
      · rw [if_neg (fun hstop => hstop.elim (fun hended => by cases hended) hone)] at hloop
        obtain ⟨rest, hrest, rfl⟩ := Option.map_eq_some_iff.mp hloop
        obtain ⟨blocks, hblocks⟩ := ih hflags hrest
        exact ⟨block :: blocks, hblocks.cons hone hmoved⟩

end Streams

/-! ### A history and its stream -/

/-- A stream on a file is what the history of the file says. -/
structure Recorded (contents : Contents) (h : History) (reader : Stream) : Prop where
  bytes : reader.bytes = contents.bytes
  maxOffset : reader.maxOffset = contents.maxOffset
  pos : reader.pos = h.cursor
  eof : reader.eof = h.ended
  flags : h.refused = false → AtEndOnly reader
  failed : h.refused = true → Failed reader
  gcount : reader.gcount = if h.lookedOn then 0 else h.lastBlock

section Histories

variable {maxSize : ℕ} {contents : Contents} {filename : Str} {h : History}
  {evt : OpenedFileEvent} {reader : Stream} {result : ReadResult} {blocks : List Str}

lemma recorded_opened (filename : Str) (contents : Contents) :
    Recorded contents {} (contents.stream filename) :=
  ⟨rfl, rfl, rfl, rfl, fun _ hflags => absurd hflags Bool.false_ne_true, nofun, rfl⟩

lemma blocksOf_map (blocks : List Str) (tail : List OpenedFileEvt) :
    blocksOf (blocks.map (blockEvt evt) ++ tail) = blocks ++ blocksOf tail := by
  rw [blocksOf, List.filterMap_append, List.filterMap_map]
  exact congrArg (· ++ _) List.filterMap_some

/-- What a read dispatches: blocks, and whether the end is reported. -/
lemma blocks_and_end (evt : OpenedFileEvent) (blocks : List Str) (b : Bool) :
    blocksOf (blocks.map (blockEvt evt) ++ if b then [endEvt evt.id] else []) = blocks ∧
      decide (endEvt evt.id ∈ blocks.map (blockEvt evt) ++ if b then [endEvt evt.id] else []) = b := by
  have hblocks : endEvt evt.id ∉ blocks.map (blockEvt evt) := by
    intro hmem
    obtain ⟨block, -, heq⟩ := List.mem_map.mp hmem
    exact Option.some_ne_none block (congrArg OpenedFileEvt.data heq)
  cases b with
  | true => exact ⟨(blocksOf_map _ _).trans (List.append_nil _), decide_eq_true (by simp)⟩
  | false =>
      refine ⟨(blocksOf_map _ _).trans (List.append_nil _), decide_eq_false ?_⟩
      rwa [if_neg Bool.false_ne_true, List.append_nil]

/-- A read event before the end was reported: its blocks, and the end where it is reached. -/
lemma readStream_moved (hflags : AtEndOnly reader) (heof : reader.eof = false)
    (hread : readStream maxSize evt reader = some result) :
    ∃ blocks, LoopMoved evt reader { result with events := blocks.map (blockEvt evt) } blocks ∧
      result.events = blocks.map (blockEvt evt) ++
        if result.stream.eof then [endEvt evt.id] else [] := by
  rw [readStream, if_neg (by rw [heof]; exact Bool.false_ne_true)] at hread
  obtain ⟨looped, hloop, heq⟩ := Option.map_eq_some_iff.mp hread
  obtain ⟨blocks, hblocks⟩ := readLoop_moved hflags hloop
  refine ⟨blocks, ?_⟩
  by_cases hend : looped.stream.eof = true
  · have hok : looped.ended.toBool = true := by
      rw [← Bool.not_eq_false]
      exact fun hthrown => by rw [hblocks.thrown hthrown] at hend; cases hend
    rw [if_pos (by rw [hok, hend]; rfl)] at heq
    subst heq
    refine ⟨⟨rfl, hblocks.moved, hblocks.flags, hblocks.thrown, hblocks.gcount⟩, ?_⟩
    rw [if_pos hend, ← hblocks.events]
    rfl
  · rw [if_neg (by simp [hend])] at heq
    subst heq
    refine ⟨⟨rfl, hblocks.moved, hblocks.flags, hblocks.thrown, hblocks.gcount⟩, ?_⟩
    rw [if_neg hend, List.append_nil, hblocks.events]

/-- **A read keeps the history**. -/
theorem Recorded.read (ht : Recorded contents h reader) (hevt : isReadEvent evt.type = true)
    (hread : readStream maxSize evt reader = some result) :
    Recorded contents (h.update contents.maxOffset evt result.events) result.stream ∧
      (h.cursor ≤ contents.bytes.length →
        (h.update contents.maxOffset evt result.events).cursor ≤ contents.bytes.length) := by
  rw [History.update, if_neg (ne_of_isReadEvent hevt rfl)]
  cases hended : h.ended with
  | true =>
      -- the end was reported: it is reported again, and the stream is left as it is
      rw [readStream, if_pos (by rw [ht.eof, hended])] at hread
      cases hread
      exact ⟨⟨ht.bytes, ht.maxOffset, ht.pos, by rw [ht.eof, hended]; rfl, ht.flags, ht.failed,
        ht.gcount⟩, id⟩
  | false =>
      cases hrefused : h.refused with
      | true =>
          -- the cursor was refused: nothing is read
          have hfailed := ht.failed hrefused
          rw [readStream_failed maxSize evt hfailed] at hread
          cases hread
          refine ⟨⟨ht.bytes, ht.maxOffset, ht.pos, hfailed.1, fun hflag => (by cases hflag),
            fun _ => hfailed, ?_⟩, id⟩
          simp [blocksOf]
      | false =>
          obtain ⟨blocks, hblocks, hevents⟩ :=
            readStream_moved (ht.flags hrefused) (ht.eof.trans hended) hread
          obtain ⟨hof, hend⟩ := blocks_and_end evt blocks result.stream.eof
          rw [← hevents] at hof hend
          have hpos : result.stream.pos = h.cursor + blocks.flatten.length :=
            ht.pos ▸ hblocks.moved.pos
          have hwithin : h.cursor ≤ contents.bytes.length →
              result.stream.pos ≤ contents.bytes.length :=
            ht.pos ▸ ht.bytes ▸ hblocks.moved.within
          rw [hof, hend]
          refine ⟨⟨hblocks.moved.bytes.trans ht.bytes, hblocks.moved.maxOffset.trans ht.maxOffset,
            hpos, rfl, fun _ => hblocks.flags, fun hflag => (by cases hflag), ?_⟩, hpos ▸ hwithin⟩
          show result.stream.gcount = _
          rw [show result.stream.gcount = _ from hblocks.gcount]
          by_cases hone : ReadsOne evt ∧ blocks ≠ []
          · obtain ⟨last, hlast⟩ :=
              Option.ne_none_iff_exists'.mp (mt List.getLast?_eq_none_iff.mp hone.2)
            simp [hone, lastLength, hlast]
          · have hzero : (if ReadsOne evt then (lastLength blocks).getD 0 else 0) = 0 := by
              by_cases hread : ReadsOne evt
              · obtain rfl : blocks = [] := not_not.mp fun hne => hone ⟨hread, hne⟩
                exact ite_self 0
              · exact if_neg hread
            rw [hzero, decide_eq_false hone]
            rfl

/-- **A seek keeps the history**, refused or not. -/
theorem Recorded.seek (ht : Recorded contents h reader) (hevt : evt.type = "seek".toList)
    (events : List OpenedFileEvt) :
    Recorded contents (h.update contents.maxOffset evt events) (reader.seek (seekPos evt)) := by
  rw [History.update, if_pos hevt]
  by_cases hpos : seekPos evt ≤ contents.maxOffset
  · have hle : seekPos evt ≤ reader.maxOffset := ht.maxOffset ▸ hpos
    have hflags := atEndOnly_seek hle
    rw [seek_of_le hle] at hflags ⊢
    rw [if_pos hpos]
    exact ⟨ht.bytes, ht.maxOffset, rfl, rfl, fun _ => hflags, fun hflag => (by cases hflag),
      ht.gcount⟩
  · have hlt : reader.maxOffset < seekPos evt := ht.maxOffset ▸ not_le.mp hpos
    have hfailed := failed_seek hlt
    rw [Stream.seek, if_neg hlt.not_ge] at hfailed ⊢
    rw [if_neg hpos]
    exact ⟨ht.bytes, ht.maxOffset, ht.pos, rfl, fun hflag => (by cases hflag), fun _ => hfailed,
      ht.gcount⟩

/-- Asking for the position keeps the history, and sets the failure flag of a stream that
is at its end. -/
lemma Recorded.tell (ht : Recorded contents h reader) : Recorded contents h reader.tell.2 := by
  unfold Stream.tell
  split
  case isTrue hflags =>
    exact ⟨ht.bytes, ht.maxOffset, ht.pos, ht.eof, fun hrefused _ => ht.flags hrefused hflags,
      fun hrefused => ⟨(ht.failed hrefused).1, rfl⟩, ht.gcount⟩
  case isFalse => exact ht

/-- A stream has no position where its end was reported, or its cursor was refused. -/
lemma Recorded.flagged_iff (ht : Recorded contents h reader) :
    (reader.eof || reader.fail) = true ↔ h.ended = true ∨ h.refused = true := by
  cases hrefused : h.refused with
  | true => simp [(ht.failed hrefused).2]
  | false =>
      rw [← ht.eof]
      refine ⟨fun hflags => .inl (ht.flags hrefused hflags).1, fun hor => ?_⟩
      rw [hor.resolve_right Bool.false_ne_true]
      rfl

/-- **What a stream tells**: its position is the cursor unless the end was reported or the cursor
was refused, its count is the length of the last block while it knows it, and its end flag is the
end. -/
lemma Recorded.tell_iff (ht : Recorded contents h reader) :
    (reader.tell.1 = h.cursor ∧ reader.tell.2.gcount = h.lastBlock ∧
      reader.tell.2.eof = h.ended) ↔ h.ended = false ∧ h.refused = false ∧ h.KnowsLast := by
  have hcount : reader.tell.2.gcount = h.lastBlock ↔ h.KnowsLast := by
    rw [ht.tell.gcount, History.KnowsLast]
    cases h.lookedOn with
    | true => simp [eq_comm]
    | false => simp
  have hpos : reader.tell.1 = h.cursor ↔ ¬ (h.ended = true ∨ h.refused = true) := by
    rw [← ht.flagged_iff, Stream.tell]
    by_cases hflags : (reader.eof || reader.fail) = true
    · rw [if_pos hflags]
      exact iff_of_false (by omega) (not_not.mpr hflags)
    · rw [if_neg hflags, ← ht.pos]
      exact iff_of_true rfl hflags
  rw [hpos, hcount, ht.tell.eof, eq_self_iff_true, and_true, not_or, Bool.not_eq_true,
    Bool.not_eq_true, and_assoc]

end Histories

/-! ### Requests -/

/-- An input whose event reads a file or sets its cursor: the id in it, as an `int`, is that of
the file. -/
structure FileEvent (id : ℤ) where
  input : Json
  evt : OpenedFileEvent
  taken : controllers.openedFileEvent input = .ok evt
  onFile : evt.id = id
  kind : isReadEvent evt.type = true ∨ evt.type = "seek".toList

/-- An input that asks for the information of a file. -/
structure FileQuery (id : ℤ) where
  input : Json
  taken : (input.indexConst "id" >>= Json.getInt) = .ok id

/-- A request for a file: an event, or the information. -/
inductive Request (id : ℤ) where
  | updateOpenedFile (event : FileEvent id)
  | getOpenedFileInfo (query : FileQuery id)

/-- The registry, with the history of a file since it was opened. -/
structure Observed where
  openedFiles : OpenedFiles
  history : History := {}

/-- What a request leaves; it is absent where the event is never done. -/
def Observed.step (maxSize limit : ℕ) (id : ℤ) (s : Observed) : Request id → Option Observed
  | .updateOpenedFile event =>
      (fs.updateOpenedFile maxSize s.openedFiles event.evt).map fun updated =>
        ⟨updated.state, s.history.update limit event.evt updated.events⟩
  | .getOpenedFileInfo _ =>
      some { s with openedFiles := (fs.getOpenedFileInfo s.openedFiles id).2 }

/-- The steps of a file with a largest offset: the requests that are done. -/
def Requested (maxSize limit : ℕ) (id : ℤ) (s : Observed) (request : Request id) (t : Observed) :
    Prop :=
  s.step maxSize limit id request = some t

/-- The cursor is set within the file. -/
def SeeksWithin {id : ℤ} (c : Str) (_ : Observed) : Request id → Prop
  | .updateOpenedFile event => event.evt.type = "seek".toList → seekPos event.evt ≤ c.length
  | .getOpenedFileInfo _ => True

/-- **The information is exact**: the position is the cursor, the count is the length of the
last block, and the end is told where it was reported and nothing was sought since. -/
def InfoExact (id : ℤ) (s : Observed) : Prop :=
  ∃ info, (getOpenedFileInfo s.openedFiles id).1 = some info ∧ info.pos = s.history.cursor ∧
    info.lastRead = s.history.lastBlock ∧ info.eof = s.history.ended

/-- The registry has a stream under the id of a file that is what its history says. -/
def Kept (id : ℤ) (contents : Contents) (s : Observed) : Prop :=
  ∃ reader, s.openedFiles.ReaderOf id reader ∧ Recorded contents s.history reader

section Requests

variable {maxSize : ℕ} {id : ℤ} {contents : Contents} {filename : Str} {s t : Observed}
  {r : OpenedFiles}
  {request : Request id} {reader : Stream}

/-- A file that is opened is found under the id that is returned. -/
lemma readerOf_openFile (r : OpenedFiles) (filename : Str) (contents : Contents) :
    (openFile r filename (some contents)).2.ReaderOf (openFile r filename (some contents)).1
      (contents.stream filename) :=
  ⟨r.readers.length, AList.lookup_insert _, by simp [openFile]⟩

/-- A read event is done where the read of its reader is. -/
lemma exists_read_of_update {evt : OpenedFileEvent} {updated : Updated}
    (hreader : r.ReaderOf evt.id reader) (hread : isReadEvent evt.type = true)
    (h : updateOpenedFile maxSize r evt = some updated) :
    ∃ result, readStream maxSize evt reader = some result ∧ updated.events = result.events ∧
      updated.state.ReaderOf evt.id result.stream := by
  cases hstream : readStream maxSize evt reader with
  | none =>
      obtain ⟨address, hlookup, hget⟩ := hreader
      have hclose : evt.type ≠ "close".toList := ne_of_isReadEvent hread rfl
      simp only [updateOpenedFile, hlookup, hget, if_neg hclose, hread, hstream, if_true,
        Option.map_none, reduceCtorEq] at h
  | some result =>
      obtain ⟨next, hupdate, hnext⟩ := updateOpenedFile_read hreader hread hstream
      obtain rfl := Option.some.inj (hupdate.symm.trans h)
      exact ⟨result, rfl, rfl, hnext⟩

/-- A seek event is done on the reader. -/
lemma updateOpenedFile_of_seek {evt : OpenedFileEvent} {updated : Updated}
    (hreader : r.ReaderOf evt.id reader) (hseek : evt.type = "seek".toList)
    (h : updateOpenedFile maxSize r evt = some updated) :
    updated.state.ReaderOf evt.id (reader.seek (seekPos evt)) := by
  obtain ⟨address, hlookup, hget⟩ := hreader
  have hclose : evt.type ≠ "close".toList := by
    rw [hseek]
    decide
  have hread : isReadEvent evt.type = false := by
    rw [hseek]
    decide
  simp only [updateOpenedFile, hlookup, hget, if_neg hclose, hread, Bool.false_eq_true, if_false,
    if_pos hseek, Option.some.injEq] at h
  subst h
  exact readerOf_set hlookup hget _

/-- The information is what the reader tells. -/
lemma getOpenedFileInfo_of_reader (hreader : r.ReaderOf id reader) :
    (getOpenedFileInfo r id).1 =
        some ⟨id, reader.tell.2.eof, reader.tell.1, reader.tell.2.gcount⟩ ∧
      (getOpenedFileInfo r id).2.ReaderOf id reader.tell.2 := by
  obtain ⟨address, hlookup, hget⟩ := hreader
  rw [getOpenedFileInfo, hlookup]
  dsimp only
  rw [hget]
  exact ⟨rfl, readerOf_set hlookup hget _⟩

/-- **Every request keeps the history**, and a cursor within the file, where it is not set
beyond it. -/
theorem Kept.step (hs : Kept id contents s)
    (h : Requested maxSize contents.maxOffset id s request t) :
    Kept id contents t ∧ (s.history.cursor ≤ contents.bytes.length →
      SeeksWithin contents.bytes s request → t.history.cursor ≤ contents.bytes.length) := by
  obtain ⟨reader, hreader, hrecorded⟩ := hs
  cases request with
  | getOpenedFileInfo query =>
      obtain rfl := Option.some.inj h
      exact ⟨⟨_, (getOpenedFileInfo_of_reader hreader).2, hrecorded.tell⟩, fun hpos _ => hpos⟩
  | updateOpenedFile event =>
      obtain ⟨input, evt, htaken, rfl, hkind⟩ := event
      obtain ⟨updated, hupdated, rfl⟩ := Option.map_eq_some_iff.mp h
      rcases hkind with hread | hseek
      · obtain ⟨result, hstream, hevents, hnext⟩ := exists_read_of_update hreader hread hupdated
        obtain ⟨hkept, hwithin⟩ := hrecorded.read hread hstream
        rw [← hevents] at hkept hwithin
        exact ⟨⟨_, hnext, hkept⟩, fun hpos _ => hwithin hpos⟩
      · refine ⟨⟨_, updateOpenedFile_of_seek hreader hseek hupdated, hrecorded.seek hseek _⟩,
          fun hpos hsought => ?_⟩
        show (s.history.update contents.maxOffset evt updated.events).cursor ≤ _
        rw [History.update, if_pos hseek]
        split_ifs
        · exact hsought hseek
        · exact hpos

/-- A file that was opened, before any request. -/
def opened (r : OpenedFiles) (filename : Str) (contents : Contents) : Observed :=
  ⟨(openFile r filename (some contents)).2, {}⟩

/-- The id of a file that was opened. -/
def openedId (r : OpenedFiles) (filename : Str) (contents : Contents) : ℤ :=
  (openFile r filename (some contents)).1

lemma kept_opened (r : OpenedFiles) (filename : Str) (contents : Contents) :
    Kept (openedId r filename contents) contents (opened r filename contents) :=
  ⟨_, readerOf_openFile r filename contents, recorded_opened filename contents⟩

lemma infoExact_iff_of_kept (hs : Kept id contents s) :
    InfoExact id s ↔
      s.history.ended = false ∧ s.history.refused = false ∧ s.history.KnowsLast := by
  obtain ⟨reader, hreader, hrecorded⟩ := hs
  rw [← hrecorded.tell_iff, InfoExact, (getOpenedFileInfo_of_reader hreader).1]
  exact ⟨fun ⟨_, rfl, hinfo⟩ => hinfo, fun hinfo => ⟨_, rfl, hinfo⟩⟩

/-- At a reported end the cursor is not before the end of the file. -/
lemma length_le_cursor (hs : Kept id contents s) (hended : s.history.ended = true) :
    contents.bytes.length ≤ s.history.cursor := by
  obtain ⟨reader, -, hrecorded⟩ := hs
  have heof : reader.eof = true := hrecorded.eof.trans hended
  have hrefused : s.history.refused = false := by
    by_contra hrefused
    cases heof.symm.trans (hrecorded.failed (Bool.eq_true_of_not_eq_false hrefused)).1
  have hrest : reader.rest = [] := (hrecorded.flags hrefused (by rw [heof]; rfl)).2
  rw [← hrecorded.pos, ← hrecorded.bytes]
  exact rest_eq_nil_iff.mp hrest

/-- **When the information is exact**: after whatever requests for a file that was opened, if
no end was reported since the last seek, that seek was not refused, and no read has looked for a
further byte since the last block or that block was empty.  The cursor is within the file while it
is not set beyond, and at its end when the end is reported. -/
theorem info_exact_iff (maxSize : ℕ) (r : OpenedFiles) (filename : Str) (contents : Contents)
    {trace : List (Request (openedId r filename contents) × Observed)}
    (h : Run (Requested maxSize contents.maxOffset _) (opened r filename contents) trace) :
    (InfoExact (openedId r filename contents) (endOf (opened r filename contents) trace) ↔
      (endOf (opened r filename contents) trace).history.ended = false ∧
        (endOf (opened r filename contents) trace).history.refused = false ∧
        (endOf (opened r filename contents) trace).history.KnowsLast) ∧
    (Along (SeeksWithin contents.bytes) (opened r filename contents) trace →
      (endOf (opened r filename contents) trace).history.cursor ≤ contents.bytes.length ∧
        ((endOf (opened r filename contents) trace).history.ended = true →
          (endOf (opened r filename contents) trace).history.cursor = contents.bytes.length)) := by
  have hkept : Kept (openedId r filename contents) contents
      (endOf (opened r filename contents) trace) :=
    h.invariant_endOf (fun _ _ _ hs hst => (hs.step hst).1) (kept_opened r filename contents)
  refine ⟨infoExact_iff_of_kept hkept, fun hwithin => ?_⟩
  have hcursor : (endOf (opened r filename contents) trace).history.cursor ≤
      contents.bytes.length :=
    (h.invariant_endOf_of_along (P := SeeksWithin contents.bytes)
      (I := fun s => Kept (openedId r filename contents) contents s ∧
        s.history.cursor ≤ contents.bytes.length)
      (fun _ _ _ hs hsought hst => ⟨(hs.1.step hst).1, (hs.1.step hst).2 hs.2 hsought⟩)
      ⟨kept_opened r filename contents, Nat.zero_le _⟩ hwithin).2
  exact ⟨hcursor, fun hended => le_antisymm hcursor (length_le_cursor hkept hended)⟩

/-! ### A file of five bytes -/

/-- The input of a seek. -/
def seekInput (id pos : ℤ) : Json :=
  .obj [("data", .num pos), ("event", .str "seek"), ("id", .num id)]

/-- A read of two bytes; the id is that of the file in 32 bits. -/
def readTwo : FileEvent 0 :=
  ⟨readInput (2 ^ 32) "read" 2, readEvent 0 false false 2, rfl, rfl, .inl rfl⟩

/-- A read to the end. -/
def readRest : FileEvent 0 :=
  ⟨readInput 0 "readAll" (-1), readEvent 0 true false (-1), rfl, rfl, .inl rfl⟩

/-- A seek to the third byte. -/
def seekThree : FileEvent 0 := ⟨seekInput 0 3, seekEvent 0 3, rfl, rfl, .inr rfl⟩

/-- A question for the information. -/
def askInfo : FileQuery 0 := ⟨.obj [("id", .num 0)], rfl⟩

/-- A file on a file system whose files end before 2^44 bytes. -/
def helloFile : Contents := ⟨"Hello", 2 ^ 44 - 4096⟩

/-- The states that requests for the file lead to. -/
def helloRun (requests : List (Request 0)) : List (Request 0 × Observed) :=
  traceOf (fun s => s.step 1024 helloFile.maxOffset 0) (opened {} "hello" helloFile) requests

lemma helloRun_run (requests : List (Request 0)) :
    Run (Requested 1024 helloFile.maxOffset 0) (opened {} "hello" helloFile) (helloRun requests) :=
  run_traceOf _ _ _

/-- Two bytes are read, and the cursor is set to the third one: both are told. -/
theorem two_bytes_told :
    InfoExact 0 (endOf (opened {} "hello" helloFile) (helloRun
      [.updateOpenedFile readTwo, .getOpenedFileInfo askInfo, .updateOpenedFile seekThree])) := by
  refine (info_exact_iff 1024 {} "hello" helloFile (helloRun_run _)).1.mpr ?_
  decide

/-- After everything is read no position is told. -/
theorem end_not_told : ¬ ∀ (maxSize : ℕ) (r : OpenedFiles) (filename : Str) (contents : Contents)
    (trace : List (Request (openedId r filename contents) × Observed)),
      Run (Requested maxSize contents.maxOffset _) (opened r filename contents) trace →
        InfoExact (openedId r filename contents) (endOf (opened r filename contents) trace) := by
  intro h
  have hexact := h 1024 {} "hello" helloFile _ (helloRun_run [.updateOpenedFile readRest])
  have hkept : Kept 0 helloFile (endOf (opened {} "hello" helloFile)
      (helloRun [.updateOpenedFile readRest])) :=
    (helloRun_run _).invariant_endOf (fun _ _ _ hs hst => (hs.step hst).1)
      (kept_opened {} "hello" helloFile)
  exact absurd ((infoExact_iff_of_kept hkept).mp hexact).1 (by decide)

end Requests

end Neutralino.fs
