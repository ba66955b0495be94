import Neutralino.Api.Ungated

/-!
Whether an event of an opened file ends: `updateOpenedFile` round by round, in its read
loop and under the lock of the registry.

* `Update`: an update in its read loop, with the lock held, or one that has returned or
  thrown, which releases the lock; `start`, `turn`: the way to the loop, and one round.
* `returned_iff`: the rounds lead to what `updateOpenedFile` is, and to nothing where it
  is absent.
* `event_ends_iff`: **when a read event ends**.  A size of zero is taken as it is, and a
  block without bytes brings the loop no further.
-/

namespace Neutralino.fs

open Calls (runOn)

/-! ### Rounds -/

/-- What follows the read loop: the end event, where the end was reached. -/
def afterLoop (evt : OpenedFileEvent) (result : ReadResult) : ReadResult :=
  if result.ended.toBool && result.stream.eof then
    { result with events := result.events ++ [⟨evt.id, "end", none⟩] }
  else result

/-- An update: in its read loop, with the events dispatched so far, or returned. -/
inductive Update where
  | reading (address : ℕ) (reader : Stream) (events : List OpenedFileEvt)
  | returned (updated : Updated)

namespace Update

/-- The `lock_guard` holds the lock until the function is left. -/
def locked : Update → Bool
  | reading .. => true
  | returned _ => false

/-- The events dispatched so far. -/
def events : Update → List OpenedFileEvt
  | reading _ _ events => events
  | returned updated => updated.events

end Update

/-- An update that leaves the function after a read. -/
def leave (s : OpenedFiles) (address : ℕ) (result : ReadResult) : Updated where
  result := result.ended.map fun _ => true
  events := result.events
  state := { s with readers := s.readers.set address result.stream }

/-- An update up to its read loop. -/
def start (s : OpenedFiles) (evt : OpenedFileEvent) : Update :=
  match s.openedFiles.lookup evt.id with
  | none => .returned { result := .ok false, state := s }
  | some address =>
      match s.readers[address]? with
      | none => .returned { result := .error .undefinedBehaviour, state := s }
      | some reader =>
          if evt.type = "close" then
            .returned { result := .ok true, state := { s with
              openedFiles := s.openedFiles.erase evt.id } }
          else if isReadEvent evt.type then
            if reader.eof then
              .returned (leave s address { stream := reader, events := [⟨evt.id, "end", none⟩] })
            else .reading address reader []
          else if evt.type = "seek" then
            .returned { result := .ok true, state := { s with
              readers := s.readers.set address
                (reader.seek (if -1 < evt.pos then evt.pos.toNat else 0)) } }
          else .returned { result := .ok false, state := s }

/-- One round of the read loop; an update that has returned stays as it is. -/
def turn (maxSize : ℕ) (s : OpenedFiles) (evt : OpenedFileEvent) : Update → Update
  | .returned updated => .returned updated
  | .reading address reader events =>
      let peeked := reader.peek
      if peeked.1.isNone then
        .returned (leave s address (afterLoop evt { stream := peeked.2, events := events }))
      else
        let block := readStreamBlock maxSize evt peeked.2
        if block.ended.toBool = false ∨ evt.type = "read".toList ∨
            evt.type = "readBinary".toList then
          .returned (leave s address
            (afterLoop evt { block with events := events ++ block.events }))
        else .reading address block.stream (events ++ block.events)

section Rounds

variable {maxSize : ℕ} {s : OpenedFiles} {evt : OpenedFileEvent} {reader : Stream} {address : ℕ}
  {events : List OpenedFileEvt} {updated : Updated} {result : ReadResult}

lemma turns_returned (rounds : ℕ) :
    (turn maxSize s evt)^[rounds] (.returned updated) = .returned updated :=
  Function.iterate_fixed rfl rounds

/-- **What a round does**: it leaves the loop, or it goes on behind a block; `readLoop` does
the same with one more unit of fuel. -/
lemma round_cases (maxSize : ℕ) (s : OpenedFiles) (evt : OpenedFileEvent) (reader : Stream) :
    (∃ result, (∀ fuel, readLoop maxSize evt (fuel + 1) reader = some result) ∧
      ∀ address events, turn maxSize s evt (.reading address reader events) =
        .returned (leave s address
          (afterLoop evt { result with events := events ++ result.events }))) ∨
    ∃ next block,
      (∀ fuel, readLoop maxSize evt (fuel + 1) reader = (readLoop maxSize evt fuel next).map
        fun rest => { rest with events := block ++ rest.events }) ∧
      ∀ address events, turn maxSize s evt (.reading address reader events) =
        .reading address next (events ++ block) := by
  by_cases hnone : reader.peek.1.isNone = true
  · refine .inl ⟨{ stream := reader.peek.2 }, fun fuel => ?_, fun address events => ?_⟩
    · rw [readLoop, if_pos hnone]
    · rw [turn, if_pos hnone, List.append_nil]
  by_cases hstop : (readStreamBlock maxSize evt reader.peek.2).ended.toBool = false ∨
      evt.type = "read".toList ∨ evt.type = "readBinary".toList
  · refine .inl ⟨readStreamBlock maxSize evt reader.peek.2, fun fuel => ?_,
      fun address events => ?_⟩
    · rw [readLoop, if_neg hnone, if_pos hstop]
    · rw [turn, if_neg hnone, if_pos hstop]
  · refine .inr ⟨(readStreamBlock maxSize evt reader.peek.2).stream,
      (readStreamBlock maxSize evt reader.peek.2).events, fun fuel => ?_, fun address events => ?_⟩
    · rw [readLoop, if_neg hnone, if_neg hstop]
    · rw [turn, if_neg hnone, if_neg hstop]

/-- The rounds of a loop: they lead out of it as `readLoop` does, with enough fuel. -/
lemma turns_reading_iff :
    (∃ rounds, (turn maxSize s evt)^[rounds] (.reading address reader events) = .returned updated) ↔
      ∃ fuel result, readLoop maxSize evt fuel reader = some result ∧ leave s address
        (afterLoop evt { result with events := events ++ result.events }) = updated := by
  constructor
  · rintro ⟨rounds, hrounds⟩
    induction rounds generalizing reader events with
    | zero => cases hrounds
    | succ rounds ih =>
        rw [Function.iterate_succ_apply] at hrounds
        rcases round_cases maxSize s evt reader with
          ⟨result, hloop, hturn⟩ | ⟨next, block, hloop, hturn⟩
        · rw [hturn, turns_returned] at hrounds
          exact ⟨1, result, hloop 0, Update.returned.inj hrounds⟩
        · rw [hturn] at hrounds
          obtain ⟨fuel, result, hrest, hleave⟩ := ih hrounds
          refine ⟨fuel + 1, _, (hloop fuel).trans (congrArg _ hrest), ?_⟩
          rw [← hleave]
          simp only [List.append_assoc]
  · rintro ⟨fuel, result, hfuel, hleave⟩
    induction fuel generalizing reader events result with
    | zero => cases hfuel
    | succ fuel ih =>
        rcases round_cases maxSize s evt reader with
          ⟨result', hloop, hturn⟩ | ⟨next, block, hloop, hturn⟩
        · obtain rfl : result' = result := Option.some.inj ((hloop fuel).symm.trans hfuel)
          refine ⟨1, ?_⟩
          rw [Function.iterate_one, hturn, hleave]
        · rw [hloop] at hfuel
          obtain ⟨rest, hrest, rfl⟩ := Option.map_eq_some_iff.mp hfuel
          have hrest' : leave s address
              (afterLoop evt { rest with events := (events ++ block) ++ rest.events }) = updated := by
            rw [← hleave]
            simp only [List.append_assoc]
          obtain ⟨rounds, hrounds⟩ := ih rest hrest hrest'
          exact ⟨rounds + 1, by rw [Function.iterate_succ_apply, hturn, hrounds]⟩

/-- More fuel changes nothing. -/
lemma readLoop_add {fuel : ℕ} (h : readLoop maxSize evt fuel reader = some result) (more : ℕ) :
    readLoop maxSize evt (fuel + more) reader = some result := by
  induction fuel generalizing reader result with
  | zero => cases h
  | succ fuel ih =>
      rw [Nat.add_right_comm]
      rcases round_cases maxSize {} evt reader with ⟨result', hloop, -⟩ | ⟨next, block, hloop, -⟩
      · rw [hloop] at h ⊢
        exact h
      · rw [hloop] at h ⊢
        obtain ⟨rest, hrest, rfl⟩ := Option.map_eq_some_iff.mp h
        rw [ih hrest]
        rfl

/-! ### Rounds without end -/

/-- An event that goes on until the end is reached. -/
def ReadsAll (evt : OpenedFileEvent) : Prop :=
  evt.type = "readAll".toList ∨ evt.type = "readAllBinary".toList

/-- A stream that is good, with a byte to come. -/
def Stream.HasNext (reader : Stream) : Prop :=
  reader.eof = false ∧ reader.fail = false ∧ reader.pos < reader.bytes.length

lemma readsAll_or_one (hread : isReadEvent evt.type = true) :
    ReadsAll evt ∨ evt.type = "read".toList ∨ evt.type = "readBinary".toList := by
  simp only [isReadEvent, Bool.or_eq_true, decide_eq_true_eq] at hread
  unfold ReadsAll
  tauto

lemma not_one_of_readsAll (h : ReadsAll evt) :
    ¬ (evt.type = "read".toList ∨ evt.type = "readBinary".toList) := by
  rcases h with h | h
  all_goals rw [h]; decide

lemma peek_of_hasNext (h : reader.HasNext) :
    reader.peek.1.isNone = false ∧ reader.peek.2 = { reader with gcount := 0 } := by
  obtain ⟨heof, hfail, hpos⟩ := h
  have hget : reader.bytes[reader.pos]? = some reader.bytes[reader.pos] :=
    List.getElem?_eq_getElem hpos
  simp [Stream.peek, heof, hfail, hget]

/-- Without a byte to come a loop is left in its first round. -/
lemma readLoop_of_not_hasNext (h : ¬ reader.HasNext) :
    ∃ result, readLoop maxSize evt 1 reader = some result := by
  have hnone : reader.peek.1.isNone = true := by
    rw [← Bool.not_eq_false]
    intro hsome
    obtain ⟨hpos, -, hgood⟩ := peek_isSome hsome
    obtain ⟨heof, hfail⟩ := Bool.or_eq_false_iff.mp hgood
    exact h ⟨heof, hfail, hpos⟩
  exact ⟨_, by rw [readLoop, if_pos hnone]⟩

lemma read_zero (h : reader.HasNext) : reader.read 0 = ([], { reader with gcount := 0 }) := by
  obtain ⟨heof, hfail, -⟩ := h
  simp [Stream.read, heof, hfail]

variable (maxSize) in
/-- A block of size zero brings a stream no further. -/
lemma readStreamBlock_of_size_zero (hsize : evt.size = 0) (hnext : reader.HasNext) :
    ∃ block, readStreamBlock maxSize evt reader =
      { stream := { reader with gcount := 0 }, events := [block] } := by
  have hzero : blockSize evt = 0 := by rw [blockSize, hsize]; rfl
  rw [readStreamBlock, hzero, if_neg (Nat.not_lt_zero _), read_zero hnext]
  exact ⟨_, rfl⟩

lemma turn_of_size_zero (hall : ReadsAll evt) (hsize : evt.size = 0) (hnext : reader.HasNext) :
    ∃ block : OpenedFileEvt, ∀ address events, turn maxSize s evt (.reading address reader events) =
      .reading address { reader with gcount := 0 } (events ++ [block]) := by
  obtain ⟨hsome, hpeek⟩ := peek_of_hasNext hnext
  have hpeeked : Stream.HasNext { reader with gcount := 0 } := hnext
  obtain ⟨block, hblock⟩ := readStreamBlock_of_size_zero maxSize hsize hpeeked
  refine ⟨block, fun address events => ?_⟩
  rw [turn, if_neg (by simp [hsome]), hpeek, hblock]
  exact if_neg fun hstop => hstop.elim (fun hended => by cases hended) (not_one_of_readsAll hall)

/-- **Rounds without end**: after every number of rounds the loop is where it was, the lock
is held, and as many events as rounds have been dispatched. -/
theorem rounds_of_size_zero (hall : ReadsAll evt) (hsize : evt.size = 0) (hnext : reader.HasNext)
    (rounds : ℕ) : ∃ reader' events', reader'.HasNext ∧ events'.length = events.length + rounds ∧
      (turn maxSize s evt)^[rounds] (.reading address reader events) =
        .reading address reader' events' := by
  induction rounds generalizing reader events with
  | zero => exact ⟨reader, events, hnext, rfl, rfl⟩
  | succ rounds ih =>
      obtain ⟨block, hturn⟩ := turn_of_size_zero hall hsize hnext
      have hnext' : Stream.HasNext { reader with gcount := 0 } := hnext
      obtain ⟨reader', events', hreader', hlength, hrounds⟩ := @ih _ (events ++ [block]) hnext'
      refine ⟨reader', events', hreader', ?_, ?_⟩
      · rw [hlength, List.length_append, List.length_singleton]
        omega
      · rw [Function.iterate_succ_apply, hturn, hrounds]

/-- A single read is left in its first round. -/
lemma readLoop_of_one (h : evt.type = "read".toList ∨ evt.type = "readBinary".toList) :
    ∃ result, readLoop maxSize evt 1 reader = some result := by
  by_cases hnone : reader.peek.1.isNone = true
  · exact ⟨_, by rw [readLoop, if_pos hnone]⟩
  · exact ⟨_, by rw [readLoop, if_neg hnone, if_pos (.inr h)]⟩

lemma size_eq_zero_of_blockSize (h : ¬ 0 < blockSize evt) : evt.size = 0 := by
  rw [blockSize, defaultStreamBufSize] at h
  split_ifs at h
  · omega
  · omega

/-- The loops that never end. -/
def Endless (evt : OpenedFileEvent) (reader : Stream) : Prop :=
  ReadsAll evt ∧ evt.size = 0 ∧ reader.HasNext

lemma not_returned_of_endless (h : Endless evt reader) (rounds : ℕ) :
    (turn maxSize s evt)^[rounds] (.reading address reader events) ≠ .returned updated := by
  obtain ⟨_, _, -, -, hrounds⟩ := rounds_of_size_zero h.1 h.2.1 h.2.2 rounds
  rw [hrounds]
  exact fun heq => by cases heq

lemma not_endless_of_readLoop {fuel : ℕ} (h : readLoop maxSize evt fuel reader = some result) :
    ¬ Endless evt reader := by
  intro hendless
  have hleave : leave {} 0 (afterLoop evt { result with events := [] ++ result.events }) = _ := rfl
  obtain ⟨rounds, hrounds⟩ := turns_reading_iff.mpr ⟨fuel, result, h, hleave⟩
  exact not_returned_of_endless hendless rounds hrounds

variable (maxSize) in
/-- A loop ends exactly if it is not one of them, and then within the bytes of its file. -/
lemma readLoop_isSome_iff (hread : isReadEvent evt.type = true) :
    (∃ result, readLoop maxSize evt (reader.bytes.length + 2) reader = some result) ↔
      ¬ Endless evt reader := by
  constructor
  · exact fun ⟨_, hresult⟩ => not_endless_of_readLoop hresult
  · intro hends
    by_cases hsize : 0 < blockSize evt
    · exact Option.isSome_iff_exists.mp (readLoop_isSome hsize (by omega))
    have hfirst : ∃ result, readLoop maxSize evt 1 reader = some result := by
      rcases readsAll_or_one hread with hall | hone
      · exact readLoop_of_not_hasNext fun hnext =>
          hends ⟨hall, size_eq_zero_of_blockSize hsize, hnext⟩
      · exact readLoop_of_one hone
    obtain ⟨result, hresult⟩ := hfirst
    refine ⟨result, ?_⟩
    rw [show reader.bytes.length + 2 = 1 + (reader.bytes.length + 1) by omega]
    exact readLoop_add hresult _

/-- The fuel of `readStream` is enough. -/
lemma exists_fuel_iff (hread : isReadEvent evt.type = true) :
    (∃ fuel, readLoop maxSize evt fuel reader = some result) ↔
      readLoop maxSize evt (reader.bytes.length + 2) reader = some result := by
  refine ⟨fun ⟨fuel, hfuel⟩ => ?_, fun h => ⟨_, h⟩⟩
  obtain ⟨result', hresult'⟩ :=
    (readLoop_isSome_iff maxSize hread).mpr (not_endless_of_readLoop hfuel)
  have hmore := readLoop_add hfuel (reader.bytes.length + 2)
  rw [Nat.add_comm, readLoop_add hresult' fuel] at hmore
  rw [hresult', Option.some.inj hmore]

end Rounds

/-! ### Events -/

/-- The events that never end: all of a file is to be read in blocks of size zero, and
there is a byte to come. -/
def EndlessEvent (s : OpenedFiles) (evt : OpenedFileEvent) : Prop :=
  ∃ address reader, s.openedFiles.lookup evt.id = some address ∧
    s.readers[address]? = some reader ∧ Endless evt reader

section Events

variable {maxSize : ℕ} {s : OpenedFiles} {evt : OpenedFileEvent} {updated : Updated}

/-- Where an update is in its loop from the beginning on. -/
lemma start_reading {address : ℕ} {reader : Stream}
    (hlookup : s.openedFiles.lookup evt.id = some address)
    (hreader : s.readers[address]? = some reader) (hread : isReadEvent evt.type = true)
    (heof : reader.eof = false) : start s evt = .reading address reader [] := by
  have hclose : evt.type ≠ "close".toList := ne_of_isReadEvent hread rfl
  simp only [start, hlookup, hreader, if_neg hclose, hread, heof, if_true, Bool.false_eq_true,
    if_false]

/-- **The rounds of an update lead to what `updateOpenedFile` is**, and to nothing where it
is absent. -/
theorem returned_iff :
    (∃ rounds, (turn maxSize s evt)^[rounds] (start s evt) = .returned updated) ↔
      updateOpenedFile maxSize s evt = some updated := by
  have hreturned : ∀ updated', (∃ rounds, (turn maxSize s evt)^[rounds] (.returned updated') =
      .returned updated) ↔ some updated' = some updated := by
    intro updated'
    simp only [turns_returned, exists_const, Update.returned.injEq, Option.some.injEq]
  rw [start, updateOpenedFile]
  cases s.openedFiles.lookup evt.id with
  | none => exact hreturned _
  | some address =>
      dsimp only
      cases s.readers[address]? with
      | none => exact hreturned _
      | some reader =>
          dsimp only
          by_cases hclose : evt.type = "close".toList
          · rw [if_pos hclose, if_pos hclose]
            exact hreturned _
          rw [if_neg hclose, if_neg hclose]
          by_cases hread : isReadEvent evt.type = true
          · rw [if_pos hread, if_pos hread, readStream]
            by_cases heof : reader.eof = true
            · rw [if_pos heof, if_pos heof]
              exact hreturned _
            · rw [if_neg heof, if_neg heof, turns_reading_iff, exists_comm]
              simp only [exists_and_right, exists_fuel_iff hread, Option.map_map,
                Option.map_eq_some_iff, List.nil_append]
              rfl
          rw [if_neg hread, if_neg hread]
          by_cases hseek : evt.type = "seek".toList
          · rw [if_pos hseek, if_pos hseek]
            exact hreturned _
          · rw [if_neg hseek, if_neg hseek]
            exact hreturned _

variable (maxSize) in
/-- Where it is not one of the endless events, `updateOpenedFile` is there. -/
lemma exists_updated (hread : isReadEvent evt.type = true) (hends : ¬ EndlessEvent s evt) :
    ∃ updated, updateOpenedFile maxSize s evt = some updated := by
  rw [updateOpenedFile]
  cases hlookup : s.openedFiles.lookup evt.id with
  | none => exact ⟨_, rfl⟩
  | some address =>
      dsimp only
      cases hreader : s.readers[address]? with
      | none => exact ⟨_, rfl⟩
      | some reader =>
          dsimp only
          split_ifs
          · exact ⟨_, rfl⟩
          · have hloop : ∃ result, readStream maxSize evt reader = some result := by
              rw [readStream]
              split_ifs
              · exact ⟨_, rfl⟩
              · obtain ⟨result, hresult⟩ := (readLoop_isSome_iff maxSize hread).mpr
                  fun hendless => hends ⟨address, reader, hlookup, hreader, hendless⟩
                exact ⟨_, congrArg _ hresult⟩
            obtain ⟨result, hresult⟩ := hloop
            exact ⟨_, congrArg _ hresult⟩

variable (maxSize) in
/-- **A read event ends**, and releases the lock, exactly if it is not one of those. -/
theorem released_iff (hread : isReadEvent evt.type = true) :
    (∃ rounds, ((turn maxSize s evt)^[rounds] (start s evt)).locked = false) ↔
      ¬ EndlessEvent s evt := by
  have hlocked : ∀ update : Update,
      update.locked = false ↔ ∃ updated, update = .returned updated := by
    intro update
    cases update with
    | reading address reader events => simp [Update.locked]
    | returned updated => simp [Update.locked]
  simp only [hlocked]
  constructor
  · rintro ⟨rounds, updated, hrounds⟩ ⟨address, reader, hlookup, hreader, hendless⟩
    rw [start_reading hlookup hreader hread hendless.2.2.1] at hrounds
    exact not_returned_of_endless hendless rounds hrounds
  · intro hends
    obtain ⟨updated, hupdate⟩ := exists_updated maxSize hread hends
    obtain ⟨rounds, hrounds⟩ := returned_iff.mpr hupdate
    exact ⟨rounds, updated, hrounds⟩

/-- The input of an event that reads, with a number for its size. -/
def readInput (id : ℤ) (event : Str) (data : ℤ) : Json :=
  .obj [("data", .num data), ("event", .str event), ("id", .num id)]

/-- What is read of such an input: the id as an `int`, the number as a `long long`. -/
def eventRead (id : ℤ) (event : Str) (data : ℤ) : OpenedFileEvent where
  id := id.bmod (2 ^ 32)
  type := event
  size := data.bmod (2 ^ 64)

lemma openedFileEvent_readInput (id data : ℤ) {event : Str} (hread : isReadEvent event = true) :
    controllers.openedFileEvent (readInput id event data) = .ok (eventRead id event data) := by
  have hne : event ≠ "seek".toList := by
    rintro rfl
    exact absurd hread (by decide)
  have hevent : controllers.openedFileEvent (readInput id event data) =
      (if isReadEvent event = true ∨ event = "seek".toList then Except.ok (data.bmod (2 ^ 64))
        else .ok (-1)) >>= fun size => pure (if event = "seek".toList then
          { id := id.bmod (2 ^ 32), type := event, pos := size }
        else { id := id.bmod (2 ^ 32), type := event, size := size }) := rfl
  rw [hevent, if_pos (.inl hread), ok_bind, if_neg hne]
  rfl

/-- **An event ends**: after finitely many rounds, which have dispatched finitely many
events, the lock is released. -/
def EventEnds (os : Os) (w : World) (input : Json) : Prop :=
  ∃ evt rounds, controllers.openedFileEvent input = .ok evt ∧
    ((turn os.maxSize w.openedFiles evt)^[rounds] (start w.openedFiles evt)).locked = false

/-- **A read event ends** for every number that is given as the size, except for the zero
where there is a byte to come and all of them are asked for.  The id is converted to an `int`
before the file is looked up. -/
theorem event_ends_iff (os : Os) (w : World) (id data : ℤ) {event : Str}
    (hread : isReadEvent event = true) : EventEnds os w (readInput id event data) ↔
      ¬ EndlessEvent w.openedFiles (eventRead id event data) := by
  rw [← released_iff os.maxSize hread, EventEnds, openedFileEvent_readInput id data hread]
  constructor
  · rintro ⟨evt, rounds, hevt, hrounds⟩
    obtain rfl := Except.ok.inj hevt
    exact ⟨rounds, hrounds⟩
  · rintro ⟨rounds, hrounds⟩
    exact ⟨_, rounds, rfl, hrounds⟩

/-- A world in which a file with two bytes has been opened. -/
def openedWorld : World where
  openedFiles :=
    { openedFiles := (∅ : AList fun _ : ℤ => ℕ).insert 0 0
      readers := [{ file := "a.txt", bytes := "hi" }] }

/-- All of the file is read in blocks of one byte. -/
theorem one_byte_blocks_end : isReadEvent "readAll".toList = true ∧
    EventEnds (.idle emptyWorkDir) openedWorld (readInput 0 "readAll" 1) := by
  refine ⟨by decide, (event_ends_iff _ _ 0 1 (by decide)).mpr ?_⟩
  rintro ⟨address, reader, -, -, -, hsize, -⟩
  exact absurd hsize (by decide)

/-- All of the file is to be read in blocks of size zero. -/
theorem zero_byte_blocks_endless : ¬ ∀ (os : Os) (w : World) (id data : ℤ) (event : Str),
    isReadEvent event = true → -2 ^ 63 ≤ data → data < 2 ^ 63 →
      EventEnds os w (readInput id event data) := by
  intro h
  have hread : isReadEvent "readAll".toList = true := by decide
  obtain ⟨evt, rounds, hevt, hrounds⟩ := h (.idle emptyWorkDir) openedWorld 0 0 "readAll" hread
    (by decide) (by decide)
  rw [openedFileEvent_readInput 0 0 hread] at hevt
  obtain rfl := Except.ok.inj hevt
  refine (released_iff _ hread).mp ⟨rounds, hrounds⟩
    ⟨0, { file := "a.txt", bytes := "hi" }, rfl, rfl, ?_⟩
  exact ⟨.inl rfl, rfl, rfl, rfl, by decide⟩

end Events

end Neutralino.fs
