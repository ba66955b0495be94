import Neutralino.Base.Json
import Neutralino.Library.Regex
import Neutralino.Library.Runs
import Mathlib.Data.List.AList

/-!
The registry of opened files: `fs::openFile`, `fs::updateOpenedFile` and the
stream operations behind them.

* `Stream`: an `ifstream` with its position, its flags and its last count.
* `readStream`: the blocks that a read event hands over; `none` where the loop
  never ends.
* `OpenedFiles`, `openFile`, `updateOpenedFile`: the registry and its operations.
* `Session`: the registry with the handles that are open, each with the id and
  the reader it was given.
* `session_sound_iff`: **when the ids of a session are sound**.  An id is the
  size of the registry, which a closed file makes the id of an open one.
-/

namespace Neutralino.fs

open Regex Runs

/-! ### Streams -/

/-- An `ifstream`: the file it was opened on, its bytes, the largest offset that its file system
lets it be placed at, and the stream state. -/
structure Stream where
  file : Str
  bytes : Str
  maxOffset : ℕ := 2 ^ 63 - 1
  pos : ℕ := 0
  eof : Bool := false
  fail : Bool := false
  gcount : ℕ := 0
  deriving DecidableEq

namespace Stream

/-- `peek`: the next character; at the end it sets the end flag, and on a stream
that is not good the failure flag. -/
def peek (s : Stream) : Option Char × Stream :=
  if s.eof || s.fail then (none, { s with fail := true, gcount := 0 })
  else
    match s.bytes[s.pos]? with
    | some c => (some c, { s with gcount := 0 })
    | none => (none, { s with eof := true, gcount := 0 })

/-- `read`: up to `size` characters; fewer set both flags. -/
def read (size : ℕ) (s : Stream) : Str × Stream :=
  if s.eof || s.fail then ([], { s with fail := true, gcount := 0 })
  else
    let chars := (s.bytes.drop s.pos).take size
    (chars, { s with
      pos := s.pos + chars.length
      eof := chars.length < size
      fail := chars.length < size
      gcount := chars.length })

/-- `clear` and `seekg(pos, ios::beg)`: an offset that the file system refuses sets the failure
flag, and leaves the stream where it is. -/
def seek (pos : ℕ) (s : Stream) : Stream :=
  if pos ≤ s.maxOffset then { s with pos := pos, eof := false, fail := false }
  else { s with eof := false, fail := true }

/-- `tellg`: the position, `-1` on a failed stream; a stream at its end fails. -/
def tell (s : Stream) : ℤ × Stream :=
  if s.eof || s.fail then (-1, { s with fail := true }) else (s.pos, s)

end Stream

/-! ### Read events -/

/-- `OpenedFileEvent`. -/
structure OpenedFileEvent where
  id : ℤ := -1
  type : Str := []
  pos : ℤ := -1
  size : ℤ := -1

/-- An `openedFile` event for the client; the bytes of a binary event are
dispatched in base64, an end event carries none. -/
structure OpenedFileEvt where
  id : ℤ
  action : Str
  data : Option Str
  deriving DecidableEq

/-- `NEU_DEFAULT_STREAM_BUF_SIZE`. -/
def defaultStreamBufSize : ℕ := 256

/-- The block size of a read event. -/
def blockSize (evt : OpenedFileEvent) : ℕ :=
  if -1 < evt.size then evt.size.toNat else defaultStreamBufSize

/-- The expression `.*Binary$`. -/
def binaryEvent : Re Char := .cat dotStar (.lit "Binary".toList)

/-- What a read leaves: the stream, the events dispatched, and how it ended. -/
structure ReadResult where
  stream : Stream
  events : List OpenedFileEvt := []
  ended : Except Fault Unit := .ok ()

/-- `__readStreamBlock`; a buffer longer than `maxSize` cannot be allocated. -/
def readStreamBlock (maxSize : ℕ) (evt : OpenedFileEvent) (reader : Stream) : ReadResult :=
  if maxSize < blockSize evt then { stream := reader, ended := .error .badAlloc }
  else
    let block := reader.read (blockSize evt)
    { stream := block.2
      events := [⟨evt.id, if binaryEvent.test evt.type then "dataBinary" else "data", block.1⟩] }

/-- The `while` loop of `__readStream`, `fuel` bounding its rounds. -/
def readLoop (maxSize : ℕ) (evt : OpenedFileEvent) : ℕ → Stream → Option ReadResult
  | 0, _ => none
  | fuel + 1, reader =>
      let peeked := reader.peek
      if peeked.1.isNone then some { stream := peeked.2 }
      else
        let block := readStreamBlock maxSize evt peeked.2
        if block.ended.toBool = false ∨ evt.type = "read".toList ∨
            evt.type = "readBinary".toList then some block
        else (readLoop maxSize evt fuel block.stream).map fun rest =>
          { rest with events := block.events ++ rest.events }

/-- `__readStream`.  A block that is not empty takes at least one byte, so a loop
that outlasts the bytes of the file never ends. -/
def readStream (maxSize : ℕ) (evt : OpenedFileEvent) (reader : Stream) : Option ReadResult :=
  let endEvent : OpenedFileEvt := ⟨evt.id, "end", none⟩
  if reader.eof then some { stream := reader, events := [endEvent] }
  else (readLoop maxSize evt (reader.bytes.length + 2) reader).map fun result =>
    if result.ended.toBool && result.stream.eof then
      { result with events := result.events ++ [endEvent] }
    else result

/-! ### What a read keeps -/

lemma peek_file (reader : Stream) : reader.peek.2.file = reader.file := by
  unfold Stream.peek
  split
  · rfl
  · split <;> rfl

lemma seek_file (pos : ℕ) (reader : Stream) : (reader.seek pos).file = reader.file := by
  unfold Stream.seek
  split <;> rfl

lemma readStreamBlock_file (maxSize : ℕ) (evt : OpenedFileEvent) (reader : Stream) :
    (readStreamBlock maxSize evt reader).stream.file = reader.file := by
  unfold readStreamBlock Stream.read
  split_ifs <;> rfl

/-- A read does not change the file a stream was opened on. -/
lemma readLoop_file {maxSize : ℕ} {evt : OpenedFileEvent} {fuel : ℕ} {reader : Stream}
    {result : ReadResult} (h : readLoop maxSize evt fuel reader = some result) :
    result.stream.file = reader.file := by
  induction fuel generalizing reader result with
  | zero => simp [readLoop] at h
  | succ fuel ih =>
      simp only [readLoop] at h
      split_ifs at h with hnone hstop
      · cases h
        exact peek_file reader
      · cases h
        rw [readStreamBlock_file, peek_file]
      · obtain ⟨rest, hrest, rfl⟩ := Option.map_eq_some_iff.mp h
        rw [ih hrest, readStreamBlock_file, peek_file]

lemma readStream_file {maxSize : ℕ} {evt : OpenedFileEvent} {reader : Stream}
    {result : ReadResult} (h : readStream maxSize evt reader = some result) :
    result.stream.file = reader.file := by
  simp only [readStream] at h
  split_ifs at h with heof
  · cases h
    rfl
  · obtain ⟨rest, hrest, rfl⟩ := Option.map_eq_some_iff.mp h
    rw [← readLoop_file hrest]
    split_ifs <;> rfl

/-- A character to come is one before the end of the file. -/
lemma peek_isSome {reader : Stream} (h : reader.peek.1.isNone = false) :
    reader.pos < reader.bytes.length ∧ reader.peek.2 = { reader with gcount := 0 } ∧
      (reader.eof || reader.fail) = false := by
  cases hgood : reader.eof || reader.fail with
  | true => simp [Stream.peek, hgood] at h
  | false =>
      cases hc : reader.bytes[reader.pos]? with
      | none => simp [Stream.peek, hgood, hc] at h
      | some c => exact ⟨(List.getElem?_eq_some_iff.mp hc).1, by simp [Stream.peek, hgood, hc], rfl⟩

/-- A block that is not empty moves a stream with a character to come. -/
lemma readStreamBlock_progress {maxSize : ℕ} {evt : OpenedFileEvent} (hsize : 0 < blockSize evt)
    {reader : Stream} (hnext : reader.peek.1.isNone = false)
    (hok : (readStreamBlock maxSize evt reader.peek.2).ended.toBool = true) :
    (readStreamBlock maxSize evt reader.peek.2).stream.bytes = reader.bytes ∧
      reader.pos < (readStreamBlock maxSize evt reader.peek.2).stream.pos := by
  obtain ⟨hpos, hpeek, hgood⟩ := peek_isSome hnext
  by_cases hmax : maxSize < blockSize evt
  · simp [readStreamBlock, hmax, Except.toBool] at hok
  · simp only [readStreamBlock, hmax, if_false, hpeek, Stream.read, hgood, Bool.false_eq_true,
      List.length_take, List.length_drop]
    exact ⟨trivial, by omega⟩

/-- A loop over blocks that are not empty ends within the bytes left. -/
theorem readLoop_isSome {maxSize : ℕ} {evt : OpenedFileEvent} (hsize : 0 < blockSize evt)
    {fuel : ℕ} {reader : Stream} (hfuel : reader.bytes.length ≤ reader.pos + fuel) :
    (readLoop maxSize evt (fuel + 1) reader).isSome := by
  induction fuel generalizing reader with
  | zero =>
      have hnone : reader.peek.1.isNone = true := by
        rw [← Bool.not_eq_false]
        intro h
        have := (peek_isSome h).1
        omega
      simp [readLoop, hnone]
  | succ fuel ih =>
      rw [readLoop]
      cases hnext : reader.peek.1.isNone with
      | true => rfl
      | false =>
          simp only [Bool.false_eq_true, if_false]
          split_ifs with hstop
          · rfl
          · obtain ⟨hbytes, hpos⟩ := readStreamBlock_progress hsize hnext
              (by simpa using fun h => hstop (.inl h))
            rw [Option.isSome_map]
            exact ih (by rw [hbytes]; omega)

/-! ### The registry -/

/-- The registry `openedFiles`: the address of the reader of each id, with the
readers created so far by address. -/
structure OpenedFiles where
  openedFiles : AList fun _ : ℤ => ℕ := ∅
  readers : List Stream := []

/-- What the platform finds under a name: the bytes of a file, and the largest offset in it. -/
structure Contents where
  bytes : Str
  maxOffset : ℕ := 2 ^ 63 - 1

instance : Coe String Contents := ⟨fun bytes => { bytes := bytes.toList }⟩

/-- The stream on a file that was opened. -/
def Contents.stream (contents : Contents) (filename : Str) : Stream where
  file := filename
  bytes := contents.bytes
  maxOffset := contents.maxOffset

/-- `openFile`; `contents` is what the platform finds under the name, if the
file can be opened. -/
def openFile (s : OpenedFiles) (filename : Str) (contents : Option Contents) : ℤ × OpenedFiles :=
  let virtualFileId : ℤ := s.openedFiles.keys.length
  match contents with
  | none => (-1, s)
  | some contents =>
      (virtualFileId, {
        openedFiles := s.openedFiles.insert virtualFileId s.readers.length
        readers := s.readers ++ [contents.stream filename] })

/-- What an update returns or throws, the events it dispatches, the registry it leaves. -/
structure Updated where
  result : Except Fault Bool
  events : List OpenedFileEvt := []
  state : OpenedFiles

/-- Whether an event type is one of the four reads. -/
def isReadEvent (type : Str) : Bool :=
  type = "read".toList || type = "readAll".toList || type = "readBinary".toList ||
    type = "readAllBinary".toList

/-- A type that is no read differs from those that are. -/
lemma ne_of_isReadEvent {type other : Str} (hread : isReadEvent type = true)
    (hother : isReadEvent other = false) : type ≠ other := by
  rintro rfl
  exact Bool.noConfusion (hread.symm.trans hother)

/-- `updateOpenedFile`; it is absent where the event is never done. -/
def updateOpenedFile (maxSize : ℕ) (s : OpenedFiles) (evt : OpenedFileEvent) : Option Updated :=
  match s.openedFiles.lookup evt.id with
  | none => some { result := .ok false, state := s }
  | some address =>
      match s.readers[address]? with
      | none => some { result := .error .undefinedBehaviour, state := s }
      | some reader =>
          if evt.type = "close" then
            some { result := .ok true, state := { s with openedFiles := s.openedFiles.erase evt.id } }
          else if isReadEvent evt.type then
            (readStream maxSize evt reader).map fun read =>
              { result := read.ended.map fun _ => true
                events := read.events
                state := { s with readers := s.readers.set address read.stream } }
          else if evt.type = "seek" then
            some { result := .ok true, state := { s with
              readers := s.readers.set address
                (reader.seek (if -1 < evt.pos then evt.pos.toNat else 0)) } }
          else some { result := .ok false, state := s }

/-- What `getOpenedFileInfo` reports of a file. -/
structure OpenedFileInfo where
  id : ℤ
  eof : Bool
  pos : ℤ
  lastRead : ℕ
  deriving DecidableEq

/-- `getOpenedFileInfo`, for the id that the request carries: the information,
absent for an id that is not found. -/
def getOpenedFileInfo (s : OpenedFiles) (fileId : ℤ) : Option OpenedFileInfo × OpenedFiles :=
  match s.openedFiles.lookup fileId with
  | none => (none, s)
  | some address =>
      match s.readers[address]? with
      | none => (none, s)
      | some reader =>
          let told := reader.tell
          (some ⟨fileId, told.2.eof, told.1, told.2.gcount⟩,
            { s with readers := s.readers.set address told.2 })

/-! ### Sessions -/

/-- A handle given out: its id, the reader behind it and the file it was opened on. -/
structure Handle where
  id : ℤ
  reader : ℕ
  file : Str
  deriving DecidableEq

/-- The registry, with the handles that were opened and not closed. -/
structure Session extends OpenedFiles where
  live : List Handle := []

/-- An operation on the registry. -/
inductive Op where
  | openFile (filename : Str) (contents : Option Contents)
  | updateOpenedFile (evt : OpenedFileEvent)
  | getOpenedFileInfo (fileId : ℤ)

/-- The session after an operation.  A successful open adds a handle, a close
of an id removes the handle of the reader that it closes. -/
def Session.step (maxSize : ℕ) (s : Session) : Op → Option Session
  | .openFile filename contents =>
      let opened := fs.openFile s.toOpenedFiles filename contents
      some {
        toOpenedFiles := opened.2
        live := match contents with
          | none => s.live
          | some _ => ⟨opened.1, s.readers.length, filename⟩ :: s.live }
  | .updateOpenedFile evt =>
      (fs.updateOpenedFile maxSize s.toOpenedFiles evt).map fun updated => {
        toOpenedFiles := updated.state
        live :=
          if evt.type = "close" then
            s.live.filter fun h => s.openedFiles.lookup evt.id ≠ some h.reader
          else s.live }
  | .getOpenedFileInfo fileId =>
      some { s with toOpenedFiles := (fs.getOpenedFileInfo s.toOpenedFiles fileId).2 }

/-- The ids of a session are sound: no two open handles share an id, and each
is found under its id with the file it was opened on. -/
structure IdsSound (s : Session) : Prop where
  unique : (s.live.map Handle.id).Nodup
  reachable : ∀ h ∈ s.live, s.openedFiles.lookup h.id = some h.reader ∧
    ∃ reader, s.readers[h.reader]? = some reader ∧ reader.file = h.file

/-- A file is opened under an id that is not in the registry: the registry has
no entry with its own size as the id. -/
def OpensFreeId (s : Session) : Op → Prop
  | .openFile _ (some _) => s.openedFiles.lookup (s.openedFiles.keys.length : ℤ) = none
  | _ => True

/-! ### What every operation keeps -/

/-- What holds in every session: the registry gives out readers of open handles
only, no two handles share a reader, and no reader changes its file. -/
structure Accounted (s : Session) : Prop where
  entry : ∀ id address, s.openedFiles.lookup id = some address →
    ∃ h ∈ s.live, h.id = id ∧ h.reader = address
  readers : (s.live.map Handle.reader).Nodup
  file : ∀ h ∈ s.live, ∃ reader, s.readers[h.reader]? = some reader ∧ reader.file = h.file

lemma accounted_empty : Accounted {} := ⟨by simp, by simp, by simp⟩

/-- The files of the readers are kept. -/
def SameFiles (s t : OpenedFiles) : Prop :=
  ∀ i : ℕ, ∀ reader, s.readers[i]? = some reader →
    ∃ reader', t.readers[i]? = some reader' ∧ reader'.file = reader.file

lemma sameFiles_refl (s : OpenedFiles) : SameFiles s s := fun _ reader h => ⟨reader, h, rfl⟩

lemma sameFiles_set {s : OpenedFiles} {address : ℕ} {reader reader' : Stream}
    (hreader : s.readers[address]? = some reader) (hfile : reader'.file = reader.file) :
    SameFiles s { s with readers := s.readers.set address reader' } := by
  intro i r hr
  by_cases hi : address = i
  · subst hi
    obtain rfl : r = reader := by simpa [hr] using hreader
    exact ⟨reader', by simp [(List.getElem?_eq_some_iff.mp hr).1], hfile⟩
  · exact ⟨r, by simpa [List.getElem?_set_ne hi] using hr, rfl⟩

/-- An update that closes no registered file keeps the registry. -/
lemma updateOpenedFile_keeps {maxSize : ℕ} {s : OpenedFiles} {evt : OpenedFileEvent}
    {updated : Updated} (h : updateOpenedFile maxSize s evt = some updated)
    (hopen : evt.type = "close".toList → s.openedFiles.lookup evt.id = none) :
    updated.state.openedFiles = s.openedFiles ∧ SameFiles s updated.state := by
  unfold updateOpenedFile at h
  split at h
  · cases h
    exact ⟨rfl, sameFiles_refl s⟩
  rename_i address haddress
  split at h
  · cases h
    exact ⟨rfl, sameFiles_refl s⟩
  rename_i reader hreader
  by_cases hclose : evt.type = "close".toList
  · simp [hopen hclose] at haddress
  rw [if_neg hclose] at h
  by_cases hread : isReadEvent evt.type
  · rw [if_pos hread] at h
    obtain ⟨result, hresult, rfl⟩ := Option.map_eq_some_iff.mp h
    exact ⟨rfl, sameFiles_set hreader (readStream_file hresult)⟩
  rw [if_neg hread] at h
  by_cases hseek : evt.type = "seek".toList
  · rw [if_pos hseek] at h
    cases h
    exact ⟨rfl, sameFiles_set hreader (seek_file _ reader)⟩
  · rw [if_neg hseek] at h
    cases h
    exact ⟨rfl, sameFiles_refl s⟩

lemma getOpenedFileInfo_keeps (s : OpenedFiles) (fileId : ℤ) :
    (getOpenedFileInfo s fileId).2.openedFiles = s.openedFiles ∧
      SameFiles s (getOpenedFileInfo s fileId).2 := by
  unfold getOpenedFileInfo
  split
  · exact ⟨rfl, sameFiles_refl s⟩
  split
  · exact ⟨rfl, sameFiles_refl s⟩
  rename_i reader hreader
  refine ⟨rfl, sameFiles_set hreader ?_⟩
  unfold Stream.tell
  split <;> rfl

/-- What an operation does to a session: it opens a file, it closes a registered
one, or it keeps the registry, the handles and the files. -/
lemma step_cases {maxSize : ℕ} {s t : Session} {op : Op} (hs : Accounted s)
    (h : s.step maxSize op = some t) :
    (∃ filename contents, op = .openFile filename (some contents) ∧
      t.openedFiles = s.openedFiles.insert (s.openedFiles.keys.length : ℤ) s.readers.length ∧
      t.readers = s.readers ++ [contents.stream filename] ∧
      t.live = ⟨s.openedFiles.keys.length, s.readers.length, filename⟩ :: s.live) ∨
    (∃ id address, OpensFreeId s op ∧ s.openedFiles.lookup id = some address ∧
      t.openedFiles = s.openedFiles.erase id ∧ t.readers = s.readers ∧
      t.live = s.live.filter fun h => h.reader ≠ address) ∨
    (OpensFreeId s op ∧ t.openedFiles = s.openedFiles ∧ t.live = s.live ∧
      SameFiles s.toOpenedFiles t.toOpenedFiles) := by
  cases op with
  | openFile filename contents =>
      cases contents with
      | none =>
          cases h
          exact .inr (.inr ⟨trivial, rfl, rfl, sameFiles_refl _⟩)
      | some contents =>
          cases h
          exact .inl ⟨filename, contents, rfl, rfl, rfl, rfl⟩
  | getOpenedFileInfo fileId =>
      cases h
      obtain ⟨hmap, hfiles⟩ := getOpenedFileInfo_keeps s.toOpenedFiles fileId
      exact .inr (.inr ⟨trivial, hmap, rfl, hfiles⟩)
  | updateOpenedFile evt =>
      obtain ⟨updated, hupdated, rfl⟩ := Option.map_eq_some_iff.mp h
      by_cases hclose : evt.type = "close".toList
      · cases haddress : s.openedFiles.lookup evt.id with
        | none =>
            obtain ⟨hmap, hfiles⟩ := updateOpenedFile_keeps hupdated fun _ => haddress
            exact .inr (.inr ⟨trivial, hmap, by simp, hfiles⟩)
        | some address =>
            -- the reader of a registered id exists, so the close goes through
            obtain ⟨hd, hhd, -, rfl⟩ := hs.entry _ _ haddress
            obtain ⟨reader, hreader, -⟩ := hs.file _ hhd
            simp only [fs.updateOpenedFile, haddress, hreader, hclose, if_true,
              Option.some.injEq] at hupdated
            subst hupdated
            refine .inr (.inl ⟨evt.id, hd.reader, trivial, haddress, rfl, rfl, ?_⟩)
            simp only [if_pos hclose, ne_eq, Option.some.injEq, eq_comm]
      · obtain ⟨hmap, hfiles⟩ := updateOpenedFile_keeps hupdated fun h => absurd h hclose
        exact .inr (.inr ⟨trivial, hmap, if_neg hclose, hfiles⟩)

/-- The accounts are kept by every operation. -/
theorem Accounted.step {maxSize : ℕ} {s t : Session} {op : Op} (hs : Accounted s)
    (h : s.step maxSize op = some t) : Accounted t := by
  rcases step_cases hs h with ⟨filename, contents, -, hmap, hreaders, hlive⟩ |
    ⟨id, address, -, haddress, hmap, hreaders, hlive⟩ | ⟨-, hmap, hlive, hfiles⟩
  · have hfresh : ∀ h ∈ s.live, h.reader < s.readers.length := fun h hh => by
      obtain ⟨reader, hreader, -⟩ := hs.file h hh
      exact (List.getElem?_eq_some_iff.mp hreader).1
    refine ⟨fun id address hlookup => ?_, ?_, ?_⟩
    · rw [hlive]
      rw [hmap] at hlookup
      by_cases hid : id = s.openedFiles.keys.length
      · subst hid
        rw [AList.lookup_insert, Option.some.injEq] at hlookup
        exact ⟨_, List.mem_cons_self, rfl, hlookup⟩
      · rw [AList.lookup_insert_ne hid] at hlookup
        obtain ⟨hd, hhd, heq⟩ := hs.entry _ _ hlookup
        exact ⟨hd, List.mem_cons_of_mem _ hhd, heq⟩
    · rw [hlive, List.map_cons, List.nodup_cons]
      refine ⟨fun hmem => ?_, hs.readers⟩
      obtain ⟨hd, hhd, heq⟩ := List.mem_map.mp hmem
      exact absurd heq (hfresh hd hhd).ne
    · rw [hlive, hreaders, List.forall_mem_cons]
      refine ⟨⟨contents.stream filename, by simp, rfl⟩, fun hd hhd => ?_⟩
      obtain ⟨reader, hreader, hfile⟩ := hs.file hd hhd
      exact ⟨reader, by rw [List.getElem?_append_left (hfresh hd hhd), hreader], hfile⟩
  · refine ⟨fun id' address' hlookup => ?_, ?_, ?_⟩
    · have hid : id' ≠ id := by
        rintro rfl
        simp [hmap] at hlookup
      rw [hmap, AList.lookup_erase_ne hid] at hlookup
      obtain ⟨hd, hhd, rfl, rfl⟩ := hs.entry _ _ hlookup
      obtain ⟨hd', hhd', rfl, hreader⟩ := hs.entry _ _ haddress
      refine ⟨hd, ?_, rfl, rfl⟩
      rw [hlive, List.mem_filter]
      refine ⟨hhd, decide_eq_true fun heq => hid ?_⟩
      rw [List.inj_on_of_nodup_map hs.readers hhd hhd' (heq.trans hreader.symm)]
    · rw [hlive]
      exact hs.readers.sublist (List.filter_sublist.map _)
    · rw [hlive, hreaders]
      exact fun hd hhd => hs.file hd (List.mem_of_mem_filter hhd)
  · refine ⟨by rw [hmap, hlive]; exact hs.entry, by rw [hlive]; exact hs.readers, ?_⟩
    rw [hlive]
    intro hd hhd
    obtain ⟨reader, hreader, hfile⟩ := hs.file hd hhd
    obtain ⟨reader', hreader', hfile'⟩ := hfiles _ _ hreader
    exact ⟨reader', hreader', hfile'.trans hfile⟩

/-! ### The ids -/

/-- Sound ids are those under which every open handle is found. -/
lemma idsSound_iff {s : Session} (hs : Accounted s) :
    IdsSound s ↔ ∀ h ∈ s.live, s.openedFiles.lookup h.id = some h.reader := by
  refine ⟨fun h hd hhd => (h.reachable hd hhd).1, fun h => ⟨?_, fun hd hhd =>
    ⟨h hd hhd, hs.file hd hhd⟩⟩⟩
  refine (List.Nodup.of_map _ hs.readers).map_on fun hd hhd hd' hhd' heq => ?_
  have hreader : hd.reader = hd'.reader := by
    rw [← Option.some.injEq, ← h hd hhd, ← h hd' hhd', heq]
  exact List.inj_on_of_nodup_map hs.readers hhd hhd' hreader

/-- An operation keeps the ids sound exactly when it opens a file under a free id. -/
lemma idsSound_step_iff {maxSize : ℕ} {s t : Session} {op : Op} (hs : Accounted s)
    (hsound : IdsSound s) (h : s.step maxSize op = some t) : IdsSound t ↔ OpensFreeId s op := by
  have hreach := (idsSound_iff hs).mp hsound
  rw [idsSound_iff (hs.step h)]
  rcases step_cases hs h with ⟨filename, contents, rfl, hmap, -, hlive⟩ |
    ⟨id, address, hfree, haddress, hmap, -, hlive⟩ | ⟨hfree, hmap, hlive, -⟩
  · rw [hlive, List.forall_mem_cons, hmap, AList.lookup_insert]
    simp only [true_and, OpensFreeId]
    constructor
    · intro hall
      by_contra hused
      obtain ⟨address, haddress⟩ := Option.ne_none_iff_exists'.mp hused
      obtain ⟨hd, hhd, hid, rfl⟩ := hs.entry _ _ haddress
      -- the new entry has taken the place of the handle `hd`
      have hlookup := hall hd hhd
      rw [hid, AList.lookup_insert, Option.some.injEq] at hlookup
      obtain ⟨reader, hreader, -⟩ := hs.file hd hhd
      have := (List.getElem?_eq_some_iff.mp hreader).1
      omega
    · intro hfree hd hhd
      have hid : hd.id ≠ s.openedFiles.keys.length := by
        intro hid
        have := hreach hd hhd
        rw [hid, hfree] at this
        cases this
      rw [AList.lookup_insert_ne hid, hreach hd hhd]
  · refine iff_of_true ?_ hfree
    rw [hlive, hmap]
    intro hd hhd
    obtain ⟨hmem, hne⟩ := List.mem_filter.mp hhd
    have hid : hd.id ≠ id := by
      rintro rfl
      rw [hreach hd hmem, Option.some.injEq] at haddress
      simp [haddress] at hne
    rw [AList.lookup_erase_ne hid, hreach hd hmem]
  · refine iff_of_true ?_ hfree
    rw [hlive, hmap]
    exact hreach

/-- The steps of sessions: the operations that end. -/
def Steps (maxSize : ℕ) (s : Session) (op : Op) (t : Session) : Prop :=
  s.step maxSize op = some t

/-- **The ids of a session are sound** in every state of a run from the empty
registry exactly when every file is opened under a free id. -/
theorem session_sound_iff {maxSize : ℕ} {trace : List (Op × Session)}
    (h : Run (Steps maxSize) {} trace) :
    (∀ x ∈ trace, IdsSound x.2) ↔ Along OpensFreeId {} trace :=
  h.good_iff (I := Accounted) (G := IdsSound) (P := OpensFreeId)
    (fun _ _ _ hs hst => hs.step hst)
    (fun _ _ _ hs hsound hst => idsSound_step_iff hs hsound hst) accounted_empty
    ⟨by simp, by simp⟩

/-- The states that operations lead to, as far as they end. -/
def Session.trace (maxSize : ℕ) : Session → List Op → List (Op × Session) :=
  Runs.traceOf fun s op => s.step maxSize op

lemma Session.run_trace (maxSize : ℕ) (s : Session) (ops : List Op) :
    Run (Steps maxSize) s (Session.trace maxSize s ops) :=
  Runs.run_traceOf _ s ops

/-- Two files are opened, the second is read and closed, and a third is opened. -/
def tidySession : List Op :=
  [.openFile "a" (some "one"), .openFile "b" (some "two"),
    .updateOpenedFile { id := 1, type := "readAll" }, .updateOpenedFile { id := 1, type := "close" },
    .openFile "c" (some "three")]

theorem tidySession_sound :
    Along OpensFreeId {} (Session.trace 1024 {} tidySession) ∧
      ∀ x ∈ Session.trace 1024 {} tidySession, IdsSound x.2 := by
  have hfree : Along OpensFreeId {} (Session.trace 1024 {} tidySession) :=
    ⟨rfl, rfl, trivial, trivial, rfl, trivial⟩
  exact ⟨hfree, (session_sound_iff (Session.run_trace 1024 {} tidySession)).mpr hfree⟩

/-- Two files are opened, the first is closed, and a third is opened. -/
def closeFirstSession : List Op :=
  [.openFile "a" (some "one"), .openFile "b" (some "two"),
    .updateOpenedFile { id := 0, type := "close" }, .openFile "c" (some "three")]

/-- The third file is given the id of the second, which is still open. -/
theorem id_reused_while_open :
    ¬ ∀ x ∈ Session.trace 1024 {} closeFirstSession, IdsSound x.2 := by
  intro h
  have hids : ((Session.trace 1024 {} closeFirstSession).map fun x => x.2.live.map Handle.id) =
      [[0], [1, 0], [1], [1, 1]] := by decide
  have hlast : [1, 1] ∈ (Session.trace 1024 {} closeFirstSession).map
      fun x => x.2.live.map Handle.id := by simp [hids]
  obtain ⟨x, hx, heq⟩ := List.mem_map.mp hlast
  have := (h x hx).unique
  simp [heq] at this

end Neutralino.fs
