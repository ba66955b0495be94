import Neutralino.Api.Storage
import Neutralino.Api.Ungated

/-!
What `fs::writeFile` reports, against what the platform has stored: the stream is
opened, takes the data and is closed, and each of the three can fail.

* `Device`: what the platform makes of a write; `fs.Writer`: the stream.
* `fs.writeFile`: `true` as soon as the stream is open.
* `storage.setDataOn`: `setData` over a device that can fail.
* `Reported`: a caller of `fs::writeFile` reports success for data.
* `write_truthful_iff`: **when a reported success is that of stored data**.
-/

namespace Neutralino

open Calls (Yields ofState runOn yields_pure yields_ofState yields_bind yields_lift_bind yields_ite)

/-! ### Writing a file -/

/-- What the platform makes of writes: which files it opens (the flag is that of
appending), how many bytes of the data a stream takes, and how many of these reach
the file by the time it is closed. -/
structure Device where
  opens : Str → Bool → Bool
  accepts : fs.FileWriterOptions → ℕ
  flushes : fs.FileWriterOptions → ℕ

namespace fs

/-- An `ofstream`: whether it could be opened, the bytes it took, those that are in
the file, and whether nothing has failed so far. -/
structure Writer where
  opened : Bool
  accepted : Str := []
  stored : Str := []
  good : Bool

namespace Writer

variable (device : Device) (options : FileWriterOptions)

/-- The constructor. -/
def «open» : Writer where
  opened := device.opens options.filename options.append
  good := device.opens options.filename options.append

/-- `operator<<`: what is not taken sets `badbit`. -/
def put (writer : Writer) : Writer where
  opened := writer.opened
  accepted := options.data.take (device.accepts options)
  good := writer.good && decide (options.data.length ≤ device.accepts options)

/-- `close`: what is not written out sets `failbit`. -/
def close (writer : Writer) : Writer where
  opened := writer.opened
  accepted := writer.accepted
  stored := writer.accepted.take (device.flushes options)
  good := writer.good && decide (writer.accepted.length ≤ device.flushes options)

end Writer

/-- `writeFile`, and the stream that it leaves. -/
def writeFile (device : Device) (options : FileWriterOptions) : Bool × Writer :=
  let writer := Writer.open device options
  if !writer.opened then (false, writer)
  else (true, (writer.put device options).close device options)

end fs

/-- All of the data is in the file: it was opened, all bytes were taken, and all of
them were written out. -/
structure Device.Stores (device : Device) (options : fs.FileWriterOptions) : Prop where
  opened : (fs.writeFile device options).2.opened = true
  accepted : (fs.writeFile device options).2.accepted = options.data
  stored : (fs.writeFile device options).2.stored = options.data

/-- The condition: a file that is opened has room for the data, in the stream and on
the disk. -/
def Device.Holds (device : Device) (options : fs.FileWriterOptions) : Prop :=
  device.opens options.filename options.append = true →
    options.data.length ≤ device.accepts options ∧ options.data.length ≤ device.flushes options

section Write

variable {device : Device} {options : fs.FileWriterOptions}

/-- What is reported: that the stream was open. -/
lemma writeFile_fst :
    (fs.writeFile device options).1 = device.opens options.filename options.append := by
  rw [fs.writeFile, fs.Writer.open]
  cases device.opens options.filename options.append with
  | false => rfl
  | true => rfl

lemma writeFile_snd (h : device.opens options.filename options.append = true) :
    (fs.writeFile device options).2 =
      ((fs.Writer.open device options).put device options).close device options := by
  rw [fs.writeFile, fs.Writer.open, h]
  rfl

lemma Device.Stores.opens (h : device.Stores options) :
    device.opens options.filename options.append = true := by
  have hopened := h.opened
  cases hopens : device.opens options.filename options.append with
  | true => rfl
  | false =>
      rw [fs.writeFile, fs.Writer.open, hopens] at hopened
      exact hopened

/-- The data of an opened file is stored if and only if there is room for it. -/
lemma stores_iff_of_opens (h : device.opens options.filename options.append = true) :
    device.Stores options ↔
      options.data.length ≤ device.accepts options ∧ options.data.length ≤ device.flushes options := by
  have hsnd := writeFile_snd h
  constructor
  · rintro ⟨-, haccepted, hstored⟩
    rw [hsnd] at haccepted hstored
    have haccepted : options.data.take (device.accepts options) = options.data := haccepted
    have hstored : (options.data.take (device.accepts options)).take (device.flushes options) =
        options.data := hstored
    rw [haccepted] at hstored
    exact ⟨List.take_eq_self_iff _ |>.mp haccepted, List.take_eq_self_iff _ |>.mp hstored⟩
  · rintro ⟨haccepts, hflushes⟩
    have htaken := (List.take_eq_self_iff options.data).mpr haccepts
    refine ⟨?_, ?_, ?_⟩
    · rw [hsnd]
      exact h
    · rw [hsnd]
      exact htaken
    · rw [hsnd]
      exact (congrArg (List.take _) htaken).trans ((List.take_eq_self_iff _).mpr hflushes)

/-- The flags of the stream, which nothing looks at, tell whether the data is stored. -/
lemma stores_iff_good : device.Stores options ↔ (fs.writeFile device options).2.good = true := by
  cases hopens : device.opens options.filename options.append with
  | false =>
      refine iff_of_false (fun h => absurd h.opens (by simp [hopens])) ?_
      simp [fs.writeFile, fs.Writer.open, hopens]
  | true =>
      rw [stores_iff_of_opens hopens, writeFile_snd hopens]
      simp only [fs.Writer.close, fs.Writer.put, fs.Writer.open, hopens, Bool.true_and,
        Bool.and_eq_true, decide_eq_true_eq]
      refine and_congr_right fun haccepts => ?_
      rw [(List.take_eq_self_iff options.data).mpr haccepts]

end Write

/-! ### Storing data -/

namespace storage

variable (device : Device) (storagePath : Str)

/-- The file that `setData` writes. -/
def bucketOptions (key data : Str) : fs.FileWriterOptions where
  filename := storagePath ++ '/' :: bucketFile key
  data := data

/-- `fs::writeFile` on the file of a key: what is stored takes the place of the
content of an opened file. -/
def writeBucket (key data : Str) : Call Bool :=
  ofState fun store =>
    let written := fs.writeFile device (bucketOptions storagePath key data)
    (.ok written.1, if written.2.opened then
      store.map fun files => files.insert (bucketFile key) written.2.stored else store)

/-- `setData` over a device that can fail. -/
def setDataOn (input : Json) : Call Json :=
  onKey (fun key => do
    ofState fun store => (.ok (), some (store.getD ∅))
    if !(← helpers.hasField input "data") then removeStorageBucket key
    else
      let data ← textField input "data"
      if !(← writeBucket device storagePath key data) then return failed .null .NE_ST_STKEYWE key
      return succeeded .null) input

variable {device storagePath}

/-- With a device that stores everything it is `setData`. -/
lemma setDataOn_eq (h : ∀ options, device.Stores options) (input : Json) :
    setDataOn device storagePath input = setData input := by
  refine congrArg (onKey · input) (funext fun key => congrArg (_ >>= ·) (funext fun _ => ?_))
  refine congrArg (_ >>= ·) (funext fun has => ?_)
  refine congrArg (fun act : Call Json => if (!has) = true then _ else act) ?_
  refine congrArg (_ >>= ·) (funext fun data => funext fun store => ?_)
  have hstores := h (bucketOptions storagePath key data)
  have hfst := writeFile_fst.trans hstores.opens
  have hstored : (fs.writeFile device (bucketOptions storagePath key data)).2.stored = data :=
    hstores.stored
  show runOn (writeBucket device storagePath key data >>= _) store = runOn (ofState _ >>= _) store
  rw [Calls.runOn_bind, Calls.runOn_bind, writeBucket, Calls.runOn_ofState, Calls.runOn_ofState]
  simp only [hfst, hstores.opened, hstored, if_true]
  rfl

end storage

/-! ### The callers -/

/-- The operating system that opens the files that a device opens. -/
def Os.on (os : Os) (device : Device) : Os := { os with openForWrite := device.opens }

/-- **A caller reports success for data**: the writing and appending methods of
`filesystem`, `storage.setData`, and `resources.extractFile` from an archive. -/
inductive Reported (device : Device) : fs.FileWriterOptions → Prop
  | writeOrAppend {perm : Permission} {os : Os} {decode : Str → Str} {append : Bool} {input : Json}
      {path data : Str} {w w' : World} :
      textField input "path" = .ok path → textField input "data" = .ok data →
      runOn (fs.controllers.writeOrAppend perm (os.on device) decode append input) w =
        (.ok (succeeded .null), w') →
      Reported device { filename := path, data := decode data, append := append }
  | setData {storagePath key data : Str} {input : Json} {store store' : storage.Store} :
      textField input "key" = .ok key → textField input "data" = .ok data →
      runOn (storage.setDataOn device storagePath input) store = (.ok (succeeded .null), store') →
      Reported device (storage.bucketOptions storagePath key data)
  | extractFile {os : Os} {store : Resources} {input : Json} {path destination : Str}
      {result : fs.FileReaderResult} {w w' : World} :
      store.mode ≠ .dir → textField input "path" = .ok path →
      textField input "destination" = .ok destination → store.getFile os path {} = .ok result →
      runOn (res.extractFile (os.on device) store input) w = (.ok (succeeded .null), w') →
      Reported device { filename := destination, data := result.data }

/-- Success is told truthfully: `writeFile` returns `true` for data that is stored and
only for it, and its callers report success for such data only. -/
structure WriteTruthful (device : Device) (options : fs.FileWriterOptions) : Prop where
  returned_iff : (fs.writeFile device options).1 = true ↔ device.Stores options
  reported : Reported device options → device.Stores options

section Callers

variable {device : Device} {input : Json} {R : Prop}

/-- An answer of success tells something. -/
def Tells (R : Prop) (output : Json) : Prop := output = succeeded .null → R

lemma tells_failed (code : errors.StatusCode) (param : Str) : Tells R (failed .null code param) := by
  intro heq
  simp [failed, succeeded, Json.set] at heq

lemma tells_errorOutput (payload : Json) : Tells R (errors.errorOutput payload) := by
  intro heq
  simp [errors.errorOutput, succeeded, Json.set] at heq

/-- The removal of a key answers with a message. -/
lemma tells_removeStorageBucket {key : Str} : Yields (Tells R) (storage.removeStorageBucket key) := by
  refine yields_bind (P := fun _ => True) (fun _ _ _ _ => trivial) fun removed _ => ?_
  refine yields_ite (fun _ => yields_pure (tells_failed _ _)) fun _ => yields_pure fun heq => ?_
  have hmessage : true = false := congrArg (Json.contains · "message") heq
  cases hmessage

lemma yields_requiring {fields : List Str} {act : Call Json} (h : Yields (Tells R) act) :
    Yields (Tells R) (requiring .null fields input act) := by
  refine yields_lift_bind fun missing _ => ?_
  cases missing with
  | none => exact h
  | some field =>
      refine yields_pure fun heq => ?_
      simp [succeeded, Json.set] at heq

lemma yields_writeFile {os : Os} {options : fs.FileWriterOptions} :
    Yields (fun written => written = true → device.opens options.filename options.append = true)
      ((os.on device).writeFile options) :=
  yields_bind (P := fun _ => True) (fun _ _ _ _ => trivial) fun _ _ => yields_pure id

/-- A writing method that reports success has opened its file. -/
lemma tells_writeOrAppend {perm : Permission} {os : Os} {decode : Str → Str} {append : Bool}
    {path : Str} (hpath : textField input "path" = .ok path) :
    Yields (Tells (device.opens path append = true))
      (fs.controllers.writeOrAppend perm (os.on device) decode append input) := by
  refine yields_requiring (yields_lift_bind fun data _ => yields_lift_bind fun path' hpath' => ?_)
  obtain rfl : path = path' := Except.ok.inj (hpath.symm.trans hpath')
  refine yields_lift_bind fun granted _ => yields_ite (fun _ => ?_) fun _ => ?_
  · refine yields_bind yields_writeFile fun written hwritten =>
      yields_ite (fun htrue => ?_) fun _ => ?_
    · exact yields_pure fun _ => hwritten htrue
    · exact yields_pure (tells_failed _ _)
  · exact yields_pure (tells_failed _ _)

/-- `setData` that reports success for data has opened the file of the key. -/
lemma tells_setDataOn {storagePath key data : Str} (hkey : textField input "key" = .ok key)
    (hdata : textField input "data" = .ok data) :
    Yields (Tells (device.opens (storage.bucketOptions storagePath key data).filename false = true))
      (storage.setDataOn device storagePath input) := by
  refine yields_lift_bind fun has _ =>
    yields_ite (fun _ => yields_pure (tells_errorOutput _)) fun _ => ?_
  refine yields_lift_bind fun key' hkey' => ?_
  obtain rfl : key = key' := Except.ok.inj (hkey.symm.trans hkey')
  refine yields_ite (fun hinvalid => yields_pure ?_) fun _ => ?_
  · simp only [storage.validateStorageBucket] at hinvalid ⊢
    split_ifs at hinvalid ⊢ with hvalid
    · cases hinvalid
    · exact tells_errorOutput _
  refine yields_bind (P := fun _ => True) (fun _ _ _ _ => trivial) fun _ _ => ?_
  refine yields_lift_bind fun has _ => yields_ite (fun _ => tells_removeStorageBucket) fun _ => ?_
  refine yields_lift_bind fun data' hdata' => ?_
  obtain rfl : data = data' := Except.ok.inj (hdata.symm.trans hdata')
  refine yields_bind (P := fun written => written = true → device.opens
    (storage.bucketOptions storagePath key data).filename false = true) ?_ fun written hwritten => ?_
  · exact yields_ofState fun store written hreturned htrue =>
      (writeFile_fst.symm.trans (Except.ok.inj hreturned)).trans htrue
  · refine yields_ite (fun _ => yields_pure (tells_failed _ _)) fun htrue => ?_
    exact yields_pure fun _ => hwritten (by simpa using htrue)

/-- `extractFile` that reports success has opened the file of the destination. -/
lemma tells_extractFile {os : Os} {store : Resources} {destination : Str}
    (hmode : store.mode ≠ .dir)
    (hdestination : textField input "destination" = .ok destination) :
    Yields (Tells (device.opens destination false = true))
      (res.extractFile (os.on device) store input) := by
  refine yields_requiring (yields_lift_bind fun path _ => yields_lift_bind fun destination' h' => ?_)
  obtain rfl : destination = destination' := Except.ok.inj (hdestination.symm.trans h')
  rw [if_neg hmode]
  refine yields_bind (P := fun written => written = true → device.opens destination false = true) ?_
    fun written hwritten => yields_ite (fun htrue => yields_pure fun _ => hwritten htrue) fun _ => ?_
  · refine yields_lift_bind fun result _ => yields_ite (fun _ => ?_) fun _ => ?_
    · refine yields_ite (fun _ => yields_lift_bind fun _ _ => ?_) fun _ => ?_
      · exact yields_writeFile
      · exact yields_writeFile
    · exact yields_pure fun hfalse => by cases hfalse
  · exact yields_pure (tells_failed _ _)

/-- A caller that reports success has opened its file. -/
lemma Reported.opens {options : fs.FileWriterOptions} (h : Reported device options) :
    device.opens options.filename options.append = true := by
  cases h with
  | writeOrAppend hpath _ hrun => exact tells_writeOrAppend hpath _ _ _ hrun rfl
  | setData hkey hdata hrun => exact tells_setDataOn hkey hdata _ _ _ hrun rfl
  | extractFile hmode _ hdestination _ hrun =>
      exact tells_extractFile hmode hdestination _ _ _ hrun rfl

/-- **Success is told truthfully** exactly if an opened file has room for the data. -/
theorem write_truthful_iff (device : Device) (options : fs.FileWriterOptions) :
    WriteTruthful device options ↔ device.Holds options := by
  constructor
  · intro h hopens
    exact (stores_iff_of_opens hopens).mp (h.returned_iff.mp (writeFile_fst.trans hopens))
  · intro h
    have hstores := fun hopens => (stores_iff_of_opens hopens).mpr (h hopens)
    refine ⟨?_, fun hreported => hstores hreported.opens⟩
    rw [writeFile_fst]
    exact ⟨hstores, Device.Stores.opens⟩

/-- A full disk: files can be opened and the stream takes the data, and none of it is
written out. -/
def fullDisk : Device where
  opens _ _ := true
  accepts options := options.data.length
  flushes _ := 0

/-- On a full disk `writeFile` returns `true` for data that is lost when the stream is closed. -/
theorem full_disk_not_truthful : ¬ ∀ device options, WriteTruthful device options := by
  intro h
  have hstores := (h fullDisk { filename := "/dev/full", data := "hello" }).returned_iff.mp rfl
  have hroom := (stores_iff_of_opens hstores.opens).mp hstores
  exact absurd hroom.2 (by decide)

end Callers

end Neutralino
