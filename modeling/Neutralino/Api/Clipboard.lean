import Neutralino.Server.FieldReads
import Neutralino.Base.Base64
import Neutralino.Base.Numbers

/-!
`clipboard.writeImage`: the geometry and the data of a request, and what the clipboard
library copies of them.

* `requiredDataSize`: the size that the library computes in 64 bits; `requiredBytes`: the
  same without wrap-around; `toNat_requiredDataSize`: the one is the other modulo `2 ^ 64`.
* `clip.setImage`: the lock, the owner of the selection and the copy into an `OwnImage`,
  which carries its size.
* `clipboard.writeImage`: the controller, with what it hands to the library and the
  clipboard it leaves; `refused_of_not_requests`: a request that brings no image is refused.
* `imageBounds_iff`: **the library stays inside the data** exactly where the request asks
  for no more bytes than it brings: nothing refuses one that does.
* `writeImage_undefined_iff`, `image_of_requests`: where the copy runs past the data, and
  what it keeps where it does not; `not_imageBounds_of_short_text`: texts that are too short.
-/

namespace Neutralino

/-! ### The clipboard library -/

namespace clip

/-- `image_spec`. -/
structure ImageSpec where
  width : UInt64 := 0
  height : UInt64 := 0
  bitsPerPixel : UInt64 := 0
  bytesPerRow : UInt64 := 0
  redMask : UInt64 := 0
  greenMask : UInt64 := 0
  blueMask : UInt64 := 0
  alphaMask : UInt64 := 0
  redShift : UInt64 := 0
  greenShift : UInt64 := 0
  blueShift : UInt64 := 0
  alphaShift : UInt64 := 0
  deriving DecidableEq

namespace ImageSpec

variable (spec : ImageSpec)

/-- `required_data_size`: the last pixel of 24 bits is read as four bytes. -/
def requiredDataSize : UInt64 :=
  let n := spec.bytesPerRow * spec.height
  if spec.bitsPerPixel = 24 then
    if n % 4 > 0 then n + (4 - n % 4) else n + 1
  else n

/-- The bytes of an image with their padding, as a number without bound. -/
def requiredBytes : ℕ :=
  let n := spec.bytesPerRow.toNat * spec.height.toNat
  if spec.bitsPerPixel = 24 then
    if n % 4 > 0 then n + (4 - n % 4) else n + 1
  else n

/-- The size that the library computes is the true one modulo `2 ^ 64`. -/
lemma toNat_requiredDataSize : spec.requiredDataSize.toNat = spec.requiredBytes % 2 ^ 64 := by
  have hrows : (spec.bytesPerRow * spec.height).toNat =
      spec.bytesPerRow.toNat * spec.height.toNat % 2 ^ 64 := UInt64.toNat_mul _ _
  rw [requiredDataSize, requiredBytes]
  generalize spec.bytesPerRow * spec.height = n at hrows
  generalize spec.bytesPerRow.toNat * spec.height.toNat = m at hrows
  have hrest : (n % 4).toNat = m % 4 := by
    rw [UInt64.toNat_mod, hrows]
    exact Nat.mod_mod_of_dvd m (by decide)
  have hpads : n % 4 > 0 ↔ m % 4 > 0 := by
    rw [gt_iff_lt, UInt64.lt_iff_toNat_lt, hrest]
    rfl
  by_cases hdepth : spec.bitsPerPixel = 24
  · rw [if_pos hdepth, if_pos hdepth]
    by_cases hpos : m % 4 > 0
    · have hle : n % 4 ≤ 4 := by
        rw [UInt64.le_iff_toNat_le, hrest]
        exact (Nat.mod_lt m (by decide)).le
      rw [if_pos (hpads.mpr hpos), if_pos hpos, UInt64.toNat_add, UInt64.toNat_sub_of_le _ _ hle,
        hrest, hrows]
      exact Nat.mod_add_mod m _ _
    · rw [if_neg (mt hpads.mp hpos), if_neg hpos, UInt64.toNat_add, hrows]
      exact Nat.mod_add_mod m _ _
  · rw [if_neg hdepth, if_neg hdepth, hrows]

/-- Rows of `2 ^ 63` bytes: two of them take up nothing. -/
example :
    ({ bytesPerRow := 0x8000000000000000, height := 2 } : ImageSpec).requiredDataSize = 0 := by
  decide

lemma toNat_requiredDataSize_le : spec.requiredDataSize.toNat ≤ spec.requiredBytes := by
  rw [toNat_requiredDataSize]
  exact Nat.mod_le _ _

end ImageSpec

/-- `image` over memory of the caller. -/
structure Image where
  data : Str
  spec : ImageSpec
  deriving DecidableEq

/-- `image` with memory of its own: as many bytes as its specification asks for. -/
structure OwnImage where
  data : Str
  spec : ImageSpec
  sized : data.length = spec.requiredDataSize.toNat

/-- `Manager`: whether its window owns the selection, the data it gives in each format and
its image, absent where that is not valid. -/
structure Manager where
  owner : Bool
  data : List (Str × Option Str)
  image : Option OwnImage

/-- What the display and the machine answer to one call of `set_image`: whether the lock is
free, whether the selection is given for the clearing and for the image, and which sizes are
allocated. -/
structure Display where
  locks : Bool
  clears : Bool
  grants : Bool
  allocates : ℕ → Bool

/-- What a call of `set_image` comes to: its result, how many bytes of the caller's memory it
reads, and the clipboard after it. -/
structure Outcome where
  result : Except Fault Bool
  read : ℕ := 0
  manager : Manager

/-- `copy_image`: a text ends with a NUL that may be read too. -/
def copyImage (image : Image) : Except Fault OwnImage :=
  if h : image.spec.requiredDataSize.toNat ≤ image.data.length + 1 then
    .ok {
      data := (image.data ++ ['\x00']).take image.spec.requiredDataSize.toNat
      spec := image.spec
      sized := by simpa using h }
  else .error .undefinedBehaviour

namespace Manager

/-- `clear`. -/
def clear (display : Display) (manager : Manager) : Manager :=
  { owner := manager.owner || display.clears, data := [], image := none }

/-- `set_image`. -/
def setImage (display : Display) (manager : Manager) (image : Image) : Outcome :=
  if display.grants then
    let n := image.spec.requiredDataSize.toNat
    let manager := { manager with owner := true, image := none }
    if display.allocates n then
      match copyImage image with
      | .ok copy =>
          let data := insertMember "image/png".toList none manager.data
          { result := .ok true, read := n, manager := { manager with image := some copy, data } }
      | .error fault => { result := .error fault, read := n, manager }
    else { result := .error .badAlloc, manager }
  else { result := .ok false, manager }

end Manager

/-- `set_image`. -/
def setImage (display : Display) (manager : Manager) (image : Image) : Outcome :=
  if display.locks then (manager.clear display).setImage display image
  else { result := .ok false, manager }

/-- No more is read than the size that the library computes. -/
lemma read_setImage_le (display : Display) (manager : Manager) (image : Image) :
    (setImage display manager image).read ≤ image.spec.requiredDataSize.toNat := by
  simp only [setImage, Manager.setImage]
  split_ifs
  · cases copyImage image <;> exact le_rfl
  all_goals exact Nat.zero_le _

/-- The copy runs past the memory of the caller where that is too small. -/
lemma setImage_undefined_iff {display : Display} (manager : Manager) {image : Image} :
    (setImage display manager image).result = .error .undefinedBehaviour ↔
      display.locks = true ∧ display.grants = true ∧
        display.allocates image.spec.requiredDataSize.toNat = true ∧
          image.data.length + 1 < image.spec.requiredDataSize.toNat := by
  simp only [setImage, Manager.setImage]
  split_ifs with hlocks hgrants hallocates
  · by_cases hsize : image.spec.requiredDataSize.toNat ≤ image.data.length + 1
    · simp [copyImage, hsize]
    · simp [copyImage, hsize, hlocks, hgrants, hallocates, Nat.lt_of_not_le hsize]
  all_goals simp [*]

/-- Memory that is large enough is copied, and the copy is the clipboard's image. -/
lemma setImage_of_le {display : Display} (manager : Manager) {image : Image}
    (hlocks : display.locks = true) (hgrants : display.grants = true)
    (hallocates : display.allocates image.spec.requiredDataSize.toNat = true)
    (hsize : image.spec.requiredDataSize.toNat ≤ image.data.length) :
    (setImage display manager image).result = .ok true ∧
      ∃ copy, (setImage display manager image).manager.image = some copy ∧
        copy.spec = image.spec ∧ copy.data = image.data.take image.spec.requiredDataSize.toNat := by
  rw [setImage, if_pos hlocks, Manager.setImage, if_pos hgrants]
  simp only [if_pos hallocates, copyImage, dif_pos (Nat.le_succ_of_le hsize)]
  exact ⟨trivial, _, rfl, rfl, List.take_append_of_le_length hsize⟩

end clip

/-! ### The controller -/

namespace clipboard

open clip (ImageSpec Image Manager Display)

namespace inputs

/-- `input[key].get<unsigned long>()`. -/
def unsignedField (input : Json) (key : Str) : Except Fault UInt64 := do
  return UInt64.ofNat (toUnsigned (← longField input key))

/-- The fields that `writeImage` asks for. -/
def imageFields : List Str :=
  ["width", "height", "bpp", "bpr", "redMask", "greenMask", "blueMask", "redShift", "greenShift",
    "blueShift", "data", "alphaShift", "alphaMask"]

/-- The specification of the image. -/
def imageSpec (input : Json) : Except Fault ImageSpec := do
  let width ← unsignedField input "width"
  let height ← unsignedField input "height"
  let bitsPerPixel ← unsignedField input "bpp"
  let bytesPerRow ← unsignedField input "bpr"
  let redMask ← unsignedField input "redMask"
  let greenMask ← unsignedField input "greenMask"
  let blueMask ← unsignedField input "blueMask"
  let redShift ← unsignedField input "redShift"
  let greenShift ← unsignedField input "greenShift"
  let blueShift ← unsignedField input "blueShift"
  let alphaMask ← unsignedField input "alphaMask"
  let alphaShift ← unsignedField input "alphaShift"
  return {
    width, height, bitsPerPixel, bytesPerRow, redMask, greenMask, blueMask, redShift,
    greenShift, blueShift, alphaMask, alphaShift }

/-- `writeImage` up to the image that it makes. -/
def writeImage : Reading Image :=
  .fields imageFields fun input => do
    let spec ← imageSpec input
    let data ← textField input "data"
    return { data := base64.fromBase64 data, spec }

end inputs

/-- What a call of `writeImage` comes to: its answer, the image that it hands to the clipboard
library, how many bytes the library reads of it, and the clipboard after it. -/
structure Written where
  answer : Except Fault Json
  handed : Option Image := none
  read : ℕ := 0
  manager : Manager

/-- The end of `writeImage`: what `set_image` returns is not looked at. -/
def written (image : Image) (outcome : clip.Outcome) : Written where
  answer := do
    let _ ← outcome.result
    return reported .null "Image wrote to the system clipboard"
  handed := some image
  read := outcome.read
  manager := outcome.manager

/-- `writeImage`. -/
def writeImage (display : Display) (manager : Manager) (input : Json) : Written :=
  match inputs.writeImage input with
  | .error fault => { answer := .error fault, manager }
  | .ok (.answer output) => { answer := .ok output, manager }
  | .ok (.request image) => written image (clip.setImage display manager image)

/-- An image that a request brings: every field is there, and each is of its type. -/
structure Requests (input : Json) (image : Image) : Prop where
  present : helpers.missingRequiredField input inputs.imageFields = .ok none
  spec : inputs.imageSpec input = .ok image.spec
  data : ∃ text, textField input "data" = .ok text ∧ base64.fromBase64 text = image.data

/-- A refusal: an exception, or an answer with an error. -/
def Refused : Except Fault Json → Prop
  | .ok output => output.contains "error" = true
  | .error fault => fault.isException = true

/-- The controller goes on with the image that the request brings. -/
lemma inputs_writeImage_eq_request_iff {input : Json} {image : Image} :
    inputs.writeImage input = .ok (.request image) ↔ Requests input image := by
  constructor
  · intro h
    obtain ⟨missing, hmissing, h⟩ := bind_eq_ok.mp h
    cases missing with
    | some field => cases h
    | none =>
        obtain ⟨read, hread, h⟩ := bind_eq_ok.mp h
        obtain ⟨spec, hspec, hread⟩ := bind_eq_ok.mp hread
        obtain ⟨text, htext, hread⟩ := bind_eq_ok.mp hread
        cases hread
        cases h
        exact ⟨hmissing, hspec, text, htext, rfl⟩
  · rintro ⟨hpresent, hspec, text, htext, hdata⟩
    have hread : Reading.unchecked (fun input => do
        let spec ← inputs.imageSpec input
        let data ← textField input "data"
        return { data := base64.fromBase64 data, spec }) input = .ok (.request image) := by
      rw [Reading.unchecked, hspec, ok_bind, htext, ok_bind, hdata]
      rfl
    rw [inputs.writeImage, Reading.fields, Reading.requiring, hpresent]
    exact hread

/-- The bounds of the images that a request writes. -/
structure ImageBounds (display : Display) (manager : Manager) (input : Json) : Prop where
  backed : ∀ image, (writeImage display manager input).handed = some image →
    image.spec.requiredBytes ≤ image.data.length
  inside : ∀ image, Requests input image →
    (writeImage display manager input).read ≤ image.data.length
  refused : ∀ image, Requests input image → image.data.length < image.spec.requiredBytes →
    Refused (writeImage display manager input).answer ∧
      (writeImage display manager input).manager = manager

variable {display : Display} {manager : Manager} {input : Json} {image : Image}

lemma writeImage_of_requests (h : Requests input image) :
    writeImage display manager input = written image (clip.setImage display manager image) := by
  rw [writeImage, inputs_writeImage_eq_request_iff.mpr h]

/-- An image is handed over where the request brings it. -/
lemma handed_eq_some_iff :
    (writeImage display manager input).handed = some image ↔ Requests input image := by
  constructor
  · intro h
    rw [writeImage] at h
    split at h
    · cases h
    · cases h
    · next request hrequest =>
        rw [Option.some.inj h] at hrequest
        exact inputs_writeImage_eq_request_iff.mp hrequest
  · intro h
    rw [writeImage_of_requests h, written]

/-! ### Requests without an image -/

lemma throws_getLong (j : Json) : Throws j.getLong := by
  cases j <;> simp [Json.getLong, Throws, Fault.isException]

lemma throws_getString (j : Json) : Throws j.getString := by
  cases j <;> simp [Json.getString, Throws, Fault.isException]

section Fields

variable {key : Str}

/-- A field that is there is indexed without a fault. -/
lemma throws_indexConst (h : input.has key = true) : Throws (input.indexConst key) := by
  obtain ⟨value, hvalue⟩ := Json.exists_indexConst_of_has h
  rw [hvalue]
  exact throws_ok value

lemma throws_unsignedField (h : input.has key = true) :
    Throws (inputs.unsignedField input key) :=
  ((throws_indexConst h).bind throws_getLong).bind fun _ => throws_ok _

lemma throws_textField (h : input.has key = true) : Throws (textField input key) :=
  (throws_indexConst h).bind throws_getString

end Fields

lemma throws_imageSpec (h : ∀ key ∈ inputs.imageFields, input.has key = true) :
    Throws (inputs.imageSpec input) := by
  rw [inputs.imageSpec]
  iterate 12 refine (throws_unsignedField (h _ (by simp [inputs.imageFields]))).bind fun _ => ?_
  exact throws_ok _

lemma throws_inputs_writeImage (input : Json) : Throws (inputs.writeImage input) := by
  rw [inputs.writeImage, Reading.fields, Reading.requiring, missingRequiredField_eq, ok_bind]
  cases hmissing : inputs.imageFields.find? fun key => !input.has key with
  | some key => exact throws_ok _
  | none =>
      have hfields : ∀ key ∈ inputs.imageFields, input.has key = true := by
        simpa using List.find?_eq_none.mp hmissing
      have hdata := throws_textField (hfields "data".toList (by simp [inputs.imageFields]))
      have hread := (throws_imageSpec hfields).bind fun spec =>
        hdata.bind fun data => throws_ok (Image.mk (base64.fromBase64 data) spec)
      exact hread.bind fun image => throws_ok (Taken.request image)

/-- An answer without an image names the field that is missing. -/
lemma contains_error_of_answer {output : Json}
    (h : inputs.writeImage input = .ok (.answer output)) : output.contains "error" = true := by
  obtain ⟨missing, -, h⟩ := bind_eq_ok.mp h
  cases missing with
  | some field =>
      cases h
      rfl
  | none =>
      obtain ⟨image, -, h⟩ := bind_eq_ok.mp h
      cases h

/-- **A request that brings no image is refused** and leaves the clipboard as it is. -/
theorem refused_of_not_requests (h : ∀ image, ¬ Requests input image) :
    Refused (writeImage display manager input).answer ∧
      (writeImage display manager input).manager = manager := by
  rw [writeImage]
  cases hread : inputs.writeImage input with
  | error fault => exact ⟨throws_inputs_writeImage input fault hread, rfl⟩
  | ok taken =>
      cases taken with
      | answer output => exact ⟨contains_error_of_answer hread, rfl⟩
      | request image => exact absurd (inputs_writeImage_eq_request_iff.mp hread) (h image)

/-! ### The bounds -/

/-- **The library stays inside the data of a request**, and refuses one whose data is too
short, exactly where no request of that kind is made. -/
theorem imageBounds_iff (display : Display) (manager : Manager) (input : Json) :
    ImageBounds display manager input ↔
      ∀ image, Requests input image → image.spec.requiredBytes ≤ image.data.length := by
  constructor
  · intro h image hrequests
    exact h.backed image (handed_eq_some_iff.mpr hrequests)
  · intro h
    constructor
    case backed => exact fun image hhanded => h image (handed_eq_some_iff.mp hhanded)
    case inside =>
      intro image hrequests
      rw [writeImage_of_requests hrequests]
      exact (clip.read_setImage_le display manager image).trans
        (image.spec.toNat_requiredDataSize_le.trans (h image hrequests))
    case refused =>
      intro image hrequests hshort
      exact absurd (h image hrequests) hshort.not_ge

/-- The copy runs past the data exactly where the size that the library computes is beyond
the terminator too. -/
theorem writeImage_undefined_iff (h : Requests input image) :
    (writeImage display manager input).answer = .error .undefinedBehaviour ↔
      display.locks = true ∧ display.grants = true ∧
        display.allocates image.spec.requiredDataSize.toNat = true ∧
          image.data.length + 1 < image.spec.requiredDataSize.toNat := by
  rw [writeImage_of_requests h, written, ← clip.setImage_undefined_iff manager]
  cases (clip.setImage display manager image).result with
  | error fault => simp
  | ok done => simp [pure, Except.pure]

/-- A text with fewer than four characters for three bytes is too short for its image, and is
handed over all the same. -/
theorem not_imageBounds_of_short_text {spec : ImageSpec} {text : Str}
    (hpresent : helpers.missingRequiredField input inputs.imageFields = .ok none)
    (hspec : inputs.imageSpec input = .ok spec) (htext : textField input "data" = .ok text)
    (hshort : text.length * 3 / 4 < spec.requiredBytes) : ¬ ImageBounds display manager input := by
  intro h
  have hrequests : Requests input { data := base64.fromBase64 text, spec } :=
    ⟨hpresent, hspec, text, htext, rfl⟩
  have hbacked := h.backed _ (handed_eq_some_iff.mpr hrequests)
  exact absurd (hbacked.trans (base64.length_fromBase64_le text)) hshort.not_ge

/-- An image whose data is long enough is written as it is. -/
theorem image_of_requests (h : Requests input image)
    (hsize : image.spec.requiredBytes ≤ image.data.length) (hlocks : display.locks = true)
    (hgrants : display.grants = true)
    (hallocates : display.allocates image.spec.requiredDataSize.toNat = true) :
    (writeImage display manager input).answer =
        .ok (reported .null "Image wrote to the system clipboard") ∧
      ∃ copy, (writeImage display manager input).manager.image = some copy ∧
        copy.spec = image.spec ∧ copy.data = image.data.take image.spec.requiredDataSize.toNat := by
  obtain ⟨hresult, hcopy⟩ := clip.setImage_of_le manager hlocks hgrants hallocates
    (image.spec.toNat_requiredDataSize_le.trans hsize)
  rw [writeImage_of_requests h, written, hresult]
  exact ⟨rfl, hcopy⟩

/-- A pixel of four bytes without a byte of data. -/
def pixelWithoutData : Json :=
  .obj [("alphaMask", .num 0), ("alphaShift", .num 0), ("blueMask", .num 0), ("blueShift", .num 0),
    ("bpp", .num 32), ("bpr", .num 4), ("data", .str []), ("greenMask", .num 0),
    ("greenShift", .num 0), ("height", .num 1), ("redMask", .num 0), ("redShift", .num 0),
    ("width", .num 1)]

/-- Four bytes are read of a text that has none. -/
theorem pixel_read_beyond_data :
    (writeImage ⟨true, true, true, fun _ => true⟩ ⟨false, [], none⟩ pixelWithoutData).read = 4 ∧
      (writeImage ⟨true, true, true, fun _ => true⟩ ⟨false, [], none⟩ pixelWithoutData).answer =
        .error .undefinedBehaviour ∧
      ¬ ImageBounds ⟨true, true, true, fun _ => true⟩ ⟨false, [], none⟩ pixelWithoutData := by
  refine ⟨by decide, rfl, fun h => ?_⟩
  have hhanded : (writeImage ⟨true, true, true, fun _ => true⟩ ⟨false, [], none⟩
      pixelWithoutData).handed = some ⟨[], ⟨1, 1, 32, 4, 0, 0, 0, 0, 0, 0, 0, 0⟩⟩ := by decide
  exact absurd (h.backed _ hhanded) (by decide)

end clipboard
end Neutralino
