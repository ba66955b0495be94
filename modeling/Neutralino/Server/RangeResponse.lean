import Neutralino.Resources.Backends
import Neutralino.Server.StartPage

/-!
What the static server answers where a range of a file is asked for.

* `Backend`, `resources.getFile`: the three places the resources come from.
* `Found`: the path leads to a content, in a mount or among the resources.
* `slice`, `AnswersRange`: the bytes of a range, and the status, the headers and the
  body of the response to it.
* `Tiles`: ranges one after another up to the end of a content.
* `ranges_answered`: **every range of a file that is found is answered so**, and the
  bodies of ranges that tile it are the file.
-/

namespace Neutralino

/-! ### The three backends -/

namespace resources

/-- Where the resources come from: the files below the application path, or an archive
with its tree. -/
inductive Backend where
  | dir (appPath : Str)
  | bundle (tree : FileTree) (archive : Option Archive)
  | embedded (tree : FileTree) (archive : Option Archive)

/-- `getFile`. -/
def getFile (disk : Disk) (backend : Backend) (filename : Str) (options : fs.FileReaderOptions) :
    Except Fault fs.FileReaderResult :=
  match backend with
  | .embedded tree archive => getFileFromEmbedded tree archive filename options
  | .bundle tree archive => getFileFromBundle tree archive filename options
  | .dir appPath => fs.readFile disk (appPath ++ filename) options

/-- A resource has a content. -/
def Backend.Has (disk : Disk) (backend : Backend) (filename content : Str) : Prop :=
  match backend with
  | .dir appPath => disk.openForRead (appPath ++ filename) = .bytes content
  | .bundle tree archive | .embedded tree archive =>
      ∃ stored ∈ archive, ∃ start, Stores tree stored filename content start

/-- **Every backend reads the part that is asked for.** -/
theorem getFile_of_has {disk : Disk} {backend : Backend} {filename content : Str}
    (h : backend.Has disk filename content) (options : fs.FileReaderOptions) :
    getFile disk backend filename options =
      .ok { data := clip content options, size := content.length } := by
  cases backend with
  | dir appPath => exact readFile_eq h
  | bundle tree archive =>
      obtain ⟨stored, harchive, start, hstores⟩ := h
      rw [getFile, Option.mem_def.mp harchive, getFileFromBundle_of_stores hstores]
  | embedded tree archive =>
      obtain ⟨stored, harchive, start, hstores⟩ := h
      rw [getFile, Option.mem_def.mp harchive, getFileFromEmbedded_of_stores hstores]

end resources

namespace router

open resources

/-- The site with these resources. -/
def Site.of (options : Json) (mounts : MountTable) (disk : Disk) (backend : Backend) : Site where
  options := options
  mounts := mounts
  disk := disk
  getFile := resources.getFile disk backend

/-- A place that is looked up has a content. -/
def Lookup.Has (disk : Disk) (backend : Backend) (content : Str) : Lookup → Prop
  | .resource name => backend.Has disk name content
  | .mounted target rest => disk.openForRead (mountedFile target rest) = .bytes content

/-- A content is found at a path. -/
def Found (options : Json) (mounts : MountTable) (disk : Disk) (backend : Backend)
    (path content : Str) : Prop :=
  ∃ page lookup, completed path = some page ∧ lookupOf options mounts page = .ok lookup ∧
    lookup.Has disk backend content

/-! ### Ranges -/

/-- The bytes from one on, as many as are asked for, or all that there are. -/
def slice (content : Str) (start : ℕ) : Option ℕ → Str
  | none => content.drop start
  | some size => (content.take (start + size)).drop start

/-- The options for a range; what is not set is negative. -/
def rangeOptions (start size : Option ℕ) : fs.FileReaderOptions where
  pos := start.elim (-1) Nat.cast
  size := size.elim (-1) Nat.cast

@[simp] lemma rangeOptions_pos_some (a : ℕ) (size : Option ℕ) :
    (rangeOptions (some a) size).pos = a := rfl

@[simp] lemma rangeOptions_size_some (start : Option ℕ) (s : ℕ) :
    (rangeOptions start (some s)).size = s := rfl

/-- The value of a header. -/
def Response.header (response : Response) (name : Str) : Option Str :=
  (response.headers.find? fun header => header.1 = name).map Prod.snd

/-- The response to a range of a content. -/
def AnswersRange (content : Str) (start size : Option ℕ) (response : Response) : Prop :=
  match start with
  | none => response.status = 200 ∧ response.data = slice content 0 size
  | some a =>
      if a < content.length then
        response.status = 206 ∧ response.data = slice content a size ∧
          response.header "Content-Length" = some (decimal response.data.length) ∧
          response.header "Content-Range" =
            some ("bytes ".toList ++ decimal a ++ "-".toList ++
              decimal (a + response.data.length - 1) ++ "/".toList ++ decimal content.length)
      else
        response.status = 416 ∧ response.data = [] ∧
          response.header "Content-Length" = some "0" ∧
          response.header "Content-Range" = some ("bytes */".toList ++ decimal content.length)

/-- Ranges one after another, from a position to the end of so many bytes; the last one
may be open or reach further. -/
inductive Tiles (length : ℕ) : ℕ → List (ℕ × Option ℕ) → Prop
  | done : Tiles length length []
  | last {start : ℕ} {size : Option ℕ} : start < length → (∀ s ∈ size, length ≤ start + s) →
      Tiles length start [(start, size)]
  | next {start size : ℕ} {ranges : List (ℕ × Option ℕ)} : 1 ≤ size → start + size ≤ length →
      Tiles length (start + size) ranges → Tiles length start ((start, some size) :: ranges)

/-- The body of the response, where there is one. -/
def Served.body (served : Served) : Option Str :=
  match served.ended with
  | some (.ok response) => some response.data
  | _ => none

section Slices

variable {content : Str} {start size : Option ℕ} {a : ℕ}

/-- The part that is read for a range. -/
lemma clip_rangeOptions :
    clip content (rangeOptions start size) = slice content (start.getD 0) size := by
  have hrest : (if 0 ≤ (rangeOptions start size).pos then
      content.drop (min (rangeOptions start size).pos.toNat content.length) else content) =
      content.drop (start.getD 0) := by
    cases start with
    | none => rfl
    | some a =>
        rw [rangeOptions_pos_some, if_pos (Int.natCast_nonneg a), Int.toNat_natCast,
          Option.getD_some]
        rcases Nat.le_total a content.length with hle | hle
        · rw [Nat.min_eq_left hle]
        · rw [Nat.min_eq_right hle, List.drop_length, List.drop_of_length_le hle]
  rw [clip, hrest]
  cases size with
  | none => rfl
  | some s =>
      rw [rangeOptions_size_some, if_pos (Int.natCast_nonneg s), Int.toNat_natCast, slice,
        List.drop_take, Nat.add_sub_cancel_left]

/-- The end of a tile is where the next one begins. -/
lemma slice_append_drop (content : Str) (a s : ℕ) :
    slice content a (some s) ++ content.drop (a + s) = content.drop a := by
  have hslice : slice content a (some s) = (content.drop a).take s := by
    rw [slice, List.drop_take, Nat.add_sub_cancel_left]
  calc slice content a (some s) ++ content.drop (a + s)
      = (content.drop a).take s ++ (content.drop a).drop s := by rw [hslice, List.drop_drop]
    _ = content.drop a := List.take_append_drop s _

/-- A range that reaches the end is open. -/
lemma slice_of_le (h : ∀ s ∈ size, content.length ≤ a + s) :
    slice content a size = content.drop a := by
  cases size with
  | none => rfl
  | some s => rw [slice, List.take_of_length_le (h s rfl)]

/-- **The slices of tiles** are the rest of the content. -/
theorem flatten_slices {ranges : List (ℕ × Option ℕ)} (h : Tiles content.length a ranges) :
    (ranges.map fun range => slice content range.1 range.2).flatten = content.drop a := by
  induction h with
  | done => exact List.drop_length.symm
  | last _ hsize =>
      rw [List.map_singleton, List.flatten_singleton]
      exact slice_of_le hsize
  | @next start size ranges _ _ _ ih =>
      calc (((start, some size) :: ranges).map fun range => slice content range.1 range.2).flatten
          = slice content start (some size) ++ content.drop (start + size) := by
            rw [List.map_cons, List.flatten_cons, ih]
        _ = content.drop start := slice_append_drop content start size

end Slices

/-! ### The response -/

section Response

variable {options : Json} {mounts : MountTable} {disk : Disk} {backend : Backend}
  {path page content : Str} {start size : Option ℕ}

/-- The file that is read where a content is found. -/
lemma fileAt_of_has {lookup : Lookup} (hlookup : lookupOf options mounts page = .ok lookup)
    (h : lookup.Has disk backend content) (readerOptions : fs.FileReaderOptions) :
    (Site.of options mounts disk backend).fileAt readerOptions page =
      .ok { data := clip content readerOptions, size := content.length } := by
  have hsite : lookupOf (Site.of options mounts disk backend).options
      (Site.of options mounts disk backend).mounts page = .ok lookup := hlookup
  rw [Site.fileAt, hsite, ok_bind]
  cases lookup with
  | resource name => exact getFile_of_has h readerOptions
  | mounted target rest => exact readFile_eq h

/-- How a request ends for what is found. -/
lemma ended_of_found (h : Found options mounts disk backend path content)
    (readerOptions : fs.FileReaderOptions) (fuel : ℕ) :
    ∃ page, (getAsset (Site.of options mounts disk backend) [] readerOptions (fuel + 2) path).ended =
      some (.ok (respond page [] readerOptions
        { data := clip content readerOptions, size := content.length })) := by
  obtain ⟨page, lookup, hpage, hlookup, hhas⟩ := h
  have hself := completed_completed hpage
  have hfile := fileAt_of_has hlookup hhas readerOptions
  refine ⟨page, ?_⟩
  by_cases hne : page = path
  · rw [← hne, ended_page (fuel + 1) hself, hfile]
    rfl
  · rw [getAsset_completed _ (fuel + 1) hpage hne, ended_page fuel hself, hfile]
    rfl

/-- The response to a range that begins within the file. -/
lemma respond_of_lt {data : Str} {length a : ℕ} (hlt : a < length) :
    respond page [] (rangeOptions (some a) size) { data := data, size := length } =
      { status := 206
        contentType := contentTypeOf ((helpers.split page '.' none).getLast?.getD [])
        data := data
        headers := [("Accept-Ranges", "bytes"), ("Content-Length", decimal data.length),
          ("Content-Range", "bytes ".toList ++ decimal a ++ "-".toList ++
            decimal (a + data.length - 1) ++ "/".toList ++ decimal length)] } := by
  have hpos : ¬ (a : ℤ) ≤ -1 := by omega
  have hsize : ¬ (length : ℤ) ≤ a := by omega
  simp only [respond, ne_eq, not_true_eq_false, rangeOptions_pos_some, hpos, hsize,
    if_false, List.nil_append]

/-- The response to a range that begins at its end or behind it. -/
lemma respond_of_le {data : Str} {length a : ℕ} (hle : length ≤ a) :
    respond page [] (rangeOptions (some a) size) { data := data, size := length } =
      { status := 416
        contentType := contentTypeOf ((helpers.split page '.' none).getLast?.getD [])
        headers := [("Accept-Ranges", "bytes"), ("Content-Length", "0"),
          ("Content-Range", "bytes */".toList ++ decimal length)] } := by
  have hpos : ¬ (a : ℤ) ≤ -1 := by omega
  have hsize : (length : ℤ) ≤ a := by omega
  simp only [respond, ne_eq, not_true_eq_false, rangeOptions_pos_some, hpos, hsize,
    if_false, if_true, List.nil_append]

/-- What is read for a range is responded to as such. -/
lemma answersRange_respond (page : Str) :
    AnswersRange content start size (respond page [] (rangeOptions start size)
      { data := clip content (rangeOptions start size), size := content.length }) := by
  rw [clip_rangeOptions]
  cases start with
  | none => exact ⟨rfl, rfl⟩
  | some a =>
      rw [AnswersRange]
      by_cases hlt : a < content.length
      · rw [if_pos hlt, respond_of_lt hlt]
        exact ⟨rfl, rfl, rfl, rfl⟩
      · rw [if_neg hlt, respond_of_le (Nat.not_lt.mp hlt)]
        exact ⟨rfl, rfl, rfl, rfl⟩

/-- A range within the content is answered with its slice. -/
lemma AnswersRange.data_eq {a : ℕ} {response : Response}
    (h : AnswersRange content (some a) size response) (hlt : a < content.length) :
    response.data = slice content a size := by
  rw [AnswersRange, if_pos hlt] at h
  exact h.2.1

lemma Tiles.lt {length a : ℕ} {ranges : List (ℕ × Option ℕ)} (h : Tiles length a ranges) :
    ∀ range ∈ ranges, range.1 < length := by
  induction h with
  | done => simp
  | last hlt _ => simpa using hlt
  | next hsize hle _ ih => exact List.forall_mem_cons.mpr ⟨by simp; omega, ih⟩

/-- The bodies of ranges within a content that is found. -/
lemma mapM_body (h : Found options mounts disk backend path content) (fuel : ℕ)
    {ranges : List (ℕ × Option ℕ)} (hlt : ∀ range ∈ ranges, range.1 < content.length) :
    ranges.mapM (fun range => (getAsset (Site.of options mounts disk backend) []
        (rangeOptions (some range.1) range.2) (fuel + 2) path).body) =
      some (ranges.map fun range => slice content range.1 range.2) := by
  induction ranges with
  | nil => rfl
  | cons range ranges ih =>
      obtain ⟨hrange, hranges⟩ := List.forall_mem_cons.mp hlt
      obtain ⟨page, hended⟩ := ended_of_found h (rangeOptions (some range.1) range.2) fuel
      have hbody : (getAsset (Site.of options mounts disk backend) []
          (rangeOptions (some range.1) range.2) (fuel + 2) path).body =
          some (slice content range.1 range.2) := by
        rw [Served.body, hended]
        exact congrArg some ((answersRange_respond page).data_eq hrange)
      rw [List.mapM_cons, hbody, ih hranges]
      rfl

/-- **Every range of a file that is found** is answered with its status, its headers and
its bytes, and the bodies of ranges that tile the file are the file. -/
theorem ranges_answered (h : Found options mounts disk backend path content) (fuel : ℕ) :
    (∀ start size, ∃ response,
      (getAsset (Site.of options mounts disk backend) [] (rangeOptions start size) (fuel + 2)
        path).ended = some (.ok response) ∧ AnswersRange content start size response) ∧
    ∀ ranges, Tiles content.length 0 ranges →
      ∃ bodies, ranges.mapM (fun range => (getAsset (Site.of options mounts disk backend) []
        (rangeOptions (some range.1) range.2) (fuel + 2) path).body) = some bodies ∧
          bodies.flatten = content := by
  constructor
  · intro start size
    obtain ⟨page, hended⟩ := ended_of_found h (rangeOptions start size) fuel
    exact ⟨_, hended, answersRange_respond page⟩
  · intro ranges htiles
    exact ⟨_, mapM_body h fuel htiles.lt, flatten_slices htiles⟩

end Response

/-- The file of the sample archive is found. -/
lemma greeting_found : Found (.obj []) {} greetingDisk (.bundle greetingTree (some greeting))
    "/hi.txt" "hello world" := by
  refine ⟨"/hi.txt", .resource "/hi.txt", by decide, rfl, greeting, rfl, 16, ?_, ?_⟩
  · exact ⟨"0", 0, rfl, rfl, rfl⟩
  · exact List.prefix_rfl

/-- A part of it that is asked for past its end, and the whole in two parts. -/
theorem greeting_ranges_answered :
    (∃ response, (getAsset (Site.of (.obj []) {} greetingDisk
        (.bundle greetingTree (some greeting))) [] (rangeOptions (some 6) (some 100)) 2
        "/hi.txt").ended = some (.ok response) ∧
        AnswersRange "hello world" (some 6) (some 100) response) ∧
      ∃ bodies, [(0, some 5), (5, none)].mapM (fun range => (getAsset (Site.of (.obj []) {}
        greetingDisk (.bundle greetingTree (some greeting))) []
        (rangeOptions (some range.1) range.2) 2 "/hi.txt").body) = some bodies ∧
          bodies.flatten = "hello world".toList := by
  have hanswered := ranges_answered greeting_found 0
  exact ⟨hanswered.1 (some 6) (some 100),
    hanswered.2 _ (.next (by decide) (by decide) (.last (by decide) nofun))⟩

/-- A size without a position shortens the body, with the status of the full file. -/
theorem size_alone_shortens :
    Found (.obj []) {} greetingDisk (.bundle greetingTree (some greeting)) "/hi.txt" "hello world" ∧
    ¬ ∀ size : Option ℕ, (∀ s ∈ size, 1 ≤ s) → ∃ response,
      (getAsset (Site.of (.obj []) {} greetingDisk (.bundle greetingTree (some greeting))) []
        (rangeOptions none size) 2 "/hi.txt").ended = some (.ok response) ∧
        response.status = 200 ∧ response.data = "hello world".toList := by
  refine ⟨greeting_found, fun h => ?_⟩
  obtain ⟨response, hended, -, hdata⟩ := h (some 5) (by simp)
  obtain ⟨page, hfound⟩ := ended_of_found greeting_found (rangeOptions none (some 5)) 0
  obtain rfl := Except.ok.inj (Option.some.inj (hfound.symm.trans hended))
  have hanswers := @answersRange_respond "hello world" none (some 5) page
  exact absurd (hanswers.2.symm.trans hdata) (by decide)

end router

end Neutralino
