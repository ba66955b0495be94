import Neutralino.Config.Overrides
import Neutralino.Library.FilePath

/-!
The application identifier and the data directory that is made from it.

* `sago.getDataHome`: the data directory of the system on Linux.
* `Sanitised`: the characters of an identifier, and no two dots in a row.
* `OwnDirectory`: a path that lies in a directory and is not that directory.
* `Sanitised.ownDirectory_iff`: the path made from a sanitised identifier is one, except
  for the identifiers of no characters and of one dot.
* `hasOwnData_iff`: **which identifiers get a data directory of their own**: those
  with a letter, a digit or an underscore.
-/

namespace Neutralino

open FilePath Lexical

/-! ### The data directory of the system -/

/-- `getLinuxFolderDefault` of `platform_folders.cpp`: `value` is what the
environment variable holds, and a relative one is refused by a runtime error. -/
def sago.getLinuxFolderDefault (value : Option Str) (getHome defaultRelativePath : Str) :
    Option Str :=
  match value with
  | some tempRes => if tempRes.head? = some '/' then some tempRes else none
  | none => some (getHome ++ '/' :: defaultRelativePath)

/-- `getDataHome` of `platform_folders.cpp` on Linux, from `XDG_DATA_HOME` and
the home directory. -/
def sago.getDataHome (xdgDataHome : Option Str) (getHome : Str) : Option Str :=
  sago.getLinuxFolderDefault xdgDataHome getHome ".local/share"

lemma sago.getDataHome_ne_nil {xdgDataHome : Option Str} {getHome dataHome : Str}
    (h : sago.getDataHome xdgDataHome getHome = some dataHome) : dataHome ≠ [] := by
  cases xdgDataHome with
  | some tempRes =>
      obtain ⟨hhead, heq⟩ := Option.ite_none_right_eq_some.mp h
      rintro rfl
      rw [Option.some.inj heq] at hhead
      cases hhead
  | none =>
      obtain rfl := Option.some.inj h
      simp

namespace settings

/-! ### The two passes -/

/-- A character that the first pass keeps besides the dot. -/
def isWord (c : Char) : Bool := c.isAlphanum || c = '_'

/-- The characters of an identifier, and no two adjacent dots. -/
structure Sanitised (id : Str) : Prop where
  chars : ∀ c ∈ id, isWord c = true ∨ c = '.'
  dots : ¬ ['.', '.'] <:+: id

/-- The second pass drops no last character of its kind. -/
lemma mem_collapseDots {c : Char} {s : Str} : c ∈ collapseDots s ↔ c ∈ s := by
  induction s using collapseDots.induct with
  | case1 s ih => simp only [collapseDots, ih, List.mem_cons, or_self_left]
  | case2 d s hne ih => rw [collapseDots.eq_2 _ _ hne, List.mem_cons, List.mem_cons, ih]
  | case3 => simp [collapseDots]

lemma head_collapseDots (s : Str) : (collapseDots s).head? = s.head? := by
  induction s using collapseDots.induct with
  | case1 s ih => simpa [collapseDots] using ih
  | case2 d s hne _ => rw [collapseDots.eq_2 _ _ hne]; rfl
  | case3 => rfl

/-- After the second pass no two dots are adjacent. -/
lemma not_dots_collapseDots (s : Str) : ¬ ['.', '.'] <:+: collapseDots s := by
  induction s using collapseDots.induct with
  | case1 s ih => simpa [collapseDots] using ih
  | case2 c s hne ih =>
      rw [collapseDots.eq_2 _ _ hne, List.infix_cons_iff, not_or]
      refine ⟨?_, ih⟩
      rw [List.cons_prefix_cons]
      rintro ⟨rfl, t, ht⟩
      have hhead : s.head? = some '.' := by rw [← head_collapseDots, ← ht]; rfl
      obtain ⟨u, rfl⟩ := List.head?_eq_some_iff.mp hhead
      exact hne u rfl rfl
  | case3 => simp [collapseDots]

/-- A text without two adjacent dots is left as it is. -/
lemma collapseDots_of_not_dots {s : Str} (h : ¬ ['.', '.'] <:+: s) : collapseDots s = s := by
  induction s using collapseDots.induct with
  | case1 s _ => exact absurd (List.prefix_append ['.', '.'] s).isInfix h
  | case2 c s hne ih =>
      have htail : ¬ ['.', '.'] <:+: s := fun hs => h (hs.trans (List.suffix_cons c s).isInfix)
      rw [collapseDots.eq_2 _ _ hne, ih htail]
  | case3 => rfl

/-- What the two passes make of an identifier. -/
def sanitise (appId : Str) : Str :=
  collapseDots (appId.filter fun c => c.isAlphanum || c = '_' || c = '.')

lemma getAppId_of_index {options : Json} {text : Str}
    (h : options.index "applicationId" = .ok (.str text)) :
    getAppId options = .ok (sanitise text) := by
  rw [getAppId, h]
  rfl

lemma sanitised_sanitise (text : Str) : Sanitised (sanitise text) where
  chars c hc := by
    have hkept := (List.mem_filter.mp (mem_collapseDots.mp hc)).2
    simpa [isWord] using hkept
  dots := not_dots_collapseDots _

/-- A sanitised identifier is a fixed point. -/
lemma Sanitised.sanitise_eq {id : Str} (h : Sanitised id) : sanitise id = id := by
  have hkept : id.filter (fun c => c.isAlphanum || c = '_' || c = '.') = id :=
    List.filter_eq_self.mpr fun c hc => by simpa [isWord] using h.chars c hc
  rw [sanitise, hkept, collapseDots_of_not_dots h.dots]

/-- The passes keep a word character where there is one, and are left with at
most one dot where there is none. -/
lemma sanitise_degenerate_iff (text : Str) :
    (sanitise text = [] ∨ sanitise text = ['.']) ↔ ∀ c ∈ text, isWord c = false := by
  have hmem : ∀ c, isWord c = true → (c ∈ sanitise text ↔ c ∈ text) := by
    intro c hc
    have hkept : (c.isAlphanum || decide (c = '_') || decide (c = '.')) = true := by
      rw [Bool.or_eq_true]
      exact .inl hc
    rw [sanitise, mem_collapseDots, List.mem_filter, and_iff_left hkept]
  constructor
  · intro hshort c hc
    by_contra hword
    rw [Bool.not_eq_false] at hword
    have hin := (hmem c hword).mpr hc
    rcases hshort with hnil | hdot
    · rw [hnil] at hin
      cases hin
    · rw [hdot, List.mem_singleton] at hin
      rw [hin] at hword
      exact absurd hword (by decide)
  · intro hnone
    have hdots : ∀ c ∈ sanitise text, c = '.' := by
      intro c hc
      refine ((sanitised_sanitise text).chars c hc).resolve_left fun hword => ?_
      rw [hnone c ((hmem c hword).mp hc)] at hword
      cases hword
    have hpair := (sanitised_sanitise text).dots
    match hid : sanitise text with
    | [] => exact .inl rfl
    | [c] => exact .inr (by rw [hdots c (by simp [hid])])
    | c :: d :: id =>
        obtain rfl : c = '.' := hdots c (by simp [hid])
        obtain rfl : d = '.' := hdots d (by simp [hid])
        exact absurd (hid ▸ (List.prefix_append ['.', '.'] id).isInfix) hpair

/-! ### The directory -/

/-- A path that lies in a directory and is another one. -/
structure OwnDirectory (cwd : Location) (dir path : Str) : Prop where
  inside : locate cwd dir <+: locate cwd path
  ne : locate cwd path ≠ locate cwd dir

/-- The final slash that `normalizePath` takes off names no segment. -/
lemma locate_normalizePath_append (cwd : Location) {dir : Str} (hdir : dir ≠ []) (id : Str)
    (hid : '/' ∉ id) :
    locate cwd (helpers.normalizePath (dir ++ '/' :: id)) = walk (locate cwd dir) (segments id) := by
  rw [helpers.normalizePath]
  split_ifs with hslash
  · have hnil : id = [] := by
      by_contra hne
      rw [List.getLast?_append_cons, List.getLast?_cons_of_ne_nil hne] at hslash
      exact hid (List.mem_of_getLast? hslash.2)
    rw [hnil, List.dropLast_concat]
    rfl
  · exact locate_append_slash cwd hdir id

lemma Sanitised.slash_not_mem {id : Str} (h : Sanitised id) : '/' ∉ id := by
  intro hmem
  rcases h.chars '/' hmem with hword | hdot
  · exact absurd hword (by decide)
  · exact absurd hdot (by decide)

/-- A sanitised identifier is a name, unless it has no characters or is a dot. -/
lemma Sanitised.segments_eq {id : Str} (h : Sanitised id) (hnil : id ≠ []) (hdot : id ≠ ['.']) :
    ∃ n : Name, segments id = [.name n] := by
  have hdots : id ≠ ['.', '.'] := fun heq => h.dots (heq ▸ List.infix_rfl)
  have hname : isName id = true := by
    simp [isName, hnil, hdot, hdots, h.slash_not_mem]
  have hjoin : joinSegs [.name ⟨id, hname⟩] = id := by simp [joinSegs, segText]
  exact ⟨⟨id, hname⟩, by rw [← segments_joinSegs [.name ⟨id, hname⟩], hjoin]⟩

/-- **Where the directory lies**: in the data directory, and it is that directory
for the identifiers of no characters and of one dot. -/
lemma Sanitised.ownDirectory_iff (cwd : Location) {dir id : Str} (hdir : dir ≠ [])
    (h : Sanitised id) :
    OwnDirectory cwd dir (helpers.normalizePath (dir ++ '/' :: id)) ↔
      ¬ (id = [] ∨ id = ['.']) := by
  have hlocate := locate_normalizePath_append cwd hdir id h.slash_not_mem
  constructor
  · rintro hown (rfl | rfl)
    · exact hown.ne hlocate
    · exact hown.ne (hlocate.trans rfl)
  · intro hid
    obtain ⟨hnil, hdot⟩ := not_or.mp hid
    obtain ⟨n, hseg⟩ := h.segments_eq hnil hdot
    have hwalk : walk (locate cwd dir) (segments id) = locate cwd dir ++ [n] := by rw [hseg]; rfl
    rw [hwalk] at hlocate
    exact ⟨hlocate ▸ List.prefix_append _ _, by simp [hlocate]⟩

/-! ### The identifier of a configuration -/

/-- What is expected of the identifier of a configuration: it is returned, it is
sanitised, sanitising it again changes nothing, and the data directory made from
it lies below that of the system, also the one that `init` keeps. -/
structure HasOwnData (dataHome : Str) (cwd : Location) (options : Json) (id : Str) : Prop where
  returned : getAppId options = .ok id
  sanitised : Sanitised id
  again : ∀ options' : Json, options'.index "applicationId" = .ok (.str id) →
    getAppId options' = .ok id
  directory : OwnDirectory cwd dataHome (helpers.normalizePath (dataHome ++ '/' :: id))
  kept : ∀ env s s', env.dataHome = dataHome → init env s = .ok (true, s') →
    s'.options = options → OwnDirectory cwd dataHome s'.systemDataPath

/-- **Which identifiers get a data directory of their own**: those with a letter,
a digit or an underscore.  Of any other text at most a dot is left, and the data
directory of the application is that of the system. -/
theorem hasOwnData_iff {xdgDataHome : Option Str} {getHome dataHome : Str}
    (hhome : sago.getDataHome xdgDataHome getHome = some dataHome) (cwd : Location)
    {options : Json} {text : Str} (htext : options.index "applicationId" = .ok (.str text)) :
    (∃ id, HasOwnData dataHome cwd options id) ↔ ∃ c ∈ text, isWord c = true := by
  have hid := getAppId_of_index htext
  have hsan := sanitised_sanitise text
  have hiff := hsan.ownDirectory_iff cwd (sago.getDataHome_ne_nil hhome)
  rw [sanitise_degenerate_iff] at hiff
  push Not at hiff
  simp only [Bool.not_eq_false] at hiff
  constructor
  · rintro ⟨id, h⟩
    obtain rfl := Except.ok.inj (hid.symm.trans h.returned)
    exact hiff.mp h.directory
  · intro hword
    refine ⟨sanitise text, hid, hsan, fun options' h => ?_, hiff.mpr hword, ?_⟩
    · rw [getAppId_of_index h, hsan.sanitise_eq]
    · intro env s s' henv hinit hoptions
      obtain ⟨config, -, appId, dataLoc, hkept⟩ := init_spec hinit
      obtain rfl := Except.ok.inj (hid.symm.trans (hoptions ▸ hkept.reads_appId))
      rw [hkept.systemDataPath, henv]
      exact hiff.mpr hword

/-- A configuration with an identifier and nothing else. -/
def identifiedBy (text : Str) : Json := .obj [("applicationId", .str text)]

lemma index_identifiedBy (text : Str) :
    (identifiedBy text).index "applicationId" = .ok (.str text) := rfl

theorem sample_hasOwnData :
    ∃ id, HasOwnData "/home/me/.local/share" [] (identifiedBy "js.neutralino.sample") id :=
  have hhome : sago.getDataHome none "/home/me" = some "/home/me/.local/share" := rfl
  (hasOwnData_iff hhome [] (index_identifiedBy _)).mpr ⟨'j', by decide⟩

/-- **The identifier `..` has no data directory of its own**: a dot is left of it. -/
theorem dots_share_dataHome :
    sago.getDataHome none "/home/me" = some "/home/me/.local/share" ∧
      getAppId (identifiedBy "..") = .ok ['.'] ∧
      ¬ ∃ id, HasOwnData "/home/me/.local/share" [] (identifiedBy "..") id := by
  have hid : getAppId (identifiedBy "..") = .ok ['.'] := rfl
  refine ⟨rfl, hid, ?_⟩
  rintro ⟨id, h⟩
  obtain rfl : id = ['.'] := Except.ok.inj (h.returned.symm.trans hid)
  exact (h.sanitised.ownDirectory_iff [] (by decide)).mp h.directory (.inr rfl)

end settings

end Neutralino
