import Neutralino.Server.Lookups
import Mathlib.Data.List.TakeWhile

/-!
The path of a request: what `handleHTTP` and `serve` make of the document root,
the encoded path and the query.

* `PercentEncodes`: the percent-encodings of a text; `urldecode_of_encodes`: they
  are decoded.
* `urldecode_append`, `urldecode_eq_self_iff`: what is decoded next to an encoding.
* `LooksUp`: a request is resolved to a path, and looked up there first.
* `looksUp_iff`: **when a request is resolved to the document root and its path**.
  The document root is decoded and cut with the path, and so is a decoded `?`.
-/

namespace Neutralino

namespace helpers

/-! ### Percent-encodings -/

/-- Some of the characters of a text, and all of `%`, `?` and `#`, are written as
a percent sign with two hexadecimal digits. -/
inductive PercentEncodes : Str → Str → Prop
  | nil : PercentEncodes [] []
  | plain {c : Char} {p enc : Str} :
      c ≠ '%' → c ≠ '?' → c ≠ '#' → PercentEncodes p enc → PercentEncodes (c :: p) (c :: enc)
  | escaped {c a b : Char} {p enc : Str} :
      isxdigit a = true → isxdigit b = true → c = Char.ofNat (16 * xdigitValue a + xdigitValue b) →
        PercentEncodes p enc → PercentEncodes (c :: p) ('%' :: a :: b :: enc)

/-- A text holds a percent sign with two hexadecimal digits. -/
def HasEscape (s : Str) : Prop :=
  ∃ a b, isxdigit a = true ∧ isxdigit b = true ∧ ['%', a, b] <:+: s

section Decode

variable {a b c : Char} {s e p enc : Str}

lemma urldecode_cons_of_ne (hc : c ≠ '%') (s : Str) : urldecode (c :: s) = c :: urldecode s := by
  rw [urldecode.eq_2]
  rintro _ _ _ rfl
  exact absurd rfl hc

lemma urldecode_escape (ha : isxdigit a = true) (hb : isxdigit b = true) (s : Str) :
    urldecode ('%' :: a :: b :: s) =
      Char.ofNat (16 * xdigitValue a + xdigitValue b) :: urldecode s := by
  simp [urldecode, ha, hb]

/-- A percent sign without two hexadecimal digits stays. -/
lemma urldecode_percent (h : ∀ a b t, s = a :: b :: t → ¬ (isxdigit a = true ∧ isxdigit b = true)) :
    urldecode ('%' :: s) = '%' :: urldecode s := by
  cases s with
  | nil => rfl
  | cons a s =>
      cases s with
      | nil => rfl
      | cons b s =>
          have hab := h a b s rfl
          rw [urldecode, if_neg (by simpa using hab)]

/-- **What does not start with a hexadecimal digit** is decoded by itself. -/
theorem urldecode_append (he : ∀ c ∈ e.head?, isxdigit c = false) (s : Str) :
    urldecode (s ++ e) = urldecode s ++ urldecode e := by
  fun_induction urldecode s with
  | case1 a b s hhex ih =>
      obtain ⟨ha, hb⟩ : isxdigit a = true ∧ isxdigit b = true := by simpa using hhex
      simp only [List.cons_append]
      rw [urldecode_escape ha hb, ih]
  | case2 a b s hhex ih =>
      rw [List.cons_append, urldecode_percent, ih, List.cons_append]
      rintro _ _ _ ⟨rfl, rfl⟩ hab
      exact hhex (by simpa using hab)
  | case3 c s hshort ih =>
      rw [List.cons_append, List.cons_append, ← ih]
      by_cases hc : c = '%'
      · subst hc
        refine urldecode_percent fun a b t ht hab => ?_
        match s, ht with
        | [], ht => exact absurd hab.1 (by simp [he a (by rw [show e = a :: b :: t from ht]; rfl)])
        | [a'], ht =>
            obtain ⟨rfl, rfl⟩ : a' = a ∧ e = b :: t := by simpa using ht
            exact absurd hab.2 (by simp [he b rfl])
        | a' :: b' :: s, _ => exact hshort a' b' s rfl rfl
      · exact urldecode_cons_of_ne hc _
  | case4 => rfl

/-- An encoding is decoded. -/
theorem urldecode_of_encodes (h : PercentEncodes p enc) : urldecode enc = p := by
  induction h with
  | nil => rfl
  | plain hpercent _ _ _ ih => rw [urldecode_cons_of_ne hpercent, ih]
  | escaped ha hb hc _ ih => rw [urldecode_escape ha hb, ih, hc]

lemma length_urldecode_le (s : Str) : (urldecode s).length ≤ s.length := by
  fun_induction urldecode s with
  | case1 a b s hhex ih => simpa using ih.trans (by omega)
  | case2 a b s hhex ih => simpa using ih
  | case3 c s hshort ih => simpa using ih
  | case4 => rfl

/-- A text is what it decodes to exactly if it holds no percent sign with two
hexadecimal digits. -/
theorem urldecode_eq_self_iff : urldecode s = s ↔ ¬ HasEscape s := by
  constructor
  · rintro h ⟨a, b, ha, hb, u, v, rfl⟩
    have hlength := congrArg List.length h
    rw [List.append_assoc, urldecode_append (by simp [isxdigit]) u, List.cons_append,
      List.cons_append, List.cons_append, List.nil_append, urldecode_escape ha hb] at hlength
    have hu := length_urldecode_le u
    have hv := length_urldecode_le v
    simp only [List.length_append, List.length_cons] at hlength
    omega
  · intro h
    fun_induction urldecode s with
    | case1 a b s hhex ih =>
        obtain ⟨ha, hb⟩ : isxdigit a = true ∧ isxdigit b = true := by simpa using hhex
        exact absurd ⟨a, b, ha, hb, [], s, rfl⟩ h
    | case2 a b s hhex ih =>
        rw [ih fun ⟨x, y, hx, hy, hmid⟩ => h ⟨x, y, hx, hy, hmid.trans (List.infix_cons (List.infix_refl _))⟩]
    | case3 c s hshort ih =>
        rw [ih fun ⟨x, y, hx, hy, hmid⟩ => h ⟨x, y, hx, hy, hmid.trans (List.infix_cons (List.infix_refl _))⟩]
    | case4 => rfl

end Decode

end helpers

namespace router

open helpers Regex

/-! ### The decoded path -/

/-- The query of a request, with its question mark. -/
def queryText : Option Str → Str
  | none => []
  | some query => '?' :: query

section Served

variable {root p enc : Str} {query : Option Str}

lemma cString_append {s : Str} (h : '\x00' ∉ s) (e : Str) : cString (s ++ e) = s ++ cString e := by
  refine List.takeWhile_append_of_pos fun c hc => ?_
  simpa using ne_of_mem_of_not_mem hc h

lemma not_mem_cString (s : Str) : '\x00' ∉ cString s := fun h => by
  simpa using List.mem_takeWhile_imp h

lemma cString_queryText (query : Option Str) : cString (queryText query) = queryText (query.map cString) := by
  cases query with
  | none => rfl
  | some query => rfl

lemma urldecode_queryText (query : Option Str) :
    urldecode (queryText query) = queryText (query.map urldecode) := by
  cases query with
  | none => rfl
  | some query => exact urldecode_cons_of_ne (by decide) query

lemma isxdigit_queryText (query : Option Str) : ∀ c ∈ (queryText query).head?, isxdigit c = false := by
  cases query with
  | none => simp [queryText]
  | some query => simp [queryText, isxdigit]

/-- A text without the question mark that begins one cut by it ends before it. -/
lemma prefix_of_append_queryText {s t : Str} (h : s <+: t ++ queryText query) (hs : '?' ∉ s) :
    s <+: t := by
  rcases List.prefix_or_prefix_of_prefix h (List.prefix_append t _) with hst | ⟨rest, rfl⟩
  · exact hst
  · cases rest with
    | nil => simp
    | cons c rest =>
        have hrest := (List.prefix_append_right_inj t).mp h
        cases query with
        | none => exact absurd (List.prefix_nil.mp hrest) (by simp)
        | some query =>
            obtain ⟨rfl, -⟩ := List.cons_prefix_cons.mp hrest
            exact absurd (by simp) hs

/-- An encoded text that starts with a slash starts with no hexadecimal digit. -/
lemma isxdigit_of_encodes (hp : p.head? = some '/') (h : PercentEncodes p enc) :
    ∀ c ∈ enc.head?, isxdigit c = false := by
  cases h with
  | nil => simp
  | plain _ _ _ _ =>
      obtain rfl : _ = '/' := by simpa using hp
      simp [isxdigit]
  | escaped _ _ _ _ => simp [isxdigit]

lemma not_mem_of_encodes (hnul : '\x00' ∉ p) (h : PercentEncodes p enc) : '\x00' ∉ enc := by
  have hdigit : ∀ c, isxdigit c = true → '\x00' ≠ c := by
    rintro c hc rfl
    exact absurd hc (by decide)
  induction h with
  | nil => simp
  | plain _ _ _ _ ih =>
      obtain ⟨hc, hp⟩ := not_or.mp (mt List.mem_cons.mpr hnul)
      simpa [hc] using ih hp
  | escaped ha hb _ _ ih =>
      obtain ⟨-, hp⟩ := not_or.mp (mt List.mem_cons.mpr hnul)
      simpa [hdigit _ ha, hdigit _ hb] using ih hp

/-- The path of a request below a document root that holds no NUL. -/
lemma servedPath_eq (hp : p.head? = some '/') (hnul : '\x00' ∉ p) (henc : PercentEncodes p enc)
    (hroot : '\x00' ∉ root) :
    servedPath (root ++ (enc ++ queryText query)) =
      (cString (urldecode root ++ p ++ queryText ((query.map cString).map urldecode))).takeWhile
        (· ≠ '?') := by
  have henchead : ∀ c ∈ (enc ++ queryText (query.map cString)).head?, isxdigit c = false := by
    have hhead := isxdigit_of_encodes hp henc
    cases henc with
    | nil => simp at hp
    | plain _ _ _ _ => simpa using hhead
    | escaped _ _ _ _ => simpa using hhead
  have hdecoded : urldecode (root ++ (enc ++ queryText (query.map cString))) =
      urldecode root ++ p ++ queryText ((query.map cString).map urldecode) := by
    rw [urldecode_append henchead, urldecode_append (isxdigit_queryText _),
      urldecode_of_encodes henc, urldecode_queryText, List.append_assoc]
  rw [servedPath, cString_append hroot, cString_append (not_mem_of_encodes hnul henc),
    cString_queryText, hdecoded]

/-- **A request is resolved to the document root and its path** exactly if the
document root stays when it is decoded, and no `?` or NUL stands in the two. -/
theorem servedPath_eq_iff (hp : p.head? = some '/') (hnul : '\x00' ∉ p) (henc : PercentEncodes p enc) :
    servedPath (root ++ (enc ++ queryText query)) = root ++ p ↔
      ¬ HasEscape root ∧ '\x00' ∉ root ∧ '?' ∉ root ++ p := by
  rw [← urldecode_eq_self_iff]
  constructor
  · intro h
    have hquestion : '?' ∉ root ++ p := by
      rw [← h]
      intro hmem
      simpa using List.mem_takeWhile_imp hmem
    have hroot : '\x00' ∉ root := by
      intro hmem
      have hserved : '\x00' ∈ servedPath (root ++ (enc ++ queryText query)) := by
        rw [h]
        exact List.mem_append_left p hmem
      exact not_mem_cString _ ((List.takeWhile_prefix _).mem hserved)
    refine ⟨?_, hroot, hquestion⟩
    rw [servedPath_eq hp hnul henc hroot] at h
    have hprefix : root ++ p <+: urldecode root ++ p := by
      refine @prefix_of_append_queryText ((query.map cString).map urldecode) _ _ ?_ hquestion
      rw [← h]
      exact (List.takeWhile_prefix _).trans (List.takeWhile_prefix _)
    have hlength := length_urldecode_le root
    have heq : root ++ p = urldecode root ++ p :=
      hprefix.eq_of_length_le (by simpa using hlength)
    exact (List.append_cancel_right heq).symm
  · rintro ⟨hdecode, hroot, hquestion⟩
    have hbody : '\x00' ∉ root ++ p := by
      simpa [hroot] using hnul
    rw [servedPath_eq hp hnul henc hroot, hdecode, cString_append hbody, cString_queryText,
      List.takeWhile_append_of_pos fun c hc => by simpa using ne_of_mem_of_not_mem hc hquestion]
    cases query with
    | none => simp [queryText]
    | some query => simp [queryText]

end Served

/-! ### The lookup -/

/-- The last segment of a path contains a dot. -/
def DottedName (p : Str) : Prop := ∃ dir name, p = dir ++ '/' :: name ∧ '/' ∉ name ∧ '.' ∈ name

/-- The option `documentRoot`, which may be absent. -/
def documentRootJson : Option Str → Json
  | none => .null
  | some d => .str d

/-- A document root without its trailing slash. -/
def trimmed : Option Str → Str
  | none => []
  | some d => if d.getLast? = some '/' then d.dropLast else d

/-- A request is resolved to a path: it is the path that is served, and unless it
asks for the script alone, every run with enough fuel looks first where the
path leads to. -/
def LooksUp (options : Json) (path resource : Str) : Prop :=
  ∃ root, neuserver.getDocumentRoot options = .ok root ∧ servedPath (root ++ resource) = path ∧
    (globalsOnly path = true ∨ ∀ site script readerOptions lookup, site.options = options →
      lookupOf options site.mounts path = .ok lookup → ∃ n, ∀ fuel ≥ n,
        (neuserver.handleHTTP site (some script) readerOptions fuel resource).lookups.head? =
          some lookup)

/-- The condition: the document root is not the empty text, it holds nothing that
is decoded and no NUL, the path below it no question mark, and the two a dot that
is not their last character. -/
structure Resolved (d : Option Str) (p : Str) : Prop where
  root_ne : d ≠ some []
  escape : ¬ HasEscape (trimmed d)
  nul : '\x00' ∉ trimmed d
  question : '?' ∉ trimmed d ++ p
  dot : '.' ∈ (trimmed d ++ p).dropLast

section LooksUp

variable {options : Json} {d : Option Str} {p enc path : Str} {query : Option Str}

/-- The document root is read where it is absent or not empty. -/
lemma getDocumentRoot_eq
    (hd : settings.getOptionForCurrentMode options "documentRoot" = .ok (documentRootJson d)) :
    neuserver.getDocumentRoot options =
      if d = some [] then .error .undefinedBehaviour else .ok (trimmed d) := by
  rw [neuserver.getDocumentRoot, hd]
  cases d with
  | none => rfl
  | some d =>
      cases hlast : d.getLast? with
      | none =>
          obtain rfl := List.getLast?_eq_none_iff.mp hlast
          rfl
      | some c =>
          have hne : d ≠ [] := by
            rintro rfl
            cases hlast
          simp only [documentRootJson, ok_bind, Json.isNull, Json.getString, Bool.false_eq_true,
            if_false, hlast, trimmed, Option.some.injEq, hne]
          rfl

/-- A path is not completed exactly if a dot in it is not its last character. -/
lemma completed_eq_self_iff : completed path = some path ↔ '.' ∈ path.dropLast := by
  constructor
  · intro h
    by_contra hdot
    exact not_lt_of_completed h ((length_split_lt_two_iff path).mpr hdot)
  · exact completed_of_dot

/-- A path that is not empty is completed. -/
lemma exists_completed (h : path ≠ []) : ∃ page, completed path = some page := by
  rw [completed]
  split_ifs with hsplit
  · cases hlast : path.getLast? with
    | none => exact absurd (List.getLast?_eq_none_iff.mp hlast) h
    | some c => exact ⟨_, rfl⟩
  · exact ⟨_, rfl⟩

/-- The script alone is asked for by a path that does not end in a dot. -/
lemma dot_mem_dropLast_of_globalsOnly (h : globalsOnly path = true) (hdot : '.' ∈ path) :
    '.' ∈ path.dropLast := by
  have hmatch : globalsRequest.test path = true := (Bool.and_eq_true_iff.mp h).2
  obtain ⟨u, v, -, hv, rfl⟩ := Re.matches_cat.mp ((Re.test_iff _ _).mp hmatch)
  obtain ⟨v, w, -, hw, rfl⟩ := Re.matches_cat.mp hv
  obtain ⟨w, x, -, hx, rfl⟩ := Re.matches_cat.mp hw
  obtain rfl := Re.matches_lit.mp hx
  have hpath : u ++ (v ++ (w ++ "js".toList)) = u ++ v ++ w ++ ['j'] ++ ['s'] := by simp
  rw [hpath] at hdot ⊢
  rw [List.dropLast_concat]
  rcases List.mem_append.mp hdot with hdot | hdot
  · exact hdot
  · exact absurd (List.mem_singleton.mp hdot) (by decide)

/-- A run with fuel looks first where the completed path leads to. -/
lemma head_lookups_handleHTTP {site : Site} {script root resource page : Str}
    {readerOptions : fs.FileReaderOptions} {lookup : Lookup} (fuel : ℕ)
    (hroot : neuserver.getDocumentRoot site.options = .ok root)
    (hserved : servedPath (root ++ resource) = path) (hglobals : globalsOnly path = false)
    (hpage : completed path = some page)
    (hlookup : lookupOf site.options site.mounts page = .ok lookup) :
    (neuserver.handleHTTP site (some script) readerOptions (fuel + 2) resource).lookups.head? =
      some lookup := by
  rw [neuserver.handleHTTP_of_ok hroot, serve]
  simp only [hserved]
  by_cases hlib : clientLibrary.test path = true
  · rw [if_pos hlib]
    exact head_lookups_getAsset site fuel hpage hlookup
  · have hnot : globalsRequest.test path ≠ true := by
      simpa [globalsOnly, hlib] using hglobals
    rw [if_neg hlib, if_neg hnot]
    exact head_lookups_getAsset site fuel hpage hlookup

/-- **A request is resolved to the document root and its path, and looked up
there**, exactly under the condition. -/
theorem looksUp_iff
    (hd : settings.getOptionForCurrentMode options "documentRoot" = .ok (documentRootJson d))
    (hp : p.head? = some '/') (hnul : '\x00' ∉ p) (hdot : DottedName p)
    (henc : PercentEncodes p enc) :
    LooksUp options (trimmed d ++ p) (enc ++ queryText query) ↔ Resolved d p := by
  have hdotted : '.' ∈ trimmed d ++ p := by
    obtain ⟨dir, name, rfl, -, hname⟩ := hdot
    simp [hname]
  have hread := getDocumentRoot_eq hd
  constructor
  · rintro ⟨root, hroot, hserved, hlookups⟩
    have hne : d ≠ some [] := by
      rintro rfl
      rw [hread] at hroot
      cases hroot
    rw [if_neg hne] at hread
    obtain rfl : trimmed d = root := Except.ok.inj (hread.symm.trans hroot)
    obtain ⟨hescape, hrootnul, hquestion⟩ := (servedPath_eq_iff hp hnul henc).mp hserved
    refine ⟨hne, hescape, hrootnul, hquestion, ?_⟩
    by_cases hglobals : globalsOnly (trimmed d ++ p) = true
    · exact dot_mem_dropLast_of_globalsOnly hglobals hdotted
    · obtain ⟨page, hpage⟩ := exists_completed (List.ne_nil_of_mem hdotted)
      have hlookups := hlookups.resolve_left hglobals
      -- nothing is mounted, so that a path leads to the resource of its name
      obtain ⟨n, hn⟩ := hlookups (.directory options {} [] .empty) [] {} _ rfl rfl
      have hfirst := hn (n + 2) (by omega)
      rw [head_lookups_handleHTTP n hread hserved (by simpa using hglobals) hpage rfl] at hfirst
      obtain rfl : page = trimmed d ++ p := by simpa using hfirst
      exact completed_eq_self_iff.mp hpage
  · intro h
    rw [if_neg h.root_ne] at hread
    have hserved : servedPath (trimmed d ++ (enc ++ queryText query)) = trimmed d ++ p :=
      (servedPath_eq_iff hp hnul henc).mpr ⟨h.escape, h.nul, h.question⟩
    refine ⟨trimmed d, hread, hserved, ?_⟩
    by_cases hglobals : globalsOnly (trimmed d ++ p) = true
    · exact .inl hglobals
    · refine .inr fun site script readerOptions lookup hoptions hlookup => ⟨2, fun fuel hfuel => ?_⟩
      obtain ⟨n, rfl⟩ := Nat.exists_eq_add_of_le' hfuel
      subst hoptions
      exact head_lookups_handleHTTP n hread hserved (by simpa using hglobals)
        (completed_eq_self_iff.mpr h.dot) hlookup

/-- A configuration whose document root is `/resources/`. -/
def resourcesOptions : Json := .obj [("documentRoot", .str "/resources/")]

/-- A blank is encoded, and a query follows. -/
theorem encoded_blank_looksUp :
    LooksUp resourcesOptions "/resources/a b.js" "/a%20b.js?v=1" := by
  have henc : PercentEncodes "/a b.js".toList "/a%20b.js".toList := by
    refine .plain (by decide) (by decide) (by decide) ?_
    refine .plain (by decide) (by decide) (by decide) ?_
    refine .escaped (by decide) (by decide) (by decide) ?_
    refine .plain (by decide) (by decide) (by decide) ?_
    refine .plain (by decide) (by decide) (by decide) ?_
    refine .plain (by decide) (by decide) (by decide) ?_
    exact .plain (by decide) (by decide) (by decide) .nil
  have hescape : ¬ HasEscape (trimmed (some "/resources/".toList)) :=
    urldecode_eq_self_iff.mp (by decide)
  exact (@looksUp_iff resourcesOptions (some "/resources/".toList) "/a b.js".toList
    "/a%20b.js".toList (some "v=1".toList) rfl rfl (by decide)
    ⟨[], "a b.js".toList, rfl, by decide, by decide⟩ henc).mpr
    ⟨by decide, hescape, by decide, by decide, by decide⟩

/-- An encoded question mark cuts the path. -/
theorem encoded_question_cut :
    ¬ ∀ (options : Json) (d : Option Str) (p enc : Str) (query : Option Str),
      settings.getOptionForCurrentMode options "documentRoot" = .ok (documentRootJson d) →
        p.head? = some '/' → '\x00' ∉ p → DottedName p → PercentEncodes p enc →
          LooksUp options (trimmed d ++ p) (enc ++ queryText query) := by
  intro h
  have henc : PercentEncodes "/a?.js".toList "/a%3F.js".toList := by
    refine .plain (by decide) (by decide) (by decide) ?_
    refine .plain (by decide) (by decide) (by decide) ?_
    refine .escaped (by decide) (by decide) (by decide) ?_
    refine .plain (by decide) (by decide) (by decide) ?_
    refine .plain (by decide) (by decide) (by decide) ?_
    exact .plain (by decide) (by decide) (by decide) .nil
  obtain ⟨root, hroot, hserved, -⟩ := h resourcesOptions (some "/resources/".toList) "/a?.js".toList
    "/a%3F.js".toList none rfl rfl (by decide) ⟨[], "a?.js".toList, rfl, by decide, by decide⟩ henc
  obtain rfl : "/resources".toList = root := Except.ok.inj hroot
  exact absurd hserved (by decide)

end LooksUp

end router

end Neutralino
