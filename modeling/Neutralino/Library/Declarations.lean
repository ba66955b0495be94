import Neutralino.Library.EmbeddedJson
import Neutralino.Library.Literals

/-!
Scripts of JavaScript that declare variables and do nothing else.

* `Bound`, `readDeclaration`: a declaration `var name=…;` of a literal, of a JSON
  value or of a text that is parsed, read from the beginning of a script.
* `Script`: a script is a list of declarations.
* `Initialiser`, `script`: the declarations that are written, with a quoted value
  pasted as it is.
* `binds_iff`: **when a written script declares its variables with their values**:
  the quoted values are verbatim.
-/

namespace JsonText

open Quoted (Text escapeChar IsVerbatim)

/-! ### Reading -/

/-- What a variable is bound to: a string, a JSON value by its text, or what a text
is parsed to. -/
inductive Bound where
  | string (s : Text)
  | json (text : Text)
  | parsed (text : Text)
  deriving DecidableEq

/-- The characters of names; those beyond ASCII are not told apart. -/
def isNameChar (c : Char) : Bool := c.isAlphanum || c = '_' || c = '$' || 128 ≤ c.toNat

/-- A name: no digit stands first. -/
def isName (name : Text) : Bool :=
  match name with
  | [] => false
  | c :: s => !c.isDigit && (c :: s).all isNameChar

/-- Where a scan for the end of an expression stands. -/
inductive Scan where
  | outside
  | inside
  | escaped

/-- The text up to the first semicolon outside strings, and what follows it. -/
def expression : Scan → Text → Text × Text
  | _, [] => ([], [])
  | .outside, c :: s =>
      if c = ';' then ([], c :: s)
      else
        let r := expression (if c = '"' then .inside else .outside) s
        (c :: r.1, r.2)
  | .inside, c :: s =>
      let r := expression (if c = '"' then .outside else if c = '\\' then .escaped else .inside) s
      (c :: r.1, r.2)
  | .escaped, c :: s =>
      let r := expression .inside s
      (c :: r.1, r.2)

/-- What stands before a literal, and before a literal that is parsed. -/
def literalStart : Text := ['=', '\'']

def parseStart : Text := '=' :: "JSON.parse('".toList

/-- A literal up to its closing quote and what has to follow it. -/
def readLiteral (close : Text) (bound : Text → Bound) (s : Text) : Option (Bound × Text) :=
  (Quoted.javascript.read s).bind fun r =>
    (close.isPrefixOf? r.2).map fun rest => (bound r.1, rest)

/-- An expression up to its semicolon. -/
def readExpression (s : Text) : Option (Bound × Text) :=
  ([';'].isPrefixOf? (expression .outside s).2).map fun rest =>
    (.json (expression .outside s).1, rest)

/-- The initialiser of a declaration up to its semicolon, and what follows. -/
def readInitialiser (t : Text) : Option (Bound × Text) :=
  match literalStart.isPrefixOf? t with
  | some s => readLiteral [';'] .string s
  | none =>
      match parseStart.isPrefixOf? t with
      | some s => readLiteral [')', ';'] .parsed s
      | none => (['='].isPrefixOf? t).bind readExpression

/-- The declaration that a script begins with, and the rest of the script. -/
def readDeclaration (t : Text) : Option ((Text × Bound) × Text) :=
  ("var ".toList.isPrefixOf? t).bind fun s =>
    if isName (s.takeWhile isNameChar) then
      (readInitialiser (s.dropWhile isNameChar)).map fun r =>
        ((s.takeWhile isNameChar, r.1), r.2)
    else none

section

variable (ν : Type) [Numeral ν]

/-- Only the texts of JSON values are expressions here. -/
def Bound.IsValue : Bound → Prop
  | .json text => ∃ value : Value ν, Parses text value
  | _ => True

/-- A script is a list of declarations. -/
inductive Script : Text → List (Text × Bound) → Prop
  | nil : Script [] []
  | cons {t rest : Text} {b : Text × Bound} {bs : List (Text × Bound)}
      (hread : readDeclaration t = some (b, rest)) (hvalue : b.2.IsValue ν)
      (hrest : Script rest bs) : Script t (b :: bs)

/-- A script declares the variables of these names and no others, each claimed one
with its string. -/
def Binds (script : Text) (names : List Text) (Claimed : Text → Text → Prop) : Prop :=
  ∃ bs, Script ν script bs ∧ bs.map Prod.fst = names ∧
    ∀ b ∈ bs, ∀ value, Claimed b.1 value → b.2 = .string value

end

/-! ### Writing -/

/-- What a written declaration is initialised with: a text between quotes as it is,
a value, or a value inside a literal that is parsed. -/
inductive Initialiser (ν : Type) where
  | quoted (text : Text)
  | json (value : Value ν)
  | parsed (value : Value ν)

section Writing

variable {ν : Type} [Numeral ν]

/-- The text of an initialiser. -/
def Initialiser.text : Initialiser ν → Text
  | .quoted text => literalStart ++ text ++ ['\'', ';']
  | .json value => '=' :: (dump value ++ [';'])
  | .parsed value => parseStart ++ dump value ++ ['\'', ')', ';']

/-- What the variable is meant to be bound to. -/
def Initialiser.bound : Initialiser ν → Bound
  | .quoted text => .string text
  | .json value => .json (dump value)
  | .parsed value => .parsed ((tokens value).flatMap Token.raw)

/-- A declaration. -/
def declaration (d : Text × Initialiser ν) : Text := "var ".toList ++ d.1 ++ d.2.text

/-- A script of declarations. -/
def script (ds : List (Text × Initialiser ν)) : Text := ds.flatMap declaration

/-- An initialiser that is read as it is meant. -/
def Initialiser.Sound : Initialiser ν → Prop
  | .quoted text => ∀ c ∈ text, IsVerbatim c
  | .json value => ∀ n, .num n ∈ tokens value → ReadBack n
  | .parsed value => ∀ s, .str s ∈ tokens value → '\'' ∉ s

/-! ### The end of an expression -/

/-- A code that leads the scan from one place to another, whatever follows. -/
def Scans (code : Text) (place place' : Scan) : Prop :=
  ∀ s, expression place (code ++ s) = (code ++ (expression place' s).1, (expression place' s).2)

lemma scans_nil (place : Scan) : Scans [] place place := fun _ => rfl

lemma Scans.append {code code' : Text} {place place' place'' : Scan} (h : Scans code place place')
    (h' : Scans code' place' place'') : Scans (code ++ code') place place'' := by
  intro s
  rw [List.append_assoc, h, h', List.append_assoc]

lemma Scans.flatMap {α : Type*} {write : α → Text} {place : Scan} {xs : List α}
    (h : ∀ x ∈ xs, Scans (write x) place place) : Scans (xs.flatMap write) place place := by
  induction xs with
  | nil => exact scans_nil place
  | cons x xs ih =>
      rw [List.flatMap_cons]
      exact (h x List.mem_cons_self).append (ih fun y hy => h y (List.mem_cons_of_mem _ hy))

lemma scans_outside {c : Char} (hend : c ≠ ';') (hquote : c ≠ '"') : Scans [c] .outside .outside := by
  intro s
  simp [expression, hend, hquote]

lemma scans_inside {c : Char} (hquote : c ≠ '"') (hbackslash : c ≠ '\\') :
    Scans [c] .inside .inside := by
  intro s
  simp [expression, hquote, hbackslash]

lemma scans_opening : Scans ['"'] .outside .inside := fun _ => rfl

lemma scans_closing : Scans ['"'] .inside .outside := fun _ => rfl

lemma scans_escape (c : Char) : Scans ['\\', c] .inside .inside := fun _ => rfl

lemma scans_outside_of_forall {code : Text} (h : ∀ c ∈ code, c ≠ ';' ∧ c ≠ '"') :
    Scans code .outside .outside := by
  have hscans := Scans.flatMap fun c hc => scans_outside (h c hc).1 (h c hc).2
  rwa [List.flatMap_singleton'] at hscans

/-- An escaped character stays inside its string. -/
lemma scans_escapeChar (c : Char) : Scans (escapeChar c) .inside .inside := by
  have hhex : ∀ n < 32, Quoted.hexDigit (n / 16) ≠ '"' ∧ Quoted.hexDigit (n / 16) ≠ '\\' ∧
      Quoted.hexDigit (n % 16) ≠ '"' ∧ Quoted.hexDigit (n % 16) ≠ '\\' := by decide
  refine Quoted.escapeChar_cases (P := fun _ written => Scans written .inside .inside)
    (fun e _ => scans_escape e.1) (fun c hcontrol => ?_) (fun c hquote hbackslash _ => ?_) c
  · obtain ⟨hhigh, hhigh', hlow, hlow'⟩ := hhex _ hcontrol
    have hzero : Scans ['0'] .inside .inside := scans_inside (by decide) (by decide)
    exact (scans_escape 'u').append (hzero.append (hzero.append
      ((scans_inside hhigh hhigh').append (scans_inside hlow hlow'))))
  · exact scans_inside hquote hbackslash

lemma scans_text {token : Token ν} (hok : token.Ok) : Scans token.text .outside .outside := by
  cases token with
  | punct c =>
      refine scans_outside ?_ ?_
      · rintro rfl
        cases hok
      · rintro rfl
        cases hok
  | null => exact fun _ => rfl
  | bool b => cases b <;> exact fun _ => rfl
  | num n =>
      refine scans_outside_of_forall fun c hc => ⟨?_, ?_⟩
      · rintro rfl
        cases Numeral.isNumberChar_of_mem n _ hc
      · rintro rfl
        cases Numeral.isNumberChar_of_mem n _ hc
  | str s =>
      exact scans_opening.append ((Scans.flatMap fun c _ => scans_escapeChar c).append scans_closing)

/-- The text of a value ends where it should. -/
lemma expression_dump (value : Value ν) (s : Text) :
    expression .outside (dump value ++ ';' :: s) = (dump value, ';' :: s) := by
  have hscans : Scans (dump value) .outside .outside := by
    rw [dump_eq]
    exact Scans.flatMap fun token htoken => scans_text ((spaced_tokens value).ok token htoken)
  rw [hscans]
  simp [expression]

/-! ### One declaration -/

/-- No text of a value begins as a literal or as a call. -/
lemma dump_head (value : Value ν) (s : Text) :
    literalStart.isPrefixOf? ('=' :: (dump value ++ s)) = none ∧
      parseStart.isPrefixOf? ('=' :: (dump value ++ s)) = none := by
  have hhead : ∃ c rest, dump value = c :: rest ∧ c ≠ '\'' ∧ c ≠ 'J' := by
    cases value with
    | null => exact ⟨_, _, rfl, by decide, by decide⟩
    | bool b => cases b <;> exact ⟨_, _, rfl, by decide, by decide⟩
    | num n =>
        obtain ⟨c, rest, hnum⟩ := List.exists_cons_of_ne_nil (Numeral.text_ne_nil n)
        have hchar := Numeral.isNumberChar_of_mem n c (hnum ▸ List.mem_cons_self)
        refine ⟨c, rest, hnum, ?_, ?_⟩
        · rintro rfl
          cases hchar
        · rintro rfl
          cases hchar
    | str s => exact ⟨_, _, rfl, by decide, by decide⟩
    | arr xs => exact ⟨_, _, rfl, by decide, by decide⟩
    | obj members => exact ⟨_, _, rfl, by decide, by decide⟩
  obtain ⟨c, rest, hdump, hquote, hcall⟩ := hhead
  rw [hdump]
  constructor
  · simp [literalStart, List.isPrefixOf?, Ne.symm hquote]
  · simp [parseStart, List.isPrefixOf?, Ne.symm hcall]

/-- A quoted text is read as the literal is. -/
lemma readInitialiser_quoted (text s : Text) :
    readInitialiser ((Initialiser.quoted text : Initialiser ν).text ++ s) =
      readLiteral [';'] .string (text ++ '\'' :: ';' :: s) := by
  have htext : (Initialiser.quoted text : Initialiser ν).text ++ s =
      literalStart ++ (text ++ '\'' :: ';' :: s) := by
    simp only [Initialiser.text, List.append_assoc, List.cons_append, List.nil_append]
  rw [htext, readInitialiser, List.isPrefixOf?_eq_some_iff_append_eq.mpr rfl]

/-- An initialiser is read as it is meant. -/
lemma readInitialiser_text {i : Initialiser ν} (h : i.Sound) (s : Text) :
    readInitialiser (i.text ++ s) = some (i.bound, s) := by
  cases i with
  | quoted text =>
      rw [readInitialiser_quoted, readLiteral, Quoted.javascript_read_verbatim h]
      rfl
  | json value =>
      have htext : (Initialiser.json value).text ++ s = '=' :: (dump value ++ ';' :: s) := by
        simp only [Initialiser.text, List.append_assoc, List.cons_append, List.nil_append]
      obtain ⟨hquoted, hparsed⟩ := dump_head value (';' :: s)
      rw [htext, readInitialiser, hquoted, hparsed]
      show readExpression (dump value ++ ';' :: s) = _
      rw [readExpression, expression_dump]
      rfl
  | parsed value =>
      have htext : (Initialiser.parsed value).text ++ s =
          parseStart ++ (dump value ++ '\'' :: ')' :: ';' :: s) := by
        simp only [Initialiser.text, List.append_assoc, List.cons_append, List.nil_append]
      have hliteral : literalStart.isPrefixOf?
          (parseStart ++ (dump value ++ '\'' :: ')' :: ';' :: s)) = none := rfl
      have hread := (javascript_read_iff (spaced_tokens value).ok (r := ')' :: ';' :: s)).mpr
        ⟨rfl, h⟩
      rw [← dump_eq] at hread
      rw [htext, readInitialiser, hliteral, List.isPrefixOf?_eq_some_iff_append_eq.mpr rfl]
      show readLiteral _ _ _ = _
      rw [readLiteral, hread]
      rfl

lemma text_eq_cons (i : Initialiser ν) : ∃ t, i.text = '=' :: t := by
  cases i <;> exact ⟨_, rfl⟩

/-- The name of a declaration is read, and its initialiser. -/
lemma readDeclaration_append {d : Text × Initialiser ν} (hname : isName d.1 = true) (s : Text) :
    readDeclaration (declaration d ++ s) =
      (readInitialiser (d.2.text ++ s)).map fun r => ((d.1, r.1), r.2) := by
  obtain ⟨name, i⟩ := d
  have hchars : ∀ c ∈ name, isNameChar c = true := by
    cases name with
    | nil => cases hname
    | cons c name =>
        rw [isName, Bool.and_eq_true] at hname
        exact List.all_eq_true.mp hname.2
  obtain ⟨t, ht⟩ := text_eq_cons i
  have htake : (name ++ (i.text ++ s)).takeWhile isNameChar = name := by
    rw [List.takeWhile_append_of_pos hchars, ht, List.cons_append, List.takeWhile_cons_of_neg (by decide),
      List.append_nil]
  have hdrop : (name ++ (i.text ++ s)).dropWhile isNameChar = i.text ++ s := by
    rw [List.dropWhile_append_of_pos hchars, ht, List.cons_append, List.dropWhile_cons_of_neg (by decide)]
  rw [declaration, List.append_assoc, List.append_assoc, readDeclaration,
    List.isPrefixOf?_eq_some_iff_append_eq.mpr rfl, Option.bind_some, htake, hdrop, if_pos hname]

/-! ### Scripts -/

lemma bound_isValue {i : Initialiser ν} (h : i.Sound) : i.bound.IsValue ν := by
  cases i with
  | quoted text => trivial
  | json value => exact ⟨value, parses_dump h⟩
  | parsed value => trivial

/-- Sound declarations are read as they are meant. -/
lemma script_of_sound {ds : List (Text × Initialiser ν)}
    (h : ∀ d ∈ ds, isName d.1 = true ∧ d.2.Sound) :
    Script ν (script ds) (ds.map fun d => (d.1, d.2.bound)) := by
  induction ds with
  | nil => exact .nil
  | cons d ds ih =>
      obtain ⟨hname, hsound⟩ := h d List.mem_cons_self
      have hread : readDeclaration (script (d :: ds)) = some ((d.1, d.2.bound), script ds) := by
        rw [script, List.flatMap_cons, readDeclaration_append hname, readInitialiser_text hsound]
        rfl
      exact .cons hread (bound_isValue hsound) (ih fun d' hd' => h d' (List.mem_cons_of_mem _ hd'))

/-- A quoted value that is read as itself is verbatim. -/
lemma verbatim_of_readInitialiser {text s rest : Text}
    (h : readInitialiser ((Initialiser.quoted text : Initialiser ν).text ++ s) =
      some (.string text, rest)) : ∀ c ∈ text, IsVerbatim c := by
  rw [readInitialiser_quoted, readLiteral] at h
  obtain ⟨⟨u, rest'⟩, hread, h⟩ := Option.bind_eq_some_iff.mp h
  obtain ⟨_, -, heq⟩ := Option.map_eq_some_iff.mp h
  obtain rfl : u = text := Bound.string.inj (Prod.mk.inj heq).1
  exact Quoted.javascript_read_self_iff.mp ⟨rest', hread⟩

section Binds

variable {ds : List (Text × Initialiser ν)} {Claimed : Text → Text → Prop}
  (hnames : ∀ d ∈ ds, isName d.1 = true)
  (hclaimed : ∀ d ∈ ds, ∀ value, Claimed d.1 value → d.2 = .quoted value)
  (hothers : ∀ d ∈ ds, (∀ value, ¬ Claimed d.1 value) → d.2.Sound)

include hnames hclaimed hothers

/-- The claimed values are verbatim in a script that declares its variables: up to
each declaration the script is read as it was written. -/
lemma verbatim_of_script {bs : List (Text × Bound)} (hscript : Script ν (script ds) bs)
    (hbs : bs.map Prod.fst = ds.map Prod.fst)
    (hvalues : ∀ b ∈ bs, ∀ value, Claimed b.1 value → b.2 = .string value) :
    ∀ d ∈ ds, ∀ value, Claimed d.1 value → ∀ c ∈ value, IsVerbatim c := by
  induction ds generalizing bs with
  | nil => exact fun _ hd => nomatch hd
  | cons d ds ih =>
      cases hscript with
      | @cons _ rest b bs hread hvalue hrest =>
          have htail := (List.cons.inj hbs).2
          rw [script, List.flatMap_cons, readDeclaration_append (hnames d List.mem_cons_self)] at hread
          obtain ⟨⟨bound, rest'⟩, hinit, heq⟩ := Option.map_eq_some_iff.mp hread
          obtain ⟨rfl, rfl⟩ := Prod.mk.inj heq
          have hfirst : ∀ value, Claimed d.1 value → ∀ c ∈ value, IsVerbatim c := by
            intro value hvalue
            have hbound : bound = .string value := hvalues _ List.mem_cons_self value hvalue
            rw [hclaimed d List.mem_cons_self value hvalue, hbound] at hinit
            exact verbatim_of_readInitialiser hinit
          have hsound : d.2.Sound := by
            by_cases h : ∃ value, Claimed d.1 value
            · obtain ⟨value, hvalue⟩ := h
              rw [hclaimed d List.mem_cons_self value hvalue]
              exact hfirst value hvalue
            · exact hothers d List.mem_cons_self (not_exists.mp h)
          rw [readInitialiser_text hsound] at hinit
          obtain rfl := (Prod.mk.inj (Option.some.inj hinit)).2
          refine List.forall_mem_cons.mpr ⟨hfirst, ?_⟩
          exact ih (fun d' hd' => hnames d' (List.mem_cons_of_mem _ hd'))
            (fun d' hd' => hclaimed d' (List.mem_cons_of_mem _ hd'))
            (fun d' hd' => hothers d' (List.mem_cons_of_mem _ hd')) hrest htail
            fun b' hb' => hvalues b' (List.mem_cons_of_mem _ hb')

/-- **When a written script declares its variables with their values**: the claimed
values, which are quoted, are verbatim. -/
theorem binds_iff : Binds ν (script ds) (ds.map Prod.fst) Claimed ↔
    ∀ d ∈ ds, ∀ value, Claimed d.1 value → ∀ c ∈ value, IsVerbatim c := by
  constructor
  · rintro ⟨bs, hscript, hbs, hvalues⟩
    exact verbatim_of_script hnames hclaimed hothers hscript hbs hvalues
  · intro hverbatim
    have hsound : ∀ d ∈ ds, isName d.1 = true ∧ d.2.Sound := by
      intro d hd
      refine ⟨hnames d hd, ?_⟩
      by_cases h : ∃ value, Claimed d.1 value
      · obtain ⟨value, hvalue⟩ := h
        rw [hclaimed d hd value hvalue]
        exact hverbatim d hd value hvalue
      · exact hothers d hd (not_exists.mp h)
    refine ⟨_, script_of_sound hsound, ?_, ?_⟩
    · rw [List.map_map]
      rfl
    · intro b hb value hvalue
      obtain ⟨d, hd, rfl⟩ := List.mem_map.mp hb
      show d.2.bound = _
      rw [hclaimed d hd value hvalue]
      rfl

end Binds

end Writing

end JsonText
