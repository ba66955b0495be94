import Neutralino.Server.Tokens

/-!
The parser of the JSON library: `json::parse`, with the callbacks that build the value.

* `Dom`: the value so far, with the containers that are still open.
* `round`, `loop`, `parse`: `sax_parse_internal`, a loop over the tokens with a stack of
  the containers it is in.
* `domOf`: what is built of a value; of members with one key the last counts.
* `Complete`, `Inside`: **what the loop has read is what it has built**, in every round.
* `Refuses`: what is thrown, by every round and so by the loop.
* `parse_iff`: **the parser accepts the texts of JSON in UTF-8**, behind a byte order mark
  or not and up to a byte zero or the end, and builds their values; for other bytes it throws
  a parse error, or tells of a number out of range.
-/

namespace Neutralino.parser

open JsonText (Floats Number Token Value tokens tokensList tokensMembers Spaced Parses)
open Quoted (Text)
open Utf8 (encode charOf)
open lexer (TokenType Means Scanned Tail scan skipBom)

/-! ### The value that is built -/

/-- The string of some bytes. -/
def stringOf (bytes : List UInt8) : Str := bytes.map charOf

/-- A container that is not closed, and of an object the key of the next element. -/
inductive Frame where
  | array (elements : List Json)
  | object (members : List (Str × Json)) (key : Str)

/-- `json_sax_dom_parser`: the value, and the containers that `ref_stack` points to, each
with what is in it already.  A container joins the one around it when it is closed. -/
structure Dom where
  root : Json := .null
  refStack : List Frame := []

namespace Dom

/-- `handle_value`. -/
def handleValue (v : Json) (d : Dom) : Dom :=
  match d.refStack with
  | [] => { d with root := v }
  | .array elements :: frames => { d with refStack := .array (elements ++ [v]) :: frames }
  | .object members key :: frames =>
      { d with refStack := .object (insertMember key v members) key :: frames }

/-- `start_object`. -/
def startObject (d : Dom) : Dom := { d with refStack := .object [] [] :: d.refStack }

/-- `start_array`. -/
def startArray (d : Dom) : Dom := { d with refStack := .array [] :: d.refStack }

/-- `key`; the null that stands under a new key is overwritten by the element. -/
def key (k : Str) (d : Dom) : Dom :=
  match d.refStack with
  | .object members _ :: frames => { d with refStack := .object members k :: frames }
  | _ => d

/-- `end_object`. -/
def endObject (d : Dom) : Dom :=
  match d.refStack with
  | .object members _ :: frames => handleValue (.obj members) { d with refStack := frames }
  | _ => d

/-- `end_array`. -/
def endArray (d : Dom) : Dom :=
  match d.refStack with
  | .array elements :: frames => handleValue (.arr elements) { d with refStack := frames }
  | _ => d

end Dom

/-! ### The loop -/

/-- `parser`: what the lexer has not read, the last token, the containers the loop is in
(`true` for an array), and the value. -/
structure Parser (φ : Type) where
  input : List UInt8
  lastToken : TokenType φ
  states : List Bool := []
  dom : Dom := {}

section Loop

variable {φ : Type} [Floats φ]

/-- `get_token`. -/
def Parser.getToken (p : Parser φ) : Parser φ :=
  let token := scan (φ := φ) p.input
  { p with lastToken := token.1, input := token.2 }

def Parser.handleValue (p : Parser φ) (v : Json) : Parser φ :=
  { p with dom := p.dom.handleValue v }

/-- The check of the colon behind a key. -/
def separator (p : Parser φ) : Except Fault (Parser φ) :=
  match p.lastToken with
  | .nameSeparator => .ok p
  | _ => .error .parseError

/-- A key that was read, and the colon behind it. -/
def memberKey (p : Parser φ) : Except Fault (Parser φ) :=
  match p.lastToken with
  | .valueString key => separator { p with dom := p.dom.key (stringOf key) }.getToken
  | _ => .error .parseError

/-- The case `begin_object`, and whether a value is complete behind it. -/
def beginObject (p : Parser φ) : Except Fault (Parser φ × Bool) :=
  let p := { p with dom := p.dom.startObject }.getToken
  match p.lastToken with
  | .endObject => .ok ({ p with dom := p.dom.endObject }, true)
  | _ => do
      let p ← memberKey p
      .ok ({ p with states := false :: p.states }.getToken, false)

/-- The case `begin_array`. -/
def beginArray (p : Parser φ) : Except Fault (Parser φ × Bool) :=
  let p := { p with dom := p.dom.startArray }.getToken
  match p.lastToken with
  | .endArray => .ok ({ p with dom := p.dom.endArray }, true)
  | _ => .ok ({ p with states := true :: p.states }, false)

/-- The `switch` over the last token. -/
def value (float : φ → Json) (p : Parser φ) : Except Fault (Parser φ × Bool) :=
  match p.lastToken with
  | .beginObject => beginObject p
  | .beginArray => beginArray p
  | .valueFloat none => .error .outOfRange
  | .valueFloat (some x) => .ok (p.handleValue (float x), true)
  | .literalFalse => .ok (p.handleValue (.bool false), true)
  | .literalNull => .ok (p.handleValue .null, true)
  | .literalTrue => .ok (p.handleValue (.bool true), true)
  | .valueInteger n => .ok (p.handleValue (.num n), true)
  | .valueString s => .ok (p.handleValue (.str (stringOf s)), true)
  | .valueUnsigned n => .ok (p.handleValue (.num n), true)
  | _ => .error .parseError

/-- What a round ends with: the loop is left, or goes on, perhaps behind the `switch`. -/
inductive Next (φ : Type) where
  | done (p : Parser φ)
  | again (p : Parser φ) (skipToStateEvaluation : Bool)

/-- What follows the `switch`. -/
def evaluate (p : Parser φ) : Except Fault (Next φ) :=
  match p.states with
  | [] => .ok (.done p)
  | true :: states =>
      let p := p.getToken
      match p.lastToken with
      | .valueSeparator => .ok (.again p.getToken false)
      | .endArray => .ok (.again { p with dom := p.dom.endArray, states } true)
      | _ => .error .parseError
  | false :: states =>
      let p := p.getToken
      match p.lastToken with
      | .valueSeparator => do
          let p ← memberKey p.getToken
          .ok (.again p.getToken false)
      | .endObject => .ok (.again { p with dom := p.dom.endObject, states } true)
      | _ => .error .parseError

/-- A round of `sax_parse_internal`. -/
def round (float : φ → Json) (p : Parser φ) (skipToStateEvaluation : Bool) :
    Except Fault (Next φ) :=
  if skipToStateEvaluation then evaluate p
  else do
    let (p, complete) ← value float p
    if complete then evaluate p else .ok (.again p false)

/-- What bounds the rounds to come. -/
def Parser.left (p : Parser φ) : ℕ :=
  2 * p.input.length +
    match p.lastToken with
    | .beginArray => 1
    | _ => 0

lemma getToken_left (p : Parser φ) : p.getToken.left ≤ 2 * p.input.length := by
  obtain ⟨hle, hlt⟩ := lexer.scan_length (φ := φ) p.input
  unfold Parser.left
  split
  · rename_i hlast
    have hlast' : (scan (φ := φ) p.input).1 = .beginArray := hlast
    rcases hlt with hlt | herror | hend
    · show 2 * (scan (φ := φ) p.input).2.length + 1 ≤ _
      omega
    · cases hlast'.symm.trans herror
    · cases hlast'.symm.trans hend
  · show 2 * (scan (φ := φ) p.input).2.length + 0 ≤ _
    omega

lemma getToken_length (p : Parser φ) : p.getToken.input.length ≤ p.input.length :=
  (lexer.scan_length (φ := φ) p.input).1

lemma getToken_length_lt {p : Parser φ} (herror : p.getToken.lastToken ≠ .parseError)
    (hend : p.getToken.lastToken ≠ .endOfInput) : p.getToken.input.length < p.input.length := by
  rcases (lexer.scan_length (φ := φ) p.input).2 with hlt | h | h
  · exact hlt
  · exact absurd h herror
  · exact absurd h hend

omit [Floats φ] in
lemma separator_eq_ok {p p' : Parser φ} :
    separator p = .ok p' ↔ p' = p ∧ p.lastToken = .nameSeparator := by
  unfold separator
  split
  · rename_i hlast
    simp [hlast, eq_comm]
  · rename_i hlast
    exact ⟨nofun, fun h => absurd h.2 hlast⟩

/-- A key with its colon. -/
lemma memberKey_eq_ok {p p' : Parser φ} (h : memberKey p = .ok p') :
    ∃ key, p.lastToken = .valueString key ∧
      p' = { p with dom := p.dom.key (stringOf key) }.getToken ∧ p'.lastToken = .nameSeparator := by
  unfold memberKey at h
  split at h
  · rename_i key hkey
    obtain ⟨rfl, hseparator⟩ := separator_eq_ok.mp h
    exact ⟨key, hkey, rfl, hseparator⟩
  · cases h

end Loop

/-! ### What is built of a value -/

section Built

variable {φ : Type} (float : φ → Json)

mutual

/-- What is built of a value. -/
def domOf : Value (Number φ) → Json
  | .null => .null
  | .bool b => .bool b
  | .num (.whole n) => .num n
  | .num (.float x) => float x
  | .str s => .str (stringOf (encode s))
  | .arr xs => .arr (domElements xs)
  | .obj members => .obj (domMembers [] members)

def domElements : List (Value (Number φ)) → List Json
  | [] => []
  | x :: xs => domOf x :: domElements xs

/-- The members behind those that are there: a key that is there gets the new value. -/
def domMembers (built : List (Str × Json)) : List (Text × Value (Number φ)) → List (Str × Json)
  | [] => built
  | (key, x) :: members => domMembers (insertMember (stringOf (encode key)) (domOf x) built) members

end

end Built

/-! ### What one round does -/

section Steps

variable {φ : Type} [Floats φ] {float : φ → Json} {p p' : Parser φ}

/-- What the `switch` over the last token does. -/
inductive ValueStep (float : φ → Json) (p : Parser φ) : Parser φ → Bool → Prop
  | scalar (v : Value (Number φ)) {token : Token (Number φ)} : Means p.lastToken token →
      tokens v = [token] → ValueStep float p (p.handleValue (domOf float v)) true
  | string {s : List UInt8} : p.lastToken = .valueString s →
      ValueStep float p (p.handleValue (.str (stringOf s))) true
  | emptyObject {q : Parser φ} : p.lastToken = .beginObject →
      q = { p with dom := p.dom.startObject }.getToken → q.lastToken = .endObject →
        ValueStep float p { q with dom := q.dom.endObject } true
  | object {q q' : Parser φ} : p.lastToken = .beginObject →
      q = { p with dom := p.dom.startObject }.getToken → memberKey q = .ok q' →
        ValueStep float p { q' with states := false :: q'.states }.getToken false
  | emptyArray {q : Parser φ} : p.lastToken = .beginArray →
      q = { p with dom := p.dom.startArray }.getToken → q.lastToken = .endArray →
        ValueStep float p { q with dom := q.dom.endArray } true
  | array {q : Parser φ} : p.lastToken = .beginArray →
      q = { p with dom := p.dom.startArray }.getToken → q.lastToken ≠ .endArray →
        ValueStep float p { q with states := true :: q.states } false

lemma valueStep_of_value {complete : Bool} (h : value float p = .ok (p', complete)) :
    ValueStep float p p' complete := by
  unfold value at h
  split at h
  case h_1 hlast =>
    unfold beginObject at h
    dsimp only at h
    split at h
    · cases h
      exact .emptyObject hlast rfl ‹_›
    · obtain ⟨q', hkey, hq'⟩ := bind_eq_ok.mp h
      cases hq'
      exact .object hlast rfl hkey
  case h_2 hlast =>
    unfold beginArray at h
    dsimp only at h
    split at h
    · cases h
      exact .emptyArray hlast rfl ‹_›
    · rename_i hnot
      cases h
      exact .array hlast rfl hnot
  case h_3 => cases h
  case h_4 x hlast =>
    cases h
    exact .scalar (.num (.float x)) (by rw [hlast]; exact .valueFloat x) rfl
  case h_5 hlast => cases h; exact .scalar (.bool false) (by rw [hlast]; exact .literalFalse) rfl
  case h_6 hlast => cases h; exact .scalar .null (by rw [hlast]; exact .literalNull) rfl
  case h_7 hlast => cases h; exact .scalar (.bool true) (by rw [hlast]; exact .literalTrue) rfl
  case h_8 n hlast =>
    cases h
    exact .scalar (.num (.whole n)) (by rw [hlast]; exact .valueInteger n) rfl
  case h_9 hlast => cases h; exact .string hlast
  case h_10 n hlast =>
    cases h
    exact .scalar (.num (.whole n)) (by rw [hlast]; exact .valueUnsigned n) rfl
  case h_11 => cases h

/-- A container is opened, or closed at once. -/
lemma value_of_container {complete : Bool} (h : ValueStep float p p' complete)
    (hopen : p.lastToken = .beginArray ∨ p.lastToken = .beginObject) :
    value float p = .ok (p', complete) := by
  cases h with
  | scalar v hmeans htokens =>
      exfalso
      rcases hopen with hopen | hopen <;> rw [hopen] at hmeans <;> cases hmeans <;> cases v <;>
        simp [tokens] at htokens
  | string hlast =>
      rcases hopen with hopen | hopen <;> cases hlast.symm.trans hopen
  | @emptyObject q hlast hq hend =>
      have hvalue : value float p = beginObject p := by simp only [value, hlast]
      simp only [hvalue, beginObject, ← hq]
      split
      · rfl
      · rename_i hnot
        exact absurd hend hnot
  | @object q q' hlast hq hkey =>
      have hvalue : value float p = beginObject p := by simp only [value, hlast]
      simp only [hvalue, beginObject, ← hq]
      split
      · rename_i hend
        obtain ⟨key, hkey', -⟩ := memberKey_eq_ok hkey
        cases hend.symm.trans hkey'
      · rw [hkey]
        rfl
  | @emptyArray q hlast hq hend =>
      have hvalue : value float p = beginArray p := by simp only [value, hlast]
      simp only [hvalue, beginArray, ← hq]
      split
      · rfl
      · rename_i hnot
        exact absurd hend hnot
  | @array q hlast hq hnot =>
      have hvalue : value float p = beginArray p := by simp only [value, hlast]
      simp only [hvalue, beginArray, ← hq]

/-- What follows the `switch`. -/
inductive EvaluateStep (p : Parser φ) : Next φ → Prop
  | done : p.states = [] → EvaluateStep p (.done p)
  | element {q : Parser φ} {states : List Bool} : p.states = true :: states → q = p.getToken →
      q.lastToken = .valueSeparator → EvaluateStep p (.again q.getToken false)
  | endArray {q : Parser φ} {states : List Bool} : p.states = true :: states → q = p.getToken →
      q.lastToken = .endArray →
      EvaluateStep p (.again { q with dom := q.dom.endArray, states } true)
  | member {q q' : Parser φ} {states : List Bool} : p.states = false :: states → q = p.getToken →
      q.lastToken = .valueSeparator → memberKey q.getToken = .ok q' →
        EvaluateStep p (.again q'.getToken false)
  | endObject {q : Parser φ} {states : List Bool} : p.states = false :: states → q = p.getToken →
      q.lastToken = .endObject →
        EvaluateStep p (.again { q with dom := q.dom.endObject, states } true)

lemma evaluateStep_of_evaluate {next : Next φ} (h : evaluate p = .ok next) :
    EvaluateStep p next := by
  unfold evaluate at h
  split at h
  case h_1 hstates => cases h; exact .done hstates
  case h_2 states hstates =>
    dsimp only at h
    split at h
    case h_1 hlast => cases h; exact .element hstates rfl hlast
    case h_2 hlast => cases h; exact .endArray hstates rfl hlast
    case h_3 => cases h
  case h_3 states hstates =>
    dsimp only at h
    split at h
    case h_1 hlast =>
      obtain ⟨q', hkey, hq'⟩ := bind_eq_ok.mp h
      cases hq'
      exact .member hstates rfl hlast hkey
    case h_2 hlast => cases h; exact .endObject hstates rfl hlast
    case h_3 => cases h

/-! ### The loop ends -/

lemma getToken_lt_of_eq {q : Parser φ} {type : TokenType φ} (h : p.getToken.lastToken = type)
    (hq : q.input = p.getToken.input) (herror : type ≠ .parseError) (hend : type ≠ .endOfInput) :
    q.input.length < p.input.length :=
  hq ▸ getToken_length_lt (h ▸ herror) (h ▸ hend)

lemma memberKey_length (h : memberKey p = .ok p') : p'.input.length ≤ p.input.length := by
  obtain ⟨key, -, rfl, -⟩ := memberKey_eq_ok h
  exact getToken_length { p with dom := p.dom.key (stringOf key) }

lemma ValueStep.left {complete : Bool} (h : ValueStep float p p' complete) :
    if complete then p'.input.length ≤ p.input.length else p'.left < p.left := by
  cases h with
  | scalar v _ _ => exact le_refl _
  | string _ => exact le_refl _
  | emptyObject _ hq _ =>
      subst hq
      exact getToken_length { p with dom := p.dom.startObject }
  | emptyArray _ hq _ =>
      subst hq
      exact getToken_length { p with dom := p.dom.startArray }
  | @object q q' _ hq hkey =>
      subst hq
      obtain ⟨key, hlast, -, -⟩ := memberKey_eq_ok hkey
      have hlt := getToken_lt_of_eq hlast rfl (by simp) (by simp)
      have hle := memberKey_length hkey
      have hleft := getToken_left { q' with states := false :: q'.states }
      have hp : 2 * p.input.length ≤ p.left := Nat.le_add_right _ _
      simp only [Bool.false_eq_true, if_false] at hlt hle hleft ⊢
      omega
  | @array q hlast hq _ =>
      subst hq
      have hleft := getToken_left { p with dom := p.dom.startArray }
      have hp : p.left = 2 * p.input.length + 1 := by
        rw [Parser.left, hlast]
      simp only [Bool.false_eq_true, if_false]
      exact lt_of_le_of_lt hleft (by rw [hp]; exact Nat.lt_succ_self _)

lemma EvaluateStep.left {skip : Bool} (h : EvaluateStep p (.again p' skip)) :
    p'.left < 2 * p.input.length := by
  cases h with
  | @element q _ _ hq hlast =>
      subst hq
      have hlt := getToken_lt_of_eq hlast rfl (by simp) (by simp)
      have hleft := getToken_left p.getToken
      omega
  | @endArray q _ _ hq hlast =>
      subst hq
      have hlt := getToken_lt_of_eq hlast rfl (by simp) (by simp)
      rw [Parser.left, hlast]
      dsimp only
      omega
  | @member q q' _ _ hq hlast hkey =>
      subst hq
      have hlt := getToken_lt_of_eq hlast rfl (by simp) (by simp)
      have hle := memberKey_length hkey
      have hle' := getToken_length p.getToken
      have hleft := getToken_left q'
      omega
  | @endObject q _ _ hq hlast =>
      subst hq
      have hlt := getToken_lt_of_eq hlast rfl (by simp) (by simp)
      rw [Parser.left, hlast]
      dsimp only
      omega

/-- A round behind the `switch`, or with a value that it makes complete, or one that
opens a container. -/
lemma round_eq_ok {skip : Bool} {next : Next φ} (h : round float p skip = .ok next) :
    (skip = true ∧ EvaluateStep p next) ∨
      (skip = false ∧ ∃ q, ValueStep float p q true ∧ EvaluateStep q next) ∨
        (skip = false ∧ ∃ q, ValueStep float p q false ∧ next = .again q false) := by
  unfold round at h
  cases skip with
  | true => exact .inl ⟨rfl, evaluateStep_of_evaluate h⟩
  | false =>
      obtain ⟨⟨q, complete⟩, hvalue, hnext⟩ := bind_eq_ok.mp h
      have hstep := valueStep_of_value hvalue
      cases complete with
      | true => exact .inr (.inl ⟨rfl, q, hstep, evaluateStep_of_evaluate hnext⟩)
      | false =>
          cases hnext
          exact .inr (.inr ⟨rfl, q, hstep, rfl⟩)

/-- Every round brings the loop nearer to its end. -/
lemma round_left {skip skip' : Bool} (h : round float p skip = .ok (.again p' skip')) :
    p'.left < p.left := by
  have hp : 2 * p.input.length ≤ p.left := Nat.le_add_right _ _
  rcases round_eq_ok h with ⟨-, hstep⟩ | ⟨-, q, hvalue, hstep⟩ | ⟨-, q, hvalue, heq⟩
  · exact hstep.left.trans_le hp
  · have hle : q.input.length ≤ p.input.length := hvalue.left
    have hlt := hstep.left
    omega
  · cases heq
    exact hvalue.left

/-- `sax_parse_internal`. -/
def loop (float : φ → Json) (p : Parser φ) (skipToStateEvaluation : Bool) :
    Except Fault (Parser φ) :=
  match _h : round float p skipToStateEvaluation with
  | .error fault => .error fault
  | .ok (.done p) => .ok p
  | .ok (.again p skip) => loop float p skip
termination_by p.left
decreasing_by exact round_left _h

/-- The constructor: it reads the first token, behind a byte order mark. -/
def create (bytes : List UInt8) : Parser φ :=
  match skipBom bytes with
  | none => { input := [], lastToken := .parseError }
  | some rest => { input := rest, lastToken := .endOfInput : Parser φ }.getToken

/-- `json::parse`. -/
def parse (float : φ → Json) (bytes : List UInt8) : Except Fault Json := do
  let p ← loop float (create bytes) false
  match p.getToken.lastToken with
  | .endOfInput => .ok p.dom.root
  | _ => .error .parseError

lemma evaluate_of_step {next : Next φ} (h : EvaluateStep p next) : evaluate p = .ok next := by
  cases h with
  | done hstates => simp only [evaluate, hstates]
  | @element q states hstates hq hlast =>
      simp only [evaluate, hstates, ← hq, hlast]
  | @endArray q states hstates hq hlast =>
      simp only [evaluate, hstates, ← hq]
      split
      · rename_i hseparator
        cases hseparator.symm.trans hlast
      · rfl
      · rename_i hnot
        exact absurd hlast hnot
  | @member q q' states hstates hq hlast hkey =>
      simp only [evaluate, hstates, ← hq, hlast, hkey]
      rfl
  | @endObject q states hstates hq hlast =>
      simp only [evaluate, hstates, ← hq]
      split
      · rename_i hseparator
        cases hseparator.symm.trans hlast
      · rfl
      · rename_i hnot
        exact absurd hlast hnot

end Steps

/-! ### A text of a value is parsed -/

section Completeness

variable {φ : Type} [Floats φ] {float : φ → Json} {p p' : Parser φ} {more rest : List UInt8}
  {ts : List (Token (Number φ))} {token : Token (Number φ)}

/-- What a round leads to. -/
def finish (float : φ → Json) : Except Fault (Next φ) → Except Fault (Parser φ)
  | .error fault => .error fault
  | .ok (.done p) => .ok p
  | .ok (.again p skip) => loop float p skip

lemma loop_eq (p : Parser φ) (skip : Bool) :
    loop float p skip = finish float (round float p skip) := by
  rw [loop]
  split <;> simp_all [finish]

lemma loop_evaluate (p : Parser φ) : loop float p true = finish float (evaluate p) := loop_eq p true

/-- The last token and what is still to be read. -/
def Faces (p : Parser φ) (ts : List (Token (Number φ))) (rest : List UInt8) : Prop :=
  ∃ token ts', ts = token :: ts' ∧ Means p.lastToken token ∧ Scanned p.input ts' rest

lemma faces_getToken (h : Scanned p.input (token :: ts) rest) :
    Faces p.getToken (token :: ts) rest := by
  cases h with
  | cons hscan hmeans htail =>
      refine ⟨token, ts, rfl, ?_, ?_⟩
      · show Means (scan (φ := φ) p.input).1 token
        rw [hscan]
        exact hmeans
      · show Scanned (scan (φ := φ) p.input).2 ts rest
        rw [hscan]
        exact htail

omit [Floats φ] in
lemma means_punct {type : TokenType φ} {c : Char} (h : Means type (.punct c)) :
    (c = '[' ∧ type = .beginArray) ∨ (c = ']' ∧ type = .endArray) ∨
      (c = '\x7b' ∧ type = .beginObject) ∨ (c = '\x7d' ∧ type = .endObject) ∨
        (c = ':' ∧ type = .nameSeparator) ∨ (c = ',' ∧ type = .valueSeparator) := by
  cases h <;> simp

/-- The last token and what is still to be read, token by token. -/
lemma Faces.cons (h : Faces p (token :: ts) rest) :
    Means p.lastToken token ∧ Scanned p.input ts rest := by
  obtain ⟨token', ts', heq, hmeans, hscanned⟩ := h
  obtain ⟨rfl, rfl⟩ := List.cons.inj heq
  exact ⟨hmeans, hscanned⟩

/-- A key and its colon are read. -/
lemma memberKey_complete {key : Text} (h : Faces p (.str key :: .punct ':' :: ts) rest) :
    ∃ q, memberKey p = .ok q ∧ q.states = p.states ∧
      q.dom = p.dom.key (stringOf (encode key)) ∧ Scanned q.input ts rest := by
  obtain ⟨hmeans, hscanned⟩ := h.cons
  have hlast : p.lastToken = .valueString (encode key) := by
    generalize p.lastToken = type at hmeans
    cases hmeans
    rfl
  have hfaces := faces_getToken (p := { p with dom := p.dom.key (stringOf (encode key)) }) hscanned
  obtain ⟨hcolon, hscanned'⟩ := hfaces.cons
  refine ⟨{ p with dom := p.dom.key (stringOf (encode key)) }.getToken, ?_, rfl, rfl, hscanned'⟩
  have hseparator : { p with dom := p.dom.key (stringOf (encode key)) }.getToken.lastToken =
      .nameSeparator := by
    simpa using means_punct hcolon
  simp only [memberKey, hlast]
  exact separator_eq_ok.mpr ⟨rfl, hseparator⟩

/-- The tokens of the elements behind the first. -/
def moreElements (xs : List (Value (Number φ))) : List (Token (Number φ)) :=
  xs.flatMap fun x => .punct ',' :: tokens x

def memberTokens (m : Text × Value (Number φ)) : List (Token (Number φ)) :=
  .str m.1 :: .punct ':' :: tokens m.2

/-- The tokens of the members behind the first. -/
def moreMembers (members : List (Text × Value (Number φ))) : List (Token (Number φ)) :=
  members.flatMap fun m => .punct ',' :: memberTokens m

omit [Floats φ] in
lemma tokens_arr (x : Value (Number φ)) (xs : List (Value (Number φ))) :
    tokens (.arr (x :: xs)) = .punct '[' :: (tokens x ++ moreElements xs ++ [.punct ']']) := by
  have hmore : ∀ (x : Value (Number φ)) xs,
      List.intercalate [.punct ','] (tokensList (x :: xs)) = tokens x ++ moreElements xs := by
    intro x xs
    induction xs generalizing x with
    | nil => simp [tokensList, moreElements]
    | cons y ys ih =>
        have hys := ih y
        rw [tokensList] at hys ⊢
        rw [tokensList, List.intercalate_cons_cons, hys]
        simp [moreElements]
  rw [tokens, hmore]

omit [Floats φ] in
lemma tokens_obj (m : Text × Value (Number φ)) (members : List (Text × Value (Number φ))) :
    tokens (.obj (m :: members)) =
      .punct '\x7b' :: (memberTokens m ++ moreMembers members ++ [.punct '\x7d']) := by
  have hmore : ∀ (m : Text × Value (Number φ)) members,
      List.intercalate [.punct ','] (tokensMembers (m :: members)) =
        memberTokens m ++ moreMembers members := by
    intro m members
    induction members generalizing m with
    | nil => simp [tokensMembers, moreMembers, memberTokens]
    | cons m' members ih =>
        have hmembers := ih m'
        rw [tokensMembers] at hmembers ⊢
        rw [tokensMembers, List.intercalate_cons_cons, hmembers]
        simp [moreMembers, memberTokens]
  rw [tokens, hmore]

/-- How a value is read: the loop goes on behind the `switch`, with the value built. -/
def Read (float : φ → Json) (p : Parser φ) (v : Value (Number φ)) (more : List (Token (Number φ)))
    (rest : List UInt8) : Prop :=
  ∃ p', p'.states = p.states ∧ p'.dom = p.dom.handleValue (domOf float v) ∧
    Scanned p'.input more rest ∧ loop float p false = finish float (evaluate p')

/-- A value of one token. -/
lemma read_scalar {v : Value (Number φ)} (json : Json) (hdom : domOf float v = json)
    (hvalue : value float p = .ok (p.handleValue json, true)) (hscanned : Scanned p.input ts rest) :
    Read float p v ts rest := by
  refine ⟨p.handleValue json, rfl, ?_, hscanned, ?_⟩
  · rw [hdom]
    rfl
  · rw [loop_eq, round, hvalue]
    rfl

lemma loop_of_complete {q : Parser φ} (h : ValueStep float p q true)
    (hopen : p.lastToken = .beginArray ∨ p.lastToken = .beginObject) :
    loop float p false = finish float (evaluate q) := by
  rw [loop_eq, round, value_of_container h hopen]
  rfl

lemma loop_of_open {q : Parser φ} (h : ValueStep float p q false)
    (hopen : p.lastToken = .beginArray ∨ p.lastToken = .beginObject) :
    loop float p false = loop float q false := by
  rw [loop_eq, round, value_of_container h hopen]
  rfl

lemma finish_evaluate {q : Parser φ} {skip : Bool} (h : EvaluateStep p (.again q skip)) :
    finish float (evaluate p) = loop float q skip := by
  rw [evaluate_of_step h]
  rfl

/-- The first token of a value is read. -/
lemma faces_value {v : Value (Number φ)} (h : Scanned p.input (tokens v ++ ts) rest) :
    Faces p.getToken (tokens v ++ ts) rest ∧ p.getToken.lastToken ≠ .endArray := by
  obtain ⟨token, ts', hts, hbegins⟩ := JsonText.exists_tokens_eq_cons v
  rw [hts, List.cons_append] at h ⊢
  have hfaces := faces_getToken h
  refine ⟨hfaces, fun hend => ?_⟩
  have hmeans := hfaces.cons.1
  rw [hend] at hmeans
  cases hmeans
  rcases hbegins with h | h <;> exact absurd h (by decide)

mutual

/-- The tokens of a value are read as it. -/
lemma read_value : ∀ (v : Value (Number φ)) {p : Parser φ} {more : List (Token (Number φ))}
    {rest : List UInt8}, Faces p (tokens v ++ more) rest → Read float p v more rest
  | .null, p, more, rest, h => by
      obtain ⟨hmeans, hscanned⟩ := h.cons
      generalize hlast : p.lastToken = type at hmeans
      cases hmeans
      exact read_scalar .null rfl (by simp only [value, hlast]) hscanned
  | .bool b, p, more, rest, h => by
      obtain ⟨hmeans, hscanned⟩ := h.cons
      generalize hlast : p.lastToken = type at hmeans
      cases hmeans with
      | literalTrue => exact read_scalar (.bool true) rfl (by simp only [value, hlast]) hscanned
      | literalFalse => exact read_scalar (.bool false) rfl (by simp only [value, hlast]) hscanned
  | .num n, p, more, rest, h => by
      obtain ⟨hmeans, hscanned⟩ := h.cons
      generalize hlast : p.lastToken = type at hmeans
      cases hmeans with
      | valueUnsigned n => exact read_scalar (.num n) rfl (by simp only [value, hlast]) hscanned
      | valueInteger n => exact read_scalar (.num n) rfl (by simp only [value, hlast]) hscanned
      | valueFloat x => exact read_scalar (float x) rfl (by simp only [value, hlast]) hscanned
  | .str s, p, more, rest, h => by
      obtain ⟨hmeans, hscanned⟩ := h.cons
      generalize hlast : p.lastToken = type at hmeans
      cases hmeans
      exact read_scalar (.str (stringOf (encode s))) rfl (by simp only [value, hlast]) hscanned
  | .arr [], p, more, rest, h => by
      obtain ⟨hmeans, hscanned⟩ :=
        Faces.cons (show Faces p (.punct '[' :: .punct ']' :: more) rest from h)
      have hlast : p.lastToken = .beginArray := by simpa using means_punct hmeans
      obtain ⟨hend, hmore⟩ :=
        (faces_getToken (p := { p with dom := p.dom.startArray }) hscanned).cons
      have hlast' : { p with dom := p.dom.startArray }.getToken.lastToken = .endArray := by
        simpa using means_punct hend
      exact ⟨{ { p with dom := p.dom.startArray }.getToken with dom := p.dom.startArray.endArray },
        rfl, rfl, hmore, loop_of_complete (.emptyArray hlast rfl hlast') (.inl hlast)⟩
  | .arr (x :: xs), p, more, rest, h => by
      rw [tokens_arr, List.cons_append, List.append_assoc, List.append_assoc] at h
      obtain ⟨hmeans, hscanned⟩ := h.cons
      have hlast : p.lastToken = .beginArray := by simpa using means_punct hmeans
      obtain ⟨hfirst, hnot⟩ := faces_value (p := { p with dom := p.dom.startArray }) hscanned
      obtain ⟨p1, hstates1, hdom1, hscanned1, hloop1⟩ :=
        read_value x
          (p := { { p with dom := p.dom.startArray }.getToken with states := true :: p.states })
          hfirst
      have hstack1 : p1.dom.refStack = .array [domOf float x] :: p.dom.refStack := by
        rw [hdom1]
        rfl
      obtain ⟨p2, hstates2, hdom2, hscanned2, hloop2⟩ := read_elements xs hstates1 hstack1 hscanned1
      refine ⟨p2, hstates2, ?_, hscanned2, ?_⟩
      · rw [hdom2, hdom1]
        rfl
      · rw [loop_of_open (.array hlast rfl hnot) (.inl hlast), ← hloop2]
        exact hloop1
  | .obj [], p, more, rest, h => by
      obtain ⟨hmeans, hscanned⟩ :=
        Faces.cons (show Faces p (.punct '\x7b' :: .punct '\x7d' :: more) rest from h)
      have hlast : p.lastToken = .beginObject := by simpa using means_punct hmeans
      obtain ⟨hend, hmore⟩ :=
        (faces_getToken (p := { p with dom := p.dom.startObject }) hscanned).cons
      have hlast' : { p with dom := p.dom.startObject }.getToken.lastToken = .endObject := by
        simpa using means_punct hend
      exact ⟨{ { p with dom := p.dom.startObject }.getToken with
          dom := p.dom.startObject.endObject }, rfl, rfl, hmore,
        loop_of_complete (.emptyObject hlast rfl hlast') (.inr hlast)⟩
  | .obj ((key, x) :: members), p, more, rest, h => by
      rw [tokens_obj, List.cons_append, List.append_assoc, List.append_assoc] at h
      obtain ⟨hmeans, hscanned⟩ := h.cons
      have hlast : p.lastToken = .beginObject := by simpa using means_punct hmeans
      obtain ⟨q, hkey, hstatesq, hdomq, hscannedq⟩ :=
        memberKey_complete (faces_getToken (p := { p with dom := p.dom.startObject }) hscanned)
      obtain ⟨hfirst, -⟩ := faces_value (p := { q with states := false :: q.states }) hscannedq
      obtain ⟨p1, hstates1, hdom1, hscanned1, hloop1⟩ := read_value x hfirst
      have hstack1 : p1.dom.refStack =
          .object (insertMember (stringOf (encode key)) (domOf float x) [])
            (stringOf (encode key)) :: p.dom.refStack := by
        rw [hdom1]
        show (q.dom.handleValue _).refStack = _
        rw [hdomq]
        rfl
      have hstates1' : p1.states = false :: p.states := by
        rw [hstates1]
        show false :: q.states = _
        rw [hstatesq]
        rfl
      obtain ⟨p2, hstates2, hdom2, hscanned2, hloop2⟩ :=
        read_members members hstates1' hstack1 hscanned1
      refine ⟨p2, hstates2, ?_, hscanned2, ?_⟩
      · rw [hdom2, hdom1]
        show Dom.handleValue _ { (q.dom.handleValue _) with refStack := _ } = _
        rw [hdomq]
        rfl
      · rw [loop_of_open (.object hlast rfl hkey) (.inr hlast), ← hloop2]
        exact hloop1

/-- The elements of an array are read, up to its end. -/
lemma read_elements : ∀ (xs : List (Value (Number φ))) {p : Parser φ} {states : List Bool}
    {elements : List Json} {frames : List Frame} {more : List (Token (Number φ))}
    {rest : List UInt8}, p.states = true :: states → p.dom.refStack = .array elements :: frames →
      Scanned p.input (moreElements xs ++ .punct ']' :: more) rest →
      ∃ p', p'.states = states ∧ p'.dom = Dom.handleValue (.arr (elements ++ domElements float xs))
          { p.dom with refStack := frames } ∧
        Scanned p'.input more rest ∧ finish float (evaluate p) = finish float (evaluate p')
  | [], p, states, elements, frames, more, rest, hstates, hstack, h => by
      obtain ⟨hend, hmore⟩ := (faces_getToken h).cons
      have hlast : p.getToken.lastToken = .endArray := by simpa using means_punct hend
      refine ⟨{ p.getToken with dom := p.dom.endArray, states }, rfl, ?_, hmore, ?_⟩
      · show p.dom.endArray = _
        rw [Dom.endArray, hstack, domElements, List.append_nil]
      · rw [finish_evaluate (.endArray hstates rfl hlast), loop_evaluate]
        rfl
  | x :: xs, p, states, elements, frames, more, rest, hstates, hstack, h => by
      have htokens : moreElements (x :: xs) ++ .punct ']' :: more =
          .punct ',' :: (tokens x ++ (moreElements xs ++ .punct ']' :: more)) := by
        simp [moreElements]
      rw [htokens] at h
      obtain ⟨hcomma, hmore⟩ := (faces_getToken h).cons
      have hlast : p.getToken.lastToken = .valueSeparator := by simpa using means_punct hcomma
      obtain ⟨p1, hstates1, hdom1, hscanned1, hloop1⟩ := read_value x (faces_value hmore).1
      have hstack1 : p1.dom.refStack = .array (elements ++ [domOf float x]) :: frames := by
        rw [hdom1]
        show (p.dom.handleValue _).refStack = _
        rw [Dom.handleValue, hstack]
      obtain ⟨p2, hstates2, hdom2, hscanned2, hloop2⟩ :=
        read_elements xs (hstates1.trans hstates) hstack1 hscanned1
      refine ⟨p2, hstates2, ?_, hscanned2, ?_⟩
      · rw [hdom2, hdom1]
        show Dom.handleValue _ { (p.dom.handleValue _) with refStack := _ } = _
        rw [domElements, List.append_assoc]
        simp only [Dom.handleValue, hstack, List.cons_append, List.nil_append]
      · rw [finish_evaluate (.element hstates rfl hlast), ← hloop2]
        exact hloop1

lemma read_members : ∀ (members : List (Text × Value (Number φ))) {p : Parser φ}
    {states : List Bool} {built : List (Str × Json)} {key : Str} {frames : List Frame}
    {more : List (Token (Number φ))} {rest : List UInt8}, p.states = false :: states →
      p.dom.refStack = .object built key :: frames →
      Scanned p.input (moreMembers members ++ .punct '\x7d' :: more) rest →
      ∃ p', p'.states = states ∧ p'.dom = Dom.handleValue (.obj (domMembers float built members))
          { p.dom with refStack := frames } ∧
        Scanned p'.input more rest ∧ finish float (evaluate p) = finish float (evaluate p')
  | [], p, states, built, key, frames, more, rest, hstates, hstack, h => by
      obtain ⟨hend, hmore⟩ := (faces_getToken h).cons
      have hlast : p.getToken.lastToken = .endObject := by simpa using means_punct hend
      refine ⟨{ p.getToken with dom := p.dom.endObject, states }, rfl, ?_, hmore, ?_⟩
      · show p.dom.endObject = _
        rw [Dom.endObject, hstack, domMembers]
      · rw [finish_evaluate (.endObject hstates rfl hlast), loop_evaluate]
        rfl
  | (key, x) :: members, p, states, built, key', frames, more, rest, hstates, hstack, h => by
      have htokens : moreMembers ((key, x) :: members) ++ .punct '\x7d' :: more =
          .punct ',' :: (.str key :: .punct ':' ::
            (tokens x ++ (moreMembers members ++ .punct '\x7d' :: more))) := by
        simp [moreMembers, memberTokens]
      rw [htokens] at h
      obtain ⟨hcomma, hmore⟩ := (faces_getToken h).cons
      have hlast : p.getToken.lastToken = .valueSeparator := by simpa using means_punct hcomma
      obtain ⟨q, hkey, hstatesq, hdomq, hscannedq⟩ := memberKey_complete (faces_getToken hmore)
      obtain ⟨p1, hstates1, hdom1, hscanned1, hloop1⟩ := read_value x (faces_value hscannedq).1
      have hdomq' : q.dom =
          { p.dom with refStack := .object built (stringOf (encode key)) :: frames } := by
        rw [hdomq]
        show p.dom.key _ = _
        rw [Dom.key, hstack]
      have hstack1 : p1.dom.refStack =
          .object (insertMember (stringOf (encode key)) (domOf float x) built)
            (stringOf (encode key)) :: frames := by
        rw [hdom1]
        show (q.dom.handleValue _).refStack = _
        rw [hdomq']
        rfl
      have hstates1' : p1.states = false :: states := hstates1.trans (hstatesq.trans hstates)
      obtain ⟨p2, hstates2, hdom2, hscanned2, hloop2⟩ :=
        read_members members hstates1' hstack1 hscanned1
      refine ⟨p2, hstates2, ?_, hscanned2, ?_⟩
      · rw [hdom2, hdom1]
        show Dom.handleValue _ { (q.dom.handleValue _) with refStack := _ } = _
        rw [hdomq']
        rfl
      · rw [finish_evaluate (.member hstates rfl hlast hkey), ← hloop2]
        exact hloop1

end

end Completeness

/-! ### What is parsed is a text of a value -/

section Soundness

variable {φ : Type} [Floats φ] {float : φ → Json} {p p' : Parser φ} {start mid rest : List UInt8}

/-- A container that the loop is in, with the values that were read in it. -/
inductive Open (φ : Type) where
  | array (xs : List (Value (Number φ)))
  | object (members : List (Text × Value (Number φ))) (key : Text)

namespace Open

omit [Floats φ]

def isArray : Open φ → Bool
  | array _ => true
  | object _ _ => false

/-- What has been read of an open container. -/
def tokens : Open φ → List (Token (Number φ))
  | array xs => .punct '[' :: xs.flatMap fun x => JsonText.tokens x ++ [.punct ',']
  | object members key =>
      .punct '\x7b' :: (members.flatMap (fun m => memberTokens m ++ [.punct ',']) ++
        [.str key, .punct ':'])

/-- What has been built of it. -/
def frame (float : φ → Json) : Open φ → Frame
  | array xs => .array (domElements float xs)
  | object members key => .object (domMembers float [] members) (stringOf (encode key))

end Open

/-- What has been read of the open containers, the innermost first. -/
def openTokens : List (Open φ) → List (Token (Number φ))
  | [] => []
  | container :: opens => openTokens opens ++ container.tokens

/-- The loop in the open containers, with nothing read of the next value but its first
token. -/
structure Inside (float : φ → Json) (start : List UInt8) (opens : List (Open φ)) (p : Parser φ) :
    Prop where
  states : p.states = opens.map Open.isArray
  stack : p.dom.refStack = opens.map (Open.frame float)
  scanned : ∃ mid, Scanned start (openTokens opens) mid ∧ scan mid = (p.lastToken, p.input)

/-- The loop in the open containers, with a value read in the innermost of them. -/
structure Complete (float : φ → Json) (start : List UInt8) (opens : List (Open φ))
    (v : Value (Number φ)) (p : Parser φ) : Prop where
  states : p.states = opens.map Open.isArray
  dom : ∃ d : Dom, d.refStack = opens.map (Open.frame float) ∧ p.dom = d.handleValue (domOf float v)
  scanned : Scanned start (openTokens opens ++ tokens v) p.input

lemma scanned_append {ts : List (Token (Number φ))} (h : Scanned start ts mid) {type : TokenType φ}
    {token : Token (Number φ)} (hscan : scan mid = (type, rest)) (hmeans : Means type token) :
    Scanned start (ts ++ [token]) rest := by
  induction h with
  | nil => exact .cons hscan hmeans .nil
  | cons hscan' hmeans' _ ih => exact .cons hscan' hmeans' (ih hscan)

/-- A value of one token is read. -/
lemma Inside.complete_of_scalar {opens : List (Open φ)} (h : Inside float start opens p)
    {v : Value (Number φ)} {token : Token (Number φ)} (hmeans : Means p.lastToken token)
    (htokens : tokens v = [token]) :
    Complete float start opens v (p.handleValue (domOf float v)) := by
  obtain ⟨mid, hscanned, hscan⟩ := h.scanned
  exact ⟨h.states, ⟨p.dom, h.stack, rfl⟩, htokens ▸ scanned_append hscanned hscan hmeans⟩

/-- The last token stands for one, with which what was read goes on. -/
lemma Inside.scanned_append {opens : List (Open φ)} (h : Inside float start opens p)
    (token : Token (Number φ)) (hmeans : Means p.lastToken token) :
    Scanned start (openTokens opens ++ [token]) p.input := by
  obtain ⟨mid, hscanned, hscan⟩ := h.scanned
  exact parser.scanned_append hscanned hscan hmeans

/-- One token more. -/
lemma scanned_getToken {ts : List (Token (Number φ))} (h : Scanned start ts p.input)
    (token : Token (Number φ)) (hmeans : Means p.getToken.lastToken token) :
    Scanned start (ts ++ [token]) p.getToken.input :=
  parser.scanned_append h rfl hmeans

lemma means_valueString {s : List UInt8} (hinput : p.getToken.lastToken = .valueString s) :
    ∃ u, s = encode u ∧ Means p.getToken.lastToken (.str u) := by
  obtain ⟨u, rfl⟩ := lexer.exists_encode_of_scan p.input hinput
  exact ⟨u, rfl, hinput ▸ .valueString u⟩

lemma memberKey_sound {ts : List (Token (Number φ))} (h : Scanned start ts p.input)
    (hkey : memberKey p.getToken = .ok p') :
    ∃ k, Scanned start (ts ++ [.str k, .punct ':']) p'.input ∧ p'.states = p.states ∧
      p'.dom = p.dom.key (stringOf (encode k)) := by
  obtain ⟨s, hlast, rfl, hseparator⟩ := memberKey_eq_ok hkey
  obtain ⟨k, rfl, hmeans⟩ := means_valueString hlast
  refine ⟨k, ?_, rfl, rfl⟩
  have hone := scanned_getToken h _ hmeans
  have htwo := scanned_getToken (p := { p.getToken with dom := p.dom.key (stringOf (encode k)) })
    hone (.punct ':') (hseparator ▸ .nameSeparator)
  rwa [List.append_assoc] at htwo

lemma ValueStep.sound {opens : List (Open φ)} {complete : Bool}
    (h : ValueStep float p p' complete) (hinside : Inside float start opens p) :
    if complete then ∃ v, Complete float start opens v p'
    else ∃ opens', Inside float start opens' p' := by
  cases h with
  | scalar v hmeans htokens => exact ⟨v, hinside.complete_of_scalar hmeans htokens⟩
  | @string s hlast =>
      obtain ⟨mid, -, hscan⟩ := hinside.scanned
      obtain ⟨u, rfl⟩ := lexer.exists_encode_of_scan (φ := φ) mid (by rw [hscan]; exact hlast)
      exact ⟨.str u, hinside.complete_of_scalar (hlast ▸ .valueString u) rfl⟩
  | @emptyObject q hlast hq hend =>
      subst hq
      have hone := hinside.scanned_append (.punct '\x7b') (hlast ▸ .beginObject)
      have htwo := scanned_getToken (p := { p with dom := p.dom.startObject }) hone (.punct '\x7d')
        (hend ▸ .endObject)
      rw [List.append_assoc] at htwo
      exact ⟨.obj [], hinside.states, ⟨p.dom, hinside.stack, rfl⟩, htwo⟩
  | @emptyArray q hlast hq hend =>
      subst hq
      have hone := hinside.scanned_append (.punct '[') (hlast ▸ .beginArray)
      have htwo := scanned_getToken (p := { p with dom := p.dom.startArray }) hone (.punct ']')
        (hend ▸ .endArray)
      rw [List.append_assoc] at htwo
      exact ⟨.arr [], hinside.states, ⟨p.dom, hinside.stack, rfl⟩, htwo⟩
  | @object q q' hlast hq hkey =>
      subst hq
      have hone := hinside.scanned_append (.punct '\x7b') (hlast ▸ .beginObject)
      obtain ⟨k, hscanned, hstates, hdom⟩ :=
        memberKey_sound (p := { p with dom := p.dom.startObject }) hone hkey
      refine ⟨.object [] k :: opens, ?_, ?_, q'.input, ?_, rfl⟩
      · show false :: q'.states = _
        rw [hstates]
        exact congrArg (false :: ·) hinside.states
      · show q'.dom.refStack = _
        rw [hdom]
        exact congrArg (_ :: ·) hinside.stack
      · rw [List.append_assoc] at hscanned
        exact hscanned
  | @array q hlast hq hnot =>
      subst hq
      have hone := hinside.scanned_append (.punct '[') (hlast ▸ .beginArray)
      exact ⟨.array [] :: opens, congrArg (true :: ·) hinside.states,
        congrArg (_ :: ·) hinside.stack,
        p.input, hone, rfl⟩

/-! One value more in a container. -/

omit [Floats φ] in
lemma domElements_append (float : φ → Json) (xs : List (Value (Number φ))) (v : Value (Number φ)) :
    domElements float (xs ++ [v]) = domElements float xs ++ [domOf float v] := by
  induction xs with
  | nil => rfl
  | cons x xs ih => rw [List.cons_append, domElements, ih, domElements, List.cons_append]

omit [Floats φ] in
lemma domMembers_append (float : φ → Json) (built : List (Str × Json))
    (members : List (Text × Value (Number φ))) (k : Text) (v : Value (Number φ)) :
    domMembers float built (members ++ [(k, v)]) =
      insertMember (stringOf (encode k)) (domOf float v) (domMembers float built members) := by
  induction members generalizing built with
  | nil => rfl
  | cons m members ih => rw [List.cons_append, domMembers, ih, domMembers]

omit [Floats φ] in
/-- What was read of an array, up to its end. -/
lemma tokens_arr_append (xs : List (Value (Number φ))) (v : Value (Number φ)) :
    tokens (.arr (xs ++ [v])) = (Open.array xs).tokens ++ tokens v ++ [.punct ']'] := by
  have hmore : ∀ (xs : List (Value (Number φ))) x, tokens x ++ moreElements (xs ++ [v]) =
      tokens x ++ .punct ',' :: (xs.flatMap fun x => tokens x ++ [.punct ',']) ++ tokens v := by
    intro xs
    induction xs with
    | nil => simp [moreElements]
    | cons y ys ih =>
        intro x
        have hys := ih y
        simp only [moreElements, List.cons_append, List.flatMap_cons, List.append_assoc] at hys ⊢
        rw [hys]
        simp
  cases xs with
  | nil =>
      rw [List.nil_append, tokens_arr]
      simp [Open.tokens, moreElements]
  | cons x xs =>
      rw [List.cons_append, tokens_arr, hmore]
      simp [Open.tokens]

omit [Floats φ] in
lemma tokens_obj_append (members : List (Text × Value (Number φ))) (k : Text)
    (v : Value (Number φ)) : tokens (.obj (members ++ [(k, v)])) =
      (Open.object members k).tokens ++ tokens v ++ [.punct '\x7d'] := by
  have hmore : ∀ (members : List (Text × Value (Number φ))) m,
      memberTokens m ++ moreMembers (members ++ [(k, v)]) =
        memberTokens m ++ .punct ',' :: (members.flatMap fun m => memberTokens m ++ [.punct ',']) ++
          memberTokens (k, v) := by
    intro members
    induction members with
    | nil => simp [moreMembers]
    | cons m' members ih =>
        intro m
        have hmembers := ih m'
        simp only [moreMembers, List.cons_append, List.flatMap_cons,
          List.append_assoc] at hmembers ⊢
        rw [hmembers]
        simp
  cases members with
  | nil =>
      rw [List.nil_append, tokens_obj]
      simp [Open.tokens, moreMembers, memberTokens]
  | cons m members =>
      rw [List.cons_append, tokens_obj, hmore]
      simp [Open.tokens, memberTokens]

omit [Floats φ] in
lemma exists_array {opens : List (Open φ)} {states : List Bool}
    (h : true :: states = opens.map Open.isArray) :
    ∃ xs opens', opens = .array xs :: opens' ∧ states = opens'.map Open.isArray := by
  rcases opens with _ | ⟨container, opens⟩
  · cases h
  · obtain ⟨hcontainer, hstates⟩ := List.cons.inj h
    cases container with
    | array xs => exact ⟨xs, opens, rfl, hstates⟩
    | object members key => cases hcontainer

omit [Floats φ] in
lemma exists_object {opens : List (Open φ)} {states : List Bool}
    (h : false :: states = opens.map Open.isArray) :
    ∃ members key opens', opens = .object members key :: opens' ∧
      states = opens'.map Open.isArray := by
  rcases opens with _ | ⟨container, opens⟩
  · cases h
  · obtain ⟨hcontainer, hstates⟩ := List.cons.inj h
    cases container with
    | array xs => cases hcontainer
    | object members key => exact ⟨members, key, opens, rfl, hstates⟩

/-- What the loop has read is what it has built. -/
def Sound (float : φ → Json) (start : List UInt8) (p : Parser φ) (skip : Bool) : Prop :=
  if skip then ∃ opens v, Complete float start opens v p else ∃ opens, Inside float start opens p

/-- What the loop is left with. -/
def Left (float : φ → Json) (start : List UInt8) (p : Parser φ) : Prop :=
  ∃ v, p.dom.root = domOf float v ∧ Scanned start (tokens v) p.input

lemma Complete.left {v : Value (Number φ)} (h : Complete float start [] v p) :
    Left float start p := by
  obtain ⟨d, hd, hdom⟩ := h.dom
  refine ⟨v, ?_, h.scanned⟩
  rw [hdom, Dom.handleValue, hd]
  rfl

/-- What a round leads to. -/
def NextSound (float : φ → Json) (start : List UInt8) : Next φ → Prop
  | .done p => Left float start p
  | .again p skip => Sound float start p skip

/-- Behind a value the loop is left, or goes on with what it has read. -/
lemma EvaluateStep.sound {opens : List (Open φ)} {v : Value (Number φ)} {next : Next φ}
    (h : EvaluateStep p next) (hcomplete : Complete float start opens v p) :
    NextSound float start next := by
  obtain ⟨d, hd, hdom⟩ := hcomplete.dom
  cases h with
  | done hstates =>
      obtain rfl := List.map_eq_nil_iff.mp (hcomplete.states.symm.trans hstates)
      exact hcomplete.left
  | @element q states hstates hq hlast =>
      subst hq
      obtain ⟨xs, opens', rfl, hopens⟩ := exists_array (hstates.symm.trans hcomplete.states)
      have hscanned := scanned_getToken hcomplete.scanned (.punct ',') (hlast ▸ .valueSeparator)
      refine ⟨.array (xs ++ [v]) :: opens', ?_, ?_, p.getToken.input, ?_, rfl⟩
      · exact hcomplete.states
      · show p.dom.refStack = _
        rw [hdom, Dom.handleValue, hd]
        simp only [List.map_cons, Open.frame, domElements_append]
      · simpa [openTokens, Open.tokens] using hscanned
  | @endArray q states hstates hq hlast =>
      subst hq
      obtain ⟨xs, opens', rfl, hopens⟩ := exists_array (hstates.symm.trans hcomplete.states)
      have hscanned := scanned_getToken hcomplete.scanned (.punct ']') (hlast ▸ .endArray)
      refine ⟨opens', .arr (xs ++ [v]), hopens,
        ⟨{ d with refStack := opens'.map (Open.frame float) }, rfl, ?_⟩, ?_⟩
      · show p.dom.endArray = _
        rw [hdom, Dom.handleValue, hd]
        simp only [List.map_cons, Open.frame, Dom.endArray, domOf, domElements_append]
      · rw [tokens_arr_append]
        simpa [openTokens] using hscanned
  | @member q q' states hstates hq hlast hkey =>
      subst hq
      obtain ⟨members, k, opens', rfl, hopens⟩ :=
        exists_object (hstates.symm.trans hcomplete.states)
      have hone := scanned_getToken hcomplete.scanned (.punct ',') (hlast ▸ .valueSeparator)
      obtain ⟨k', hscanned, hstates', hdom'⟩ := memberKey_sound hone hkey
      refine ⟨.object (members ++ [(k, v)]) k' :: opens', ?_, ?_, q'.input, ?_, rfl⟩
      · show q'.states = _
        rw [hstates']
        exact hcomplete.states
      · show q'.dom.refStack = _
        rw [hdom']
        show (p.dom.key _).refStack = _
        rw [hdom, Dom.handleValue, hd]
        simp only [List.map_cons, Open.frame, Dom.key, domMembers_append]
      · simpa [openTokens, Open.tokens, memberTokens] using hscanned
  | @endObject q states hstates hq hlast =>
      subst hq
      obtain ⟨members, k, opens', rfl, hopens⟩ :=
        exists_object (hstates.symm.trans hcomplete.states)
      have hscanned := scanned_getToken hcomplete.scanned (.punct '\x7d') (hlast ▸ .endObject)
      refine ⟨opens', .obj (members ++ [(k, v)]), hopens,
        ⟨{ d with refStack := opens'.map (Open.frame float) }, rfl, ?_⟩, ?_⟩
      · show p.dom.endObject = _
        rw [hdom, Dom.handleValue, hd]
        simp only [List.map_cons, Open.frame, Dom.endObject, domOf, domMembers_append]
      · rw [tokens_obj_append]
        simpa [openTokens] using hscanned

/-- **A round keeps the loop sound.** -/
lemma round_sound {skip : Bool} {next : Next φ} (h : round float p skip = .ok next)
    (hsound : Sound float start p skip) : NextSound float start next := by
  rcases round_eq_ok h with ⟨rfl, hstep⟩ | ⟨rfl, q, hvalue, hstep⟩ | ⟨rfl, q, hvalue, rfl⟩
  · obtain ⟨opens, v, hcomplete⟩ := hsound
    exact hstep.sound hcomplete
  · obtain ⟨opens, hinside⟩ := hsound
    obtain ⟨v, hcomplete⟩ := hvalue.sound hinside
    exact hstep.sound hcomplete
  · obtain ⟨opens, hinside⟩ := hsound
    exact hvalue.sound hinside

/-- **What the loop is left with is the value it has read.** -/
theorem loop_sound {skip : Bool} (h : loop float p skip = .ok p')
    (hsound : Sound float start p skip) :
    Left float start p' := by
  induction p, skip using loop.induct float with
  | case1 p skip fault hround =>
      rw [loop_eq, hround] at h
      cases h
  | case2 p skip q hround =>
      rw [loop_eq, hround] at h
      cases h
      exact round_sound hround hsound
  | case3 p skip q skip' hround ih =>
      rw [loop_eq, hround] at h
      exact ih h (round_sound hround hsound)

end Soundness

/-! ### What is thrown -/

section Refusals

/-- A computation that does not return throws a parse error, or tells of a number that is out
of range. -/
def Refuses {α : Type} (x : Except Fault α) : Prop :=
  ∀ fault, x = .error fault → fault = .parseError ∨ fault = .outOfRange

lemma refuses_ok {α : Type} (a : α) : Refuses (.ok a : Except Fault α) := nofun

lemma refuses_parseError {α : Type} : Refuses (.error .parseError : Except Fault α) := by
  rintro fault ⟨⟩
  exact .inl rfl

lemma refuses_outOfRange {α : Type} : Refuses (.error .outOfRange : Except Fault α) := by
  rintro fault ⟨⟩
  exact .inr rfl

lemma Refuses.bind {α β : Type} {x : Except Fault α} {f : α → Except Fault β}
    (hx : Refuses x) (hf : ∀ a, Refuses (f a)) : Refuses (x >>= f) := by
  cases x with
  | error fault =>
      rintro fault' ⟨⟩
      exact hx fault rfl
  | ok a => exact hf a

variable {φ : Type} [Floats φ] {float : φ → Json}

omit [Floats φ] in
lemma refuses_separator (p : Parser φ) : Refuses (separator p) := by
  unfold separator
  split
  · exact refuses_ok _
  · exact refuses_parseError

lemma refuses_memberKey (p : Parser φ) : Refuses (memberKey p) := by
  unfold memberKey
  split
  · exact refuses_separator _
  · exact refuses_parseError

lemma refuses_value (p : Parser φ) : Refuses (value float p) := by
  unfold value beginObject beginArray
  dsimp only
  split
  case h_1 =>
    split
    · exact refuses_ok _
    · exact (refuses_memberKey _).bind fun _ => refuses_ok _
  case h_2 =>
    split
    · exact refuses_ok _
    · exact refuses_ok _
  case h_3 => exact refuses_outOfRange
  all_goals first
    | exact refuses_ok _
    | exact refuses_parseError

lemma refuses_evaluate (p : Parser φ) : Refuses (evaluate p) := by
  unfold evaluate
  dsimp only
  split
  · exact refuses_ok _
  · split
    · exact refuses_ok _
    · exact refuses_ok _
    · exact refuses_parseError
  · split
    · exact (refuses_memberKey _).bind fun _ => refuses_ok _
    · exact refuses_ok _
    · exact refuses_parseError

lemma refuses_round (p : Parser φ) (skip : Bool) : Refuses (round float p skip) := by
  unfold round
  split_ifs
  · exact refuses_evaluate p
  · refine (refuses_value p).bind fun ⟨q, complete⟩ => ?_
    dsimp only
    split_ifs
    · exact refuses_evaluate q
    · exact refuses_ok _

lemma refuses_loop (p : Parser φ) (skip : Bool) : Refuses (loop float p skip) := by
  induction p, skip using loop.induct float with
  | case1 p skip fault hround =>
      rw [loop_eq, hround]
      rintro fault' ⟨⟩
      exact refuses_round p skip fault hround
  | case2 p skip q hround =>
      rw [loop_eq, hround]
      exact refuses_ok q
  | case3 p skip q skip' hround ih =>
      rw [loop_eq, hround]
      exact ih

/-- Whatever the parser is given, it returns, or refuses it by one of two exceptions. -/
lemma refuses_parse (bytes : List UInt8) : Refuses (parse float bytes) := by
  refine (refuses_loop _ _).bind fun p => ?_
  split
  · exact refuses_ok _
  · exact refuses_parseError

end Refusals

/-! ### The texts that are parsed -/

section Texts

variable {φ : Type} [Floats φ] {float : φ → Json}

/-- The byte order mark of UTF-8. -/
def byteOrderMark : List UInt8 := [0xEF, 0xBB, 0xBF]

/-- Bytes that a text of a value stands in: a byte order mark may stand before it, and
nothing but a byte zero right behind it. -/
def Holds (bytes : List UInt8) (v : Value (Number φ)) : Prop :=
  ∃ mark t tail, bytes = mark ++ (encode t ++ tail) ∧ (mark = [] ∨ mark = byteOrderMark) ∧
    Tail tail ∧ Parses t v

lemma skipBom_eq_some {bytes rest : List UInt8} (h : skipBom bytes = some rest) :
    ∃ mark, bytes = mark ++ rest ∧ (mark = [] ∨ mark = byteOrderMark) := by
  unfold skipBom at h
  split at h
  · split at h
    · cases h
      exact ⟨byteOrderMark, rfl, .inr rfl⟩
    · cases h
  · cases h
    exact ⟨[], rfl, .inl rfl⟩

/-- The first byte of a mark begins no token. -/
lemma scan_mark (bytes : List UInt8) : (scan (φ := φ) (0xEF :: bytes)).1 = .parseError := by
  have hspace : JsonText.isSpace (charOf 0xEF) = false := by decide
  have hstart : lexer.NumberLabel.start (charOf 0xEF) = none := by decide
  have htoken : lexer.scanToken (φ := φ) (charOf 0xEF) bytes = none := by
    show lexer.scanNumber (charOf 0xEF) bytes = none
    rw [lexer.scanNumber, hstart]
    rfl
  have hskip : lexer.skipWhitespace (0xEF :: bytes) = 0xEF :: bytes := by
    rw [lexer.skipWhitespace, List.dropWhile_cons, hspace]
    rfl
  rw [scan, hskip]
  simp only [htoken, Option.getD_none]

lemma skipBom_of_scanned {bytes rest : List UInt8} {token : Token (Number φ)}
    {ts : List (Token (Number φ))} (h : Scanned bytes (token :: ts) rest) :
    skipBom bytes = some bytes := by
  unfold skipBom
  split
  · rename_i more
    cases h with
    | cons hscan hmeans _ =>
        have herror := scan_mark (φ := φ) more
        rw [hscan] at herror
        dsimp only at herror
        subst herror
        cases hmeans
  · rfl

/-- Without a first token nothing is parsed. -/
lemma loop_parseError (input : List UInt8) (p : Parser φ) :
    loop float { input, lastToken := .parseError } false ≠ .ok p := by
  rw [loop_eq]
  exact nofun

/-- What is parsed is the value of a text. -/
lemma holds_of_parse {bytes : List UInt8} {json : Json} (h : parse float bytes = .ok json) :
    ∃ v, Holds bytes v ∧ json = domOf float v := by
  obtain ⟨p, hloop, h⟩ := bind_eq_ok.mp h
  unfold create at hloop
  split at hloop
  · exact absurd hloop (loop_parseError [] p)
  · rename_i start hskip
    obtain ⟨v, hroot, hscanned⟩ := loop_sound hloop ⟨[], rfl, rfl, start, .nil, rfl⟩
    split at h
    · rename_i hend
      cases h
      obtain ⟨t, tail, rfl, hreads, htail⟩ := hscanned.reads (JsonText.spaced_tokens v) hend
      obtain ⟨mark, rfl, hmark⟩ := skipBom_eq_some hskip
      exact ⟨v, ⟨mark, t, tail, rfl, hmark, htail, hreads⟩, hroot⟩
    · cases h

/-- The value of a text is parsed. -/
lemma Holds.parse {bytes : List UInt8} {v : Value (Number φ)} (h : Holds bytes v) :
    parser.parse float bytes = .ok (domOf float v) := by
  obtain ⟨mark, t, tail, rfl, hmark, htail, hreads⟩ := h
  obtain ⟨rest, hscanned, hend⟩ := lexer.scanned_of_reads hreads htail
  have hskip : skipBom (mark ++ (encode t ++ tail)) = some (encode t ++ tail) := by
    rcases hmark with rfl | rfl
    · obtain ⟨token, ts, hts, -⟩ := JsonText.exists_tokens_eq_cons v
      rw [hts] at hscanned
      exact skipBom_of_scanned hscanned
    · rfl
  have hscanned : Scanned (encode t ++ tail) (tokens v ++ []) rest := by rwa [List.append_nil]
  have hfaces :=
    (faces_value (p := { input := encode t ++ tail, lastToken := .endOfInput }) hscanned).1
  obtain ⟨p, hstates, hdom, hscanned', hloop⟩ : Read float _ v [] rest := read_value v hfaces
  have hdone : evaluate p = .ok (.done p) := evaluate_of_step (.done hstates)
  have hinput : p.input = rest := by
    cases hscanned'
    rfl
  have hlast : p.getToken.lastToken = .endOfInput := by
    show (scan (φ := φ) p.input).1 = _
    rw [hinput, hend]
  rw [parser.parse, create, hskip]
  dsimp only
  rw [hloop, hdone]
  simp only [finish, ok_bind, hlast, hdom]
  rfl

/-- **The parser accepts the texts of JSON** in UTF-8, and builds their values; for any other
bytes it throws a parse error, or tells of a number that is out of range. -/
theorem parse_iff (float : φ → Json) (bytes : List UInt8) :
    (∀ json, parse float bytes = .ok json ↔ ∃ v, Holds bytes v ∧ json = domOf float v) ∧
      ∀ fault, parse float bytes = .error fault → fault = .parseError ∨ fault = .outOfRange := by
  refine ⟨fun json => ?_, refuses_parse bytes⟩
  constructor
  · exact holds_of_parse
  · rintro ⟨v, hholds, rfl⟩
    exact hholds.parse

end Texts

end Neutralino.parser
