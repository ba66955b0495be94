import Neutralino.Base.Numbers
import Neutralino.Base.Settings
import Neutralino.Library.EmbeddedJson

/-!
`settings::getGlobalVars`: the script that declares the global variables.

* `helpers.jsonToString`: a value as its compact text.
* `authbasic.getToken`: the access token, told once where it is a one-time one.
* `getGlobalVars`: the script, from the configuration and what surrounds it.
* `evaluateDeclaration`: what JavaScript makes of one custom variable, its name
  and the text that is parsed.
* `roundTrips_iff`: **when a custom variable has its value**: no escape is undone
  twice, so the strings must be plain.
-/

namespace Neutralino

open JsonText

mutual

/-- A JSON value with whole numbers. -/
def Json.value : Json → Value ℤ
  | .null => .null
  | .bool b => .bool b
  | .num n => .num n
  | .str s => .str s
  | .arr xs => .arr (Json.values xs)
  | .obj members => .obj (Json.memberValues members)

def Json.values : List Json → List (Value ℤ)
  | [] => []
  | x :: xs => x.value :: Json.values xs

def Json.memberValues : List (Str × Json) → List (Str × Value ℤ)
  | [] => []
  | (key, x) :: members => (key, x.value) :: Json.memberValues members

end

/-! ### Whole numbers -/

/-- The number that a decimal text denotes. -/
def readDecimal (s : Str) : Option ℤ :=
  let negative := s.head? = some '-'
  let digits := if negative then s.tail else s
  let value : ℤ := Nat.ofDigitChars 10 digits 0
  if digits ≠ [] ∧ digits.all Char.isDigit then some (if negative then -value else value) else none

lemma decimal_negSucc (n : ℕ) : decimal (Int.negSucc n) = '-' :: Nat.toDigits 10 (n + 1) := by
  show (Int.repr (Int.negSucc n)).toList = _
  rw [Int.repr_eq_if, if_neg (by omega)]
  simp [Nat.toList_repr]

instance : Numeral ℤ where
  text := decimal
  read := readDecimal
  text_ne_nil n := by
    cases n with
    | ofNat n => exact fun h => Nat.toDigits_ne_nil ((decimal_natCast n).symm.trans h)
    | negSucc n => simp [decimal_negSucc]
  isNumberChar_of_mem n c hc := by
    cases n with
    | ofNat n =>
        have hdigit := isDigit_of_mem_decimal c (decimal_natCast n ▸ hc)
        simp [isNumberChar, hdigit]
    | negSucc n =>
        rw [decimal_negSucc] at hc
        rcases List.mem_cons.mp hc with rfl | hc
        · rfl
        · simp [isNumberChar, isDigit_of_mem_decimal c hc]

/-- Whole numbers are read back. -/
lemma readBack_int (n : ℤ) : ReadBack n := by
  show readDecimal (decimal n) = some n
  have hall : ∀ m, (Nat.toDigits 10 m).all Char.isDigit = true := fun m =>
    List.all_eq_true.mpr isDigit_of_mem_decimal
  cases n with
  | ofNat n =>
      rw [show Int.ofNat n = (n : ℤ) from rfl, decimal_natCast]
      obtain ⟨c, s, hs⟩ := List.exists_cons_of_ne_nil (Nat.toDigits_ne_nil (n := n) (b := 10))
      have hc := (isspace_of_isDigit (isDigit_of_mem_decimal (n := n) c (hs ▸ List.mem_cons_self))).2.1
      have hhead : (Nat.toDigits 10 n).head? ≠ some '-' := by simpa [hs] using hc
      simp [readDecimal, hhead, Nat.toDigits_ne_nil, hall]
  | negSucc n =>
      rw [decimal_negSucc]
      simp only [readDecimal, List.head?_cons, List.tail_cons, if_true, hall]
      simp [Nat.toDigits_ne_nil, Int.negSucc_eq]

/-! ### The script -/

/-- `jsonToString`. -/
def helpers.jsonToString {ν : Type} [Numeral ν] (value : Value ν) : Str := dump value

namespace authbasic

/-- `TokenSecurity`. -/
inductive TokenSecurity where
  | none
  | oneTime
  deriving DecidableEq

/-- The variables of `authbasic.cpp` that `getToken` reads. -/
structure State where
  token : Str
  token_ne_nil : token ≠ []
  tokenSecurity : TokenSecurity := .oneTime
  tokenSent : Bool := false

/-- `getToken`. -/
def getToken (state : State) : Str × State :=
  if state.tokenSent ∧ state.tokenSecurity = .oneTime then ([], state)
  else (state.token, { state with tokenSent := true })

end authbasic

namespace settings

/-- What the script tells besides the configuration and the token. -/
structure Surroundings where
  osName : Str
  arch : Str
  version : Str
  commit : Str
  currentDirectory : Except Fault Str
  globalArgs : List Str
  appPath : Str
  appDataPath : Str
  processId : ℤ
  resourceMode : Str
  extensionsInitialized : Bool
  customMethods : List Str
  savedStateLoaded : Bool
  configFile : Str
  localeName : Str
  compilationData : Str

/-- A variable whose value is put between single quotes as it is. -/
def quotedVariable (name : String) (value : Str) : Str :=
  "var ".toList ++ name.toList ++ "='".toList ++ value ++ "';".toList

/-- A variable whose value is a text of JavaScript. -/
def plainVariable (name : String) (value : Str) : Str :=
  "var ".toList ++ name.toList ++ "=".toList ++ value ++ ";".toList

/-- The declaration of a custom global variable. -/
def globalVariable {ν : Type} [Numeral ν] (key : Str) (value : Value ν) : Str :=
  "var NL_".toList ++ key ++ "=JSON.parse('".toList ++ helpers.jsonToString value ++ "');".toList

def strings (xs : List Str) : Value ℤ := .arr (xs.map .str)

/-- `NL_APPVERSION`, where the configuration has a version. -/
def appVersionVariable (options : Json) : Except Fault Str := do
  let version ← options.index "version"
  if version.isNull then return [] else return quotedVariable "NL_APPVERSION" (← version.getString)

/-- The script up to the port. -/
def globalVarsHead (around : Surroundings) (options : Json) : Except Fault Str := do
  let appId ← getAppId options
  let appVersion ← appVersionVariable options
  return quotedVariable "NL_OS" around.osName ++ quotedVariable "NL_ARCH" around.arch ++
    quotedVariable "NL_VERSION" around.version ++ quotedVariable "NL_COMMIT" around.commit ++
    quotedVariable "NL_APPID" appId ++ appVersion

/-- The script up to the token. -/
def globalVarsBefore (around : Surroundings) (options : Json) : Except Fault Str := do
  let head ← globalVarsHead around options
  let port ← (← getOptionForCurrentMode options "port").getInt
  let mode ← getMode options
  return head ++ plainVariable "NL_PORT" (decimal port) ++ quotedVariable "NL_MODE" (appModeToStr mode)

/-- The script after the token. -/
def globalVarsAfter (around : Surroundings) (options : Json) : Except Fault Str := do
  let cwd ← around.currentDirectory
  let jGlobalVariables ← getOptionForCurrentMode options "globalVariables"
  return quotedVariable "NL_CWD" cwd ++
    plainVariable "NL_ARGS" (helpers.jsonToString (strings around.globalArgs)) ++
    quotedVariable "NL_PATH" around.appPath ++ quotedVariable "NL_DATAPATH" around.appDataPath ++
    plainVariable "NL_PID" (decimal around.processId) ++
    quotedVariable "NL_RESMODE" around.resourceMode ++
    plainVariable "NL_EXTENABLED" (boolText around.extensionsInitialized) ++
    plainVariable "NL_CMETHODS" (helpers.jsonToString (strings around.customMethods)) ++
    plainVariable "NL_WSAVSTLOADED" (boolText around.savedStateLoaded) ++
    quotedVariable "NL_CONFIGFILE" around.configFile ++
    quotedVariable "NL_LOCALE" around.localeName ++
    quotedVariable "NL_COMPDATA" around.compilationData ++
    jGlobalVariables.items.flatMap fun m => globalVariable m.1 m.2.value

/-- `getGlobalVars`: the token is told before what may fail after it. -/
def getGlobalVars (around : Surroundings) (options : Json) (auth : authbasic.State) :
    Except Fault Str × authbasic.State :=
  match globalVarsBefore around options with
  | .error fault => (.error fault, auth)
  | .ok before =>
      let (token, auth) := authbasic.getToken auth
      ((globalVarsAfter around options).map fun after =>
        before ++ quotedVariable "NL_TOKEN" token ++ after, auth)

/-- A script has the token that `getToken` returned between the two parts. -/
lemma getGlobalVars_eq_ok {around : Surroundings} {options : Json} {auth : authbasic.State}
    {script : Str} (h : (getGlobalVars around options auth).1 = .ok script) :
    (∃ before after, globalVarsBefore around options = .ok before ∧
      script = before ++ quotedVariable "NL_TOKEN" (authbasic.getToken auth).1 ++ after) ∧
      (getGlobalVars around options auth).2 = (authbasic.getToken auth).2 := by
  rw [getGlobalVars] at h ⊢
  cases hbefore : globalVarsBefore around options with
  | error fault =>
      rw [hbefore] at h
      cases h
  | ok before =>
      rw [hbefore] at h
      cases hafter : globalVarsAfter around options with
      | error fault =>
          rw [hafter] at h
          cases h
      | ok after =>
          rw [hafter] at h
          exact ⟨⟨before, after, rfl, (Except.ok.inj h).symm⟩, rfl⟩

/-! ### Custom variables -/

/-- The characters of identifiers; those beyond ASCII are not told apart. -/
def isIdentifierChar (c : Char) : Bool := c.isAlphanum ∨ c = '_' ∨ c = '$' ∨ 128 ≤ c.toNat

/-- What evaluating `var name=JSON.parse('…');` comes to: the name, and the text
that is parsed.  The literal is read by the rules of JavaScript, and the rest of
the statement must follow it. -/
def evaluateDeclaration (statement : Str) : Option (Str × Str) := do
  let afterVar ← "var ".toList.isPrefixOf? statement
  let literal ← "=JSON.parse('".toList.isPrefixOf? (afterVar.dropWhile isIdentifierChar)
  let (text, rest) ← Quoted.javascript.read literal
  if rest = ");".toList then some (afterVar.takeWhile isIdentifierChar, text) else none

/-- A statement declares a custom variable with a value. -/
def Declares {ν : Type} [Numeral ν] (statement key : Str) (value : Value ν) : Prop :=
  ∃ text, evaluateDeclaration statement = some ("NL_".toList ++ key, text) ∧ Parses text value

section

variable {ν : Type} [Numeral ν] {key : Str} {value : Value ν}

/-- The literal of a declaration holds the value as its compact text. -/
lemma evaluateDeclaration_globalVariable (hkey : ∀ c ∈ key, isIdentifierChar c = true) :
    evaluateDeclaration (globalVariable key value) =
      (Quoted.javascript.read (dump value ++ '\'' :: ");".toList)).bind fun p =>
        if p.2 = ");".toList then some ("NL_".toList ++ key, p.1) else none := by
  have hprefix : "NL_".toList.all isIdentifierChar = true := by decide
  have hname : ∀ c ∈ "NL_".toList ++ key, isIdentifierChar c = true := fun c hc =>
    (List.mem_append.mp hc).elim (List.all_eq_true.mp hprefix c) (hkey c)
  have hstatement : globalVariable key value =
      "var ".toList ++ (("NL_".toList ++ key) ++ ("=JSON.parse('".toList ++
        (dump value ++ '\'' :: ");".toList))) := by
    have hclose : "');".toList = '\'' :: ");".toList := rfl
    have hopen : "var NL_".toList = "var ".toList ++ "NL_".toList := rfl
    unfold globalVariable helpers.jsonToString
    simp only [hclose, hopen, List.append_assoc]
  have hdrop : (("NL_".toList ++ key) ++ ("=JSON.parse('".toList ++
      (dump value ++ '\'' :: ");".toList))).dropWhile isIdentifierChar =
        "=JSON.parse('".toList ++ (dump value ++ '\'' :: ");".toList) := by
    rw [List.dropWhile_append_of_pos hname]
    rfl
  have htake : (("NL_".toList ++ key) ++ ("=JSON.parse('".toList ++
      (dump value ++ '\'' :: ");".toList))).takeWhile isIdentifierChar = "NL_".toList ++ key := by
    rw [List.takeWhile_append_of_pos hname]
    exact List.append_nil _
  rw [evaluateDeclaration, hstatement, List.isPrefixOf?_eq_some_iff_append_eq.mpr rfl,
    Option.bind_eq_bind, Option.bind_some, hdrop, List.isPrefixOf?_eq_some_iff_append_eq.mpr rfl,
    htake]
  rfl

/-- A declaration has its value where the literal is read back. -/
lemma declares_iff (hkey : ∀ c ∈ key, isIdentifierChar c = true) :
    Declares (globalVariable key value) key value ↔
      ∃ text, Quoted.javascript.read (dump value ++ '\'' :: ");".toList) = some (text, ");".toList) ∧
        Parses text value := by
  rw [Declares, evaluateDeclaration_globalVariable hkey]
  refine exists_congr fun text => and_congr_left fun _ => ?_
  rw [Option.bind_eq_some_iff]
  constructor
  · rintro ⟨⟨text', rest⟩, hread, h⟩
    split_ifs at h with hrest
    obtain ⟨-, rfl⟩ := Prod.mk.inj (Option.some.inj h)
    rw [hread, ← hrest]
  · intro hread
    exact ⟨_, hread, if_pos rfl⟩

/-- **When a custom variable has its value**: no string or key in it has a quote
of either kind, a backslash or a control character, and JavaScript reads its
numbers back. -/
theorem roundTrips_iff (hkey : ∀ c ∈ key, isIdentifierChar c = true) :
    Declares (globalVariable key value) key value ↔
      (∀ s, .str s ∈ tokens value → ∀ c ∈ s, Quoted.IsPlain c ∧ c ≠ '\'') ∧
        ∀ n, .num n ∈ tokens value → ReadBack n := by
  rw [declares_iff hkey, literal_parses_iff]

end

/-- The first of the `globalVariables` in the configuration of the tests. -/
theorem test1_roundTrips :
    Declares (globalVariable "TEST1".toList (.str "Hello".toList : Value ℤ)) "TEST1".toList
      (.str "Hello".toList : Value ℤ) := by
  have hkey : "TEST1".toList.all isIdentifierChar = true := by decide
  have hplain : "Hello".toList.all (fun c => Quoted.IsPlain c ∧ c ≠ '\'') = true := by decide
  refine (@roundTrips_iff ℤ _ "TEST1".toList (.str "Hello".toList)
    (List.all_eq_true.mp hkey)).mpr ⟨fun s hs c hc => ?_, fun n _ => readBack_int n⟩
  obtain rfl : s = "Hello".toList := by
    simpa only [tokens, List.mem_singleton, Token.str.injEq] using hs
  exact of_decide_eq_true (List.all_eq_true.mp hplain c hc)

/-- A string with a single quote ends the literal. -/
theorem apostrophe_not_declared :
    ¬ ∀ (key : Str) (value : Value ℤ), (∀ c ∈ key, isIdentifierChar c = true) →
      Declares (globalVariable key value) key value := by
  intro h
  have hkey : "NOTE".toList.all isIdentifierChar = true := by decide
  have hdeclares := h "NOTE".toList (.str "it's".toList) (List.all_eq_true.mp hkey)
  rw [declares_iff (List.all_eq_true.mp hkey), literal_parses_iff] at hdeclares
  have hmem : Token.str "it's".toList ∈ tokens (.str "it's".toList : Value ℤ) :=
    List.mem_singleton_self _
  have hquote : '\'' ∈ "it's".toList := by decide
  exact (hdeclares.1 _ hmem _ hquote).2 rfl

end settings

end Neutralino
