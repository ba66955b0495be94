import Neutralino.Api.FileReader
import Neutralino.Config.GlobalVars
import Mathlib.Data.List.ReduceOption

/-!
The window state of `window.cpp` between two runs: what is written when the
window closes and what is read when it is created.

* `IntNumeral`: numbers among which those of type `int` are kept.
* `saveWindowProps`, `loadSavedWindowProps`: the file that is written, and the
  fields that are read from it one after the other.
* `load_save`: **the saved state is loaded**.
* `keepsOnFailure_iff`: **when a failed load changes nothing**: the fields before
  the one that fails are assigned already, so they must have had their values.
-/

namespace Neutralino.window

open JsonText

/-- Numbers of JSON texts with those of type `int` among them, which are written,
read back and converted to what they were. -/
class IntNumeral (ν : Type) extends Numeral ν where
  ofInt : Int32 → ν
  toInt : ν → Int32
  readBack_ofInt (n : Int32) : ReadBack (ofInt n)
  toInt_ofInt (n : Int32) : toInt (ofInt n) = n

instance : IntNumeral ℤ where
  ofInt := Int32.toInt
  toInt := Int32.ofInt
  readBack_ofInt n := readBack_int n.toInt
  toInt_ofInt := Int32.ofInt_toInt

/-! ### The options of the window -/

/-- `SizeOptions`. -/
structure SizeOptions where
  width : Int32 := -1
  height : Int32 := -1
  minWidth : Int32 := -1
  minHeight : Int32 := -1
  maxWidth : Int32 := -1
  maxHeight : Int32 := -1
  resizable : Bool := true
  deriving DecidableEq

/-- `WindowOptions`, as far as the window state is concerned. -/
structure WindowOptions where
  sizeOptions : SizeOptions := {}
  maximize : Bool := false
  x : Int32 := 0
  y : Int32 := 0
  deriving DecidableEq

/-- The window as the toolkit tells it. -/
structure WindowStatus where
  size : Int32 × Int32
  position : Int32 × Int32
  isMaximized : Bool

section State

variable {ν : Type} [IntNumeral ν]

/-! ### Saving -/

/-- `__sizeOptionsToJson`. -/
def sizeOptionsToJson (opt : SizeOptions) : List (Str × Value ν) :=
  [(("width" : Str), Value.num (IntNumeral.ofInt opt.width)),
    (("height" : Str), .num (IntNumeral.ofInt opt.height)),
    (("minWidth" : Str), .num (IntNumeral.ofInt opt.minWidth)),
    (("minHeight" : Str), .num (IntNumeral.ofInt opt.minHeight)),
    (("maxWidth" : Str), .num (IntNumeral.ofInt opt.maxWidth)),
    (("maxHeight" : Str), .num (IntNumeral.ofInt opt.maxHeight)),
    (("resizable" : Str), .bool opt.resizable)].foldl
      (fun members m => insertMember m.1 m.2 members) []

/-- `getSize`: the size is also kept. -/
def getSize (status : WindowStatus) (props : WindowOptions) : WindowOptions :=
  { props with sizeOptions :=
    { props.sizeOptions with width := status.size.1, height := status.size.2 } }

/-- `options` of `__saveWindowProps`. -/
def savedOptions (status : WindowStatus) (props : WindowOptions) : Value ν :=
  .obj (insertMember "maximize" (.bool status.isMaximized)
    (insertMember "y" (.num (IntNumeral.ofInt status.position.2))
      (insertMember "x" (.num (IntNumeral.ofInt status.position.1))
        (sizeOptionsToJson (getSize status props).sizeOptions))))

variable (ν) in
/-- `__saveWindowProps`: the options it leaves and the text it writes. -/
def saveWindowProps (status : WindowStatus) (props : WindowOptions) : WindowOptions × Str :=
  (getSize status props, helpers.jsonToString (savedOptions status props : Value ν))

/-! ### Loading -/

/-- `options[key]`, absent where it throws. -/
def index (options : Value ν) (key : Str) : Option (Value ν) :=
  match options with
  | .null => some .null
  | .obj _ => some ((options.member key).getD .null)
  | _ => none

/-- `get<int>`: a boolean is a number too. -/
def getInt : Value ν → Option Int32
  | .num n => some (IntNumeral.toInt n)
  | .bool b => some (if b then 1 else 0)
  | _ => none

/-- `get<bool>`. -/
def getBool : Value ν → Option Bool
  | .bool b => some b
  | _ => none

/-- One assignment of `__loadSavedWindowProps`, absent where reading throws. -/
abbrev Assignment (ν : Type) := Value ν → Option (WindowOptions → WindowOptions)

/-- The assignments in their order. -/
def assignments : List (Assignment ν) :=
  [fun options => ((index options "x").bind getInt).map fun x props => { props with x := x },
    fun options => ((index options "y").bind getInt).map fun y props => { props with y := y },
    fun options => ((index options "maximize").bind getBool).map fun maximize props =>
      { props with maximize := maximize },
    fun options => ((index options "width").bind getInt).map fun width props =>
      { props with sizeOptions := { props.sizeOptions with width := width } },
    fun options => ((index options "height").bind getInt).map fun height props =>
      { props with sizeOptions := { props.sizeOptions with height := height } }]

/-- The assignments up to the first that throws, and whether all were made. -/
def assign (options : Value ν) : List (Assignment ν) → WindowOptions → Bool × WindowOptions
  | [], props => (true, props)
  | assignment :: rest, props =>
      match assignment options with
      | some update => assign options rest (update props)
      | none => (false, props)

/-- What `__loadSavedWindowProps` returns, with the options and the log it leaves. -/
structure Loaded where
  returned : Bool
  props : WindowOptions
  log : List Str := []

/-- `NEU_WIN_CONFIG_FILE`. -/
def configFile : Str := "/.tmp/window_state.config.json"

/-- `__loadSavedWindowProps`, from what reading the file gave; `parse` is the
parser of the JSON library. -/
def loadSavedWindowProps (parse : Str → Option (Value ν)) (readerResult : fs.FileReaderResult)
    (props : WindowOptions) : Loaded :=
  let caught (props : WindowOptions) : Loaded :=
    { returned := false, props := props,
      log := [errors.makeErrorMsg .NE_CF_UNBLWCF configFile] }
  if readerResult.status ≠ .NE_ST_OK then { returned := false, props := props }
  else
    match parse readerResult.data with
    | none => caught props
    | some options =>
        match assign options assignments props with
        | (true, props) => { returned := true, props := props }
        | (false, props) => caught props

/-! ### The saved state is loaded -/

/-- The saved options in the order of their keys. -/
lemma savedOptions_eq (status : WindowStatus) (props : WindowOptions) :
    (savedOptions status props : Value ν) = .obj
      [("height", .num (IntNumeral.ofInt status.size.2)),
        ("maxHeight", .num (IntNumeral.ofInt props.sizeOptions.maxHeight)),
        ("maxWidth", .num (IntNumeral.ofInt props.sizeOptions.maxWidth)),
        ("maximize", .bool status.isMaximized),
        ("minHeight", .num (IntNumeral.ofInt props.sizeOptions.minHeight)),
        ("minWidth", .num (IntNumeral.ofInt props.sizeOptions.minWidth)),
        ("resizable", .bool props.sizeOptions.resizable),
        ("width", .num (IntNumeral.ofInt status.size.1)),
        ("x", .num (IntNumeral.ofInt status.position.1)),
        ("y", .num (IntNumeral.ofInt status.position.2))] := rfl

omit [IntNumeral ν] in
/-- A number among the tokens of an object is one of a member. -/
lemma num_mem_tokens_obj {members : List (Str × Value ν)} {n : ν}
    (h : Token.num n ∈ tokens (.obj members)) : ∃ m ∈ members, Token.num n ∈ tokens m.2 := by
  have hlist : ∀ members : List (Str × Value ν),
      Token.num n ∈ List.intercalate [.punct ','] (tokensMembers members) →
      ∃ m ∈ members, Token.num n ∈ tokens m.2 := by
    intro members
    induction members with
    | nil => intro h; cases h
    | cons m members ih =>
        intro h
        have hsplit : Token.num n ∈ tokens m.2 ∨
            Token.num n ∈ List.intercalate [.punct ','] (tokensMembers members) := by
          cases members with
          | nil => simpa [tokensMembers, List.intercalate] using h
          | cons m' members =>
              rw [tokensMembers, tokensMembers, List.intercalate_cons_cons] at h
              simpa [tokensMembers] using h
        rcases hsplit with hm | hrest
        · exact ⟨m, List.mem_cons_self, hm⟩
        · obtain ⟨m', hm', hn⟩ := ih hrest
          exact ⟨m', List.mem_cons_of_mem _ hm', hn⟩
  refine hlist members ?_
  rw [tokens] at h
  simpa using h

/-- The text of the saved options is one of them. -/
lemma parses_saved (status : WindowStatus) (props : WindowOptions) :
    Parses (saveWindowProps ν status props).2 (savedOptions status props : Value ν) := by
  refine parses_dump fun n hn => ?_
  rw [savedOptions_eq] at hn
  obtain ⟨m, hm, hn⟩ := num_mem_tokens_obj hn
  have hmade : (∃ k, m.2 = .num (IntNumeral.ofInt k)) ∨ ∃ b, m.2 = .bool b := by
    simp only [List.mem_cons, List.not_mem_nil, or_false] at hm
    rcases hm with rfl | rfl | rfl | rfl | rfl | rfl | rfl | rfl | rfl | rfl <;>
      first | exact .inl ⟨_, rfl⟩ | exact .inr ⟨_, rfl⟩
  obtain ⟨k, hk⟩ | ⟨b, hb⟩ := hmade
  · rw [hk, tokens, List.mem_singleton] at hn
    obtain rfl := Token.num.inj hn
    exact IntNumeral.readBack_ofInt k
  · rw [hb, tokens, List.mem_singleton] at hn
    cases hn

/-- The assignments made from the saved options. -/
lemma assign_savedOptions (status : WindowStatus) (props props' : WindowOptions) :
    assign (savedOptions status props : Value ν) assignments props' =
      (true, { getSize status props' with
        maximize := status.isMaximized, x := status.position.1, y := status.position.2 }) := by
  have hx : index (savedOptions status props : Value ν) "x" =
    some (.num (IntNumeral.ofInt status.position.1)) := by rw [savedOptions_eq]; rfl
  have hy : index (savedOptions status props : Value ν) "y" =
    some (.num (IntNumeral.ofInt status.position.2)) := by rw [savedOptions_eq]; rfl
  have hmaximize : index (savedOptions status props : Value ν) "maximize" =
    some (.bool status.isMaximized) := by rw [savedOptions_eq]; rfl
  have hwidth : index (savedOptions status props : Value ν) "width" =
    some (.num (IntNumeral.ofInt status.size.1)) := by rw [savedOptions_eq]; rfl
  have hheight : index (savedOptions status props : Value ν) "height" =
    some (.num (IntNumeral.ofInt status.size.2)) := by rw [savedOptions_eq]; rfl
  simp only [assign, assignments, hx, hy, hmaximize, hwidth, hheight, Option.bind_some, getInt,
    getBool, Option.map_some, IntNumeral.toInt_ofInt, getSize]

/-- **The saved state is loaded**: from the text that was written the load returns
`true`, and it sets the position, the maximised flag and the size. -/
lemma load_save {parse : Str → Option (Value ν)}
    (hparse : ∀ text options, Parses text options → parse text = some options)
    (status : WindowStatus) (props props' : WindowOptions) :
    loadSavedWindowProps parse { data := (saveWindowProps ν status props).2 } props' =
      { returned := true, props := { getSize status props' with
        maximize := status.isMaximized, x := status.position.1, y := status.position.2 } } := by
  have hread := hparse _ _ (parses_saved (ν := ν) status props)
  simp only [loadSavedWindowProps, hread, assign_savedOptions, ne_eq, not_true_eq_false, if_false]

/-! ### A failed load -/

/-- The updates of the fields that can be read, up to the first that cannot. -/
def updates (options : Value ν) : List (WindowOptions → WindowOptions) :=
  ((assignments.map fun assignment => assignment options).takeWhile Option.isSome).reduceOption

/-- The load keeps the options where it returns `false`. -/
def KeepsOnFailure (parse : Str → Option (Value ν)) (readerResult : fs.FileReaderResult)
    (props : WindowOptions) : Prop :=
  (loadSavedWindowProps parse readerResult props).returned = false →
    (loadSavedWindowProps parse readerResult props).props = props

/-- What is read before a field that cannot be read has its value already. -/
def Harmless (parse : Str → Option (Value ν)) (readerResult : fs.FileReaderResult)
    (props : WindowOptions) : Prop :=
  readerResult.status = .NE_ST_OK → ∀ options, parse readerResult.data = some options →
    (updates options).length = 5 ∨ ∀ update ∈ updates options, update props = props

/-- The assignments that were made are undone by nothing: they are no change only
where each of them is none. -/
lemma assign_keeps_iff (options : Value ν) (props : WindowOptions) :
    ((assign options assignments props).1 = false →
        (assign options assignments props).2 = props) ↔
      (updates options).length = 5 ∨ ∀ update ∈ updates options, update props = props := by
  obtain ⟨⟨width, height, minWidth, minHeight, maxWidth, maxHeight, resizable⟩, maximize, x, y⟩ :=
    props
  simp only [updates, assignments, assign, List.map_cons, List.map_nil]
  generalize (index options "x").bind getInt = readX
  generalize (index options "y").bind getInt = readY
  generalize (index options "maximize").bind getBool = readMaximize
  generalize (index options "width").bind getInt = readWidth
  generalize (index options "height").bind getInt = readHeight
  cases readX with
  | none => simp
  | some x' =>
  cases readY with
  | none => simp
  | some y' =>
  cases readMaximize with
  | none => simp
  | some maximize' =>
  cases readWidth with
  | none =>
      simp only [List.takeWhile, Option.isSome]
      simp
      tauto
  | some width' =>
  cases readHeight with
  | none =>
      simp only [List.takeWhile, Option.isSome]
      simp
      tauto
  | some height' => simp

variable {parse : Str → Option (Value ν)} {readerResult : fs.FileReaderResult}
  {props : WindowOptions}

/-- **When a failed load changes nothing**: the file is missing or no JSON text, or
every field before the one that cannot be read has its value already. -/
lemma keepsOnFailure_iff :
    KeepsOnFailure parse readerResult props ↔ Harmless parse readerResult props := by
  rw [KeepsOnFailure, Harmless, loadSavedWindowProps]
  by_cases hstatus : readerResult.status = .NE_ST_OK
  swap
  · simp [hstatus]
  cases hparse : parse readerResult.data with
  | none => simp [hstatus]
  | some options =>
      have hiff := assign_keeps_iff options props
      cases hassign : assign options assignments props with
      | mk returned props' =>
          rw [hassign] at hiff
          cases returned with
          | true => simpa [hstatus, hassign] using hiff
          | false => simpa [hstatus, hassign] using hiff

variable (ν) in
/-- **What the window state file is good for**: the saved state is loaded whatever
the options are by then, and a load that fails changes nothing exactly where the
file is harmless. -/
theorem windowState_iff {parse : Str → Option (Value ν)}
    (hparse : ∀ text options, Parses text options → parse text = some options) :
    (∀ status props props',
      loadSavedWindowProps parse { data := (saveWindowProps ν status props).2 } props' =
        { returned := true, props := { getSize status props' with
          maximize := status.isMaximized, x := status.position.1, y := status.position.2 } }) ∧
    ∀ readerResult props,
      KeepsOnFailure parse readerResult props ↔ Harmless parse readerResult props :=
  ⟨load_save hparse, fun _ _ => keepsOnFailure_iff⟩

end State

/-! ### A parser -/

section Parser

variable (ν : Type) [Numeral ν]

open Classical in
/-- The parser of all texts of values, and of no others. -/
noncomputable def parser (text : Str) : Option (Value ν) :=
  if h : ∃ options, Parses text options then some h.choose else none

variable {ν}

lemma parser_of_parses (text : Str) (options : Value ν) (h : Parses text options) :
    parser ν text = some options := by
  have hexists : ∃ options : Value ν, Parses text options := ⟨options, h⟩
  rw [parser, dif_pos hexists, parses_unique hexists.choose_spec h]

end Parser

theorem sample_windowState :
    loadSavedWindowProps (parser ℤ)
        { data := (saveWindowProps ℤ ⟨(800, 500), (20, 30), true⟩ {}).2 } {} =
      { returned := true,
        props := { sizeOptions := { width := 800, height := 500 }, maximize := true, x := 20, y := 30 } } :=
  (windowState_iff ℤ parser_of_parses).1 ⟨(800, 500), (20, 30), true⟩ {} {}

/-- A file of which only the first field is left. -/
def truncatedOptions : Value ℤ := .obj [("x", .num 40)]

/-- **The position of a file without the other fields is kept**, although the load
returns `false`. -/
theorem truncated_file_moves :
    ¬ KeepsOnFailure (parser ℤ) { data := helpers.jsonToString truncatedOptions } {} := by
  have hparses : Parses (helpers.jsonToString truncatedOptions) truncatedOptions :=
    parses_dump fun n _ => readBack_int n
  intro h
  have hone : updates truncatedOptions = [fun props => { props with x := 40 }] := rfl
  rcases keepsOnFailure_iff.mp h rfl _ (parser_of_parses _ _ hparses) with hlength | hkept
  · rw [hone] at hlength
    cases hlength
  · have hx := hkept _ (hone ▸ List.mem_singleton_self _)
    exact absurd (WindowOptions.mk.inj hx).2.2.1 (by decide)

end Neutralino.window
