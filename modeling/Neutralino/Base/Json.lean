import Neutralino.Library.FilePath
import Mathlib.Algebra.Group.Int.Defs
import Mathlib.Algebra.Group.Nat.Defs
import Mathlib.Data.Char
import Mathlib.Data.List.Lex

/-!
The values the framework passes around: texts, JSON documents and the faults
that interrupt a call.

* `Str`: a `std::string`; one `Char` stands for one `char` of it.
* `Fault`: what a call may come to instead of returning, with the undefined
  behaviour of an index past the end kept apart from the exceptions.
* `Json`: a `nlohmann::json` value and its accessors.
-/

namespace Neutralino

/-- A `std::string`. -/
abbrev Str := FilePath.Text

instance : Coe String Str := ⟨String.toList⟩

scoped instance : LawfulBEq Str := inferInstance

/-- `to_string` of a number. -/
def decimal (n : ℤ) : Str := (toString n).toList

/-- A check of each character of a text, one after another. -/
lemma forall_mem_of_all {P : Char → Prop} [DecidablePred P] {s : Str}
    (h : (s.all fun c => decide (P c)) = true) : ∀ c ∈ s, P c := by
  simpa using h

/-- Why a call does not return: an exception, undefined behaviour, a loop without end, or the
end of the process. -/
inductive Fault where
  | typeError
  | outOfRange
  | invalidArgument
  | parseError
  | filesystemError
  | badAlloc
  | undefinedBehaviour
  | endlessLoop
  | exited
  deriving DecidableEq

/-- Whether `catch(const exception &)` sees the fault. -/
def Fault.isException : Fault → Bool
  | undefinedBehaviour => false
  | endlessLoop => false
  | exited => false
  | _ => true

/-- A computation that returns has returned from each of its steps. -/
lemma bind_eq_ok {α β : Type} {x : Except Fault α} {f : α → Except Fault β} {b : β} :
    (x >>= f) = .ok b ↔ ∃ a, x = .ok a ∧ f a = .ok b := by
  cases x with
  | error e => exact ⟨nofun, fun ⟨_, h, _⟩ => nomatch h⟩
  | ok a => exact ⟨fun h => ⟨a, rfl, h⟩, fun ⟨_, h, h'⟩ => by cases h; exact h'⟩

@[simp] lemma ok_bind {α β : Type} (a : α) (f : α → Except Fault β) :
    (Except.ok a >>= f) = f a := rfl

@[simp] lemma error_bind {α β : Type} (e : Fault) (f : α → Except Fault β) :
    (Except.error e >>= f) = .error e := rfl

/-- A computation that returns or throws. -/
def Throws {α : Type} (x : Except Fault α) : Prop :=
  ∀ fault, x = .error fault → fault.isException = true

lemma throws_ok {α : Type} (a : α) : Throws (.ok a : Except Fault α) := nofun

lemma throws_error {α : Type} {fault : Fault} (h : fault.isException = true) :
    Throws (.error fault : Except Fault α) := by
  rintro fault' ⟨⟩
  exact h

lemma Throws.bind {α β : Type} {x : Except Fault α} {f : α → Except Fault β} (hx : Throws x)
    (hf : ∀ a, Throws (f a)) : Throws (x >>= f) := by
  cases x with
  | error fault => exact throws_error (hx fault rfl)
  | ok a => exact hf a

/-- A computation that is never undefined. -/
def Defined {α : Type} (x : Except Fault α) : Prop := x ≠ .error .undefinedBehaviour

lemma Defined.bind {α β : Type} {x : Except Fault α} {f : α → Except Fault β} (hx : Defined x)
    (hf : ∀ a, x = .ok a → Defined (f a)) : Defined (x >>= f) := by
  cases x with
  | error fault => exact fun h => hx (by simpa using h)
  | ok a => exact hf a rfl

lemma defined_ok {α : Type} (a : α) : Defined (.ok a : Except Fault α) := nofun

lemma defined_ite {α : Type} {c : Prop} [Decidable c] {x y : Except Fault α} (hx : Defined x)
    (hy : Defined y) : Defined (if c then x else y) := by
  split_ifs
  · exact hx
  · exact hy

/-- The results of a list of computations. -/
lemma mem_mapM_iff {α β : Type} {f : α → Except Fault β} {xs : List α} {ys : List β}
    (h : xs.mapM f = .ok ys) {y : β} : y ∈ ys ↔ ∃ x ∈ xs, f x = .ok y := by
  induction xs generalizing ys with
  | nil =>
      obtain rfl : [] = ys := by simpa [pure, Except.pure] using h
      simp
  | cons x xs ih =>
      rw [List.mapM_cons, bind_eq_ok] at h
      obtain ⟨z, hz, h⟩ := h
      obtain ⟨zs, hzs, h⟩ := bind_eq_ok.mp h
      obtain rfl : z :: zs = ys := by simpa [pure, Except.pure] using h
      simp [ih hzs, hz, eq_comm]

/-- `operator[](key) = value` of a map whose entries stand in the order of their keys. -/
def insertMember {κ β : Type} [DecidableEq κ] [LT κ] [DecidableLT κ] (key : κ) (value : β) :
    List (κ × β) → List (κ × β)
  | [] => [(key, value)]
  | m :: members =>
      if key = m.1 then (key, value) :: members
      else if key < m.1 then (key, value) :: m :: members
      else m :: insertMember key value members

lemma eq_or_mem_of_mem_insertMember {κ β : Type} [DecidableEq κ] [LT κ] [DecidableLT κ] {key : κ}
    {value : β} {members : List (κ × β)} {m : κ × β} (h : m ∈ insertMember key value members) :
    m = (key, value) ∨ m ∈ members := by
  induction members with
  | nil => simpa [insertMember] using h
  | cons x members ih =>
      rw [insertMember] at h
      split_ifs at h with heq hlt
      · rcases List.mem_cons.mp h with h | h
        · exact .inl h
        · exact .inr (by simp [h])
      · simpa using h
      · rcases List.mem_cons.mp h with h | h
        · exact .inr (by simp [h])
        · exact (ih h).imp_right fun h => by simp [h]

/-- A new key is one more entry. -/
lemma insertMember_perm {κ β : Type} [DecidableEq κ] [LT κ] [DecidableLT κ] {key : κ} (value : β)
    {members : List (κ × β)} (h : key ∉ members.map Prod.fst) :
    (insertMember key value members).Perm ((key, value) :: members) := by
  induction members with
  | nil => exact List.Perm.refl _
  | cons x members ih =>
      obtain ⟨hx, hmembers⟩ := not_or.mp (mt List.mem_cons.mpr h)
      rw [insertMember, if_neg hx]
      split_ifs with hlt
      · exact List.Perm.refl _
      · exact ((ih hmembers).cons x).trans (List.Perm.swap _ _ _)

/-- A new key is taken out again. -/
lemma filter_insertMember {κ β : Type} [DecidableEq κ] [LT κ] [DecidableLT κ] {key : κ} (value : β)
    {members : List (κ × β)} (h : key ∉ members.map Prod.fst) :
    (insertMember key value members).filter (fun m => m.1 ≠ key) = members := by
  induction members with
  | nil => simp [insertMember]
  | cons x members ih =>
      obtain ⟨hx, hmembers⟩ := not_or.mp (mt List.mem_cons.mpr h)
      have hkeep : members.filter (fun m => m.1 ≠ key) = members := by
        refine List.filter_eq_self.mpr fun m hm => ?_
        simpa using fun heq : m.1 = key => hmembers (List.mem_map.mpr ⟨m, hm, heq⟩)
      rw [insertMember, if_neg hx]
      split_ifs with hlt
      · rw [List.filter_cons_of_neg (by simp), List.filter_cons_of_pos (by simpa using Ne.symm hx), hkeep]
      · rw [List.filter_cons_of_pos (by simpa using Ne.symm hx), ih hmembers]

/-- The order of the keys is kept. -/
lemma pairwise_insertMember {β : Type} (key : Str) (value : β) {members : List (Str × β)}
    (h : members.Pairwise fun a b => a.1 < b.1) :
    (insertMember key value members).Pairwise fun a b => a.1 < b.1 := by
  induction members with
  | nil => simp [insertMember]
  | cons x members ih =>
      obtain ⟨hx, hmembers⟩ := List.pairwise_cons.mp h
      rw [insertMember]
      split_ifs with heq hlt
      · exact List.pairwise_cons.mpr ⟨fun m hm => heq ▸ hx m hm, hmembers⟩
      · refine List.pairwise_cons.mpr ⟨fun m hm => ?_, h⟩
        rcases List.mem_cons.mp hm with rfl | hm
        · exact hlt
        · exact hlt.trans (hx m hm)
      · refine List.pairwise_cons.mpr ⟨fun m hm => ?_, ih hmembers⟩
        rcases eq_or_mem_of_mem_insertMember hm with rfl | hm
        · exact lt_of_le_of_ne (not_lt.mp hlt) (Ne.symm heq)
        · exact hx m hm

lemma find?_insertMember_self {κ β : Type} [DecidableEq κ] [LT κ] [DecidableLT κ] (key : κ)
    (value : β) (members : List (κ × β)) :
    (insertMember key value members).find? (fun m => m.1 = key) = some (key, value) := by
  induction members with
  | nil => simp [insertMember]
  | cons x members ih =>
      rw [insertMember]
      split_ifs with heq hlt
      · simp
      · simp
      · rw [List.find?_cons_of_neg (by simpa using Ne.symm heq), ih]

lemma mem_insertMember_self {κ β : Type} [DecidableEq κ] [LT κ] [DecidableLT κ] (key : κ)
    (value : β) (members : List (κ × β)) : (key, value) ∈ insertMember key value members :=
  List.mem_of_find?_eq_some (find?_insertMember_self key value members)

lemma find?_insertMember_of_ne {κ β : Type} [DecidableEq κ] [LT κ] [DecidableLT κ] {key key' : κ}
    (hne : key' ≠ key) (value : β) (members : List (κ × β)) :
    (insertMember key value members).find? (fun m => m.1 = key') =
      members.find? fun m => m.1 = key' := by
  induction members with
  | nil => simp [insertMember, hne.symm]
  | cons x members ih =>
      rw [insertMember]
      split_ifs with heq hlt
      · rw [List.find?_cons_of_neg (by simpa using hne.symm),
          List.find?_cons_of_neg (by simpa [← heq] using hne.symm)]
      · rw [List.find?_cons_of_neg (by simpa using hne.symm)]
      · rw [List.find?_cons, List.find?_cons, ih]

/-- A JSON value; the members of an object stand in the order of their keys. -/
inductive Json where
  | null
  | bool (b : Bool)
  | num (n : ℤ)
  | str (s : Str)
  | arr (xs : List Json)
  | obj (members : List (Str × Json))

namespace Json

/-- `is_null`. -/
def isNull : Json → Bool
  | null => true
  | _ => false

/-- The member of a list of members, `null` when the key is absent. -/
def lookup (key : Str) (members : List (Str × Json)) : Json :=
  ((members.find? fun m => m.1 = key).map (·.2)).getD null

/-- `operator[](key)` of a mutable value.  It also inserts a null member for an
absent key, which no reader tells from the absent member. -/
def index (j : Json) (key : Str) : Except Fault Json :=
  match j with
  | null => .ok null
  | obj members => .ok (lookup key members)
  | _ => .error .typeError

/-- `contains(key)`. -/
def contains (j : Json) (key : Str) : Bool :=
  match j with
  | obj members => members.any fun m => m.1 = key
  | _ => false

/-- `operator[](key)` of a const value: undefined for a key the object lacks. -/
def indexConst (j : Json) (key : Str) : Except Fault Json :=
  match j with
  | obj members =>
      match members.find? fun m => m.1 = key with
      | some m => .ok m.2
      | none => .error .undefinedBehaviour
  | _ => .error .typeError

/-- `operator[](key) = value` on a null value or an object. -/
def set (j : Json) (key : Str) (value : Json) : Json :=
  match j with
  | obj members => obj (insertMember key value members)
  | _ => obj [(key, value)]

/-- `items()`: the keys with their values; an array is keyed by its indices, a
value that is neither has the empty key. -/
def items : Json → List (Str × Json)
  | null => []
  | obj members => members
  | arr xs => xs.zipIdx.map fun x => ((toString x.2).toList, x.1)
  | j => [([], j)]

/-- `get<string>`. -/
def getString : Json → Except Fault Str
  | str s => .ok s
  | _ => .error .typeError

/-- `get<bool>`. -/
def getBool : Json → Except Fault Bool
  | bool b => .ok b
  | _ => .error .typeError

/-- `get<int>`: a boolean is a number too, and a number is kept in 32 bits. -/
def getInt : Json → Except Fault ℤ
  | num n => .ok (n.bmod (2 ^ 32))
  | bool b => .ok b.toNat
  | _ => .error .typeError

/-- `get<long long>`: a boolean is a number too, and a number is kept in 64 bits. -/
def getLongLong : Json → Except Fault ℤ
  | num n => .ok (n.bmod (2 ^ 64))
  | bool b => .ok b.toNat
  | _ => .error .typeError

/-- `get<long>` and `get<unsigned long>`, the number types of the library itself,
for a value in range. -/
def getLong : Json → Except Fault ℤ
  | num n => .ok n
  | _ => .error .typeError

/-- `get<vector<string>>`. -/
def getStrings : Json → Except Fault (List Str)
  | arr xs => xs.mapM getString
  | _ => .error .typeError

/-- A number that is an `int` is read as it is. -/
lemma getInt_num {n : ℤ} (hle : -2 ^ 31 ≤ n) (hlt : n < 2 ^ 31) : (num n).getInt = .ok n := by
  rw [getInt, Int.bmod_eq_of_le (by omega) (by omega)]

lemma index_defined (j : Json) (key : Str) : Defined (j.index key) := by
  cases j <;> simp [index, Defined]

lemma getString_defined (j : Json) : Defined j.getString := by
  cases j <;> simp [getString, Defined]

lemma getBool_defined (j : Json) : Defined j.getBool := by
  cases j <;> simp [getBool, Defined]

end Json

end Neutralino
