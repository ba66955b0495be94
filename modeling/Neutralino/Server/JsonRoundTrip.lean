import Neutralino.Server.Parser
import Neutralino.Server.Serializer

/-!
What the JSON library reads of what it wrote.

* `Is64Bit`: the values whose numbers have 64 bits, as those of the library do.
* `rebuilt`: the value that is read of the text of a value.
* `IsUtf8`, `WellFormed`: texts in UTF-8, and the values of such texts with the members
  of their objects in the order of the keys.
* `parse_dump`: **a value that is written and read becomes `rebuilt`**, and
  `rebuilt_eq_iff`: it is the same exactly if it is well-formed.
-/

namespace Neutralino.parser

open JsonText (Floats Number Token Value Numeral tokens ReadBack)
open Quoted (Text)
open Utf8 (encode charOf)
open serializer (repaired repairedElements repairedMembers repairString bytesOf)

/-! ### Values as values of a text -/

section Values

variable (φ : Type)

mutual

/-- A value with the numbers of the parser. -/
def valueOf : Json → Value (Number φ)
  | .null => .null
  | .bool b => .bool b
  | .num n => .num (.whole n)
  | .str s => .str s
  | .arr xs => .arr (valuesOf xs)
  | .obj members => .obj (memberValuesOf members)

def valuesOf : List Json → List (Value (Number φ))
  | [] => []
  | x :: xs => valueOf x :: valuesOf xs

def memberValuesOf : List (Str × Json) → List (Text × Value (Number φ))
  | [] => []
  | (key, x) :: members => (key, valueOf x) :: memberValuesOf members

end

mutual

/-- Numbers of 64 bits, throughout a value. -/
def Is64Bit : Json → Prop
  | .num n => JsonText.Is64Bit n
  | .arr xs => Is64BitElements xs
  | .obj members => Is64BitMembers members
  | _ => True

def Is64BitElements : List Json → Prop
  | [] => True
  | x :: xs => Is64Bit x ∧ Is64BitElements xs

def Is64BitMembers : List (Str × Json) → Prop
  | [] => True
  | (_, x) :: members => Is64Bit x ∧ Is64BitMembers members

end

end Values

section Written

variable {φ : Type} [Floats φ]

lemma decimal_eq (n : ℤ) : decimal n = JsonText.wholeText n := by
  cases n with
  | ofNat n => exact decimal_natCast n
  | negSucc n => exact decimal_negSucc n

mutual

/-- The text of a value does not depend on the numbers of the parser. -/
lemma dump_valueOf : ∀ j : Json, JsonText.dump (valueOf φ j) = JsonText.dump j.value
  | .null => rfl
  | .bool _ => rfl
  | .num n => (decimal_eq n).symm
  | .str _ => rfl
  | .arr xs => by rw [valueOf, JsonText.dump, dumpList_valuesOf xs, Json.value, JsonText.dump]
  | .obj members => by
      rw [valueOf, JsonText.dump, dumpMembers_memberValuesOf members, Json.value, JsonText.dump]

lemma dumpList_valuesOf : ∀ xs : List Json,
    JsonText.dumpList (valuesOf φ xs) = JsonText.dumpList (Json.values xs)
  | [] => rfl
  | x :: xs => by
      rw [valuesOf, JsonText.dumpList, dump_valueOf x, dumpList_valuesOf xs, Json.values,
        JsonText.dumpList]

lemma dumpMembers_memberValuesOf : ∀ members : List (Str × Json),
    JsonText.dumpMembers (memberValuesOf φ members) =
      JsonText.dumpMembers (Json.memberValues members)
  | [] => rfl
  | (key, x) :: members => by
      rw [memberValuesOf, JsonText.dumpMembers, dump_valueOf x, dumpMembers_memberValuesOf members,
        Json.memberValues, JsonText.dumpMembers]

end

end Written

section Numbers

variable {φ : Type}

lemma mem_intercalate {α : Type} {sep : List α} {tss : List (List α)} {a : α}
    (h : a ∈ List.intercalate sep tss) : a ∈ sep ∨ ∃ ts ∈ tss, a ∈ ts := by
  induction tss with
  | nil => cases h
  | cons ts tss ih =>
      cases tss with
      | nil =>
          rw [List.intercalate_singleton] at h
          exact .inr ⟨ts, List.mem_cons_self, h⟩
      | cons ts' tss =>
          rw [List.intercalate_cons_cons, List.mem_append, List.mem_append] at h
          rcases h with (h | h) | h
          · exact .inr ⟨ts, List.mem_cons_self, h⟩
          · exact .inl h
          · rcases ih h with h | ⟨us, hus, h⟩
            · exact .inl h
            · exact .inr ⟨us, List.mem_cons_of_mem _ hus, h⟩

mutual

/-- The numbers in the text of a value are those of the value. -/
lemma is64Bit_of_mem : ∀ {j : Json} {n : Number φ}, Is64Bit j → .num n ∈ tokens (valueOf φ j) →
    ∃ m, n = .whole m ∧ JsonText.Is64Bit m
  | .null, n, _, h => by simp [valueOf, tokens] at h
  | .bool b, n, _, h => by simp [valueOf, tokens] at h
  | .num m, n, hj, h => by
      obtain rfl : n = .whole m := by simpa [valueOf, tokens] using h
      exact ⟨m, rfl, hj⟩
  | .str s, n, _, h => by simp [valueOf, tokens] at h
  | .arr xs, n, hj, h => by
      have hmem : .num n ∈ List.intercalate [.punct ','] (JsonText.tokensList (valuesOf φ xs)) := by
        simpa [valueOf, tokens] using h
      rcases mem_intercalate hmem with hmem | ⟨ts, hts, hmem⟩
      · simp at hmem
      · exact is64Bit_of_mem_elements hj hts hmem
  | .obj members, n, hj, h => by
      have hmem : .num n ∈
          List.intercalate [.punct ','] (JsonText.tokensMembers (memberValuesOf φ members)) := by
        simpa [valueOf, tokens] using h
      rcases mem_intercalate hmem with hmem | ⟨ts, hts, hmem⟩
      · simp at hmem
      · exact is64Bit_of_mem_members hj hts hmem

lemma is64Bit_of_mem_elements : ∀ {xs : List Json} {n : Number φ} {ts : List (Token (Number φ))},
    Is64BitElements xs → ts ∈ JsonText.tokensList (valuesOf φ xs) → .num n ∈ ts →
      ∃ m, n = .whole m ∧ JsonText.Is64Bit m
  | [], n, ts, _, hts, _ => by cases hts
  | x :: xs, n, ts, hxs, hts, h => by
      rcases List.mem_cons.mp hts with rfl | hts
      · exact is64Bit_of_mem hxs.1 h
      · exact is64Bit_of_mem_elements hxs.2 hts h

lemma is64Bit_of_mem_members : ∀ {members : List (Str × Json)} {n : Number φ}
    {ts : List (Token (Number φ))}, Is64BitMembers members →
      ts ∈ JsonText.tokensMembers (memberValuesOf φ members) → .num n ∈ ts →
        ∃ m, n = .whole m ∧ JsonText.Is64Bit m
  | [], n, ts, _, hts, _ => by cases hts
  | (key, x) :: members, n, ts, hmembers, hts, h => by
      rcases List.mem_cons.mp hts with rfl | hts
      · exact is64Bit_of_mem hmembers.1 (by simpa using h)
      · exact is64Bit_of_mem_members hmembers.2 hts h

end

mutual

lemma is64Bit_repaired : ∀ {j : Json}, Is64Bit j → Is64Bit (repaired j)
  | .null, _ => trivial
  | .bool _, _ => trivial
  | .num _, h => h
  | .str _, _ => trivial
  | .arr _, h => is64Bit_repairedElements h
  | .obj _, h => is64Bit_repairedMembers h

lemma is64Bit_repairedElements : ∀ {xs : List Json}, Is64BitElements xs →
    Is64BitElements (repairedElements xs)
  | [], _ => trivial
  | _ :: _, h => ⟨is64Bit_repaired h.1, is64Bit_repairedElements h.2⟩

lemma is64Bit_repairedMembers : ∀ {members : List (Str × Json)}, Is64BitMembers members →
    Is64BitMembers (repairedMembers members)
  | [], _ => trivial
  | (_, _) :: _, h => ⟨is64Bit_repaired h.1, is64Bit_repairedMembers h.2⟩

end

end Numbers

/-! ### What is read of what was written -/

/-- The text that a string is taken for, in the bytes of UTF-8. -/
def rebuiltString (s : Str) : Str := stringOf (encode (repairString s))

mutual

/-- The value that is read of the text of a value. -/
def rebuilt : Json → Json
  | .null => .null
  | .bool b => .bool b
  | .num n => .num n
  | .str s => .str (rebuiltString s)
  | .arr xs => .arr (rebuiltElements xs)
  | .obj members => .obj (rebuiltMembers [] members)

def rebuiltElements : List Json → List Json
  | [] => []
  | x :: xs => rebuilt x :: rebuiltElements xs

def rebuiltMembers (built : List (Str × Json)) : List (Str × Json) → List (Str × Json)
  | [] => built
  | (key, x) :: members =>
      rebuiltMembers (insertMember (rebuiltString key) (rebuilt x) built) members

end

section Rebuilt

variable {φ : Type} {float : φ → Json}

mutual

lemma domOf_valueOf : ∀ j : Json, domOf float (valueOf φ (repaired j)) = rebuilt j
  | .null => rfl
  | .bool _ => rfl
  | .num _ => rfl
  | .str _ => rfl
  | .arr xs => by rw [repaired, valueOf, domOf, domElements_valuesOf xs, rebuilt]
  | .obj members => by rw [repaired, valueOf, domOf, domMembers_memberValuesOf members [], rebuilt]

lemma domElements_valuesOf : ∀ xs : List Json,
    domElements float (valuesOf φ (repairedElements xs)) = rebuiltElements xs
  | [] => rfl
  | x :: xs => by
      rw [repairedElements, valuesOf, domElements, domOf_valueOf x, domElements_valuesOf xs,
        rebuiltElements]

lemma domMembers_memberValuesOf : ∀ (members : List (Str × Json)) (built : List (Str × Json)),
    domMembers float built (memberValuesOf φ (repairedMembers members)) =
      rebuiltMembers built members
  | [], _ => rfl
  | (key, x) :: members, built => by
      rw [repairedMembers, memberValuesOf, domMembers, domOf_valueOf x,
        domMembers_memberValuesOf members, rebuiltMembers]
      rfl

end

/-- **What is read of a text that was written**, by the library itself. -/
theorem parse_dump [Floats φ] (float : φ → Json) {j : Json} (h : Is64Bit j) :
    parse float (serializer.dump j) = .ok (rebuilt j) := by
  have hback : ∀ n, .num n ∈ tokens (valueOf φ (repaired j)) → ReadBack n := by
    intro n hn
    obtain ⟨m, rfl, hm⟩ := is64Bit_of_mem (is64Bit_repaired h) hn
    exact JsonText.readBack_whole hm
  have hholds : Holds (serializer.dump j) (valueOf φ (repaired j)) := by
    refine ⟨[], JsonText.dump (valueOf φ (repaired j)), [], ?_, .inl rfl, by simp [lexer.Tail],
      JsonText.parses_dump hback⟩
    rw [serializer.dump_eq, dump_valueOf, List.append_nil, List.nil_append]
  rw [hholds.parse, domOf_valueOf]

end Rebuilt

/-! ### The values that stay the same -/

/-- A string that is a text in UTF-8. -/
def IsUtf8 (s : Str) : Prop := ∃ text, s = stringOf (encode text)

mutual

/-- A value of texts in UTF-8, with the members of its objects in the order of the keys. -/
def WellFormed : Json → Prop
  | .str s => IsUtf8 s
  | .arr xs => WellFormedElements xs
  | .obj members => (members.Pairwise fun a b => a.1 < b.1) ∧ WellFormedMembers members
  | _ => True

def WellFormedElements : List Json → Prop
  | [] => True
  | x :: xs => WellFormed x ∧ WellFormedElements xs

def WellFormedMembers : List (Str × Json) → Prop
  | [] => True
  | (key, x) :: members => IsUtf8 key ∧ WellFormed x ∧ WellFormedMembers members

end

lemma bytesOf_stringOf (bytes : List UInt8) : bytesOf (stringOf bytes) = bytes := by
  rw [bytesOf, stringOf, List.map_map]
  refine (List.map_congr_left fun b _ => ?_).trans (List.map_id bytes)
  rw [Function.comp_apply, Utf8.toNat_charOf, UInt8.ofNat_toNat]
  rfl

/-- A string stays the same if it is a text. -/
lemma rebuiltString_eq_iff {s : Str} : rebuiltString s = s ↔ IsUtf8 s := by
  constructor
  · intro h
    exact ⟨_, h.symm⟩
  · rintro ⟨text, rfl⟩
    rw [rebuiltString, repairString, bytesOf_stringOf, Utf8.repair_encode]

/-- A member behind all others. -/
lemma insertMember_of_lt {key : Str} (value : Json) {members : List (Str × Json)}
    (h : ∀ m ∈ members, m.1 < key) :
    insertMember key value members = members ++ [(key, value)] := by
  induction members with
  | nil => rfl
  | cons m members ih =>
      obtain ⟨hm, hmembers⟩ := List.forall_mem_cons.mp h
      rw [insertMember, if_neg hm.ne', if_neg hm.asymm, ih hmembers]
      rfl

/-- Members in the order of their keys stay in it. -/
lemma rebuiltMembers_of_pairwise {built members : List (Str × Json)}
    (hkeys : ∀ m ∈ members, IsUtf8 m.1) (h : (built ++ members).Pairwise fun a b => a.1 < b.1) :
    rebuiltMembers built members = built ++ members.map fun m => (m.1, rebuilt m.2) := by
  induction members generalizing built with
  | nil => simp [rebuiltMembers]
  | cons m members ih =>
      obtain ⟨hm, hkeys⟩ := List.forall_mem_cons.mp hkeys
      have hlt : ∀ m' ∈ built, m'.1 < m.1 := fun m' hm' =>
        (List.pairwise_append.mp h).2.2 m' hm' m List.mem_cons_self
      have hsame : (built ++ [(m.1, rebuilt m.2)] ++ members).Pairwise fun a b => a.1 < b.1 := by
        have hkeys' := (List.pairwise_map (f := Prod.fst) (R := (· < ·))).mpr h
        exact (List.pairwise_map (f := Prod.fst) (R := (· < ·))).mp (by simpa using hkeys')
      rw [rebuiltMembers, rebuiltString_eq_iff.mpr hm, insertMember_of_lt _ hlt, ih hkeys hsame]
      simp

lemma pairwise_rebuiltMembers {built : List (Str × Json)}
    (h : built.Pairwise fun a b => a.1 < b.1) (members : List (Str × Json)) :
    (rebuiltMembers built members).Pairwise fun a b => a.1 < b.1 := by
  induction members generalizing built with
  | nil => exact h
  | cons m members ih =>
      rw [rebuiltMembers]
      exact ih (pairwise_insertMember _ _ h)

lemma isUtf8_rebuiltMembers {built : List (Str × Json)} (h : ∀ m ∈ built, IsUtf8 m.1)
    (members : List (Str × Json)) : ∀ m ∈ rebuiltMembers built members, IsUtf8 m.1 := by
  induction members generalizing built with
  | nil => exact h
  | cons m members ih =>
      rw [rebuiltMembers]
      refine ih fun m' hm' => ?_
      rcases eq_or_mem_of_mem_insertMember hm' with rfl | hm'
      · exact ⟨_, rfl⟩
      · exact h m' hm'

/-- The members stay the same if they are in the order of their keys, these are texts, and
the values stay the same. -/
lemma rebuiltMembers_eq_iff {members : List (Str × Json)} : rebuiltMembers [] members = members ↔
    (members.Pairwise fun a b => a.1 < b.1) ∧ (∀ m ∈ members, IsUtf8 m.1) ∧
      ∀ m ∈ members, rebuilt m.2 = m.2 := by
  have hmap (hkeys : ∀ m ∈ members, IsUtf8 m.1)
      (hpairwise : members.Pairwise fun a b => a.1 < b.1) :
      rebuiltMembers [] members = members.map fun m => (m.1, rebuilt m.2) :=
    rebuiltMembers_of_pairwise hkeys (show ([] ++ members).Pairwise _ from hpairwise)
  constructor
  · intro h
    have hpairwise : members.Pairwise fun a b => a.1 < b.1 :=
      h ▸ pairwise_rebuiltMembers List.Pairwise.nil members
    have hkeys : ∀ m ∈ members, IsUtf8 m.1 := by
      rw [← h]
      exact isUtf8_rebuiltMembers (by simp) members
    refine ⟨hpairwise, hkeys, fun m hm => ?_⟩
    have hsame : members.map (fun m => (m.1, rebuilt m.2)) = members.map id := by
      rw [← hmap hkeys hpairwise, h, List.map_id]
    exact congrArg Prod.snd (List.map_inj_left.mp hsame m hm)
  · rintro ⟨hpairwise, hkeys, hvalues⟩
    rw [hmap hkeys hpairwise]
    refine (List.map_congr_left fun m hm => ?_).trans (List.map_id members)
    exact Prod.ext rfl (hvalues m hm)

mutual

/-- **A value stays the same exactly if it is well-formed.** -/
theorem rebuilt_eq_iff : ∀ j : Json, rebuilt j = j ↔ WellFormed j
  | .null => iff_of_true rfl trivial
  | .bool _ => iff_of_true rfl trivial
  | .num _ => iff_of_true rfl trivial
  | .str s => by rw [rebuilt, Json.str.injEq, rebuiltString_eq_iff, WellFormed]
  | .arr xs => by rw [rebuilt, Json.arr.injEq, rebuiltElements_eq_iff xs, WellFormed]
  | .obj members => by
      rw [rebuilt, Json.obj.injEq, rebuiltMembers_eq_iff, rebuiltValues_eq_iff members, WellFormed]

lemma rebuiltElements_eq_iff : ∀ xs : List Json, rebuiltElements xs = xs ↔ WellFormedElements xs
  | [] => iff_of_true rfl trivial
  | x :: xs => by
      rw [rebuiltElements, List.cons.injEq, rebuilt_eq_iff x, rebuiltElements_eq_iff xs,
        WellFormedElements]

lemma rebuiltValues_eq_iff : ∀ members : List (Str × Json),
    ((∀ m ∈ members, IsUtf8 m.1) ∧ ∀ m ∈ members, rebuilt m.2 = m.2) ↔ WellFormedMembers members
  | [] => iff_of_true ⟨by simp, by simp⟩ trivial
  | (key, x) :: members => by
      rw [WellFormedMembers, ← rebuilt_eq_iff x, ← rebuiltValues_eq_iff members,
        List.forall_mem_cons, List.forall_mem_cons]
      tauto

end

/-- **A value that is written and read comes back** exactly if it is well-formed; what else comes
back is `rebuilt` of it.  The numbers of a value are integers. -/
theorem parse_dump_iff {φ : Type} [Floats φ] (float : φ → Json) {j : Json} (h : Is64Bit j) :
    parse float (serializer.dump j) = .ok j ↔ WellFormed j := by
  rw [parse_dump float h, Except.ok.injEq, rebuilt_eq_iff]

/-- The text of an object, read again. -/
theorem parse_dump_window : parse Empty.elim (serializer.dump (.obj [("width".toList, .num 800)])) =
    .ok (.obj [("width".toList, .num 800)]) :=
  (parse_dump_iff Empty.elim
    (show Is64Bit (.obj [("width".toList, .num 800)]) from
      ⟨(by decide : JsonText.Is64Bit 800), trivial⟩)).mpr
    ⟨List.pairwise_singleton _ _, ⟨"width".toList, by decide⟩, trivial, trivial⟩

end Neutralino.parser
