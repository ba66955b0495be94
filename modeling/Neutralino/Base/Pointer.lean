import Neutralino.Base.Json
import Neutralino.Library.Paths

/-!
JSON pointers: `operator[](json_pointer)`, and the operations of `patch`.

A pointer is the list of its reference tokens; none of them is a number or `-`,
so none is an index of an array.

* `Json.touch`: reading at a pointer, which makes what is missing on the way.
* `Json.patchAdd`, `Json.patchReplace`: the two operations of a patch.
* `touch_eq`, `patchAdd_eq`, `patchReplace_eq`: they write at a path.
-/

namespace Neutralino.Json

open Paths

/-- `is_object` or null: a value that may have members. -/
def IsNode : Json → Prop
  | null => True
  | obj _ => True
  | _ => False

/-- The value of a member; null where there is none. -/
def member (key : Str) : Json → Json
  | obj members => lookup key members
  | _ => null

lemma lookup_insertMember_self (key : Str) (value : Json) (members : List (Str × Json)) :
    lookup key (insertMember key value members) = value := by
  rw [lookup, find?_insertMember_self]
  rfl

lemma lookup_insertMember_of_ne {key key' : Str} (hne : key' ≠ key) (value : Json)
    (members : List (Str × Json)) :
    lookup key' (insertMember key value members) = lookup key' members := by
  rw [lookup, find?_insertMember_of_ne hne, lookup]

instance : MemberTree Str Json where
  member := member
  setMember key value j := j.set key value
  IsNode := IsNode
  member_setMember_self key value j := by
    cases j with
    | obj members => exact lookup_insertMember_self key value members
    | _ => simp [member, set, lookup]
  member_setMember_of_ne {key key'} value j hne := by
    cases j with
    | obj members => exact lookup_insertMember_of_ne hne value members
    | _ => simp [member, set, lookup, hne.symm]
  isNode_setMember key value j := by
    cases j <;> trivial

lemma eq_null_of_isNull {j : Json} (h : j.isNull = true) : j = .null := by
  cases j with
  | null => rfl
  | _ => cases h

lemma index_of_isNode {j : Json} (h : j.IsNode) (key : Str) : j.index key = .ok (j.member key) := by
  cases j with
  | null => rfl
  | obj members => rfl
  | _ => exact absurd h id

lemma isNode_of_index {j value : Json} {key : Str} (h : j.index key = .ok value) :
    j.IsNode ∧ j.member key = value := by
  cases j with
  | null => exact ⟨trivial, Except.ok.inj h⟩
  | obj members => exact ⟨trivial, Except.ok.inj h⟩
  | _ => cases h

/-! ### Reading at a pointer -/

/-- `operator[](json_pointer)`: the value after null members were put in for
those that are missing; a null value becomes an object. -/
def touch : List Str → Json → Except Fault Json
  | [], j => .ok j
  | key :: path, null => do return obj [(key, ← touch path null)]
  | key :: path, obj members => do
      return obj (insertMember key (← touch path (lookup key members)) members)
  | _ :: _, arr _ => .error .parseError
  | _ :: _, _ => .error .outOfRange

/-- Reading at a pointer writes there what is there. -/
lemma touch_eq {path : List Str} {j : Json} (h : Reaches path j) :
    touch path j = .ok (put path (getAt path j) j) := by
  induction path generalizing j with
  | nil => rfl
  | cons key path ih =>
      cases j with
      | null =>
          rw [touch, show touch path null = _ from ih h.2]
          rfl
      | obj members =>
          rw [touch, show touch path (lookup key members) = _ from ih h.2]
          rfl
      | _ => exact absurd h.1 id

lemma reaches_of_touch {path : List Str} {j j' : Json} (h : touch path j = .ok j') :
    Reaches path j := by
  induction path generalizing j j' with
  | nil => trivial
  | cons key path ih =>
      cases j with
      | null =>
          obtain ⟨child, hchild, -⟩ := bind_eq_ok.mp h
          exact ⟨trivial, ih hchild⟩
      | obj members =>
          obtain ⟨child, hchild, -⟩ := bind_eq_ok.mp h
          exact ⟨trivial, ih hchild⟩
      | _ => cases h

/-! ### Patches -/

/-- The operation `add` of a patch: the parent of the last token must exist. -/
def patchAdd : List Str → Json → Json → Except Fault Json
  | [], value, _ => .ok value
  | [key], value, null => .ok (obj [(key, value)])
  | [key], value, obj members => .ok (obj (insertMember key value members))
  | [_], _, arr _ => .error .parseError
  -- an assertion
  | [_], _, _ => .error .undefinedBehaviour
  | key :: next :: path, value, obj members =>
      if (obj members).contains key then do
        return obj (insertMember key (← patchAdd (next :: path) value (lookup key members)) members)
      else .error .outOfRange
  | _ :: _ :: _, _, arr _ => .error .parseError
  | _ :: _ :: _, _, _ => .error .outOfRange

/-- The operation `replace` of a patch: the value must exist. -/
def patchReplace : List Str → Json → Json → Except Fault Json
  | [], value, _ => .ok value
  | key :: path, value, obj members =>
      if (obj members).contains key then do
        return obj (insertMember key (← patchReplace path value (lookup key members)) members)
      else .error .outOfRange
  | _ :: _, _, arr _ => .error .parseError
  | _ :: _, _, _ => .error .outOfRange

/-- There is a value at the pointer, null perhaps. -/
def Present : List Str → Json → Prop
  | [], _ => True
  | key :: path, j => j.contains key = true ∧ Present path (j.member key)

lemma contains_set_self (key : Str) (value j : Json) : (j.set key value).contains key = true := by
  cases j with
  | obj members =>
      have hfound := find?_insertMember_self key value members
      exact List.any_eq_true.mpr ⟨_, List.mem_of_find?_eq_some hfound, by simp⟩
  | _ => simp [set, contains]

lemma contains_set_of_contains {key' : Str} (key : Str) (value : Json) {j : Json}
    (h : j.contains key' = true) : (j.set key value).contains key' = true := by
  cases j with
  | obj members =>
      by_cases hne : key' = key
      · exact hne ▸ contains_set_self key' value (obj members)
      · obtain ⟨m, hm⟩ := Option.isSome_iff_exists.mp
          (List.find?_isSome.mpr (List.any_eq_true.mp h))
        rw [← find?_insertMember_of_ne hne value] at hm
        exact List.any_eq_true.mpr ⟨m, List.mem_of_find?_eq_some hm, by simpa using List.find?_some hm⟩
  | _ => cases h

lemma present_put_self (path : List Str) (value j : Json) : Present path (put path value j) := by
  induction path generalizing j with
  | nil => trivial
  | cons key path ih =>
      refine ⟨contains_set_self _ _ _, ?_⟩
      rw [show (put (key :: path) value j).member key = put path value (j.member key) from
        MemberTree.member_setMember_self _ _ _]
      exact ih (j.member key)

/-- What is there stays there, wherever else is written. -/
lemma present_put {p q : List Str} {j : Json} (h : p <+: q → p = q) (hpresent : Present q j)
    (value : Json) : Present q (put p value j) := by
  induction p generalizing q j with
  | nil =>
      obtain rfl := h List.nil_prefix
      trivial
  | cons key p ih =>
      cases q with
      | nil => trivial
      | cons key' q =>
          refine ⟨contains_set_of_contains _ _ hpresent.1, ?_⟩
          by_cases hkey : key' = key
          · subst hkey
            rw [show (put (key' :: p) value j).member key' = put p value (j.member key') from
              MemberTree.member_setMember_self _ _ _]
            exact ih (fun hpq => (List.cons.inj (h (List.cons_prefix_cons.mpr ⟨rfl, hpq⟩))).2)
              hpresent.2
          · rw [show (put (key :: p) value j).member key' = j.member key' from
              MemberTree.member_setMember_of_ne _ _ hkey]
            exact hpresent.2

lemma patchReplace_eq {path : List Str} {j : Json} (h : Present path j) (value : Json) :
    patchReplace path value j = .ok (put path value j) := by
  induction path generalizing j with
  | nil => rfl
  | cons key path ih =>
      cases j with
      | obj members =>
          rw [patchReplace, if_pos h.1, show patchReplace path value (lookup key members) = _ from ih h.2]
          rfl
      | _ => cases h.1

lemma patchAdd_eq {path : List Str} {j : Json} (h : Present path j) (value : Json) :
    patchAdd path value j = .ok (put path value j) := by
  induction path generalizing j with
  | nil => rfl
  | cons key path ih =>
      cases j with
      | obj members =>
          cases path with
          | nil => rfl
          | cons next path =>
              rw [patchAdd, if_pos h.1,
                show patchAdd (next :: path) value (lookup key members) = _ from ih h.2]
              rfl
      | _ => cases h.1

end Neutralino.Json
