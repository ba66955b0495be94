import Mathlib.Data.List.Basic

/-!
Values with members: reading and writing at a path.

* `MemberTree`: values that are read and written by the keys of their members.
* `getAt`, `put`: reading and writing at a path; what is written is read there,
  and nowhere aside (`getAt_put_of_incomparable`).
* `Reaches`: the path leads through values that may have members.
* `putAll`: writing in order; `getAt_putAll`: **the last one is read**.
-/

namespace Paths

/-- Values with members.  Reading a member and writing one are total; the values
that may have members are told apart, and writing gives such a value. -/
class MemberTree (κ : outParam Type*) (J : Type*) where
  member : κ → J → J
  setMember : κ → J → J → J
  IsNode : J → Prop
  member_setMember_self (k : κ) (v j : J) : member k (setMember k v j) = v
  member_setMember_of_ne {k k' : κ} (v j : J) : k' ≠ k → member k' (setMember k v j) = member k' j
  isNode_setMember (k : κ) (v j : J) : IsNode (setMember k v j)

open MemberTree

variable {κ J : Type*} [MemberTree κ J]

/-- The value at a path. -/
def getAt : List κ → J → J
  | [], j => j
  | k :: path, j => getAt path (member k j)

/-- A value written at a path. -/
def put : List κ → J → J → J
  | [], v, _ => v
  | k :: path, v, j => setMember k (put path v (member k j)) j

/-- All values on the way to the end of a path may have members. -/
def Reaches : List κ → J → Prop
  | [], _ => True
  | k :: path, j => IsNode j ∧ Reaches path (member k j)

/-- Neither path leads on from the other. -/
def Incomparable (p q : List κ) : Prop := ¬ p <+: q ∧ ¬ q <+: p

/-- The values written at their paths, one after another. -/
def putAll (writes : List (List κ × J)) (j : J) : J :=
  writes.foldl (fun j write => put write.1 write.2 j) j

variable {p q : List κ} {v j : J}

lemma Incomparable.symm (h : Incomparable p q) : Incomparable q p := ⟨h.2, h.1⟩

lemma Incomparable.ne (h : Incomparable p q) : p ≠ q := fun heq => h.1 (heq ▸ List.prefix_rfl)

lemma incomparable_cons_cons {k : κ} : Incomparable (k :: p) (k :: q) ↔ Incomparable p q := by
  simp only [Incomparable, List.cons_prefix_cons, true_and]

/-! ### One write -/

lemma getAt_append (p q : List κ) (j : J) : getAt (p ++ q) j = getAt q (getAt p j) := by
  induction p generalizing j with
  | nil => rfl
  | cons k p ih => exact ih (member k j)

@[simp] lemma getAt_put_self (p : List κ) (v j : J) : getAt p (put p v j) = v := by
  induction p generalizing j with
  | nil => rfl
  | cons k p ih =>
      rw [put, getAt, member_setMember_self]
      exact ih (member k j)

/-- What is written at one path is not seen at another. -/
lemma getAt_put_of_incomparable (h : Incomparable p q) (v j : J) :
    getAt q (put p v j) = getAt q j := by
  induction p generalizing q j with
  | nil => exact absurd List.nil_prefix h.1
  | cons k p ih =>
      cases q with
      | nil => exact absurd List.nil_prefix h.2
      | cons k' q =>
          rw [put, getAt, getAt]
          by_cases hk : k' = k
          · subst hk
            rw [member_setMember_self, ih (incomparable_cons_cons.mp h)]
          · rw [member_setMember_of_ne _ _ hk]

/-- What is read somewhere after a write depends only on what was read there before. -/
lemma getAt_put_congr {j j' : J} (h : getAt q j = getAt q j') (p : List κ) (v : J) :
    getAt q (put p v j) = getAt q (put p v j') := by
  induction q generalizing p j j' with
  | nil => exact congrArg (put p v) h
  | cons k q ih =>
      cases p with
      | nil => rfl
      | cons k' p =>
          rw [put, put, getAt, getAt]
          by_cases hk : k = k'
          · subst hk
            rw [member_setMember_self, member_setMember_self]
            exact ih h p
          · rw [member_setMember_of_ne _ _ hk, member_setMember_of_ne _ _ hk]
            exact h

/-- So does what is read after a value is written back. -/
lemma getAt_put_getAt_congr {j j' : J} (h : getAt q j = getAt q j') (p : List κ) :
    getAt q (put p (getAt p j) j) = getAt q (put p (getAt p j') j') := by
  induction q generalizing p j j' with
  | nil =>
      obtain rfl : j = j' := h
      rfl
  | cons k q ih =>
      cases p with
      | nil => exact h
      | cons k' p =>
          rw [put, put, getAt, getAt, getAt, getAt]
          by_cases hk : k = k'
          · subst hk
            rw [member_setMember_self, member_setMember_self]
            exact ih h p
          · rw [member_setMember_of_ne _ _ hk, member_setMember_of_ne _ _ hk]
            exact h

/-- A path that does not lead on from the one written is reached as before. -/
lemma reaches_put (h : p <+: q → p = q) (hreaches : Reaches q j) (v : J) :
    Reaches q (put p v j) := by
  induction p generalizing q j with
  | nil =>
      obtain rfl := h List.nil_prefix
      trivial
  | cons k p ih =>
      cases q with
      | nil => trivial
      | cons k' q =>
          refine ⟨isNode_setMember _ _ _, ?_⟩
          by_cases hk : k' = k
          · subst hk
            rw [put, member_setMember_self]
            exact ih (fun hpq => (List.cons.inj (h (List.cons_prefix_cons.mpr ⟨rfl, hpq⟩))).2)
              hreaches.2
          · rw [put, member_setMember_of_ne _ _ hk]
            exact hreaches.2

/-- Where the path that is written was reached, no other is reached for the first time. -/
lemma reaches_of_put (h : p <+: q → p = q) (hp : Reaches p j) (hq : Reaches q (put p v j)) :
    Reaches q j := by
  induction p generalizing q j with
  | nil =>
      obtain rfl := h List.nil_prefix
      trivial
  | cons k p ih =>
      cases q with
      | nil => trivial
      | cons k' q =>
          refine ⟨hp.1, ?_⟩
          by_cases hk : k' = k
          · subst hk
            rw [Reaches, put, member_setMember_self] at hq
            exact ih (fun hpq => (List.cons.inj (h (List.cons_prefix_cons.mpr ⟨rfl, hpq⟩))).2)
              hp.2 hq.2
          · rw [Reaches, put, member_setMember_of_ne _ _ hk] at hq
            exact hq.2

/-! ### Writing in order -/

variable {writes : List (List κ × J)}

@[simp] lemma putAll_cons (write : List κ × J) (writes : List (List κ × J)) (j : J) :
    putAll (write :: writes) j = putAll writes (put write.1 write.2 j) := rfl

lemma putAll_append (writes writes' : List (List κ × J)) (j : J) :
    putAll (writes ++ writes') j = putAll writes' (putAll writes j) := List.foldl_append

lemma getAt_putAll_congr {j j' : J} (h : getAt q j = getAt q j') (writes : List (List κ × J)) :
    getAt q (putAll writes j) = getAt q (putAll writes j') := by
  induction writes generalizing j j' with
  | nil => exact h
  | cons write writes ih => exact ih (getAt_put_congr h write.1 write.2)

/-- Writes aside are not seen. -/
lemma getAt_putAll_of_incomparable (h : ∀ write ∈ writes, Incomparable write.1 q) (j : J) :
    getAt q (putAll writes j) = getAt q j := by
  induction writes generalizing j with
  | nil => rfl
  | cons write writes ih =>
      rw [putAll_cons, ih fun w hw => h w (List.mem_cons_of_mem _ hw),
        getAt_put_of_incomparable (h write List.mem_cons_self)]

/-- **The last one is read**: where the other writes stand aside, a path reads
as the last write at it, or as before if there is none. -/
theorem getAt_putAll [DecidableEq κ]
    (h : ∀ write ∈ writes, write.1 = q ∨ Incomparable write.1 q) (j : J) :
    getAt q (putAll writes j) =
      (((writes.filter fun write => write.1 = q).getLast?).map (·.2)).getD (getAt q j) := by
  induction writes generalizing j with
  | nil => rfl
  | cons write writes ih =>
      rw [putAll_cons, ih fun w hw => h w (List.mem_cons_of_mem _ hw)]
      rcases h write List.mem_cons_self with heq | haside
      · rw [List.filter_cons_of_pos (by simpa using heq), List.getLast?_cons, ← heq, getAt_put_self]
        cases (writes.filter fun w => w.1 = write.1).getLast? <;> rfl
      · rw [List.filter_cons_of_neg (by simpa using haside.ne), getAt_put_of_incomparable haside]

/-- A path from which no write leads on is reached as before. -/
lemma reaches_putAll (h : ∀ write ∈ writes, write.1 <+: q → write.1 = q) (hreaches : Reaches q j) :
    Reaches q (putAll writes j) := by
  induction writes generalizing j with
  | nil => exact hreaches
  | cons write writes ih =>
      exact ih (fun w hw => h w (List.mem_cons_of_mem _ hw))
        (reaches_put (h write List.mem_cons_self) hreaches _)

end Paths
