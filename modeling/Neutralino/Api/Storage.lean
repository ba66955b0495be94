import Mathlib.Algebra.Order.BigOperators.Group.List
import Mathlib.Algebra.Order.Ring.Nat
import Mathlib.Data.List.AList
import Neutralino.Api.FileSystem
import Neutralino.Library.Runs

/-!
`storage.cpp`: the key-value store of an application, one file for each key.

* `Store`: the storage directory, where there is one: its file names and contents.
* `setData`, `getData`, `removeData`, `getKeys`, `clear`: the controllers.
* `KeyMap`: what the store is for, a finite map from keys to texts.
* `Represents`: the directory holds the map.
* `answers_iff`: **when every answer is that of the map**.  Reading back the
  keys also cuts the name of the extension out of a key.
-/

namespace Neutralino.storage

open Regex
open Calls (ofState runOn runOn_bind)

/-! ### Keys and their files -/

/-- The text of `NEU_STORAGE_KEY_REGEX`. -/
def keyPattern : Str := "^[a-zA-Z-_0-9]\x7b1,50\x7d$"

/-- The class `[a-zA-Z-_0-9]`. -/
def isKeyChar (c : Char) : Bool :=
  ('a' ≤ c && c ≤ 'z') || ('A' ≤ c && c ≤ 'Z') || c = '-' || c = '_' || ('0' ≤ c && c ≤ '9')

/-- `NEU_STORAGE_KEY_REGEX`. -/
def keyRegex : Re Char := .cat (.cls isKeyChar) (.upTo (.cls isKeyChar) 49)

/-- `NEU_STORAGE_EXT`. -/
def extension : Str := ".neustorage"

/-- `NEU_STORAGE_EXT_REGEX`, the expression `.*neustorage$`. -/
def extensionRegex : Re Char := .cat dotStar (.lit "neustorage".toList)

/-- `NEU_STORAGE_EXT` read as an expression: its dot is any character. -/
def extensionClasses : List (Char → Bool) :=
  (fun c => !isLineTerminator c) :: "neustorage".toList.map fun d c => c = d

/-- The name of the file of a key. -/
def bucketFile (key : Str) : Str := key ++ extension

/-- The key that `getKeys` reads off a file name. -/
def keyOfFile (name : Str) : Str := Replace.replaceClasses extensionClasses [] name

/-- The keys that are accepted. -/
def IsKey (key : Str) : Prop := 1 ≤ key.length ∧ key.length ≤ 50 ∧ ∀ c ∈ key, isKeyChar c = true

instance (key : Str) : Decidable (IsKey key) :=
  decidable_of_iff (1 ≤ key.length ∧ key.length ≤ 50 ∧ key.all isKeyChar = true) (by simp [IsKey])

/-- The expression accepts the keys. -/
lemma keyRegex_test_iff {key : Str} : keyRegex.test key = true ↔ IsKey key := by
  rw [Re.test_iff, keyRegex, Re.matches_cat, IsKey]
  constructor
  · rintro ⟨u, v, hu, hv, rfl⟩
    obtain ⟨c, hc, rfl⟩ := Re.matches_cls.mp hu
    obtain ⟨hlen, hall⟩ := Re.matches_upTo_cls.mp hv
    refine ⟨by simp, ?_, by simpa [hc] using hall⟩
    simp only [List.cons_append, List.nil_append, List.length_cons]
    omega
  · rintro ⟨hpos, hlen, hall⟩
    obtain ⟨c, key, rfl⟩ := List.exists_cons_of_length_pos hpos
    obtain ⟨hc, hall⟩ := List.forall_mem_cons.mp hall
    refine ⟨[c], key, .cls hc, Re.matches_upTo_cls.mpr ⟨?_, hall⟩, rfl⟩
    simp only [List.length_cons] at hlen
    omega

/-! ### The controllers -/

/-- The files of the storage directory, where it exists. -/
abbrev Store := Option (AList fun _ : Str => Str)

/-- A call of a storage controller. -/
abbrev Call (α : Type) := Calls.Call Fault Store α

/-- `__validateStorageBucket`. -/
def validateStorageBucket (key : Str) : Json :=
  if keyRegex.test key then .null
  else errors.errorOutput (errors.makeErrorPayload .NE_ST_INVSTKY keyPattern)

/-- `__removeStorageBucket`. -/
def removeStorageBucket (key : Str) : Call Json := do
  let removed ← ofState fun store =>
    (.ok (store.any fun files => (files.lookup (bucketFile key)).isSome),
      store.map fun files => files.erase (bucketFile key))
  if !removed then return failed .null .NE_ST_STKEYRE key
  return reported .null ("Storage key ".toList ++ key ++ " was removed".toList)

/-- The beginning of the controllers of one key. -/
def onKey (act : Str → Call Json) (input : Json) : Call Json := do
  if !(← helpers.hasRequiredFields input ["key"]) then
    return errors.errorOutput (errors.makeMissingArgErrorPayload "key")
  let key ← textField input "key"
  let errorPayload := validateStorageBucket key
  if !errorPayload.isNull then return errorPayload
  act key

/-- `getData`. -/
def getData : Json → Call Json :=
  onKey fun key => do
    let data ← ofState fun store =>
      (.ok (store.bind fun files => files.lookup (bucketFile key)), store)
    match data with
    | none => return failed .null .NE_ST_NOSTKEX key
    | some data => return returned .null (.str data)

/-- `setData`; without data the key is removed. -/
def setData (input : Json) : Call Json :=
  onKey (fun key => do
    ofState fun store => (.ok (), some (store.getD ∅))
    if !(← helpers.hasField input "data") then removeStorageBucket key
    else
      let data ← textField input "data"
      ofState fun store => (.ok (), store.map fun files => files.insert (bucketFile key) data)
      return succeeded .null) input

/-- `removeData`. -/
def removeData : Json → Call Json := onKey removeStorageBucket

/-- `getKeys`, for the order in which the directory is listed. -/
def getKeys (storagePath : Str) (listing : List Str) : Call Json := do
  let output := Json.set .null "returnValue" (.arr [])
  let found ← ofState fun store => (.ok store.isSome, store)
  if !found then return failed output .NE_ST_NOSTDIR storagePath
  let keys := (listing.filter fun name => extensionRegex.test name).map keyOfFile
  return returned output (.arr (keys.map .str))

/-- `clear`. -/
def clear : Call Json := do
  ofState fun _ => (.ok (), none)
  return reported .null "Storage was cleared"

/-! ### Reading a key back -/

/-- The key does not hold the name of the extension after its first character. -/
def ReadsBack (key : Str) : Prop := ¬ "neustorage".toList <:+: key.tail

instance (key : Str) : Decidable (ReadsBack key) := by unfold ReadsBack; infer_instance

/-- Classes of one character each are a literal text. -/
lemma matchesAt_lit (w s : Str) :
    Replace.matchesAt (w.map fun d c => c = d) s = true ↔ w <+: s := by
  induction w generalizing s with
  | nil => simp [Replace.matchesAt]
  | cons d w ih =>
      cases s with
      | nil => simp [Replace.matchesAt]
      | cons c s =>
          rw [List.map_cons, Replace.matchesAt, Bool.and_eq_true, decide_eq_true_eq, ih,
            List.cons_prefix_cons, eq_comm]

/-- The name of the extension does not reach over its dot. -/
lemma neustorage_prefix_append {s : Str} (h : "neustorage".toList <+: s ++ extension) :
    "neustorage".toList <+: s := by
  rcases Nat.lt_or_ge s.length 10 with hlt | hge
  · -- the dot would be one of the letters of the name
    have hlen : s.length < "neustorage".toList.length := hlt
    obtain ⟨r, hr⟩ := h
    have hdot : ("neustorage".toList ++ r)[s.length]? = some '.' := by
      rw [hr, List.getElem?_append_right (le_refl _), Nat.sub_self]
      rfl
    rw [List.getElem?_append_left hlen] at hdot
    exact absurd (List.mem_of_getElem? hdot) (by decide)
  · exact List.prefix_of_prefix_length_le h (List.prefix_append _ _) hge

/-- No character of a key ends a line. -/
lemma isLineTerminator_of_isKeyChar {c : Char} (hc : isKeyChar c = true) :
    isLineTerminator c = false := by
  by_contra hline
  simp only [Bool.not_eq_false, isLineTerminator, Bool.or_eq_true, decide_eq_true_eq] at hline
  rcases hline with rfl | rfl
  · exact absurd hc (by decide)
  · exact absurd hc (by decide)

/-- The file of a key is one of the store. -/
lemma extensionRegex_bucketFile {key : Str} (hkey : IsKey key) :
    extensionRegex.test (bucketFile key) = true := by
  refine (Re.test_iff _ _).mpr (Re.matches_cat.mpr ⟨key ++ ['.'], "neustorage".toList, ?_, ?_, ?_⟩)
  · refine matches_dotStar.mpr fun c hc => ?_
    rcases List.mem_append.mp hc with hc | hc
    · exact isLineTerminator_of_isKeyChar (hkey.2.2 c hc)
    · obtain rfl := List.mem_singleton.mp hc
      rfl
  · exact Re.matches_lit.mpr rfl
  · rw [bucketFile, List.append_assoc]
    rfl

/-- Where the expression matches inside the file name of a key. -/
lemma matchesAt_append_extension {b : Str} (hb : b ≠ []) (hkey : ∀ c ∈ b, isKeyChar c = true) :
    Replace.matchesAt extensionClasses (b ++ extension) = true ↔ "neustorage".toList <+: b.tail := by
  obtain ⟨c, b, rfl⟩ := List.exists_cons_of_ne_nil hb
  have hc := isLineTerminator_of_isKeyChar (hkey c (by simp))
  rw [extensionClasses, List.cons_append, Replace.matchesAt, hc, Bool.not_false, Bool.true_and,
    matchesAt_lit]
  exact ⟨neustorage_prefix_append, fun h => h.trans (List.prefix_append _ _)⟩

lemma extensionClasses_ne_nil : extensionClasses ≠ [] := by simp [extensionClasses]

lemma length_extension : extension.length = extensionClasses.length := by decide

lemma matchesAt_extension : Replace.matchesAt extensionClasses extension = true := by decide

/-- A match in a key begins with a character before the name of the extension. -/
lemma exists_match_iff {key : Str} (hkey : ∀ c ∈ key, isKeyChar c = true) :
    (∃ a b, key = a ++ b ∧ b ≠ [] ∧ Replace.matchesAt extensionClasses (b ++ extension) = true) ↔
      ¬ ReadsBack key := by
  rw [ReadsBack, not_not]
  constructor
  · rintro ⟨a, b, rfl, hb, hmatch⟩
    have hprefix := (matchesAt_append_extension hb fun c hc => hkey c (by simp [hc])).mp hmatch
    obtain ⟨c, b, rfl⟩ := List.exists_cons_of_ne_nil hb
    cases a with
    | nil => exact hprefix.isInfix
    | cons d a => exact hprefix.isInfix.trans ⟨a ++ [c], [], by simp⟩
  · rintro ⟨u, v, huv⟩
    cases key with
    | nil => simp at huv
    | cons c key =>
        obtain rfl : u ++ "neustorage".toList ++ v = key := huv
        -- the character that the dot matches is the last one before the name
        obtain ⟨a, d, had⟩ : ∃ a d, c :: u = a ++ [d] :=
          ⟨(c :: u).dropLast, (c :: u).getLast (by simp), (List.dropLast_append_getLast _).symm⟩
        have hsplit : c :: (u ++ "neustorage".toList ++ v) = a ++ d :: ("neustorage".toList ++ v) := by
          rw [List.append_assoc, ← List.cons_append, had, List.append_assoc, List.singleton_append]
        refine ⟨a, d :: ("neustorage".toList ++ v), hsplit, by simp, ?_⟩
        rw [hsplit] at hkey
        exact (matchesAt_append_extension (by simp) fun x hx => hkey x (List.mem_append_right _ hx)).mpr
          (List.prefix_append _ _)

/-- **Such a key is read back** from its file. -/
theorem keyOfFile_bucketFile {key : Str} (hkey : ∀ c ∈ key, isKeyChar c = true) (h : ReadsBack key) :
    keyOfFile (bucketFile key) = key := by
  refine Replace.replaceClasses_append length_extension extensionClasses_ne_nil matchesAt_extension ?_
  intro a b hab hb
  by_contra hmatch
  exact (exists_match_iff hkey).mp ⟨a, b, hab, hb, by simpa using hmatch⟩ h

/-- What is read off a file is not longer than the key, and shorter where the
key is not read back. -/
lemma length_keyOfFile {key : Str} (hkey : ∀ c ∈ key, isKeyChar c = true) :
    (keyOfFile (bucketFile key)).length ≤ key.length ∧
      (¬ ReadsBack key → (keyOfFile (bucketFile key)).length < key.length) := by
  rw [← exists_match_iff hkey]
  refine Replace.length_replaceClasses_append length_extension extensionClasses_ne_nil
    matchesAt_extension (fun b hb hmatch => ?_) key
  obtain ⟨c, b, rfl⟩ := List.exists_cons_of_ne_nil hb
  rw [extensionClasses, List.cons_append, Replace.matchesAt, Bool.and_eq_true, matchesAt_lit] at hmatch
  have hlen := (neustorage_prefix_append hmatch.2).length_le
  exact Nat.succ_le_succ hlen

/-! ### The map the store is for -/

/-- An operation of a client; the directory is listed in some order. -/
inductive Op where
  | setData (key data : Str)
  | getData (key : Str)
  | removeData (key : Str)
  | getKeys (listing : List Str)
  | clear

/-- The input object of a key. -/
def keyInput (key : Str) : Json := .obj [("key", .str key)]

/-- The controller that an operation calls. -/
def Op.run (storagePath : Str) : Op → Call Json
  | setData key data => storage.setData (.obj [("data", .str data), ("key", .str key)])
  | getData key => storage.getData (keyInput key)
  | removeData key => storage.removeData (keyInput key)
  | getKeys listing => storage.getKeys storagePath listing
  | clear => storage.clear

/-- A listing names each file of the directory once. -/
def Op.Lists (store : Store) : Op → Prop
  | getKeys listing => ∀ files ∈ store, listing.Perm files.keys
  | _ => True

/-- A finite map from keys to texts, and whether anything has been set since
the beginning or the last `clear`. -/
structure KeyMap where
  made : Bool := false
  entries : AList fun _ : Str => Str := ∅

namespace KeyMap

/-- The map after an operation. -/
def after (m : KeyMap) : Op → KeyMap
  | .setData key data => if IsKey key then ⟨true, m.entries.insert key data⟩ else m
  | .removeData key => if IsKey key then { m with entries := m.entries.erase key } else m
  | .clear => {}
  | _ => m

/-- What an operation answers to a key that is not one. -/
def rejected : Json := errors.errorOutput (errors.makeErrorPayload .NE_ST_INVSTKY keyPattern)

/-- What `getKeys` answers: every key once, in any order, where there is a directory. -/
def AnswersKeys (storagePath : Str) (m : KeyMap) (answer : Json) : Prop :=
  if m.made then
    ∃ keys : List Str, keys.Nodup ∧ (∀ key, key ∈ keys ↔ key ∈ m.entries) ∧
      answer = returned (Json.set .null "returnValue" (.arr [])) (.arr (keys.map .str))
  else answer = failed (Json.set .null "returnValue" (.arr [])) .NE_ST_NOSTDIR storagePath

/-- What the map answers to an operation. -/
def Answers (storagePath : Str) (m : KeyMap) : Op → Json → Prop
  | .setData key _, answer => answer = if IsKey key then succeeded .null else rejected
  | .getData key, answer =>
      answer =
        if IsKey key then
          match m.entries.lookup key with
          | some data => returned .null (.str data)
          | none => failed .null .NE_ST_NOSTKEX key
        else rejected
  | .removeData key, answer =>
      answer =
        if IsKey key then
          if key ∈ m.entries then
            reported .null ("Storage key ".toList ++ key ++ " was removed".toList)
          else failed .null .NE_ST_STKEYRE key
        else rejected
  | .getKeys _, answer => m.AnswersKeys storagePath answer
  | .clear, answer => answer = reported .null "Storage was cleared"

end KeyMap

/-- A store in use, beside the map that it is for. -/
structure Session where
  store : Store := none
  map : KeyMap := {}

/-- A step: an operation, with what its call returns or throws. -/
def Steps (storagePath : Str) (s : Session) (label : Op × Except Fault Json) (t : Session) : Prop :=
  label.1.Lists s.store ∧ runOn (label.1.run storagePath) s.store = (label.2, t.store) ∧
    t.map = s.map.after label.1

/-- The call of an operation returns what the map answers. -/
def Answered (storagePath : Str) (s : Session) (label : Op × Except Fault Json) : Prop :=
  ∃ answer, label.2 = .ok answer ∧ s.map.Answers storagePath label.1 answer

/-- Where the keys are asked for, each of them can be read back. -/
def KeysReadBack (s : Session) (label : Op × Except Fault Json) : Prop :=
  match label.1 with
  | .getKeys _ => ∀ key ∈ s.map.entries, ReadsBack key
  | _ => True

/-! ### The directory holds the map -/

/-- The directory, where there is one, has a file for each key and no other. -/
structure Represents (s : Session) : Prop where
  made : s.store.isSome = s.map.made
  lookup : ∀ key, (s.store.getD ∅).lookup (bucketFile key) = s.map.entries.lookup key
  file : ∀ f ∈ (s.store.getD ∅).keys, ∃ key, IsKey key ∧ f = bucketFile key

lemma bucketFile_injective : Function.Injective bucketFile := fun _ _ h => List.append_cancel_right h

namespace Represents

variable {s : Session}

lemma isKey (h : Represents s) {key : Str} (hmem : key ∈ s.map.entries) : IsKey key := by
  have hfile : bucketFile key ∈ s.store.getD ∅ := by
    rw [← AList.lookup_isSome, h.lookup, AList.lookup_isSome]
    exact hmem
  obtain ⟨key', hkey', heq⟩ := h.file _ hfile
  exact bucketFile_injective heq ▸ hkey'

end Represents

/-! ### One operation -/

/-- A controller of one key acts on keys only. -/
lemma runOn_onKey {act : Str → Call Json} {input : Json} {key : Str} (store : Store)
    (hfields : helpers.hasRequiredFields input ["key"] = .ok true)
    (htext : textField input "key" = .ok key) :
    runOn (onKey act input) store =
      if IsKey key then runOn (act key) store else (.ok KeyMap.rejected, store) := by
  rw [onKey, runOn_bind, Calls.runOn_lift, hfields]
  simp only [Bool.not_true, Bool.false_eq_true, if_false, runOn_bind, Calls.runOn_lift, htext]
  by_cases hkey : IsKey key
  · have hvalid : validateStorageBucket key = .null := by
      rw [validateStorageBucket, if_pos (keyRegex_test_iff.mpr hkey)]
    simp [hvalid, hkey, Json.isNull]
  · have hinvalid : validateStorageBucket key = KeyMap.rejected := by
      rw [validateStorageBucket, if_neg (by rwa [keyRegex_test_iff]), KeyMap.rejected]
    simp [hinvalid, hkey, KeyMap.rejected, errors.errorOutput, Json.isNull]

section Runs

variable (storagePath key data : Str) (listing : List Str) (store : Store)

lemma runOn_setData :
    runOn ((Op.setData key data).run storagePath) store =
      if IsKey key then
        (.ok (succeeded .null), some ((store.getD ∅).insert (bucketFile key) data))
      else (.ok KeyMap.rejected, store) := by
  rw [Op.run, setData, runOn_onKey store rfl rfl]
  rfl

lemma runOn_getData :
    runOn ((Op.getData key).run storagePath) store =
      (.ok (if IsKey key then
          match (store.getD ∅).lookup (bucketFile key) with
          | some data => returned .null (.str data)
          | none => failed .null .NE_ST_NOSTKEX key
        else KeyMap.rejected), store) := by
  rw [Op.run, getData, runOn_onKey store rfl rfl]
  split_ifs with hkey
  · cases store with
    | none => simp [runOn_bind]
    | some files => cases hlookup : files.lookup (bucketFile key) <;> simp [runOn_bind, hlookup]
  · rfl

lemma runOn_removeData :
    runOn ((Op.removeData key).run storagePath) store =
      if IsKey key then
        (.ok (if ((store.getD ∅).lookup (bucketFile key)).isSome then
            reported .null ("Storage key ".toList ++ key ++ " was removed".toList)
          else failed .null .NE_ST_STKEYRE key), store.map fun files => files.erase (bucketFile key))
      else (.ok KeyMap.rejected, store) := by
  rw [Op.run, removeData, runOn_onKey store rfl rfl, removeStorageBucket]
  split_ifs with hkey hfile
  · cases store with
    | none => cases hfile
    | some files =>
        have hfile' : (files.lookup (bucketFile key)).isSome = true := hfile
        simp only [runOn_bind, Calls.runOn_ofState, Option.any_some, hfile', Bool.not_true,
          Bool.false_eq_true, if_false, Calls.runOn_pure]
  · cases store with
    | none => rfl
    | some files =>
        have hfile' : (files.lookup (bucketFile key)).isSome = false := by simpa using hfile
        simp only [runOn_bind, Calls.runOn_ofState, Option.any_some, hfile', Bool.not_false,
          if_true, Calls.runOn_pure]
  · rfl

lemma runOn_getKeys :
    runOn ((Op.getKeys listing).run storagePath) store =
      (.ok (if store.isSome then
          returned (Json.set .null "returnValue" (.arr []))
            (.arr (((listing.filter fun name => extensionRegex.test name).map keyOfFile).map .str))
        else failed (Json.set .null "returnValue" (.arr [])) .NE_ST_NOSTDIR storagePath), store) := by
  cases store with
  | none => rfl
  | some files => rfl

lemma runOn_clear :
    runOn (Op.clear.run storagePath) store = (.ok (reported .null "Storage was cleared"), none) := rfl

end Runs

/-! ### The simulation -/

section Simulation

variable {storagePath : Str} {s t : Session} {label : Op × Except Fault Json}

/-- A file that is written is the key that is set. -/
lemma Represents.setData (h : Represents s) {key : Str} (hkey : IsKey key) (data : Str) :
    Represents ⟨some ((s.store.getD ∅).insert (bucketFile key) data),
      s.map.after (.setData key data)⟩ := by
  rw [KeyMap.after, if_pos hkey]
  refine ⟨rfl, fun key' => ?_, fun f hf => ?_⟩
  · rw [Option.getD_some]
    by_cases heq : key' = key
    · rw [heq, AList.lookup_insert, AList.lookup_insert]
    · rw [AList.lookup_insert_ne fun hfile => heq (bucketFile_injective hfile),
        AList.lookup_insert_ne heq, h.lookup]
  · rcases (AList.mem_insert _).mp hf with rfl | hf
    · exact ⟨key, hkey, rfl⟩
    · exact h.file f hf

/-- A file that is removed is the key that is removed. -/
lemma Represents.removeData (h : Represents s) {key : Str} (hkey : IsKey key) :
    Represents ⟨s.store.map fun files => files.erase (bucketFile key),
      s.map.after (.removeData key)⟩ := by
  have hgetD : (s.store.map fun files => files.erase (bucketFile key)).getD ∅ =
      (s.store.getD ∅).erase (bucketFile key) := by
    cases s.store <;> rfl
  rw [KeyMap.after, if_pos hkey]
  refine ⟨by rw [Option.isSome_map, h.made], fun key' => ?_, fun f hf => ?_⟩
  · rw [hgetD]
    by_cases heq : key' = key
    · rw [heq, AList.lookup_erase, AList.lookup_erase]
    · rw [AList.lookup_erase_ne fun hfile => heq (bucketFile_injective hfile),
        AList.lookup_erase_ne heq, h.lookup]
  · rw [hgetD] at hf
    exact h.file f (AList.mem_erase.mp hf).2

/-- Every operation keeps the map in the directory. -/
theorem Represents.step (h : Represents s) (hstep : Steps storagePath s label t) : Represents t := by
  obtain ⟨op, result⟩ := label
  obtain ⟨store, map⟩ := t
  obtain ⟨-, hrun, rfl : map = s.map.after op⟩ := hstep
  replace hrun : runOn (op.run storagePath) s.store = (result, store) := hrun
  cases op with
  | setData key data =>
      rw [runOn_setData] at hrun
      by_cases hkey : IsKey key
      · rw [if_pos hkey] at hrun
        obtain ⟨-, rfl⟩ := Prod.mk.inj hrun
        exact h.setData hkey data
      · rw [if_neg hkey] at hrun
        obtain ⟨-, rfl⟩ := Prod.mk.inj hrun
        simpa only [KeyMap.after, if_neg hkey] using h
  | getData key =>
      rw [runOn_getData] at hrun
      obtain ⟨-, rfl⟩ := Prod.mk.inj hrun
      exact h
  | removeData key =>
      rw [runOn_removeData] at hrun
      by_cases hkey : IsKey key
      · rw [if_pos hkey] at hrun
        obtain ⟨-, rfl⟩ := Prod.mk.inj hrun
        exact h.removeData hkey
      · rw [if_neg hkey] at hrun
        obtain ⟨-, rfl⟩ := Prod.mk.inj hrun
        simpa only [KeyMap.after, if_neg hkey] using h
  | getKeys listing =>
      rw [runOn_getKeys] at hrun
      obtain ⟨-, rfl⟩ := Prod.mk.inj hrun
      exact h
  | clear =>
      rw [runOn_clear] at hrun
      obtain ⟨-, rfl⟩ := Prod.mk.inj hrun
      exact ⟨rfl, fun _ => rfl, fun f hf => absurd hf (AList.notMem_empty f)⟩

/-- Every file of the directory is listed as a file of the store. -/
lemma Represents.filter_listing (h : Represents s) {files : AList fun _ : Str => Str}
    (hfiles : s.store = some files) {listing : List Str} (hlisting : listing.Perm files.keys) :
    (listing.filter fun name => extensionRegex.test name) = listing := by
  refine List.filter_eq_self.mpr fun f hf => ?_
  obtain ⟨key, hkey, rfl⟩ := h.file f (by simpa [hfiles] using hlisting.subset hf)
  exact extensionRegex_bucketFile hkey

/-- The files are those of the keys. -/
lemma Represents.keys_perm (h : Represents s) {files : AList fun _ : Str => Str}
    (hfiles : s.store = some files) : files.keys.Perm (s.map.entries.keys.map bucketFile) := by
  have hmem : ∀ key, bucketFile key ∈ files ↔ key ∈ s.map.entries := by
    intro key
    rw [← AList.lookup_isSome, ← AList.lookup_isSome, ← h.lookup, hfiles, Option.getD_some]
  refine (List.perm_ext_iff_of_nodup files.keys_nodup
    (s.map.entries.keys_nodup.map bucketFile_injective)).mpr fun f => ?_
  rw [List.mem_map]
  constructor
  · intro hf
    obtain ⟨key, -, rfl⟩ := h.file f (by simpa [hfiles] using hf)
    exact ⟨key, (hmem key).mp hf, rfl⟩
  · rintro ⟨key, hkey, rfl⟩
    exact (hmem key).mpr hkey

/-- The keys that are read off the files are the keys exactly where each of them
is read back. -/
lemma Represents.keys_iff (h : Represents s) {files : AList fun _ : Str => Str}
    (hfiles : s.store = some files) {listing : List Str} (hlisting : listing.Perm files.keys) :
    ((listing.map keyOfFile).Nodup ∧ ∀ key, key ∈ listing.map keyOfFile ↔ key ∈ s.map.entries) ↔
      ∀ key ∈ s.map.entries, ReadsBack key := by
  have hperm : (listing.map keyOfFile).Perm
      (s.map.entries.keys.map fun key => keyOfFile (bucketFile key)) := by
    have hlisted := (hlisting.trans (h.keys_perm hfiles)).map keyOfFile
    rwa [List.map_map] at hlisted
  have hchars : ∀ key ∈ s.map.entries, ∀ c ∈ key, isKeyChar c = true := fun key hkey =>
    (h.isKey hkey).2.2
  constructor
  · rintro ⟨hnodup, hmem⟩
    by_contra hbad
    push Not at hbad
    obtain ⟨key, hkey, hbad⟩ := hbad
    -- the keys read off the files would be shorter altogether
    have hsame : (s.map.entries.keys.map fun key => keyOfFile (bucketFile key)).Perm
        s.map.entries.keys :=
      hperm.symm.trans ((List.perm_ext_iff_of_nodup hnodup s.map.entries.keys_nodup).mpr hmem)
    have hsum := (hsame.map List.length).sum_eq
    rw [List.map_map] at hsum
    have hlt := List.sum_lt_sum (fun key => (keyOfFile (bucketFile key)).length) List.length
      (fun key hkey => (length_keyOfFile (hchars key hkey)).1)
      ⟨key, hkey, (length_keyOfFile (hchars key hkey)).2 hbad⟩
    exact absurd hsum hlt.ne
  · intro hall
    have heq : (s.map.entries.keys.map fun key => keyOfFile (bucketFile key)) = s.map.entries.keys := by
      refine (List.map_congr_left fun key hkey => ?_).trans (List.map_id _)
      exact keyOfFile_bucketFile (hchars key hkey) (hall key hkey)
    rw [heq] at hperm
    exact ⟨hperm.nodup_iff.mpr s.map.entries.keys_nodup, fun key => hperm.mem_iff⟩

/-- The output of `getKeys`. -/
lemma returned_keys (keys : List Json) :
    returned (Json.set .null "returnValue" (.arr [])) (.arr keys) =
      .obj [("returnValue", .arr keys), ("success", .bool true)] := rfl

/-- What `getKeys` returns is what the map answers exactly where each key is read back. -/
lemma Represents.answersKeys_iff (h : Represents s) {listing : List Str}
    (hlists : (Op.getKeys listing).Lists s.store) :
    s.map.AnswersKeys storagePath
        (if s.store.isSome then
          returned (Json.set .null "returnValue" (.arr []))
            (.arr (((listing.filter fun name => extensionRegex.test name).map keyOfFile).map .str))
        else failed (Json.set .null "returnValue" (.arr [])) .NE_ST_NOSTDIR storagePath) ↔
      ∀ key ∈ s.map.entries, ReadsBack key := by
  have hmade := h.made
  cases hfiles : s.store with
  | none =>
      rw [hfiles, Option.isSome_none] at hmade
      refine iff_of_true ?_ fun key hkey => ?_
      · simp only [KeyMap.AnswersKeys, ← hmade, Option.isSome_none, Bool.false_eq_true, if_false]
      · have hnone := h.lookup key
        rw [hfiles] at hnone
        rw [← AList.lookup_isSome, ← hnone] at hkey
        cases hkey
  | some files =>
      have hlisting : listing.Perm files.keys := hlists files hfiles
      rw [hfiles, Option.isSome_some] at hmade
      rw [h.filter_listing hfiles hlisting, Option.isSome_some, if_pos rfl,
        ← h.keys_iff hfiles hlisting, KeyMap.AnswersKeys, if_pos hmade.symm]
      constructor
      · rintro ⟨keys, hnodup, hmem, heq⟩
        rw [returned_keys, returned_keys] at heq
        obtain rfl : listing.map keyOfFile = keys :=
          List.map_injective_iff.mpr (fun _ _ => Json.str.inj) (by simpa using heq)
        exact ⟨hnodup, hmem⟩
      · rintro ⟨hnodup, hmem⟩
        exact ⟨_, hnodup, hmem, rfl⟩

/-- A step is answered as the map answers exactly when the keys it asks for are
read back. -/
lemma Represents.answered_iff (h : Represents s) (hstep : Steps storagePath s label t) :
    Answered storagePath s label ↔ KeysReadBack s label := by
  obtain ⟨op, result⟩ := label
  obtain ⟨hlists, hrun, -⟩ := hstep
  replace hrun : runOn (op.run storagePath) s.store = (result, t.store) := hrun
  replace hlists : op.Lists s.store := hlists
  cases op with
  | setData key data =>
      refine iff_of_true ?_ trivial
      rw [runOn_setData] at hrun
      by_cases hkey : IsKey key
      · rw [if_pos hkey] at hrun
        obtain ⟨rfl, -⟩ := Prod.mk.inj hrun
        exact ⟨_, rfl, (if_pos hkey).symm⟩
      · rw [if_neg hkey] at hrun
        obtain ⟨rfl, -⟩ := Prod.mk.inj hrun
        exact ⟨_, rfl, (if_neg hkey).symm⟩
  | getData key =>
      rw [runOn_getData, h.lookup] at hrun
      obtain ⟨rfl, -⟩ := Prod.mk.inj hrun
      exact iff_of_true ⟨_, rfl, rfl⟩ trivial
  | removeData key =>
      refine iff_of_true ?_ trivial
      rw [runOn_removeData, h.lookup] at hrun
      by_cases hkey : IsKey key
      · rw [if_pos hkey] at hrun
        obtain ⟨rfl, -⟩ := Prod.mk.inj hrun
        refine ⟨_, rfl, ?_⟩
        simp only [KeyMap.Answers, if_pos hkey, AList.lookup_isSome]
      · rw [if_neg hkey] at hrun
        obtain ⟨rfl, -⟩ := Prod.mk.inj hrun
        exact ⟨_, rfl, (if_neg hkey).symm⟩
  | getKeys listing =>
      rw [runOn_getKeys] at hrun
      obtain ⟨rfl, -⟩ := Prod.mk.inj hrun
      show Answered storagePath s (.getKeys listing, _) ↔ ∀ key ∈ s.map.entries, ReadsBack key
      rw [← @Represents.answersKeys_iff storagePath s h listing hlists]
      constructor
      · rintro ⟨answer, ⟨⟩, hkeys⟩
        exact hkeys
      · intro hkeys
        exact ⟨_, rfl, hkeys⟩
  | clear =>
      obtain ⟨rfl, -⟩ := Prod.mk.inj hrun
      exact iff_of_true ⟨_, rfl, rfl⟩ trivial

/-- **Every answer is that of the map** exactly when each key that is present
when the keys are asked for can be read back. -/
theorem answers_iff {trace : List ((Op × Except Fault Json) × Session)}
    (h : Runs.Run (Steps storagePath) {} trace) :
    Runs.Along (Answered storagePath) {} trace ↔ Runs.Along KeysReadBack {} trace :=
  h.along_iff (P := Answered storagePath) (Q := KeysReadBack) (I := Represents)
    (fun _ _ _ hs hstep => hs.step hstep)
    (fun _ _ _ hs hstep => hs.answered_iff hstep)
    ⟨rfl, fun _ => rfl, fun f hf => absurd hf (AList.notMem_empty f)⟩

end Simulation

/-! ### Two runs -/

/-- The session after a key is set. -/
def afterSet (key data : Str) : Session where
  store := some (AList.insert (bucketFile key) data ∅)
  map := ⟨true, AList.insert key data ∅⟩

/-- A key is set, and the keys are listed. -/
def setAndList (key data : Str) : List ((Op × Except Fault Json) × Session) :=
  [((.setData key data, .ok (succeeded .null)), afterSet key data),
    ((.getKeys [bucketFile key], .ok (.obj [("returnValue", .arr [.str (keyOfFile (bucketFile key))]),
      ("success", .bool true)])), afterSet key data)]

lemma run_setAndList (storagePath data : Str) {key : Str} (hkey : IsKey key) :
    Runs.Run (Steps storagePath) {} (setAndList key data) := by
  refine .cons ⟨trivial, ?_, ?_⟩ (.cons ⟨?_, ?_, rfl⟩ (.nil _))
  · rw [runOn_setData, if_pos hkey]
    rfl
  · simp only [KeyMap.after, if_pos hkey]
    rfl
  · rintro files ⟨⟩
    exact List.Perm.refl _
  · rw [runOn_getKeys, List.filter_eq_self.mpr (by simp [extensionRegex_bucketFile hkey])]
    rfl

/-- A key that is the name of the extension is listed as it was set. -/
theorem setAndList_neustorage_answered :
    Runs.Along KeysReadBack {} (setAndList "neustorage" "x") ∧
      Runs.Along (Answered "/app/.storage") {} (setAndList "neustorage" "x") := by
  have hback : Runs.Along KeysReadBack {} (setAndList "neustorage" "x") := by
    refine ⟨trivial, fun key hkey => ?_, trivial⟩
    obtain rfl : key = "neustorage".toList := by
      simpa [AList.mem_keys, afterSet, AList.insert] using hkey
    decide
  exact ⟨hback, (answers_iff (run_setAndList _ _ (by decide))).mpr hback⟩

/-- A key that goes on with the name of the extension is listed as another key. -/
theorem setAndList_my_neustorage_not_answered :
    Runs.Run (Steps "/app/.storage") {} (setAndList "my-neustorage" "x") ∧
      keyOfFile (bucketFile "my-neustorage") = "my".toList ∧
      ¬ Runs.Along (Answered "/app/.storage") {} (setAndList "my-neustorage" "x") := by
  have hcut : keyOfFile (bucketFile "my-neustorage") = "my".toList := rfl
  refine ⟨run_setAndList _ _ (by decide), hcut, ?_⟩
  rintro ⟨-, ⟨answer, hanswer, keys, -, hmem, heq⟩, -⟩
  obtain rfl := Except.ok.inj hanswer
  rw [returned_keys, hcut] at heq
  obtain rfl : ["my".toList] = keys :=
    List.map_injective_iff.mpr (fun _ _ => Json.str.inj) (by simpa using heq)
  have hlisted : "my-neustorage".toList ∈ ["my".toList] :=
    (hmem _).mpr ((AList.mem_insert _).mpr (.inl rfl))
  exact absurd (List.mem_singleton.mp hlisted) (by decide)

end Neutralino.storage
