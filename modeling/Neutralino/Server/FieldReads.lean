import Neutralino.Api.Inputs
import Neutralino.Server.NativeCall

/-!
Which native methods index an object only with keys that it has.

* `Json.lacks`: where the const `operator[]` is undefined; `Json.has`,
  `Json.given`: what `hasField` and an optional field ask for.
* `DefinedWith`: a read that is defined where some fields are there; `Checked`: a
  controller whose reads are defined on every input.
* `AtReached`: a property of the elements that a loop reaches.
* `Guarded`: the inputs on which no read is undefined, for the four methods that
  read without a check.
* `reads_defined_iff`: **when the reads of a method are defined**.
-/

namespace Neutralino

/-! ### Members -/

namespace Json

/-- The member of a key, where the value is an object that has it. -/
def findMember (j : Json) (key : Str) : Option Json :=
  match j with
  | obj members => (members.find? fun m => m.1 = key).map (·.2)
  | _ => none

/-- An object without a member of the key. -/
def lacks (j : Json) (key : Str) : Bool :=
  match j with
  | obj _ => (j.findMember key).isNone
  | _ => false

/-- A member that is not `null`. -/
def has (j : Json) (key : Str) : Bool := (j.findMember key).any fun value => !value.isNull

/-- A member that has a property. -/
def given (j : Json) (key : Str) (ok : Json → Bool) : Bool := (j.findMember key).any ok

/-- A member that is left out, is `null` or has a property. -/
def optional (j : Json) (key : Str) (ok : Json → Bool) : Bool :=
  (j.findMember key).all fun value => value.isNull || ok value

/-- A text. -/
def isStr : Json → Bool
  | str _ => true
  | _ => false

/-- A truth value. -/
def isBool : Json → Bool
  | bool _ => true
  | _ => false

lemma indexConst_eq (j : Json) (key : Str) :
    j.indexConst key =
      match j.findMember key with
      | some value => .ok value
      | none => .error (if j.lacks key then .undefinedBehaviour else .typeError) := by
  cases j with
  | obj members =>
      rw [indexConst, lacks, findMember]
      cases members.find? fun m => m.1 = key with
      | none => rfl
      | some m => rfl
  | _ => rfl

/-- The const `operator[]` is defined except where an object lacks the key. -/
lemma indexConst_defined_iff {j : Json} {key : Str} :
    Defined (j.indexConst key) ↔ j.lacks key = false := by
  cases j with
  | obj members =>
      rw [indexConst_eq, lacks]
      cases (obj members).findMember key with
      | none => simp [Defined]
      | some value => simp [Defined]
  | _ => simp [indexConst, Defined, lacks]

lemma exists_indexConst_of_has {j : Json} {key : Str} (h : j.has key = true) :
    ∃ value, j.indexConst key = .ok value := by
  rw [indexConst_eq]
  cases hmember : j.findMember key with
  | none => simp [has, hmember] at h
  | some value => exact ⟨value, rfl⟩

lemma lacks_of_has {j : Json} {key : Str} (h : j.has key = true) : j.lacks key = false := by
  obtain ⟨value, hvalue⟩ := exists_indexConst_of_has h
  exact indexConst_defined_iff.mp (hvalue ▸ defined_ok value)

lemma contains_eq (j : Json) (key : Str) : j.contains key = (j.findMember key).isSome := by
  cases j with
  | obj members => exact Bool.eq_iff_iff.mpr (by simp [contains, findMember])
  | _ => rfl

lemma exists_getString_iff {j : Json} : (∃ s, j.getString = .ok s) ↔ j.isStr = true := by
  cases j <;> simp [getString, isStr]

lemma exists_getBool_iff {j : Json} : (∃ b, j.getBool = .ok b) ↔ j.isBool = true := by
  cases j <;> simp [getBool, isBool]

lemma getInt_defined (j : Json) : Defined j.getInt := by
  cases j <;> simp [getInt, Defined]

lemma getLongLong_defined (j : Json) : Defined j.getLongLong := by
  cases j <;> simp [getLongLong, Defined]

lemma getLong_defined (j : Json) : Defined j.getLong := by
  cases j <;> simp [getLong, Defined]

end Json

/-! ### Steps of a read -/

section Steps

variable {α β : Type} {x : Except Fault α} {f : α → Except Fault β} {P : Prop}

/-- A second step that returns or not whatever the first returns. -/
lemma exists_bind_ok_iff (hf : ∀ a, (∃ b, f a = .ok b) ↔ P) :
    (∃ b, x >>= f = .ok b) ↔ (∃ a, x = .ok a) ∧ P := by
  cases x with
  | error fault => simp
  | ok a => simpa using hf a

/-- A second step that is defined or not whatever the first returns. -/
lemma defined_bind_iff (hf : ∀ a, Defined (f a) ↔ P) :
    Defined (x >>= f) ↔ Defined x ∧ ((∃ a, x = .ok a) → P) := by
  cases x with
  | error fault => simp [Defined]
  | ok a => simpa [defined_ok] using hf a

/-- A last step that only puts together what was read. -/
lemma exists_bind_pure_iff {g : α → β} :
    (∃ b, (x >>= fun a => pure (g a)) = .ok b) ↔ ∃ a, x = .ok a := by
  rw [exists_bind_ok_iff (f := fun a => pure (g a)) (P := True) fun a =>
    iff_of_true ⟨g a, rfl⟩ trivial, and_true]

lemma defined_bind_pure_iff {g : α → β} : Defined (x >>= fun a => pure (g a)) ↔ Defined x := by
  rw [defined_bind_iff (f := fun a => pure (g a)) (P := True) fun a =>
    iff_of_true (defined_ok (g a)) trivial]
  simp

/-- What holds of the elements that a loop reaches, one that stops at the first
element that does not fit. -/
def AtReached {ι : Type} (fits P : ι → Prop) (xs : List ι) : Prop :=
  ∀ before x after, xs = before ++ x :: after → (∀ y ∈ before, fits y) → P x

lemma atReached_cons {ι : Type} {fits Q : ι → Prop} {x : ι} {xs : List ι} :
    AtReached fits Q (x :: xs) ↔ Q x ∧ (fits x → AtReached fits Q xs) := by
  constructor
  · refine fun h => ⟨h [] x xs rfl (by simp), fun hx before y after hxs hbefore => ?_⟩
    exact h (x :: before) y after (by rw [hxs, List.cons_append])
      (List.forall_mem_cons.mpr ⟨hx, hbefore⟩)
  · rintro ⟨hx, hxs⟩ before y after heq hbefore
    cases before with
    | nil => exact (List.cons.inj heq).1 ▸ hx
    | cons z before =>
        obtain ⟨rfl, rfl⟩ := List.cons.inj heq
        obtain ⟨hfits, hbefore⟩ := List.forall_mem_cons.mp hbefore
        exact hxs hfits before y after rfl hbefore

/-- A loop is defined where the turns that it reaches are. -/
lemma mapM_defined_iff {ι : Type} {g : ι → Except Fault β} {fits Q : ι → Prop}
    (hfits : ∀ x, (∃ y, g x = .ok y) ↔ fits x) (hdefined : ∀ x, Defined (g x) ↔ Q x) {xs : List ι} :
    Defined (xs.mapM g) ↔ AtReached fits Q xs := by
  induction xs with
  | nil => exact iff_of_true (defined_ok _) fun before _ _ h => by simp at h
  | cons x xs ih =>
      have hrest : ∀ y, Defined (do let ys ← xs.mapM g; return y :: ys) ↔ AtReached fits Q xs :=
        fun _ => defined_bind_pure_iff.trans ih
      rw [List.mapM_cons, defined_bind_iff hrest, hfits, hdefined, atReached_cons]

lemma mapM_defined {ι : Type} {g : ι → Except Fault β} {xs : List ι} (h : ∀ x ∈ xs, Defined (g x)) :
    Defined (xs.mapM g) := by
  induction xs with
  | nil => exact defined_ok _
  | cons x xs ih =>
      obtain ⟨hx, hxs⟩ := List.forall_mem_cons.mp h
      rw [List.mapM_cons]
      exact hx.bind fun _ _ => (ih hxs).bind fun _ _ => defined_ok _

lemma foldlM_defined {ι : Type} {g : α → ι → Except Fault α} (h : ∀ a x, Defined (g a x))
    (xs : List ι) (a : α) : Defined (xs.foldlM g a) := by
  induction xs generalizing a with
  | nil => exact defined_ok _
  | cons x xs ih =>
      rw [List.foldlM_cons]
      exact (h a x).bind fun b _ => ih b

end Steps

/-! ### Fields -/

section Fields

variable {α : Type} {input : Json} {key : Str} {get : Json → Except Fault α} {default : α}

lemma hasField_eq (input : Json) (key : Str) : helpers.hasField input key = .ok (input.has key) := by
  rw [helpers.hasField, Json.contains_eq, Json.indexConst_eq, Json.has]
  cases input.findMember key with
  | none => rfl
  | some value => rfl

/-- The first required field that is missing. -/
lemma missingRequiredField_eq (input : Json) (fields : List Str) :
    helpers.missingRequiredField input fields = .ok (fields.find? fun key => !input.has key) := by
  induction fields with
  | nil => rfl
  | cons key fields ih =>
      rw [helpers.missingRequiredField, hasField_eq, ok_bind, List.find?_cons]
      cases input.has key with
      | true => exact ih
      | false => rfl

lemma fieldOr_eq (input : Json) (key : Str) (get : Json → Except Fault α) (default : α) :
    fieldOr input key get default =
      match input.findMember key with
      | some value => if value.isNull then .ok default else get value
      | none => .ok default := by
  rw [fieldOr, hasField_eq, Json.indexConst_eq, Json.has]
  cases input.findMember key with
  | none => rfl
  | some value =>
      cases hnull : value.isNull with
      | true => simp [hnull, pure, Except.pure]
      | false => simp [hnull]

lemma fieldOr_defined_iff (hnull : Defined (get .null)) :
    Defined (fieldOr input key get default) ↔
      ∀ value, input.findMember key = some value → Defined (get value) := by
  rw [fieldOr_eq]
  cases input.findMember key with
  | none => simp [defined_ok]
  | some value =>
      cases value with
      | null => simpa [Json.isNull, defined_ok] using hnull
      | _ => simp [Json.isNull]

/-- An option is read behind its check. -/
lemma fieldOr_defined (h : ∀ value, Defined (get value)) : Defined (fieldOr input key get default) :=
  (fieldOr_defined_iff (h _)).mpr fun _ _ => h _

lemma optionalField_defined (h : ∀ value, Defined (get value)) :
    Defined (optionalField input key get) :=
  fieldOr_defined fun value => (h value).bind fun _ _ => defined_ok _

lemma exists_fieldOr_iff {ok : Json → Bool}
    (hget : ∀ value, (∃ a, get value = .ok a) ↔ ok value = true) :
    (∃ a, fieldOr input key get default = .ok a) ↔ input.optional key ok = true := by
  rw [fieldOr_eq, Json.optional]
  cases input.findMember key with
  | none => simp
  | some value =>
      cases hnull : value.isNull with
      | true => simp [hnull]
      | false => simp [hnull, hget]

lemma exists_optionalField_iff {ok : Json → Bool}
    (hget : ∀ value, (∃ a, get value = .ok a) ↔ ok value = true) :
    (∃ a, optionalField input key get = .ok a) ↔ input.optional key ok = true :=
  exists_fieldOr_iff fun value => exists_bind_pure_iff.trans (hget value)

/-- A member that is read without a check. -/
lemma index_defined_iff (h : ∀ value, Defined (get value)) :
    Defined (input.indexConst key >>= get) ↔ input.lacks key = false := by
  rw [defined_bind_iff fun value => iff_of_true (h value) trivial, Json.indexConst_defined_iff]
  simp

lemma exists_index_iff {ok : Json → Bool}
    (hget : ∀ value, (∃ a, get value = .ok a) ↔ ok value = true) :
    (∃ a, input.indexConst key >>= get = .ok a) ↔ input.given key ok = true := by
  rw [Json.indexConst_eq, Json.given]
  cases input.findMember key with
  | none => simp
  | some value => exact hget value

lemma textField_defined_iff : Defined (textField input key) ↔ input.lacks key = false :=
  index_defined_iff Json.getString_defined

lemma exists_textField_iff :
    (∃ text, textField input key = .ok text) ↔ input.given key Json.isStr = true :=
  exists_index_iff fun _ => Json.exists_getString_iff

end Fields

/-! ### Checked readings -/

/-- A read that is defined where some fields are there. -/
def DefinedWith {α : Type} (fields : List Str) (read : Json → Except Fault α) : Prop :=
  ∀ input, (∀ key ∈ fields, input.lacks key = false) → Defined (read input)

/-- A reading that is defined on every input. -/
def Checked {α : Type} (read : Reading α) : Prop := ∀ input, Defined (read input)

section Families

variable {α β : Type} {fields : List Str} {output : Json}

lemma definedWith_fieldOr {key : Str} {get : Json → Except Fault α} {default : α}
    (h : ∀ value, Defined (get value)) : DefinedWith fields (fieldOr · key get default) :=
  fun _ _ => fieldOr_defined h

lemma definedWith_textField {key : Str} (h : key ∈ fields) : DefinedWith fields (textField · key) :=
  fun _ hfields => textField_defined_iff.mpr (hfields key h)

lemma definedWith_indexConst {key : Str} (h : key ∈ fields) {get : Json → Except Fault α}
    (hget : ∀ value, Defined (get value)) :
    DefinedWith fields fun input => input.indexConst key >>= get :=
  fun _ hfields => (Json.indexConst_defined_iff.mpr (hfields key h)).bind fun value _ => hget value

/-- Two reads, one after the other. -/
lemma definedWith_pair {read : Json → Except Fault α} {next : Json → Except Fault β}
    (hread : DefinedWith fields read) (hnext : DefinedWith fields next) :
    DefinedWith fields fun input => do return (← read input, ← next input) :=
  fun input h => (hread input h).bind fun _ _ => (hnext input h).bind fun _ _ => defined_ok _

lemma definedWith_noOptions : DefinedWith fields noOptions := fun _ _ => defined_ok _

lemma checked_nothing : Checked Reading.nothing := fun _ => defined_ok _

lemma checked_unchecked {read : Json → Except Fault α} (h : DefinedWith [] read) :
    Checked (Reading.unchecked read) :=
  fun input => (h input (by simp)).bind fun _ _ => defined_ok _

/-- What is read behind the check of the required fields may use all of them. -/
lemma checked_requiring {read : Reading α} (h : DefinedWith fields read) :
    Checked (Reading.requiring output fields read) := by
  intro input
  rw [Reading.requiring, missingRequiredField_eq, ok_bind]
  cases hfind : fields.find? fun key => !input.has key with
  | none =>
      have hpresent := List.find?_eq_none.mp hfind
      exact h input fun key hkey => Json.lacks_of_has (by simpa using hpresent key hkey)
  | some field => exact defined_ok _

lemma checked_fields {read : Json → Except Fault α} (h : DefinedWith fields read) :
    Checked (Reading.fields fields read) :=
  checked_requiring fun input hfields => (h input hfields).bind fun _ _ => defined_ok _

/-- A controller of one text. -/
lemma checked_text {key : Str} : Checked (Reading.fields [key] (textField · key)) :=
  checked_fields (definedWith_textField (.head _))

/-- A controller of two texts. -/
lemma checked_twoTexts {key key' : Str} : Checked (Reading.fields [key, key'] fun input => do
    return (← textField input key, ← textField input key')) :=
  checked_fields (definedWith_pair (definedWith_textField (.head _))
    (definedWith_textField (.tail _ (.head _))))

section Gate

variable {perm : Permission} {host : Host} {kind : permission.FileSystemAccessPermission}

/-- The gate is never undefined. -/
lemma gate_defined {path : Str} :
    Defined (permission.hasFileSystemPathAccess host perm path kind) := by
  have hscopes : ∀ scopes, Defined (permission.anyInScope host path scopes) := by
    intro scopes
    induction scopes with
    | nil => exact defined_ok _
    | cons scope scopes ih =>
        have hscope : Defined (permission.isPathInScope host path scope) := by
          rw [permission.isPathInScope, defined_bind_pure_iff]
          rcases permission.normalizeScopePath_cases host path with ⟨r, hr⟩ | hthrown
          · rw [hr]
            exact defined_ok _
          · rw [hthrown]
            exact nofun
        exact hscope.bind fun covered _ => defined_ite (defined_ok _) ih
  exact defined_ite (defined_ok _) (defined_ite (defined_ok _) (hscopes _))

lemma authorized_defined {path : Str} {request : Except Fault (Taken α)} (h : Defined request) :
    Defined (Reading.authorized perm host kind output path request) :=
  gate_defined.bind fun _ _ => defined_ite h (defined_ok _)

lemma checked_onPath {before : Json → Except Fault α} {after : Json → Except Fault β}
    (hpath : "path".toList ∈ fields) (hbefore : DefinedWith fields before)
    (hafter : DefinedWith fields after) :
    Checked (Reading.onPath perm host fields kind output before after) := by
  refine checked_requiring fun input hfields => (hbefore input hfields).bind fun options _ => ?_
  refine (definedWith_textField hpath input hfields).bind fun path _ => authorized_defined ?_
  exact (hafter input hfields).bind fun _ _ => defined_ok _

lemma checked_onPaths {after : Json → Except Fault β}
    (hafter : DefinedWith ["source".toList, "destination".toList] after) :
    Checked (Reading.onPaths perm host kind after) := by
  refine checked_requiring fun input hfields => ?_
  refine (definedWith_textField (.head _) input hfields).bind fun source _ => ?_
  refine (definedWith_textField (.tail _ (.head _)) input hfields).bind fun destination _ => ?_
  refine authorized_defined (authorized_defined ?_)
  exact (hafter input hfields).bind fun _ _ => defined_ok _

end Gate

end Families

/-! ### The methods that check what they read -/

namespace fs.inputs

open fs.controllers (readerOptions copyOptions askedPermissions askedMode openedFileEvent)

variable {fields : List Str}

lemma definedWith_readerOptions : DefinedWith fields readerOptions := fun _ _ =>
  (fieldOr_defined Json.getLongLong_defined).bind fun _ _ =>
    (fieldOr_defined Json.getLongLong_defined).bind fun _ _ => defined_ok _

lemma definedWith_copyOptions : DefinedWith fields copyOptions := fun _ _ =>
  (fieldOr_defined Json.getBool_defined).bind fun _ _ =>
    (fieldOr_defined Json.getBool_defined).bind fun _ _ =>
      (fieldOr_defined Json.getBool_defined).bind fun _ _ => defined_ok _

lemma definedWith_askedPermissions : DefinedWith fields askedPermissions := fun _ _ =>
  foldlM_defined (fun _ _ => (fieldOr_defined Json.getBool_defined).bind fun _ _ =>
    defined_ite (defined_ok _) (defined_ok _)) _ _

lemma definedWith_askedMode : DefinedWith fields askedMode := fun _ _ =>
  (fieldOr_defined Json.getString_defined).bind fun _ _ => defined_ok _

lemma definedWith_openedFileEvent :
    DefinedWith ["id".toList, "event".toList] openedFileEvent := by
  intro input hfields
  refine (Json.indexConst_defined_iff.mpr (hfields _ (.head _))).bind fun id _ => ?_
  refine id.getInt_defined.bind fun id _ => ?_
  refine (definedWith_textField (.tail _ (.head _)) input hfields).bind fun type _ => ?_
  refine (fieldOr_defined fun data => ?_).bind fun data _ => ?_
  · exact defined_ite data.getLongLong_defined (defined_ok _)
  · exact defined_ok _

lemma getStrings_defined (j : Json) : Defined j.getStrings := by
  cases j with
  | arr xs => exact mapM_defined fun x _ => x.getString_defined
  | _ => exact nofun

/-- The methods of `filesystem` are checked. -/
lemma checked (perm : Permission) (host : Host) :
    ∀ m ∈ methodInputs perm host, Checked m.read := by
  have honlyPath : ∀ {kind : permission.FileSystemAccessPermission}, Checked
      (Reading.onPath perm host ["path".toList] kind .null noOptions noOptions) :=
    checked_onPath (.head _) definedWith_noOptions definedWith_noOptions
  have hwrite : Checked (writeOrAppend perm host) :=
    checked_onPath (.head _) (definedWith_textField (.tail _ (.head _))) definedWith_noOptions
  simp only [methodInputs, List.forall_mem_cons, List.not_mem_nil, IsEmpty.forall_iff, implies_true,
    and_true]
  refine ⟨honlyPath, honlyPath, ?readFile, ?readFile, hwrite, hwrite, hwrite, hwrite, honlyPath,
    honlyPath, ?removeWatcher, checked_nothing, ?updateOpenedFile, ?getOpenedFileInfo,
    ?readDirectory, ?copy, ?move, honlyPath, checked_text, ?getRelativePath, checked_text, honlyPath,
    ?setPermissions, ?getJoinedPath, checked_text, checked_text, ?access, ?chmod, ?chown⟩
  case readFile => exact checked_onPath (.head _) definedWith_readerOptions definedWith_noOptions
  case removeWatcher => exact checked_fields (definedWith_indexConst (.head _) Json.getLong_defined)
  case updateOpenedFile => exact checked_fields definedWith_openedFileEvent
  case getOpenedFileInfo =>
      exact checked_fields (definedWith_indexConst (.head _) Json.getInt_defined)
  case readDirectory =>
      exact checked_onPath (.head _) (definedWith_fieldOr Json.getBool_defined) definedWith_noOptions
  case copy => exact checked_onPaths definedWith_copyOptions
  case move => exact checked_onPaths definedWith_noOptions
  case getRelativePath =>
      exact checked_fields (definedWith_pair (definedWith_textField (.head _)) fun _ _ =>
        optionalField_defined Json.getString_defined)
  case setPermissions =>
      exact checked_onPath (.head _) definedWith_noOptions
        (definedWith_pair definedWith_askedPermissions definedWith_askedMode)
  case getJoinedPath => exact checked_fields (definedWith_indexConst (.head _) getStrings_defined)
  case access =>
      exact checked_onPath (.head _) definedWith_noOptions (definedWith_fieldOr Json.getInt_defined)
  case chmod =>
      exact checked_onPath (.head _) definedWith_noOptions
        (definedWith_indexConst (.tail _ (.head _)) Json.getInt_defined)
  case chown =>
      exact checked_onPath (.head _) definedWith_noOptions
        (definedWith_pair (definedWith_indexConst (.tail _ (.head _)) Json.getInt_defined)
          (definedWith_indexConst (.tail _ (.tail _ (.head _))) Json.getInt_defined))

end fs.inputs

namespace os.inputs

lemma envsOf_defined (envs : Json) : Defined (envsOf envs) :=
  mapM_defined fun entry _ => entry.2.getString_defined.bind fun _ _ => defined_ok _

lemma checked_onCommand {perm : Permission} {readOptions : Json → Except Fault ChildProcessOptions}
    (h : DefinedWith ["command".toList] readOptions) : Checked (onCommand perm readOptions) := by
  refine checked_requiring fun input hfields => ?_
  refine (definedWith_textField (.head _) input hfields).bind fun command _ => ?_
  exact defined_ite ((h input hfields).bind fun _ _ => defined_ok _) (defined_ok _)

lemma checked_execCommand {perm : Permission} : Checked (execCommand perm) := by
  refine checked_onCommand fun input _ => ?_
  refine (fieldOr_defined Json.getString_defined).bind fun stdIn _ => ?_
  refine (fieldOr_defined Json.getBool_defined).bind fun background _ => ?_
  refine (fieldOr_defined Json.getString_defined).bind fun cwd _ => ?_
  exact (fieldOr_defined envsOf_defined).bind fun envs _ => defined_ok _

lemma checked_spawnProcess {perm : Permission} : Checked (spawnProcess perm) := by
  refine checked_onCommand fun input _ => ?_
  refine (fieldOr_defined Json.getString_defined).bind fun cwd _ => ?_
  exact (fieldOr_defined envsOf_defined).bind fun envs _ => defined_ok _

lemma checked_updateSpawnedProcess : Checked updateSpawnedProcess := by
  refine checked_fields fun input hfields => ?_
  refine (definedWith_indexConst (.head _) Json.getInt_defined input hfields).bind fun id _ => ?_
  refine (definedWith_textField (.tail _ (.head _)) input hfields).bind fun type _ => ?_
  refine (fieldOr_defined fun data => ?_).bind fun stdIn _ => defined_ok _
  exact defined_ite data.getString_defined (defined_ok _)

lemma checked_showFolderDialog : Checked showFolderDialog :=
  checked_unchecked
    (definedWith_pair (definedWith_fieldOr Json.getString_defined)
      (definedWith_fieldOr Json.getString_defined))

lemma checked_showNotification : Checked showNotification := by
  refine checked_requiring fun input hfields => ?_
  refine (definedWith_textField (.head _) input hfields).bind fun title _ => ?_
  refine (definedWith_textField (.tail _ (.head _)) input hfields).bind fun content _ => ?_
  refine (fieldOr_defined Json.getString_defined).bind fun icon _ => ?_
  exact defined_ite (defined_ok _) (defined_ok _)

lemma checked_showMessageBox : Checked showMessageBox := by
  refine checked_requiring fun input hfields => ?_
  refine (definedWith_textField (.head _) input hfields).bind fun title _ => ?_
  refine (definedWith_textField (.tail _ (.head _)) input hfields).bind fun content _ => ?_
  refine (fieldOr_defined Json.getString_defined).bind fun icon _ => ?_
  refine (fieldOr_defined Json.getString_defined).bind fun choice _ => ?_
  exact defined_ite (defined_ok _) (defined_ok _)

end os.inputs

lemma storage.inputs.checked_onKey {α : Type} {read : Json → Except Fault α}
    (h : DefinedWith ["key".toList] read) : Checked (onKey read) := by
  refine checked_requiring fun input hfields => ?_
  refine (definedWith_textField (.head _) input hfields).bind fun key _ => ?_
  exact defined_ite (defined_ok _) ((h input hfields).bind fun _ _ => defined_ok _)

/-- The methods of `storage` are checked. -/
lemma storage.checked : ∀ m ∈ methodInputs, Checked m.read := by
  simp only [methodInputs, List.forall_mem_cons, List.not_mem_nil, IsEmpty.forall_iff, implies_true,
    and_true]
  exact ⟨inputs.checked_onKey fun _ _ => optionalField_defined Json.getString_defined,
    inputs.checked_onKey definedWith_noOptions, inputs.checked_onKey definedWith_noOptions,
    checked_nothing, checked_nothing⟩

lemma eventData_defined {fields : List Str} : DefinedWith fields eventData :=
  definedWith_fieldOr defined_ok

lemma checked_sendsEvent : Checked sendsEvent :=
  checked_fields (definedWith_pair (definedWith_textField (.head _)) eventData_defined)

/-- The methods of `events` and `extensions` are checked. -/
lemma events.checked : ∀ m ∈ methodInputs, Checked m.read := by
  simp only [methodInputs, List.forall_mem_cons, List.not_mem_nil, IsEmpty.forall_iff, implies_true,
    and_true]
  refine ⟨checked_sendsEvent, ?_, checked_sendsEvent, checked_nothing⟩
  refine checked_fields fun input hfields => ?_
  refine (definedWith_textField (.head _) input hfields).bind fun extensionId _ => ?_
  refine (definedWith_textField (.tail _ (.head _)) input hfields).bind fun event _ => ?_
  exact (eventData_defined input hfields).bind fun data _ => defined_ok _

/-- The methods of `app` are checked. -/
lemma app.checked : ∀ m ∈ methodInputs, Checked m.read := by
  simp only [methodInputs, List.forall_mem_cons, List.not_mem_nil, IsEmpty.forall_iff, implies_true,
    and_true]
  exact ⟨checked_unchecked (definedWith_fieldOr Json.getInt_defined), checked_nothing, checked_nothing,
    checked_nothing, checked_sendsEvent, checked_unchecked (definedWith_fieldOr Json.getBool_defined),
    checked_text, checked_text⟩

namespace res

namespace inputs

lemma eachFile_defined {data : Json}
    {child : (entry : Str × Json) → sizeOf entry.2 < sizeOf data → Except Fault (List Str)}
    (hfiles : data.lacks "files" = false) (h : ∀ entry hlt, Defined (child entry hlt)) :
    Defined (eachFile data child) := by
  have hindex := Json.indexConst_defined_iff.mpr hfiles
  rw [eachFile]
  split
  · case h_1 fault heq =>
      exact fun hfault => hindex (heq.trans (congrArg _ (Except.error.inj hfault)))
  · case h_2 files heq =>
      exact (mapM_defined fun entry _ => h _ _).bind fun below _ => defined_ok _

/-- The walk over all files looks into `files` only where there are any. -/
lemma parseAllFiles_defined (basePath : Str) (data : Json) :
    Defined (parseAllFiles basePath data) := by
  rw [parseAllFiles, hasField_eq, ok_bind]
  cases hhas : data.has "files" with
  | false => exact defined_ok _
  | true =>
      rw [if_pos rfl]
      refine eachFile_defined (Json.lacks_of_has hhas) fun entry hlt => ?_
      exact (parseAllFiles_defined _ entry.2).bind fun files _ => defined_ok _
termination_by sizeOf data

lemma parseFiles_defined (rootPath path : Str) (data : Json) :
    Defined (parseFiles rootPath path data) := by
  rw [parseFiles, hasField_eq, ok_bind]
  cases hhas : data.has "files" with
  | false => exact defined_ok _
  | true =>
      rw [if_pos rfl]
      refine defined_ite (defined_ok _) (eachFile_defined (Json.lacks_of_has hhas) fun entry hlt => ?_)
      exact parseFiles_defined rootPath _ entry.2
termination_by sizeOf data

end inputs

/-- The methods of `resources` are checked. -/
lemma checked (mode : resources.ResourceMode) (fileTree : Json) :
    ∀ m ∈ methodInputs mode fileTree, Checked m.read := by
  simp only [methodInputs, List.forall_mem_cons, List.not_mem_nil, IsEmpty.forall_iff, implies_true,
    and_true]
  refine ⟨?getFiles, checked_text, checked_twoTexts, ?extractDirectory, checked_text, checked_text⟩
  case getFiles =>
      exact fun _ => defined_ite (defined_ok _)
        ((inputs.parseAllFiles_defined _ _).bind fun _ _ => defined_ok _)
  case extractDirectory =>
      refine checked_fields fun input hfields => ?_
      refine (definedWith_textField (.head _) input hfields).bind fun path _ => ?_
      refine (definedWith_textField (.tail _ (.head _)) input hfields).bind fun destination _ => ?_
      exact defined_ite (defined_ok _)
        ((inputs.parseFiles_defined _ _ _).bind fun _ _ => defined_ok _)

end res

namespace net.inputs

/-- The name and the password are looked for in `auth` before they are read. -/
lemma basicAuth_defined (input : Json) : Defined (basicAuth input) := by
  rw [basicAuth, hasField_eq, ok_bind]
  cases hauth : input.has "auth" with
  | false => exact defined_ok _
  | true =>
      obtain ⟨auth, hvalue⟩ := Json.exists_indexConst_of_has hauth
      simp only [hasField_eq, hvalue, ok_bind, Bool.not_true, Bool.false_eq_true, if_false]
      cases husername : auth.has "username" with
      | false => exact defined_ok _
      | true =>
          cases hpassword : auth.has "password" with
          | false => exact defined_ok _
          | true =>
              refine (textField_defined_iff.mpr (Json.lacks_of_has husername)).bind fun username _ => ?_
              refine (textField_defined_iff.mpr (Json.lacks_of_has hpassword)).bind fun password _ => ?_
              exact defined_ok _

lemma checked_request : Checked request := by
  have htextItems : ∀ j, Defined (textItems j) := fun _ => defined_ok _
  refine checked_requiring fun input hfields => ?_
  refine (definedWith_textField (.head _) input hfields).bind fun url _ => ?_
  refine defined_ite (Defined.bind ?_ fun request _ => defined_ok _) (defined_ok _)
  refine (optionalField_defined Json.getInt_defined).bind fun timeout _ => ?_
  refine (fieldOr_defined htextItems).bind fun params _ => ?_
  refine (fieldOr_defined htextItems).bind fun headers _ => ?_
  refine (basicAuth_defined input).bind fun auth _ => ?_
  refine (fieldOr_defined Json.getString_defined).bind fun body _ => ?_
  refine (optionalField_defined Json.getBool_defined).bind fun allowRedirects _ => ?_
  refine (optionalField_defined Json.getBool_defined).bind fun encodePath _ => ?_
  refine (optionalField_defined Json.getBool_defined).bind fun keepAlive _ => ?_
  refine (optionalField_defined Json.getString_defined).bind fun contentType _ => ?_
  exact (fieldOr_defined Json.getString_defined).bind fun method _ => defined_ok _

end net.inputs

/-! ### The methods that read without a check -/

namespace os

/-- The extensions of a filter: a list of texts, or nothing. -/
def extensionsFit : Json → Bool
  | .arr xs => xs.all Json.isStr
  | exts => exts.size = 0

/-- A filter of a file dialog: its name and its extensions. -/
def filterFits (filter : Json) : Bool :=
  filter.given "name" Json.isStr && filter.given "extensions" extensionsFit

/-- A filter that has what is looked up in it. -/
def FilterGuarded (filter : Json) : Prop :=
  filter.lacks "name" = false ∧
    (filter.given "name" Json.isStr = true → filter.lacks "extensions" = false)

/-- An item of the tray menu: its text, and options of the right types. -/
def trayItemFits (menuItem : Json) : Bool :=
  menuItem.given "text" Json.isStr && menuItem.optional "id" Json.isStr &&
    menuItem.optional "isDisabled" Json.isBool && menuItem.optional "isChecked" Json.isBool

/-- Every item of the menu that `setTray` reaches has a text if it is an object. -/
def TrayGuarded (input : Json) : Prop :=
  ∀ menuItems, input.findMember "menuItems" = some menuItems →
    AtReached (trayItemFits · = true) (Json.lacks · "text" = false)
      (menuItems.elements.take (inputs.menuCount menuItems))

/-- Every filter that a file dialog reaches has what is looked up in it; none is
reached after a title or an option of the wrong type. -/
def DialogGuarded (option : Str) (input : Json) : Prop :=
  input.optional "title" Json.isStr = true → input.optional option Json.isBool = true →
    ∀ filters, input.findMember "filters" = some filters →
      AtReached (filterFits · = true) FilterGuarded filters.elements

namespace inputs

lemma trayItem_defined_iff {menuItem : Json} :
    Defined (trayItem menuItem) ↔ menuItem.lacks "text" = false := by
  have hrest : ∀ text, Defined (do
      let id ← optionalField menuItem "id" Json.getString
      let disabled ← fieldOr menuItem "isDisabled" Json.getBool false
      let checked ← fieldOr menuItem "isChecked" Json.getBool false
      return ({ id, text, disabled, checked } : TrayMenu)) := by
    intro text
    refine (optionalField_defined Json.getString_defined).bind fun id _ => ?_
    refine (fieldOr_defined Json.getBool_defined).bind fun disabled _ => ?_
    exact (fieldOr_defined Json.getBool_defined).bind fun checked _ => defined_ok _
  rw [trayItem, defined_bind_iff fun text => iff_of_true (hrest text) trivial, textField_defined_iff]
  simp

lemma exists_trayItem_iff {menuItem : Json} :
    (∃ item, trayItem menuItem = .ok item) ↔ trayItemFits menuItem = true := by
  rw [trayItem, exists_bind_ok_iff fun _ => exists_bind_ok_iff fun _ => exists_bind_ok_iff fun _ =>
    exists_bind_pure_iff, exists_textField_iff,
    exists_optionalField_iff fun _ => Json.exists_getString_iff,
    exists_fieldOr_iff fun _ => Json.exists_getBool_iff,
    exists_fieldOr_iff fun _ => Json.exists_getBool_iff]
  simp [trayItemFits, and_assoc]

/-- When `setTray` reads nothing undefined. -/
lemma setTray_defined_iff {input : Json} : Defined (setTray input) ↔ TrayGuarded input := by
  have hicon : ∀ menu : Option (List TrayMenu), Defined (do
      let icon ← optionalField input "icon" Json.getString
      return (menu, icon)) := fun _ =>
    (optionalField_defined Json.getString_defined).bind fun _ _ => defined_ok _
  rw [setTray, Reading.unchecked, defined_bind_pure_iff,
    defined_bind_iff fun menu => iff_of_true (hicon menu) trivial, optionalField]
  simp only [implies_true, and_true]
  have hnull : Defined ((Json.null.elements.take (menuCount .null)).mapM trayItem) := by
    rw [Json.elements, List.take_nil]
    exact defined_ok _
  refine (fieldOr_defined_iff (defined_bind_pure_iff.mpr hnull)).trans ?_
  refine forall_congr' fun menuItems => imp_congr_right fun _ => defined_bind_pure_iff.trans ?_
  exact mapM_defined_iff (fun _ => exists_trayItem_iff) fun _ => trayItem_defined_iff

/-- The extensions of a filter are never looked up in an object. -/
lemma extensionTexts_defined (exts : Json) : Defined (extensionTexts exts) := by
  cases exts with
  | arr xs => exact mapM_defined fun x _ => x.getString_defined
  | _ =>
      simp only [extensionTexts]
      exact defined_ite (defined_ok _) nofun

lemma exists_getStrings_iff {xs : List Json} :
    (∃ texts, xs.mapM Json.getString = .ok texts) ↔ xs.all Json.isStr = true := by
  induction xs with
  | nil => simp [pure, Except.pure]
  | cons x xs ih =>
      rw [List.mapM_cons, exists_bind_ok_iff fun _ => exists_bind_pure_iff, ih, Json.exists_getString_iff,
        List.all_cons, Bool.and_eq_true]

lemma exists_extensionTexts_iff (exts : Json) :
    (∃ texts, extensionTexts exts = .ok texts) ↔ extensionsFit exts = true := by
  cases exts with
  | arr xs => exact exists_getStrings_iff
  | obj members => cases members <;> simp [extensionTexts, extensionsFit, Json.size]
  | _ => simp [extensionTexts, extensionsFit, Json.size]

lemma fileFilter_defined_iff {filter : Json} : Defined (fileFilter filter) ↔ FilterGuarded filter := by
  rw [fileFilter, defined_bind_iff fun name => index_defined_iff fun exts =>
      defined_bind_pure_iff.mpr (extensionTexts_defined exts),
    textField_defined_iff, exists_textField_iff, FilterGuarded]

lemma exists_fileFilter_iff {filter : Json} :
    (∃ texts, fileFilter filter = .ok texts) ↔ filterFits filter = true := by
  rw [fileFilter, exists_bind_ok_iff fun name => exists_index_iff fun exts =>
      exists_bind_pure_iff.trans (exists_extensionTexts_iff exts),
    exists_textField_iff, filterFits, Bool.and_eq_true]

/-- When a file dialog reads nothing undefined. -/
lemma fileDialog_defined_iff {title option : Str} {input : Json} :
    Defined (fileDialog title option input) ↔ DialogGuarded option input := by
  have hdefaultPath : ∀ (title : Str) (option : Bool) (filters : List Str), Defined (do
      let defaultPath ← fieldOr input "defaultPath" Json.getString []
      return ({ title, option, filters, defaultPath } : FileDialog)) := fun _ _ _ =>
    defined_bind_pure_iff.mpr (fieldOr_defined Json.getString_defined)
  have hfilters :
      Defined (fieldOr input "filters" extensionsToVector ["All files".toList, "*".toList]) ↔
      ∀ filters, input.findMember "filters" = some filters →
        AtReached (filterFits · = true) FilterGuarded filters.elements := by
    refine (fieldOr_defined_iff (show Defined (extensionsToVector .null) from defined_ok _)).trans ?_
    refine forall_congr' fun filters => imp_congr_right fun _ => defined_bind_pure_iff.trans ?_
    exact mapM_defined_iff (fun _ => exists_fileFilter_iff) fun _ => fileFilter_defined_iff
  rw [fileDialog, Reading.unchecked, defined_bind_pure_iff, defined_bind_iff fun title =>
      defined_bind_iff fun option => defined_bind_iff fun filters =>
        iff_of_true (hdefaultPath title option filters) trivial,
    exists_fieldOr_iff fun _ => Json.exists_getString_iff,
    exists_fieldOr_iff fun _ => Json.exists_getBool_iff, hfilters, DialogGuarded]
  simp only [implies_true, and_true, fieldOr_defined Json.getString_defined,
    fieldOr_defined Json.getBool_defined, true_and]

end inputs

end os

/-! ### All methods -/

/-- The inputs of a method on which none of its reads is undefined. -/
structure Guarded (method : String) (input : Json) : Prop where
  unmount : method = "server.unmount" → input.lacks "path" = false
  setTray : method = "os.setTray" → os.TrayGuarded input
  showOpenDialog : method = "os.showOpenDialog" → os.DialogGuarded "multiSelections" input
  showSaveDialog : method = "os.showSaveDialog" → os.DialogGuarded "forceOverwrite" input

/-- The methods that read without a check. -/
def uncheckedMethods : List String :=
  ["server.unmount", "os.setTray", "os.showOpenDialog", "os.showSaveDialog"]

/-- The components whose methods have a reading. -/
def components : List Str :=
  ["app", "filesystem", "os", "storage", "events", "extensions", "resources", "server", "net"].map
    String.toList

section Methods

variable {perm : Permission} {host : Host} {mode : resources.ResourceMode} {fileTree : Json}

/-- A checked method is guarded on every input. -/
lemma defined_iff_of_checked {α : Type} {name : String} {read : Reading α}
    (hname : name ∉ uncheckedMethods) (h : Checked read) (input : Json) :
    Defined (read input) ↔ Guarded name input := by
  refine iff_of_true (h input) ⟨fun heq => ?_, fun heq => ?_, fun heq => ?_, fun heq => ?_⟩
  · exact absurd (heq ▸ .head _) hname
  · exact absurd (heq ▸ .tail _ (.head _)) hname
  · exact absurd (heq ▸ .tail _ (.tail _ (.head _))) hname
  · exact absurd (heq ▸ .tail _ (.tail _ (.tail _ (.head _)))) hname

/-- The methods of a list are guarded on every input where all of them are checked. -/
lemma defined_iff_of_all {methods : List MethodInput}
    (hnames : (methods.all fun m => decide (m.name ∉ uncheckedMethods)) = true)
    (h : ∀ m ∈ methods, Checked m.read) :
    ∀ m ∈ methods, ∀ input, Defined (m.read input) ↔ Guarded m.name input := fun m hm =>
  defined_iff_of_checked (of_decide_eq_true (List.all_eq_true.mp hnames m hm)) (h m hm)

lemma os.defined_iff :
    ∀ m ∈ methodInputs perm, ∀ input, Defined (m.read input) ↔ Guarded m.name input := by
  simp only [methodInputs, List.forall_mem_cons, List.not_mem_nil, IsEmpty.forall_iff, implies_true,
    and_true]
  refine ⟨defined_iff_of_checked (by decide) inputs.checked_execCommand,
    defined_iff_of_checked (by decide) inputs.checked_spawnProcess,
    defined_iff_of_checked (by decide) inputs.checked_updateSpawnedProcess,
    defined_iff_of_checked (by decide) checked_nothing, defined_iff_of_checked (by decide) checked_text,
    defined_iff_of_checked (by decide) checked_twoTexts, defined_iff_of_checked (by decide) checked_nothing,
    defined_iff_of_checked (by decide) checked_nothing, fun input => ?showOpenDialog,
    defined_iff_of_checked (by decide) inputs.checked_showFolderDialog,
    fun input => ?showSaveDialog,
    defined_iff_of_checked (by decide) inputs.checked_showNotification,
    defined_iff_of_checked (by decide) inputs.checked_showMessageBox, fun input => ?setTray,
    defined_iff_of_checked (by decide) checked_text, defined_iff_of_checked (by decide) checked_text,
    defined_iff_of_checked (by decide) checked_text⟩
  case showOpenDialog =>
      refine inputs.fileDialog_defined_iff.trans ⟨fun h => ?_, fun h => h.showOpenDialog rfl⟩
      exact ⟨fun h => absurd h (by decide), fun h => absurd h (by decide), fun _ => h,
        fun h => absurd h (by decide)⟩
  case showSaveDialog =>
      refine inputs.fileDialog_defined_iff.trans ⟨fun h => ?_, fun h => h.showSaveDialog rfl⟩
      exact ⟨fun h => absurd h (by decide), fun h => absurd h (by decide),
        fun h => absurd h (by decide), fun _ => h⟩
  case setTray =>
      refine inputs.setTray_defined_iff.trans ⟨fun h => ?_, fun h => h.setTray rfl⟩
      exact ⟨fun h => absurd h (by decide), fun _ => h, fun h => absurd h (by decide),
        fun h => absurd h (by decide)⟩

lemma server.defined_iff :
    ∀ m ∈ methodInputs, ∀ input, Defined (m.read input) ↔ Guarded m.name input := by
  simp only [methodInputs, List.forall_mem_cons, List.not_mem_nil, IsEmpty.forall_iff, implies_true,
    and_true]
  refine ⟨defined_iff_of_checked (by decide) checked_twoTexts, fun input => ?unmount,
    defined_iff_of_checked (by decide) checked_nothing,
    defined_iff_of_checked (by decide) net.inputs.checked_request⟩
  case unmount =>
      refine (defined_bind_pure_iff.trans textField_defined_iff).trans
        ⟨fun h => ?_, fun h => h.unmount rfl⟩
      exact ⟨fun _ => h, fun h => absurd h (by decide), fun h => absurd h (by decide),
        fun h => absurd h (by decide)⟩

/-- The readings are those of the registered methods of their components. -/
lemma methodNames_eq :
    (methodInputs {} emptyWorkDir .dir .null).map (fun m => m.name.toList) =
      router.methodMap.filter fun method => method.takeWhile (· ≠ '.') ∈ components := by
  -- the names are spelled out first
  simp only [methodInputs, app.methodInputs, fs.methodInputs, os.methodInputs, storage.methodInputs,
    events.methodInputs, res.methodInputs, server.methodInputs, router.methodMap, components,
    List.cons_append, List.nil_append, List.map_cons, List.map_nil]
  repeat rw [String.toList_ofList]
  decide +kernel

/-- **When the reads of a method are defined**: every registered method of the nine
components has its reading, and no read of it indexes an object with a key that the
object lacks just where its input is guarded. -/
theorem reads_defined_iff (perm : Permission) (host : Host) (mode : resources.ResourceMode)
    (fileTree : Json) :
    (methodInputs perm host mode fileTree).map (fun m => m.name.toList) =
        router.methodMap.filter (fun method => method.takeWhile (· ≠ '.') ∈ components) ∧
      ∀ m ∈ methodInputs perm host mode fileTree, ∀ input,
        Defined (m.read input) ↔ Guarded m.name input := by
  constructor
  · -- the names do not depend on the state of the application
    have hnames : (methodInputs perm host mode fileTree).map (fun m => m.name.toList) =
      (methodInputs {} emptyWorkDir .dir .null).map fun m => m.name.toList := rfl
    rw [hnames, methodNames_eq]
  · simp only [methodInputs, List.forall_mem_append]
    exact ⟨⟨⟨⟨⟨⟨defined_iff_of_all rfl app.checked,
      defined_iff_of_all rfl (fs.inputs.checked perm host)⟩, os.defined_iff⟩,
      defined_iff_of_all rfl storage.checked⟩, defined_iff_of_all rfl events.checked⟩,
      defined_iff_of_all rfl (res.checked mode fileTree)⟩, server.defined_iff⟩

end Methods

/-- `server.unmount` takes a null input for a type error. -/
theorem unmount_null_defined : Defined (server.inputs.unmount .null) :=
  ((reads_defined_iff {} emptyWorkDir .bundle .null).2 ⟨"server.unmount", _, server.inputs.unmount⟩
    (List.mem_append_right _ (.tail _ (.head _))) .null).mpr
    ⟨fun _ => rfl, fun h => absurd h (by decide), fun h => absurd h (by decide),
      fun h => absurd h (by decide)⟩

/-- **An unchecked read**: `server.unmount` of an empty object looks up a path that
is not there. -/
theorem unmount_empty_undefined :
    (∃ m ∈ methodInputs {} emptyWorkDir .bundle .null, m.name = "server.unmount" ∧
        m.read (.obj []) = .error .undefinedBehaviour) ∧
      Calls.runOn (server.unmount (.obj [])) {} = (.error .undefinedBehaviour, {}) :=
  ⟨⟨⟨"server.unmount", _, server.inputs.unmount⟩, List.mem_append_right _ (.tail _ (.head _)), rfl,
    rfl⟩, rfl⟩

end Neutralino
