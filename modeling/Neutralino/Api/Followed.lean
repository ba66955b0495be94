import Neutralino.Api.Inputs

/-!
The controllers that are modelled to their end take their inputs by their readings.

* `carryOut`: what a controller does with what it has taken.
* `Takes`, `Follows`: it goes on from the request alone; one rule for each way of
  building a reading.
* `followed_follow`: **every such controller follows its reading**.
-/

namespace Neutralino

open permission (FileSystemAccessPermission)

section Rules

variable {α β : Type} {act : α → Call Json}

/-- What is done with what was taken. -/
def carryOut (act : α → Call Json) : Taken α → Call Json
  | .answer output => return output
  | .request request => act request

/-- A call takes what a reading hands over, and goes on from the request. -/
def Takes (act : α → Call Json) (taken : Except Fault (Taken α)) (call : Call Json) : Prop :=
  call = liftM taken >>= carryOut act

/-- A controller reads its input by a reading: the rest of it sees the request only. -/
def Follows (reading : Reading α) (controller : Json → Call Json) : Prop :=
  ∃ act : α → Call Json, ∀ input, Takes act (reading input) (controller input)

/-- A controller whose reading fails fails with it and leaves the state as it was. -/
theorem Follows.runOn_of_error {reading : Reading α} {controller : Json → Call Json}
    (h : Follows reading controller) {input : Json} {fault : Fault}
    (hfault : reading input = .error fault) (w : World) :
    Calls.runOn (controller input) w = (.error fault, w) := by
  obtain ⟨act, htakes⟩ := h
  rw [htakes input, hfault]
  rfl

lemma takes_request {request : α} : Takes act (.ok (.request request)) (act request) := rfl

lemma takes_answer {output : Json} : Takes act (.ok (.answer output)) (pure output) := rfl

/-- A step of the reading is one of the call. -/
lemma takes_bind {x : Except Fault β} {f : β → Except Fault (Taken α)} {g : β → Call Json}
    (h : ∀ b, Takes act (f b) (g b)) : Takes act (x >>= f) (liftM x >>= g) := by
  cases x with
  | error fault => rfl
  | ok b => exact h b

lemma takes_ite {c : Prop} [Decidable c] {x y : Except Fault (Taken α)} {call other : Call Json}
    (hx : Takes act x call) (hy : Takes act y other) :
    Takes act (if c then x else y) (if c then call else other) := by
  split_ifs
  · exact hx
  · exact hy

lemma takes_requiring {output : Json} {fields : List Str} {input : Json} {read : Reading α}
    {call : Call Json} (h : Takes act (read input) call) :
    Takes act (Reading.requiring output fields read input) (requiring output fields input call) := by
  refine takes_bind fun missing => ?_
  cases missing with
  | none => exact h
  | some field => exact takes_answer

lemma follows_fields {fields : List Str} {read : Json → Except Fault α}
    {controller : Json → Call Json} (h : ∀ input, controller input =
      requiring .null fields input (liftM (read input) >>= act)) :
    Follows (Reading.fields fields read) controller :=
  ⟨act, fun input => h input ▸ takes_requiring (takes_bind (g := act) fun _ => takes_request)⟩

section Gate

variable {perm : Permission} {os : Os} {kind : FileSystemAccessPermission} {output : Json}

lemma takes_authorized {path : Str} {request : Except Fault (Taken α)} {call : Call Json}
    (h : Takes act request call) :
    Takes act (Reading.authorized perm os.host kind output path request)
      (authorized perm os kind output path call) :=
  takes_bind fun _ => takes_ite h takes_answer

/-- A controller of one path goes on from the path and its options. -/
lemma follows_onPath {γ : Type} {fields : List Str} {before : Json → Except Fault γ}
    {after : Json → Except Fault β} {rest : Json → Str → γ → Call Json}
    {g : Str → γ → β → Call Json}
    (h : ∀ input path options, rest input path options = liftM (after input) >>= g path options) :
    Follows (Reading.onPath perm os.host fields kind output before after)
      fun input => onPath perm os fields kind output before (rest input) input := by
  refine ⟨fun taken => g taken.1 taken.2.1 taken.2.2, fun input => ?_⟩
  refine takes_requiring (takes_bind fun options => takes_bind fun path => takes_authorized ?_)
  exact h input path options ▸ takes_bind fun _ => takes_request

/-- A controller of one path that reads no more after the gate. -/
lemma follows_onPath_noOptions {γ : Type} {fields : List Str} {before : Json → Except Fault γ}
    {rest : Str → γ → Call Json} :
    Follows (Reading.onPath perm os.host fields kind output before noOptions)
      (onPath perm os fields kind output before rest) :=
  follows_onPath (g := fun path options _ => rest path options) fun _ _ _ => rfl

/-- A controller of two paths goes on from the paths and its options. -/
lemma follows_onPaths {after : Json → Except Fault β} {rest : Json → Str → Str → Call Json}
    {g : Str → Str → β → Call Json} (h : ∀ input source destination,
      rest input source destination = liftM (after input) >>= g source destination) :
    Follows (Reading.onPaths perm os.host kind after)
      fun input => onPaths perm os kind (rest input) input := by
  refine ⟨fun taken => g taken.1 taken.2.1 taken.2.2, fun input => ?_⟩
  refine takes_requiring (takes_bind fun source => takes_bind fun destination => ?_)
  refine takes_authorized (takes_authorized ?_)
  exact h input source destination ▸ takes_bind fun _ => takes_request

/-- A controller of two paths that reads no options. -/
lemma follows_onPaths_noOptions {rest : Str → Str → Call Json} :
    Follows (Reading.onPaths perm os.host kind noOptions) (onPaths perm os kind rest) :=
  follows_onPaths (g := fun source destination _ => rest source destination) fun _ _ _ => rfl

end Gate

end Rules

/-- Two steps that are read are one. -/
lemma lift_bind {α β : Type} {x : Except Fault α} {f : α → Except Fault β} {g : β → Call Json} :
    (liftM x >>= fun a => liftM (f a) >>= g : Call Json) = liftM (x >>= f) >>= g := by
  cases x with
  | error fault => rfl
  | ok a => rfl

lemma lift_pair {α β : Type} {x : Except Fault α} {y : Except Fault β} {g : α → β → Call Json} :
    (liftM x >>= fun a => liftM y >>= g a : Call Json) =
      liftM (do return (← x, ← y)) >>= fun read => g read.1 read.2 := by
  cases x with
  | error fault => rfl
  | ok a =>
      cases y with
      | error fault => rfl
      | ok b => rfl

/-! ### The controllers -/

section Controllers

variable (perm : Permission) (os : Os) (store : Resources) (fileTree : Json)

/-- The controllers that are modelled to their end, with their readings. -/
def followed : List (Σ α : Type, Reading α × (Json → Call Json)) :=
  [⟨_, fs.inputs.createDirectory perm os.host, fs.controllers.createDirectory perm os⟩,
    ⟨_, fs.inputs.remove perm os.host, fs.controllers.remove perm os⟩,
    ⟨_, fs.inputs.readFile perm os.host, fs.controllers.readFile perm os⟩,
    ⟨_, fs.inputs.readBinaryFile perm os.host, fs.controllers.readBinaryFile perm os⟩,
    ⟨_, fs.inputs.writeFile perm os.host, fs.controllers.writeFile perm os⟩,
    ⟨_, fs.inputs.writeBinaryFile perm os.host, fs.controllers.writeBinaryFile perm os⟩,
    ⟨_, fs.inputs.appendFile perm os.host, fs.controllers.appendFile perm os⟩,
    ⟨_, fs.inputs.appendBinaryFile perm os.host, fs.controllers.appendBinaryFile perm os⟩,
    ⟨_, fs.inputs.openFile perm os.host, fs.controllers.openFile perm os⟩,
    ⟨_, fs.inputs.createWatcher perm os.host, fs.controllers.createWatcher perm os⟩,
    ⟨_, fs.inputs.removeWatcher, fs.controllers.removeWatcher⟩,
    ⟨_, fs.inputs.getWatchers, fs.controllers.getWatchers⟩,
    ⟨_, fs.inputs.updateOpenedFile, fs.controllers.updateOpenedFile os⟩,
    ⟨_, fs.inputs.getOpenedFileInfo, fs.controllers.getOpenedFileInfo⟩,
    ⟨_, fs.inputs.readDirectory perm os.host, fs.controllers.readDirectory perm os⟩,
    ⟨_, fs.inputs.copy perm os.host, fs.controllers.copy perm os⟩,
    ⟨_, fs.inputs.move perm os.host, fs.controllers.move perm os⟩,
    ⟨_, fs.inputs.getStats perm os.host, fs.controllers.getStats perm os⟩,
    ⟨_, fs.inputs.getPermissions perm os.host, fs.controllers.getPermissions perm os⟩,
    ⟨_, fs.inputs.setPermissions perm os.host, fs.controllers.setPermissions perm os⟩,
    ⟨_, fs.inputs.access perm os.host, fs.controllers.access perm os⟩,
    ⟨_, fs.inputs.chmod perm os.host, fs.controllers.chmod perm os⟩,
    ⟨_, fs.inputs.chown perm os.host, fs.controllers.chown perm os⟩,
    ⟨_, Neutralino.os.inputs.trashItem, Neutralino.os.trashItem os⟩,
    ⟨_, res.inputs.extractFile, res.extractFile os store⟩,
    ⟨_, res.inputs.extractDirectory store.mode fileTree, res.extractDirectory os store⟩,
    ⟨_, server.inputs.mount, server.mount os⟩, ⟨_, server.inputs.unmount, server.unmount⟩,
    ⟨_, server.inputs.getMounts, server.getMounts⟩]

end Controllers

section Results

variable {perm : Permission} {os : Os} {store : Resources} {fileTree : Json}

/-- **Every controller that is modelled to its end follows its reading**, with the
files of the archive read off the file tree. -/
theorem followed_follow
    (hfiles : ∀ path, res.inputs.parseFiles path [] fileTree = .ok (store.filesBelow path)) :
    ∀ entry ∈ followed perm os store fileTree, Follows entry.2.1 entry.2.2 := by
  simp only [followed, List.forall_mem_cons, List.not_mem_nil, IsEmpty.forall_iff, implies_true,
    and_true]
  refine ⟨follows_onPath_noOptions, follows_onPath_noOptions, follows_onPath_noOptions,
    follows_onPath_noOptions, follows_onPath_noOptions, follows_onPath_noOptions,
    follows_onPath_noOptions, follows_onPath_noOptions, follows_onPath_noOptions,
    follows_onPath_noOptions, ?removeWatcher, ?getWatchers, ?updateOpenedFile, ?getOpenedFileInfo,
    follows_onPath_noOptions, ?copy, ?move, follows_onPath_noOptions, follows_onPath_noOptions,
    ?setPermissions, ?access, ?chmod, ?chown, ?trashItem, ?extractFile, ?extractDirectory, ?mount,
    ?unmount, ?getMounts⟩
  case removeWatcher => exact follows_fields fun input => congrArg _ lift_bind
  case getWatchers => exact ⟨fun _ => fs.controllers.getWatchers .null, fun _ => rfl⟩
  case updateOpenedFile => exact follows_fields fun input => rfl
  case getOpenedFileInfo => exact follows_fields fun input => congrArg _ lift_bind
  case copy => exact follows_onPaths fun input source destination => rfl
  case move => exact follows_onPaths_noOptions
  case setPermissions => exact follows_onPath fun input path _ => lift_pair
  case access => exact follows_onPath fun input path _ => rfl
  case chmod => exact follows_onPath fun input path _ => lift_bind
  case chown =>
      exact follows_onPath fun input path _ =>
        (lift_bind.trans (congrArg _ (funext fun uid => lift_bind))).trans lift_pair
  case trashItem => exact follows_fields fun input => rfl
  case extractFile => exact follows_fields fun input => congrArg _ lift_pair
  case extractDirectory =>
      refine ⟨fun taken => if store.mode = .dir then
        res.copyResource os .NE_RS_DIREXTF taken.1 taken.2.1
        else do
          res.extractAll os store taken.1 taken.2.1 taken.2.2
          return succeeded .null, fun input => takes_requiring ?_⟩
      rw [Reading.unchecked, bind_assoc]
      refine takes_bind fun path => ?_
      rw [bind_assoc]
      refine takes_bind fun destination => ?_
      by_cases hdir : store.mode = .dir
      · rw [if_pos hdir, if_pos hdir]
        exact (if_pos hdir).symm
      · rw [if_neg hdir, if_neg hdir, hfiles]
        exact (if_neg hdir).symm
  case mount => exact follows_fields fun input => congrArg _ lift_pair
  case unmount => exact ⟨_, fun input => takes_bind fun path => takes_request⟩
  case getMounts => exact ⟨fun _ => server.getMounts .null, fun _ => rfl⟩

end Results

end Neutralino
