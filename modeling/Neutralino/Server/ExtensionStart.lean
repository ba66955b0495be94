import Neutralino.Api.PathConstants
import Neutralino.Config.GlobalVars
import Neutralino.Server.Handshake

/-!
The start of the extensions, `extensions::init`, while they already try to connect.

* `Action`, `Steps`, `initSteps`: what `init` does one after another, up to an
  exception.
* `State`, `Step`: the steps of the main thread, and the attempts of the processes
  that were told how to connect.
* `Accepted`, `Recorded`: an attempt is accepted; its id was recorded before.
* `attempts_accepted_iff`: **when every attempt is accepted**: a process is told how
  to connect before its id is recorded.
* `accepted_after_init`: what holds once `init` is done.
-/

namespace Neutralino.extensions

open JsonText Runs Regex neuserver

/-! ### Starting the extensions -/

/-- A token with its second part, the connect token. -/
structure Tokens where
  token : Str
  connectToken : Str
  generated : ∃ draw, token = helpers.generateToken draw ∧
    (helpers.splitTwo token '.')[1]? = some connectToken

/-- What the extensions are started with: the configuration, the tokens and the
platform. -/
structure Context extends Tokens where
  options : Json
  host : Host
  osName : Str

/-- The object that an extension is told, its members in the order of their keys. -/
def processInput (ctx : Context) (port : ℤ) (extensionId : Str) : Json :=
  .obj [("nlConnectToken", .str ctx.connectToken), ("nlExtensionId", .str extensionId),
    ("nlPort", .str (decimal port)), ("nlToken", .str ctx.token)]

/-- `__buildExtensionProcessInput`. -/
def buildExtensionProcessInput (ctx : Context) (extensionId : Str) : Except Fault Json := do
  let port ← (← settings.getOptionForCurrentMode ctx.options "port").getInt
  return processInput ctx port extensionId

/-- What other threads and processes see of `init`. -/
inductive Action where
  | spawnProcess (command : Str)
  | stdIn (input : Str)
  | stdInEnd
  | loadOne (extensionId : Str)

/-- Actions one after another, and how they end. -/
structure Steps where
  actions : List Action := []
  ended : Except Fault Unit := .ok ()

namespace Steps

/-- An action before others. -/
def perform (a : Action) (steps : Steps) : Steps := { steps with actions := a :: steps.actions }

/-- What follows a value that is computed. -/
def reading {α : Type} (x : Except Fault α) (next : α → Steps) : Steps :=
  match x with
  | .ok a => next a
  | .error fault => { ended := .error fault }

/-- Others after these, if these return. -/
def andThen (first second : Steps) : Steps :=
  match first.ended with
  | .ok _ => { second with actions := first.actions ++ second.actions }
  | .error _ => first

end Steps

open Steps

/-- `extension[commandKeyForOs]`, or else `extension["command"]`. -/
def commandOf (extension : Json) (commandKeyForOs : Str) : Except Fault Str := do
  if ← helpers.hasField extension commandKeyForOs then
    (← extension.indexConst commandKeyForOs).getString
  else (← extension.indexConst "command").getString

/-- The process of an extension, if it has a command. -/
def startProcess (ctx : Context) (extension : Json) (extensionId : Str) : Steps :=
  let commandKeyForOs := "command".toList ++ ctx.osName
  let hasCommand : Except Fault Bool := do
    return (← helpers.hasField extension "command") || (← helpers.hasField extension commandKeyForOs)
  reading hasCommand fun hasCommand =>
    if hasCommand then
      reading (commandOf extension commandKeyForOs) fun command =>
        perform (.spawnProcess (fs.applyPathConstants ctx.host command)) <|
          reading (buildExtensionProcessInput ctx extensionId) fun input =>
            perform (.stdIn (helpers.jsonToString input.value)) (perform .stdInEnd {})
    else {}

/-- One round of the loop of `init`. -/
def startExtension (ctx : Context) (extension : Json) : Steps :=
  reading (helpers.hasField extension "id") fun hasId =>
    if !hasId then {}
    else
      reading (extension.indexConst "id" >>= Json.getString) fun extensionId =>
        (startProcess ctx extension extensionId).andThen (perform (.loadOne extensionId) {})

/-- `get<vector<json>>`. -/
def elements : Json → Except Fault (List Json)
  | .arr xs => .ok xs
  | _ => .error .typeError

/-- `init`. -/
def initSteps (ctx : Context) : Steps :=
  reading (settings.getOptionForCurrentMode ctx.options "extensions") fun jExtensions =>
    if jExtensions.isNull then {}
    else
      reading (elements jExtensions) fun extensions =>
        extensions.foldr (fun extension rest => (startExtension ctx extension).andThen rest) {}

/-! ### Attempts to connect -/

/-- An attempt of a process: what it was told, the id and the connect token that it
read there, and the request that it makes. -/
structure Attempt where
  input : Str
  extensionId : Str
  connectToken : Str
  url : Str
  host : Str

/-- A process reads an id and a connect token in what it was told. -/
def Tells (input extensionId connectToken : Str) : Prop :=
  ∃ value : Value ℤ, Parses input value ∧ value.member "nlExtensionId" = some (.str extensionId) ∧
    value.member "nlConnectToken" = some (.str connectToken)

/-- A request with the id and the token, as the sample extension makes it; the
parameters may also stand in the other order. -/
structure Attempt.Proper (a : Attempt) : Prop where
  told : Tells a.input a.extensionId a.connectToken
  url : a.url = pairUrl "/" "extensionId" a.extensionId "connectToken" a.connectToken ∨
    a.url = pairUrl "/" "connectToken" a.connectToken "extensionId" a.extensionId
  host : a.host = "localhost".toList ∨ a.host = "127.0.0.1".toList

/-- What is left of `init`, the recorded ids, and what processes were told. -/
structure State where
  pending : List Action
  loadedExtensions : List Str
  inputs : List Str := []

/-- The state after an action of `init`. -/
def State.after (s : State) (rest : List Action) : Action → State
  | .stdIn input => { s with pending := rest, inputs := input :: s.inputs }
  | .loadOne extensionId =>
      { s with pending := rest, loadedExtensions := s.loadedExtensions ++ [extensionId] }
  | _ => { s with pending := rest }

/-- A step of the main thread, or an attempt to connect. -/
inductive Event where
  | init (action : Action)
  | attempt (a : Attempt)

/-- The steps: the next action of `init`, or an attempt with what was told before. -/
inductive Step : State → Event → State → Prop
  | init {s : State} {action : Action} {rest : List Action} :
      s.pending = action :: rest → Step s (.init action) (s.after rest action)
  | attempt {s : State} {a : Attempt} :
      a.input ∈ s.inputs → a.Proper → Step s (.attempt a) s

/-- The state before `init`; an id may be recorded by an argument of the program. -/
def start (ctx : Context) (loadedExtensions : List Str) : State where
  pending := (initSteps ctx).actions
  loadedExtensions := loadedExtensions

/-- An attempt is accepted. -/
def Accepted (ctx : Context) (mode : settings.AppMode) (s : State) : Event → Prop
  | .attempt a => handleValidate ⟨mode, ctx.connectToken, s.loadedExtensions⟩ a.url a.host = true
  | .init _ => True

/-- A URL is read with a connect token and an id. -/
structure ReadsWith (url connectToken extensionId : Str) : Prop where
  clean : ∀ c ∈ url, isLineTerminator c = false
  token : FirstValue "connectToken" url connectToken
  id : ReadAs "extensionId" url extensionId

/-- The id of an attempt was recorded; where it is none of the pattern, what is
read for it in the URL was. -/
def Recorded (ctx : Context) (s : State) : Event → Prop
  | .attempt a =>
      if extensionIdPattern.test a.extensionId then a.extensionId ∈ s.loadedExtensions
      else ∃ extensionId ∈ s.loadedExtensions, ReadsWith a.url ctx.connectToken extensionId
  | .init _ => True

/-! ### What processes are told -/

/-- What is written for an extension. -/
def InputOf (ctx : Context) (extensionId input : Str) : Prop :=
  ∃ j, buildExtensionProcessInput ctx extensionId = .ok j ∧ input = helpers.jsonToString j.value

section Inputs

variable {ctx : Context} {extensionId input : Str}

lemma isConnectToken (ctx : Context) : IsConnectToken ctx.connectToken := by
  obtain ⟨draw, htoken, hsecond⟩ := ctx.generated
  exact ⟨draw, htoken ▸ hsecond⟩

/-- A process is told its id and the connect token. -/
lemma InputOf.tells_iff (h : InputOf ctx extensionId input) {id connectToken : Str} :
    Tells input id connectToken ↔ id = extensionId ∧ connectToken = ctx.connectToken := by
  obtain ⟨j, hj, rfl⟩ := h
  obtain ⟨jPort, -, hj⟩ := bind_eq_ok.mp hj
  obtain ⟨port, -, hj⟩ := bind_eq_ok.mp hj
  obtain rfl : processInput ctx port extensionId = j := Except.ok.inj hj
  have hparses : Parses (helpers.jsonToString (processInput ctx port extensionId).value)
      (processInput ctx port extensionId).value := parses_dump fun n _ => readBack_int n
  constructor
  · rintro ⟨value, hvalue, hid, htoken⟩
    obtain rfl := parses_unique hvalue hparses
    exact ⟨(Value.str.inj (Option.some.inj hid)).symm, (Value.str.inj (Option.some.inj htoken)).symm⟩
  · rintro ⟨hid, htoken⟩
    rw [hid, htoken]
    exact ⟨_, hparses, rfl, rfl⟩

/-- In what is left of `init`, every input of a process is followed by the
recording of its id. -/
def Followed (ctx : Context) : List Action → Prop
  | [] => True
  | .stdIn input :: rest =>
      (∃ extensionId, InputOf ctx extensionId input ∧ .loadOne extensionId ∈ rest) ∧ Followed ctx rest
  | _ :: rest => Followed ctx rest

lemma Followed.append {actions actions' : List Action} (h : Followed ctx actions)
    (h' : Followed ctx actions') : Followed ctx (actions ++ actions') := by
  induction actions with
  | nil => exact h'
  | cons action actions ih =>
      cases action with
      | stdIn input =>
          obtain ⟨⟨extensionId, hinput, hmem⟩, hrest⟩ := h
          exact ⟨⟨extensionId, hinput, List.mem_append_left _ hmem⟩, ih hrest⟩
      | spawnProcess _ => exact ih h
      | stdInEnd => exact ih h
      | loadOne _ => exact ih h

lemma followed_reading {α : Type} {x : Except Fault α} {next : α → Steps}
    (h : ∀ a, x = .ok a → Followed ctx (next a).actions) :
    Followed ctx (reading x next).actions := by
  cases x with
  | error fault => trivial
  | ok a => exact h a rfl

lemma followed_andThen {first second : Steps} (h : Followed ctx first.actions)
    (h' : Followed ctx second.actions) : Followed ctx (first.andThen second).actions := by
  rw [andThen]
  split
  · exact h.append h'
  · exact h

/-- What `init` does for the process of an extension, before it records the id. -/
lemma followed_startProcess (ctx : Context) (extension : Json) (extensionId : Str) :
    Followed ctx
      ((startProcess ctx extension extensionId).andThen (perform (.loadOne extensionId) {})).actions := by
  rw [startProcess]
  generalize (do
    return (← helpers.hasField extension "command") ||
      (← helpers.hasField extension ("command".toList ++ ctx.osName)) : Except Fault Bool) = hasCommand
  rcases hasCommand with fault | hasCommand
  · trivial
  · cases hasCommand with
    | false => trivial
    | true =>
        simp only [reading, if_true]
        cases commandOf extension ("command".toList ++ ctx.osName) with
        | error fault => trivial
        | ok command =>
            cases hinput : buildExtensionProcessInput ctx extensionId with
            | error fault => trivial
            | ok j => exact ⟨⟨extensionId, ⟨j, hinput, rfl⟩, by simp [perform]⟩, trivial⟩

/-- What `init` does. -/
lemma followed_initSteps (ctx : Context) : Followed ctx (initSteps ctx).actions := by
  refine followed_reading fun jExtensions _ => ?_
  split_ifs
  · trivial
  · refine followed_reading fun extensions helements => ?_
    clear helements
    induction extensions with
    | nil => trivial
    | cons extension extensions ih =>
        refine followed_andThen (followed_reading fun hasId _ => ?_) ih
        split_ifs
        · trivial
        · exact followed_reading fun extensionId _ => followed_startProcess ctx extension extensionId

end Inputs

/-! ### Attempts along a run -/

section Attempts

variable {ctx : Context} {mode : settings.AppMode} {a : Attempt} {loaded : List Str}

/-- A request with an id is one of an extension. -/
lemma Attempt.Proper.isInfix (h : a.Proper) : "extensionId=".toList <:+: a.url := by
  rcases h.url with hurl | hurl
  · exact ⟨"/?".toList, a.extensionId ++ '&' :: ("connectToken".toList ++ '=' :: a.connectToken), by
      rw [hurl, pairUrl]
      simp⟩
  · exact ⟨"/?".toList ++ ("connectToken".toList ++ '=' :: (a.connectToken ++ ['&'])), a.extensionId, by
      rw [hurl, pairUrl]
      simp⟩

/-- An attempt is accepted exactly if what is read for its id is recorded. -/
lemma accepted_iff (h : a.Proper) {connectToken : Str} (htoken : IsConnectToken connectToken) :
    handleValidate ⟨mode, connectToken, loaded⟩ a.url a.host = true ↔
      ∃ extensionId ∈ loaded, ReadsWith a.url connectToken extensionId := by
  rw [handleValidate_iff]
  constructor
  · rintro ⟨-, hfound, hread, hext⟩
    have hclean := (hasConnectToken_iff.mp hfound).2
    exact ⟨_, hext (isExtensionEndpoint_iff.mpr ⟨h.isInfix, hclean⟩), hclean,
      (firstValue_token_iff htoken).mpr hread, readAs_iff.mpr rfl⟩
  · rintro ⟨extensionId, hmem, hclean, hread, hid⟩
    refine ⟨h.host.imp_right .inl, hasConnectToken_iff.mpr ⟨hread.isInfix, hclean⟩,
      (firstValue_token_iff htoken).mp hread, fun _ => ?_⟩
    rw [getExtensionIdFromUrl, readAs_iff.mp hid]
    exact hmem

/-- With an id of the pattern, the id itself is read. -/
lemma readsWith_iff (h : a.Proper) (htoken : a.connectToken = ctx.connectToken)
    (hid : extensionIdPattern.test a.extensionId = true) {extensionId : Str} :
    ReadsWith a.url ctx.connectToken extensionId ↔ extensionId = a.extensionId := by
  have hurl := h.url
  rw [htoken] at hurl
  have hpath : ∀ c ∈ "/".toList, c ≠ '?' ∧ c ≠ '=' ∧ isLineTerminator c = false :=
    forall_mem_of_all (by decide)
  obtain ⟨hclean, htoken', hid', -⟩ := firstValues_of_pair hpath (isConnectToken ctx) hid hurl
  have hread : ReadAs "extensionId" a.url a.extensionId := .inl hid'
  constructor
  · intro hreads
    calc extensionId = getParamValueFromUrl "extensionId" a.url := (readAs_iff.mp hreads.id).symm
      _ = a.extensionId := readAs_iff.mp hread
  · rintro rfl
    exact ⟨hclean, htoken', hread⟩

/-- What processes were told are inputs of `init`, and their ids are recorded or
are still to be. -/
structure Told (ctx : Context) (s : State) : Prop where
  input : ∀ input ∈ s.inputs, ∃ extensionId, InputOf ctx extensionId input ∧
    (extensionId ∈ s.loadedExtensions ∨ .loadOne extensionId ∈ s.pending)
  pending : Followed ctx s.pending

lemma told_start (ctx : Context) (loaded : List Str) : Told ctx (start ctx loaded) :=
  ⟨by simp [start], followed_initSteps ctx⟩

/-- Every step keeps it. -/
lemma Told.step {s t : State} {event : Event} (h : Told ctx s) (hstep : Step s event t) :
    Told ctx t := by
  cases hstep with
  | attempt _ _ => exact h
  | @init action rest hpending =>
      have hfollowed := h.pending
      have hinput := h.input
      rw [hpending] at hfollowed hinput
      cases action with
      | stdIn input =>
          obtain ⟨⟨extensionId, hof, hmem⟩, hrest⟩ := hfollowed
          refine ⟨List.forall_mem_cons.mpr ⟨⟨extensionId, hof, .inr hmem⟩, fun input' hinput' => ?_⟩,
            hrest⟩
          obtain ⟨extensionId', hof', hrec⟩ := hinput input' hinput'
          exact ⟨extensionId', hof', hrec.imp_right fun hmem' => List.mem_of_ne_of_mem (by simp) hmem'⟩
      | loadOne id =>
          refine ⟨fun input' hinput' => ?_, hfollowed⟩
          obtain ⟨extensionId', hof', hrec⟩ := hinput input' hinput'
          refine ⟨extensionId', hof', ?_⟩
          show extensionId' ∈ s.loadedExtensions ++ [id] ∨ _
          rcases hrec with hrec | hrec
          · exact .inl (List.mem_append_left _ hrec)
          · rcases List.mem_cons.mp hrec with heq | hrec
            · obtain rfl := Action.loadOne.inj heq
              exact .inl (by simp)
            · exact .inr hrec
      | spawnProcess _ =>
          refine ⟨fun input' hinput' => ?_, hfollowed⟩
          obtain ⟨extensionId', hof', hrec⟩ := hinput input' hinput'
          exact ⟨extensionId', hof', hrec.imp_right fun hmem' => List.mem_of_ne_of_mem (by simp) hmem'⟩
      | stdInEnd =>
          refine ⟨fun input' hinput' => ?_, hfollowed⟩
          obtain ⟨extensionId', hof', hrec⟩ := hinput input' hinput'
          exact ⟨extensionId', hof', hrec.imp_right fun hmem' => List.mem_of_ne_of_mem (by simp) hmem'⟩

/-- What an attempt is made with was told to its process. -/
lemma Told.attempt {s : State} (h : Told ctx s) (hinput : a.input ∈ s.inputs) (hproper : a.Proper) :
    a.connectToken = ctx.connectToken ∧
      (a.extensionId ∈ s.loadedExtensions ∨ .loadOne a.extensionId ∈ s.pending) := by
  obtain ⟨extensionId, hof, hrec⟩ := h.input a.input hinput
  obtain ⟨hid, htoken⟩ := hof.tells_iff.mp hproper.told
  exact ⟨htoken, hid ▸ hrec⟩

/-- One attempt. -/
lemma accepted_iff_recorded {s t : State} {event : Event} (h : Told ctx s) (hstep : Step s event t) :
    Accepted ctx mode s event ↔ Recorded ctx s event := by
  cases hstep with
  | init _ => exact Iff.rfl
  | @attempt a hinput hproper =>
      rw [Accepted, accepted_iff hproper (isConnectToken ctx), Recorded]
      split_ifs with hid
      · simp only [readsWith_iff hproper (h.attempt hinput hproper).1 hid, exists_eq_right]
      · exact Iff.rfl

/-- **When every attempt to connect is accepted**: in each state in which one is
made, its id was recorded before. -/
theorem attempts_accepted_iff (ctx : Context) (mode : settings.AppMode) (loaded : List Str)
    {trace : List (Event × State)} (h : Run Step (start ctx loaded) trace) :
    Along (Accepted ctx mode) (start ctx loaded) trace ↔
      Along (Recorded ctx) (start ctx loaded) trace :=
  Run.along_iff (P := Accepted ctx mode) (I := Told ctx) (fun _ _ _ ht hst => ht.step hst)
    (fun _ _ _ ht hst => accepted_iff_recorded ht hst) h (told_start ctx loaded)

/-- **Once `init` is done**, every attempt with an id of the pattern is accepted. -/
theorem accepted_after_init {trace : List (Event × State)} (h : Run Step (start ctx loaded) trace)
    (hdone : (endOf (start ctx loaded) trace).pending = []) {t : State}
    (hid : extensionIdPattern.test a.extensionId = true)
    (hstep : Step (endOf (start ctx loaded) trace) (.attempt a) t) :
    Accepted ctx mode (endOf (start ctx loaded) trace) (.attempt a) := by
  have ht : Told ctx (endOf (start ctx loaded) trace) :=
    h.invariant_endOf (fun _ _ _ ht hst => ht.step hst) (told_start ctx loaded)
  rw [accepted_iff_recorded ht hstep, Recorded, if_pos hid]
  cases hstep with
  | attempt hinput hproper =>
      rcases (ht.attempt hinput hproper).2 with hmem | hmem
      · exact hmem
      · rw [hdone] at hmem
        cases hmem

end Attempts

/-! ### One extension -/

/-- The configuration of an extension. -/
def sampleExtension : Json := .obj [("command".toList, .str "run"), ("id".toList, .str "ext")]

/-- An application with this extension. -/
def sampleContext : Context where
  token := helpers.generateToken fun _ => ⟨0, by decide⟩
  connectToken := drawn (fun _ => ⟨0, by decide⟩) (47 :: List.range' 48 48)
  generated := ⟨_, rfl, by rw [splitTwo_generateToken]; rfl⟩
  options := .obj [("extensions".toList, .arr [sampleExtension]), ("port".toList, .num 5000)]
  host := emptyWorkDir
  osName := "Linux"

/-- What it is told. -/
def inputFor (ctx : Context) : Str := helpers.jsonToString (processInput ctx 5000 "ext").value

/-- The attempt that it makes with this. -/
def attemptFor (ctx : Context) : Attempt where
  input := inputFor ctx
  extensionId := "ext"
  connectToken := ctx.connectToken
  url := pairUrl "/" "extensionId" "ext" "connectToken" ctx.connectToken
  host := "localhost"

lemma attemptFor_proper {ctx : Context}
    (hinput : buildExtensionProcessInput ctx "ext" = .ok (processInput ctx 5000 "ext")) :
    (attemptFor ctx).Proper where
  told := by
    have hof : InputOf ctx "ext" (inputFor ctx) := ⟨_, hinput, rfl⟩
    exact hof.tells_iff.mpr ⟨rfl, rfl⟩
  url := .inl rfl
  host := .inl rfl

lemma buildExtensionProcessInput_sample : buildExtensionProcessInput sampleContext "ext" =
    .ok (processInput sampleContext 5000 "ext") := rfl

/-- What `init` does for the extension. -/
lemma initSteps_sample : (initSteps sampleContext).actions =
    [.spawnProcess (fs.applyPathConstants sampleContext.host "run"), .stdIn (inputFor sampleContext),
      .stdInEnd, .loadOne "ext"] := by
  have hextensions : settings.getOptionForCurrentMode sampleContext.options "extensions" =
      .ok (.arr [sampleExtension]) := rfl
  have hid : helpers.hasField sampleExtension "id" = .ok true := rfl
  have hextensionId : (sampleExtension.indexConst "id" >>= Json.getString) = .ok "ext".toList := rfl
  have hcommand : helpers.hasField sampleExtension "command" = .ok true := rfl
  have hcommandForOs : helpers.hasField sampleExtension ("command".toList ++ sampleContext.osName) =
      .ok false := rfl
  have hcommandOf : commandOf sampleExtension ("command".toList ++ sampleContext.osName) =
      .ok "run".toList := rfl
  have hinput := buildExtensionProcessInput_sample
  simp only [initSteps, hextensions, reading, Json.isNull, Bool.false_eq_true, if_false, elements,
    List.foldr_cons, List.foldr_nil, startExtension, hid, Bool.not_true, hextensionId, startProcess,
    hcommand, hcommandForOs, hcommandOf, ok_bind, Bool.true_or, pure, Except.pure, if_true, hinput]
  rfl

/-- A number of actions of `init`. -/
def initTrace : ℕ → State → List (Event × State)
  | 0, _ => []
  | n + 1, s =>
      match s.pending with
      | [] => []
      | action :: rest => (.init action, s.after rest action) :: initTrace n (s.after rest action)

lemma run_initTrace (n : ℕ) (s : State) : Run Step s (initTrace n s) := by
  induction n generalizing s with
  | zero => exact .nil s
  | succ n ih =>
      rw [initTrace]
      split
      · exact .nil s
      · exact .cons (.init ‹_›) (ih _)

lemma along_recorded_initTrace (ctx : Context) (n : ℕ) (s : State) :
    Along (Recorded ctx) s (initTrace n s) := by
  induction n generalizing s with
  | zero => trivial
  | succ n ih =>
      rw [initTrace]
      split
      · trivial
      · exact ⟨trivial, ih _⟩

/-- The state of the application after a number of actions. -/
def sampleState (n : ℕ) : State :=
  endOf (start sampleContext []) (initTrace n (start sampleContext []))

/-- An attempt after a number of actions. -/
def sampleTrace (n : ℕ) : List (Event × State) :=
  initTrace n (start sampleContext []) ++ [(.attempt (attemptFor sampleContext), sampleState n)]

lemma start_sample : start sampleContext [] =
    { pending := [.spawnProcess (fs.applyPathConstants sampleContext.host "run"),
        .stdIn (inputFor sampleContext), .stdInEnd, .loadOne "ext"]
      loadedExtensions := [] } := by
  rw [start, initSteps_sample]

/-- The process was told how to connect. -/
lemma sampleState_two : sampleState 2 =
    { pending := [.stdInEnd, .loadOne "ext"]
      loadedExtensions := []
      inputs := [inputFor sampleContext] } := by
  rw [sampleState, start_sample]
  rfl

/-- `init` is done. -/
lemma sampleState_four : sampleState 4 =
    { pending := [], loadedExtensions := ["ext"], inputs := [inputFor sampleContext] } := by
  rw [sampleState, start_sample]
  rfl

lemma run_sampleTrace {n : ℕ} (h : inputFor sampleContext ∈ (sampleState n).inputs) :
    Run Step (start sampleContext []) (sampleTrace n) := by
  refine (run_initTrace n _).append (.cons ?_ (.nil _))
  exact .attempt h (attemptFor_proper buildExtensionProcessInput_sample)

/-- An attempt after `init`. -/
theorem late_attempt_accepted :
    Along (Accepted sampleContext .window) (start sampleContext []) (sampleTrace 4) := by
  have hinput : inputFor sampleContext ∈ (sampleState 4).inputs := by
    rw [sampleState_four]
    exact List.mem_singleton_self _
  refine (attempts_accepted_iff sampleContext .window [] (run_sampleTrace hinput)).mpr ?_
  refine (along_append _ _ _).mpr ⟨along_recorded_initTrace _ _ _, ?_, trivial⟩
  have hid : extensionIdPattern.test (attemptFor sampleContext).extensionId = true := by decide
  show Recorded sampleContext (sampleState 4) (.attempt (attemptFor sampleContext))
  rw [Recorded, if_pos hid, sampleState_four]
  exact List.mem_singleton_self _

/-- An attempt as soon as the process was told how to connect. -/
theorem early_attempt_refused : ¬ ∀ (ctx : Context) (mode : settings.AppMode) (loaded : List Str)
    (trace : List (Event × State)), Run Step (start ctx loaded) trace →
      Along (Accepted ctx mode) (start ctx loaded) trace := by
  intro h
  have hinput : inputFor sampleContext ∈ (sampleState 2).inputs := by
    rw [sampleState_two]
    exact List.mem_singleton_self _
  have haccepted := ((along_append _ _ _).mp
    (h sampleContext .window [] _ (run_sampleTrace hinput))).2.1
  have hid : extensionIdPattern.test (attemptFor sampleContext).extensionId = true := by decide
  have htold : Told sampleContext (sampleState 2) :=
    (run_initTrace 2 _).invariant_endOf (fun _ _ _ ht hst => ht.step hst) (told_start _ _)
  have hstep : Step (sampleState 2) (.attempt (attemptFor sampleContext)) (sampleState 2) :=
    .attempt hinput (attemptFor_proper buildExtensionProcessInput_sample)
  have hrecorded := (accepted_iff_recorded htold hstep).mp haccepted
  rw [Recorded, if_pos hid, sampleState_two] at hrecorded
  cases hrecorded

end Neutralino.extensions
