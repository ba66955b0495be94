import Neutralino.Auth.Registration
import Neutralino.Base.Splitting
import Neutralino.Config.CommandLine
import Neutralino.Server.Handshake
import Neutralino.Server.NativeCall

/-!
Key and value texts: `splitTwo` and what its callers make of it.

* `lines`: what becomes of the text after the first delimiter, which is read on
  line by line.
* `os.getEnvs`: the environment as an object.
* `getEnvs_eq_ok_iff`, `ReportsAll`: when it returns, and what a report is.
* `splitTwo_callers`: **what splitting keeps and where its result is indexed past
  the end**, caller by caller.
-/

namespace Neutralino

/-! ### The text after the delimiter -/

namespace helpers

/-- The lines of a text, without an empty last one. -/
def lines (s : Str) : List Str := split s '\n' none

/-- **The delimiter is switched**: the text after the first delimiter is split
into its lines. -/
lemma splitTwo_append_lines {before : Str} {delim : Char} (hdelim : delim ∉ before) (after : Str) :
    splitTwo (before ++ delim :: after) delim = before :: lines after := by
  have hpast : ∀ n, 1 ≤ n → some 2 ≠ some (n + 2) := fun n hn h => by
    have := Option.some.inj h
    omega
  rw [splitTwo, split, splitLoop_none_append hdelim, if_pos rfl, splitLoop_of_past hpast 0]
  rfl

lemma newline_not_mem_of_mem_lines {s line : Str} (h : line ∈ lines s) : '\n' ∉ line :=
  delim_not_mem_of_mem_split h

@[simp] lemma lines_nil : lines [] = [] := rfl

/-- A text is its only line where it has characters and no newline. -/
lemma lines_eq_singleton_iff {s : Str} : lines s = [s] ↔ s ≠ [] ∧ '\n' ∉ s := by
  constructor
  · intro h
    refine ⟨?_, newline_not_mem_of_mem_lines (h ▸ List.mem_singleton_self s)⟩
    rintro rfl
    cases h
  · rintro ⟨hne, hline⟩
    exact split_of_not_mem hne hline

lemma lines_eq_nil_iff {s : Str} : lines s = [] ↔ s = [] := by
  constructor
  · exact not_imp_not.mp split_ne_nil
  · rintro rfl
    rfl

/-- A text begins with its first line. -/
lemma lines_append {s : Str} (h : '\n' ∉ s) (rest : Str) :
    lines (s ++ '\n' :: rest) = s :: lines rest :=
  split_append h rest

/-- **What `splitTwo` keeps**: the rest after the first delimiter, where it has
characters and is one line. -/
lemma splitTwo_eq_pair_iff {before : Str} {delim : Char} (hdelim : delim ∉ before) (after : Str) :
    splitTwo (before ++ delim :: after) delim = [before, after] ↔ after ≠ [] ∧ '\n' ∉ after := by
  rw [splitTwo_append_lines hdelim, List.cons.injEq, and_iff_right rfl, lines_eq_singleton_iff]

/-- The text before the first delimiter. -/
def keyText (s : Str) (delim : Char) : Str := s.takeWhile (· ≠ delim)

/-- The text after the first delimiter, empty where there is none. -/
def valueText (s : Str) (delim : Char) : Str := (s.dropWhile (· ≠ delim)).tail

/-- A text is its key, or it is its key and its value around the delimiter. -/
lemma eq_keyText_or (s : Str) (delim : Char) :
    delim ∉ s ∧ keyText s delim = s ∧ valueText s delim = [] ∨
      delim ∉ keyText s delim ∧ s = keyText s delim ++ delim :: valueText s delim := by
  by_cases hmem : delim ∈ s
  · have hdrop : s.dropWhile (· ≠ delim) ≠ [] := by
      intro hnil
      simpa using List.dropWhile_eq_nil_iff.mp hnil delim hmem
    refine .inr ⟨fun h => by simpa using List.mem_takeWhile_imp h, ?_⟩
    have hhead : (s.dropWhile (· ≠ delim)).head hdrop = delim := by
      simpa using List.head_dropWhile_not (· ≠ delim) hdrop
    have hcons : s.dropWhile (· ≠ delim) = delim :: valueText s delim := by
      rw [← List.cons_head_tail hdrop, hhead]
      rfl
    rw [← hcons]
    exact List.takeWhile_append_dropWhile.symm
  · have hall : ∀ c ∈ s, decide (c ≠ delim) = true := fun c hc => by
      simpa using fun h : c = delim => hmem (h ▸ hc)
    refine .inl ⟨hmem, List.takeWhile_eq_self_iff.mpr hall, ?_⟩
    rw [valueText, List.dropWhile_eq_nil_iff.mpr hall]
    rfl

lemma keyText_append {key : Str} {delim : Char} (hkey : delim ∉ key) (value : Str) :
    keyText (key ++ delim :: value) delim = key := by
  have hall : ∀ c ∈ key, decide (c ≠ delim) = true := fun c hc => by
    simpa using fun h : c = delim => hkey (h ▸ hc)
  rw [keyText, List.takeWhile_append_of_pos hall]
  simp

lemma valueText_append {key : Str} {delim : Char} (hkey : delim ∉ key) (value : Str) :
    valueText (key ++ delim :: value) delim = value := by
  have hall : ∀ c ∈ key, decide (c ≠ delim) = true := fun c hc => by
    simpa using fun h : c = delim => hkey (h ▸ hc)
  rw [valueText, List.dropWhile_append_of_pos hall]
  simp

end helpers

/-! ### The environment -/

namespace os

open helpers

/-- One entry of the environment in `getEnvs`; the tokens of the empty text are
indexed past their end. -/
def getEnv (returnValue : Json) (entry : Str) : Except Fault Json :=
  match splitTwo entry '=' with
  | [] => .error .undefinedBehaviour
  | [key, value] => .ok (returnValue.set key (.str value))
  | key :: _ => .ok (returnValue.set key (.str []))

/-- `getEnvs`, for the entries of `environ`; without an entry there is no
`returnValue`. -/
def getEnvs (envs : List Str) : Except Fault Json := do
  let returnValue ← envs.foldlM getEnv .null
  let output := if returnValue.isNull then Json.null else Json.null.set "returnValue" returnValue
  return output.set "success" (.bool true)

/-- The value that `getEnvs` takes from an entry. -/
def readValue (entry : Str) : Str :=
  match splitTwo entry '=' with
  | [_, value] => value
  | _ => []

lemma getEnv_of_ne_nil (returnValue : Json) {entry : Str} (h : entry ≠ []) :
    getEnv returnValue entry = .ok (returnValue.set (keyText entry '=') (.str (readValue entry))) := by
  have hhead := head_splitTwo h '='
  rw [getEnv, readValue]
  cases hs : splitTwo entry '=' with
  | nil => exact absurd (splitTwo_eq_nil_iff.mp hs) h
  | cons key rest =>
      rw [hs] at hhead
      obtain rfl : key = keyText entry '=' := Option.some.inj hhead
      match rest with
      | [] => rfl
      | [value] => rfl
      | value :: line :: rest => rfl

lemma readValue_append {key : Str} (hkey : '=' ∉ key) (value : Str) :
    readValue (key ++ '=' :: value) = (match lines value with | [line] => line | _ => []) := by
  rw [readValue, splitTwo_append_lines hkey]
  match lines value with
  | [] => rfl
  | [line] => rfl
  | line :: line' :: rest => rfl

lemma readValue_of_not_mem {entry : Str} (h : '=' ∉ entry) : readValue entry = [] := by
  by_cases hne : entry = []
  · rw [hne]
    rfl
  · rw [readValue, splitTwo_of_not_mem hne h]

/-- What is read is never more than a line. -/
lemma newline_not_mem_readValue (entry : Str) : '\n' ∉ readValue entry := by
  rcases eq_keyText_or entry '=' with ⟨hnot, -, -⟩ | ⟨hkey, heq⟩
  · rw [readValue_of_not_mem hnot]
    exact List.not_mem_nil
  · rw [heq, readValue_append hkey]
    match hlines : lines (valueText entry '=') with
    | [] => exact List.not_mem_nil
    | [line] => exact newline_not_mem_of_mem_lines (hlines ▸ List.mem_singleton_self line)
    | line :: line' :: rest => exact List.not_mem_nil

/-- A value of one line is read, also the empty one. -/
lemma readValue_eq {entry : Str} (h : '\n' ∉ valueText entry '=') :
    readValue entry = valueText entry '=' := by
  rcases eq_keyText_or entry '=' with ⟨hnot, -, hnil⟩ | ⟨hkey, heq⟩
  · rw [readValue_of_not_mem hnot, hnil]
  · conv_lhs => rw [heq]
    rw [readValue_append hkey]
    by_cases hnil : valueText entry '=' = []
    · rw [hnil]
      rfl
    · rw [lines_eq_singleton_iff.mpr ⟨hnil, h⟩]

/-- A member that is written is read back, and the others stay. -/
lemma index_set {j value value' : Json} {key key' : Str} (h : j.index key' = .ok value') :
    (j.set key value).index key' = .ok (if key' = key then value else value') := by
  cases j with
  | null =>
      obtain rfl := Except.ok.inj h
      show Json.index (.obj [(key, value)]) key' = _
      rw [Json.index, Json.lookup, List.find?_cons]
      by_cases hkey : key = key'
      · simp [hkey]
      · simp [hkey, Ne.symm hkey]
  | obj members =>
      obtain rfl := Except.ok.inj h
      rw [Json.set, Json.index, Json.lookup]
      split_ifs with hkey
      · rw [hkey, find?_insertMember_self]
        rfl
      · rw [find?_insertMember_of_ne hkey]
        rfl
  | _ => cases h

/-- The entry that the report on a key is made from: the last one with the key. -/
def lastEntry (envs : List Str) (key : Str) : Option Str :=
  envs.reverse.find? fun entry => keyText entry '=' = key

lemma mem_of_lastEntry {envs : List Str} {key entry : Str} (h : lastEntry envs key = some entry) :
    entry ∈ envs := List.mem_reverse.mp (List.mem_of_find?_eq_some h)

lemma lastEntry_concat (envs : List Str) (entry key : Str) :
    lastEntry (envs ++ [entry]) key =
      if keyText entry '=' = key then some entry else lastEntry envs key := by
  rw [lastEntry, List.reverse_append, List.reverse_singleton, List.singleton_append,
    List.find?_cons]
  split_ifs with hkey <;> simp [hkey, lastEntry]

/-- **What the loop has built**: under each key what was read from its last entry. -/
lemma foldlM_getEnv {envs : List Str} (h : [] ∉ envs) :
    ∃ returnValue, envs.foldlM getEnv .null = .ok returnValue ∧
      (returnValue.isNull = true ↔ envs = []) ∧
      ∀ key, returnValue.index key =
        .ok (((lastEntry envs key).map fun entry => Json.str (readValue entry)).getD .null) := by
  induction envs using List.reverseRecOn with
  | nil => exact ⟨.null, rfl, by simp [Json.isNull], fun key => rfl⟩
  | append_singleton envs entry ih =>
      obtain ⟨henvs, hentry⟩ := not_or.mp (mt List.mem_append.mpr h)
      obtain ⟨returnValue, hfold, -, hindex⟩ := ih henvs
      have hne : entry ≠ [] := fun hnil => hentry (by simp [hnil])
      refine ⟨returnValue.set (keyText entry '=') (.str (readValue entry)), ?_, ?_, fun key => ?_⟩
      · rw [List.foldlM_append, hfold, ok_bind, List.foldlM_cons, getEnv_of_ne_nil _ hne]
        rfl
      · cases returnValue <;> simp [Json.set, Json.isNull]
      · rw [index_set (hindex key), lastEntry_concat]
        by_cases hkey : keyText entry '=' = key
        · rw [if_pos hkey, if_pos hkey.symm]
          rfl
        · rw [if_neg hkey, if_neg (Ne.symm hkey)]

/-- The output reports the value under the key. -/
def Reports (output : Json) (key value : Str) : Prop :=
  ∃ returnValue, output.index "returnValue" = .ok returnValue ∧
    returnValue.index key = .ok (.str value)

/-- Every entry `KEY=VALUE` of the environment is reported with exactly its value. -/
def ReportsAll (envs : List Str) : Prop :=
  ∃ output, getEnvs envs = .ok output ∧
    ∀ key value, '=' ∉ key → key ++ '=' :: value ∈ envs → Reports output key value

/-- An environment whose values are lines, and where no key has a last entry of
another value. -/
structure PlainEnvs (envs : List Str) : Prop where
  nonempty : [] ∉ envs
  oneLine : ∀ entry ∈ envs, '\n' ∉ valueText entry '='
  last : ∀ entry ∈ envs, '=' ∈ entry →
    (lastEntry envs (keyText entry '=')).map (fun e => valueText e '=') = some (valueText entry '=')

/-- The output holds the loop's object under `returnValue`. -/
lemma getEnvs_spec {envs : List Str} (h : [] ∉ envs) :
    ∃ output, getEnvs envs = .ok output ∧ ∀ key value, Reports output key value ↔
      (lastEntry envs key).map readValue = some value := by
  obtain ⟨returnValue, hfold, hnull, hindex⟩ := foldlM_getEnv h
  rw [getEnvs, hfold, ok_bind]
  refine ⟨_, rfl, fun key value => ?_⟩
  have hreturn : ((if returnValue.isNull then Json.null
      else Json.null.set "returnValue" returnValue).set "success" (.bool true)).index
        "returnValue" = .ok returnValue := by
    cases returnValue <;> rfl
  rw [Reports, hreturn]
  constructor
  · rintro ⟨_, heq, hvalue⟩
    obtain rfl := Except.ok.inj heq
    rw [hindex key] at hvalue
    cases hlast : lastEntry envs key with
    | none => simp [hlast] at hvalue
    | some entry => simpa [hlast] using hvalue
  · intro hvalue
    refine ⟨returnValue, rfl, ?_⟩
    obtain ⟨entry, hlast, rfl⟩ := Option.map_eq_some_iff.mp hvalue
    rw [hindex key, hlast]
    rfl

/-- The empty entry is the one on which the loop goes wrong. -/
lemma getEnvs_defined_iff (envs : List Str) : Defined (getEnvs envs) ↔ [] ∉ envs := by
  constructor
  · intro hdefined hmem
    obtain ⟨before, after, rfl, hbefore⟩ := List.eq_append_cons_of_mem hmem
    obtain ⟨returnValue, hfold, -, -⟩ := foldlM_getEnv hbefore
    refine hdefined ?_
    rw [getEnvs, List.foldlM_append, hfold, ok_bind, List.foldlM_cons]
    rfl
  · intro h
    obtain ⟨output, houtput, -⟩ := getEnvs_spec h
    exact houtput ▸ defined_ok output

/-- **When `getEnvs` reports the environment**. -/
lemma reportsAll_iff (envs : List Str) : ReportsAll envs ↔ PlainEnvs envs := by
  constructor
  · rintro ⟨output, houtput, hreports⟩
    have hnonempty : [] ∉ envs :=
      (getEnvs_defined_iff envs).mp (houtput ▸ defined_ok output)
    obtain ⟨_, houtput', hspec⟩ := getEnvs_spec hnonempty
    obtain rfl := Except.ok.inj (houtput.symm.trans houtput')
    have hread : ∀ entry ∈ envs, '=' ∈ entry →
        (lastEntry envs (keyText entry '=')).map readValue = some (valueText entry '=') := by
      intro entry hentry hdelim
      obtain ⟨hkey, heq⟩ := (eq_keyText_or entry '=').resolve_left fun h => h.1 hdelim
      exact (hspec _ _).mp (hreports _ _ hkey (heq ▸ hentry))
    have honeLine : ∀ entry ∈ envs, '\n' ∉ valueText entry '=' := by
      intro entry hentry
      rcases eq_keyText_or entry '=' with ⟨-, -, hnil⟩ | ⟨-, heq⟩
      · exact hnil ▸ List.not_mem_nil
      · obtain ⟨last, -, hlast⟩ := Option.map_eq_some_iff.mp
          (hread entry hentry (by rw [heq]; simp))
        exact hlast ▸ newline_not_mem_readValue last
    refine ⟨hnonempty, honeLine, fun entry hentry hdelim => ?_⟩
    obtain ⟨last, hlast, hvalue⟩ := Option.map_eq_some_iff.mp (hread entry hentry hdelim)
    rw [hlast, Option.map_some, ← hvalue, readValue_eq (honeLine last (mem_of_lastEntry hlast))]
  · intro h
    obtain ⟨output, houtput, hspec⟩ := getEnvs_spec h.nonempty
    refine ⟨output, houtput, fun key value hkey hentry => (hspec key value).mpr ?_⟩
    have hlast := h.last _ hentry (by simp)
    rw [keyText_append hkey, valueText_append hkey] at hlast
    obtain ⟨last, hlast, hvalue⟩ := Option.map_eq_some_iff.mp hlast
    rw [hlast, Option.map_some, readValue_eq (h.oneLine last (mem_of_lastEntry hlast)), hvalue]

end os

/-! ### The callers -/

/-- How an argument with an equals sign is read: with the only line of its value,
or as a key. -/
lemma settings.parseArg_append {key : Str} (hkey : '=' ∉ key) (value : Str) :
    parseArg (key ++ '=' :: value) =
      match helpers.lines value with
      | [line] => if 0 < line.length then ⟨key, line⟩ else ⟨key ++ '=' :: value, []⟩
      | _ => ⟨key ++ '=' :: value, []⟩ := by
  rw [parseArg, helpers.splitTwo_append_lines hkey]
  rcases helpers.lines value with _ | ⟨line, _ | ⟨line', rest⟩⟩
  · rfl
  · rfl
  · rfl

/-- An argument `k=v` is read as its two parts where the value is one line. -/
lemma settings.parseArg_eq_iff {key value : Str} (hkey : '=' ∉ key) (hvalue : value ≠ []) :
    parseArg (key ++ '=' :: value) = ⟨key, value⟩ ↔ '\n' ∉ value := by
  rw [parseArg_append hkey]
  constructor
  · intro h
    match hlines : helpers.lines value with
    | [] => simp [hlines] at h
    | [line] =>
        rw [hlines] at h
        simp only at h
        split_ifs at h
        · obtain rfl := (CliArg.mk.inj h).2
          exact helpers.newline_not_mem_of_mem_lines (hlines ▸ List.mem_singleton_self _)
        · exact absurd (CliArg.mk.inj h).2.symm hvalue
    | line :: line' :: rest => simp [hlines] at h
  · intro hline
    rw [helpers.lines_eq_singleton_iff.mpr ⟨hvalue, hline⟩]
    exact if_pos (List.length_pos_of_ne_nil hvalue)

/-- A call that passes the token and the API switch goes wrong on the empty
method alone, whose module is looked up in no tokens, or in the handler that it reaches. -/
lemma executeNativeMethod_defined_iff {σ : Type} {app : router.App}
    {methods : Str → router.NativeMethod σ} {request : router.NativeMessage} {world : σ}
    (htoken : request.accessToken = app.token)
    (hapi : permission.hasAPIAccess app.options = .ok true) :
    Defined (router.executeNativeMethod app methods request world) ↔ request.method ≠ [] ∧
      (router.GateOpen app request →
        Defined (methods request.method request.data world).1) := by
  constructor
  · intro hdefined
    have hmethod : request.method ≠ [] := fun hnil => hdefined (router.execute_of_nil htoken hapi hnil)
    refine ⟨hmethod, fun hopen hundef => ?_⟩
    rcases router.gated_or_stuck htoken hapi hmethod with
      ⟨outcome, -, -, -, hgate, -⟩ | ⟨-, fault, hrun, -, hfault⟩
    · cases (router.invoke_eq_ok (hgate hopen).2).2 _ hundef
    · rw [hundef] at hfault
      cases hfault
      exact hdefined hrun
  · rintro ⟨hmethod, hhandler⟩
    rcases router.gated_or_stuck htoken hapi hmethod with
      ⟨outcome, hrun, -⟩ | ⟨hopen, fault, hrun, -, hfault⟩
    · exact hrun ▸ defined_ok outcome
    · rintro hundef
      rw [hrun] at hundef
      cases hundef
      exact hhandler hopen hfault

/-- **What splitting keeps, and what its callers make of it**: a rest that is one
line, the environment of one-line values, an argument of a one-line value.  The
empty entry and the empty method are indexed past the end, the entries of the
method lists and the token never are; what a handler does by itself is left to the handler. -/
theorem splitTwo_callers {before key value : Str} {delim : Char} {σ : Type} {app : router.App}
    {request : router.NativeMessage} (hbefore : delim ∉ before) (after : Str) (envs : List Str)
    (hkey : '=' ∉ key) (hvalue : value ≠ []) (htoken : request.accessToken = app.token)
    (hapi : permission.hasAPIAccess app.options = .ok true)
    (methods : Str → router.NativeMethod σ) (world : σ)
    (blockedModules blockedMethods entries : List Str)
    (draw : ℕ → Fin helpers.tokenCharacters.length) :
    (helpers.splitTwo (before ++ delim :: after) delim = [before, after] ↔
      after ≠ [] ∧ '\n' ∉ after) ∧
    (os.ReportsAll envs ↔ os.PlainEnvs envs) ∧
    (settings.parseArg (key ++ '=' :: value) = ⟨key, value⟩ ↔ '\n' ∉ value) ∧
    (Defined (os.getEnvs envs) ↔ [] ∉ envs) ∧
    (Defined (router.executeNativeMethod app methods request world) ↔ request.method ≠ [] ∧
      (router.GateOpen app request →
        Defined (methods request.method request.data world).1)) ∧
    Defined (permission.sortEntries blockedModules blockedMethods entries) ∧
    ∃ connectToken, (helpers.splitTwo (helpers.generateToken draw) '.')[1]? = some connectToken := by
  refine ⟨helpers.splitTwo_eq_pair_iff hbefore after, os.reportsAll_iff envs,
    settings.parseArg_eq_iff hkey hvalue, os.getEnvs_defined_iff envs,
    executeNativeMethod_defined_iff htoken hapi, ?_, ?_⟩
  · rw [permission.sortEntries_eq]
    exact defined_ok _
  · rw [neuserver.splitTwo_generateToken]
    exact ⟨_, rfl⟩

/-- A value with further delimiters is kept, the empty method of a client with the token is
not answered. -/
theorem path_value_kept :
    helpers.splitTwo ("PATH" ++ '=' :: "/bin=x") '=' = ["PATH", "/bin=x"] ∧
      ¬ Defined (router.executeNativeMethod router.openApp (fun _ data (_ : Unit) => (.ok data, ()))
        router.namelessRequest ()) := by
  obtain ⟨hsplit, -, -, -, hmethod, -⟩ := splitTwo_callers
    (by decide : '=' ∉ ("PATH" : Str)) "/bin=x" ["PATH=/bin=x"] (by decide : '=' ∉ ("PATH" : Str))
    (List.cons_ne_nil 'x' []) (rfl : router.namelessRequest.accessToken = router.openApp.token)
    (rfl : permission.hasAPIAccess router.openApp.options = .ok true)
    (fun _ data (_ : Unit) => (.ok data, ())) () [] [] [] (fun _ => ⟨0, by decide⟩)
  exact ⟨hsplit.mpr ⟨by decide, by decide⟩, fun hdefined => (hmethod.mp hdefined).1 rfl⟩

/-- **A value of two lines is lost**: it is not the rest that is split off, the
environment reports no value, and the argument is a key; the empty value is no
token, and the empty entry is not answered at all. -/
theorem two_line_value_lost :
    helpers.splitTwo "K=a\nb" '=' ≠ ["K", "a\nb"] ∧ ¬ os.ReportsAll ["K=a\nb"] ∧
      settings.parseArg "K=a\nb" ≠ ⟨"K", "a\nb"⟩ ∧ helpers.splitTwo "K=" '=' ≠ ["K", ""] ∧
      ¬ Defined (os.getEnvs [[]]) := by
  refine ⟨by decide, fun h => ?_, by decide, by decide, ?_⟩
  · exact ((os.reportsAll_iff _).mp h).oneLine _ (List.mem_singleton_self _) (by decide)
  · rw [os.getEnvs_defined_iff]
    simp

end Neutralino
