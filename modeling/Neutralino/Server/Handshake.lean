import Neutralino.Server.Connections
import Neutralino.Base.Helpers
import Mathlib.Data.List.TakeWhile

/-!
What a websocket handshake accepts: `handleValidate` against the parameters of the
query of its URL.

* `generateToken`, `IsConnectToken`: the tokens of a server, and the part of one
  that is asked for.
* `queryParams`, `Admissible`: the parameters of a query, and the requests that are
  to be accepted.
* `FirstValue`: the value after the first place of a name in a text;
  `firstValue_iff`: it is what `__getParamValueFromUrl` reads.
* `handshake_iff`: **when a URL is read by its parameters**.  The expressions look
  for the names anywhere in the URL, and read up to the first other character.
* `unambiguous_of_pair`: the URL that an extension is to use is read so.
-/

namespace Neutralino

namespace helpers

/-- The characters of a token. -/
def tokenCharacters : Str :=
  "-_0123456789ABCDEFGHIJKLMNOPQRSTUVWXYZabcdefghijklmnopqrstuvwxyz".toList

/-- `generateToken`, from the numbers that are drawn. -/
def generateToken (draw : ℕ → Fin tokenCharacters.length) : Str :=
  (List.range 96).foldl
    (fun token i => (if i = 47 then token ++ ['.'] else token) ++ [tokenCharacters.get (draw i)]) []

end helpers

namespace neuserver

open Regex

/-! ### Requests -/

/-- A connect token: the second part of a token. -/
def IsConnectToken (connectToken : Str) : Prop :=
  ∃ draw, (helpers.splitTwo (helpers.generateToken draw) '.')[1]? = some connectToken

/-- The class `[a-zA-Z0-9]`. -/
def isWordChar (c : Char) : Bool :=
  ('a' ≤ c && c ≤ 'z') || ('A' ≤ c && c ≤ 'Z') || ('0' ≤ c && c ≤ '9')

/-- The expression `^[a-zA-Z0-9]+([.][a-zA-Z0-9]+)*$` for the id of an extension. -/
def extensionIdPattern : Re Char :=
  let word := Re.cat (.cls isWordChar) (.star (.cls isWordChar))
  .cat word (.star (.cat (.lit ".".toList) word))

/-- A name with its value, after the first equals sign. -/
def paramOf (text : Str) : Str × Str :=
  (text.takeWhile (· ≠ '='), (text.dropWhile (· ≠ '=')).tail)

/-- The parameters of the query of a URL. -/
def queryParams (url : Str) : List (Str × Str) :=
  (((url.dropWhile (· ≠ '?')).tail).splitOn '&').map paramOf

/-- A request is to be accepted: its host is the local one or the mode is `cloud`,
its query has the connect token as the parameter of this name, and every
extension id of the query is loaded. -/
structure Admissible (config : Config) (url host : Str) : Prop where
  host : host = "localhost".toList ∨ host = "127.0.0.1".toList ∨ config.mode = .cloud
  token : ("connectToken".toList, config.connectToken) ∈ queryParams url
  extension : ∀ id, ("extensionId".toList, id) ∈ queryParams url → id ∈ config.loadedExtensions

/-! ### The first place of a name -/

/-- The name stands at the beginning of a text, with an equals sign and a
character of the class after it. -/
def Place (param text : Str) : Prop :=
  ∃ c rest, text = param ++ '=' :: c :: rest ∧ isParamChar c = true

/-- The value after the first place of a name in a text: the characters of the
class from there. -/
inductive FirstValue (param : Str) : Str → Str → Prop
  | here {value rest : Str} : value ≠ [] → (∀ c ∈ value, isParamChar c = true) →
      (∀ c ∈ rest.head?, isParamChar c = false) →
        FirstValue param (param ++ '=' :: (value ++ rest)) value
  | later {c : Char} {text value : Str} : ¬ Place param (c :: text) → FirstValue param text value →
      FirstValue param (c :: text) value

section FirstValue

variable {param text value : Str}

lemma FirstValue.ne_nil (h : FirstValue param text value) : value ≠ [] := by
  induction h with
  | here hne _ _ => exact hne
  | later _ _ ih => exact ih

/-- The name and an equals sign stand where a first value is. -/
lemma FirstValue.isInfix (h : FirstValue param text value) : param ++ ['='] <:+: text := by
  induction h with
  | @here value rest _ _ _ => exact ⟨[], value ++ rest, by simp⟩
  | later _ _ ih => exact ih.trans (List.infix_cons (List.infix_refl _))

/-- Whether the loop stops at a text. -/
lemma place_iff : Place param text ↔
    (param ++ ['=']).isPrefixOf text = true ∧
      (text.drop (param.length + 1)).takeWhile isParamChar ≠ [] := by
  rw [List.isPrefixOf_iff_prefix]
  constructor
  · rintro ⟨c, rest, rfl, hc⟩
    refine ⟨⟨c :: rest, by simp⟩, ?_⟩
    rw [show param ++ '=' :: c :: rest = (param ++ ['=']) ++ c :: rest by simp,
      show param.length + 1 = (param ++ ['=']).length by simp, List.drop_left,
      List.takeWhile_cons_of_pos hc]
    simp
  · rintro ⟨⟨rest, rfl⟩, hne⟩
    rw [show param.length + 1 = (param ++ ['=']).length by simp, List.drop_left] at hne
    cases rest with
    | nil => exact absurd rfl hne
    | cons c rest =>
        refine ⟨c, rest, by simp, ?_⟩
        by_contra hc
        exact hne (List.takeWhile_cons_of_neg hc)

lemma getParamValueFromUrl_of_place (h : Place param text) :
    getParamValueFromUrl param text = (text.drop (param.length + 1)).takeWhile isParamChar := by
  cases text with
  | nil => obtain ⟨c, rest, htext, -⟩ := h; simp at htext
  | cons c text => rw [getParamValueFromUrl, if_pos (place_iff.mp h)]

lemma getParamValueFromUrl_of_not_place {c : Char} (h : ¬ Place param (c :: text)) :
    getParamValueFromUrl param (c :: text) = getParamValueFromUrl param text := by
  rw [getParamValueFromUrl, if_neg (mt place_iff.mpr h)]

/-- **The first value is what the code reads.** -/
theorem firstValue_iff :
    FirstValue param text value ↔ getParamValueFromUrl param text = value ∧ value ≠ [] := by
  constructor
  · intro h
    refine ⟨?_, h.ne_nil⟩
    induction h with
    | @here value rest hne hvalue hrest =>
        have hplace : Place param (param ++ '=' :: (value ++ rest)) := by
          obtain ⟨c, value, rfl⟩ := List.exists_cons_of_ne_nil hne
          exact ⟨c, value ++ rest, rfl, hvalue c List.mem_cons_self⟩
        have hstop : rest.takeWhile isParamChar = [] := by
          cases rest with
          | nil => rfl
          | cons c rest => exact List.takeWhile_cons_of_neg (by simp [hrest c rfl])
        rw [getParamValueFromUrl_of_place hplace,
          show param ++ '=' :: (value ++ rest) = (param ++ ['=']) ++ (value ++ rest) by simp,
          show param.length + 1 = (param ++ ['=']).length by simp, List.drop_left,
          List.takeWhile_append_of_pos hvalue, hstop, List.append_nil]
    | later hnot _ ih => rw [getParamValueFromUrl_of_not_place hnot, ih]
  · rintro ⟨hread, hne⟩
    induction text with
    | nil => exact absurd hread.symm hne
    | cons c text ih =>
        by_cases hplace : Place param (c :: text)
        · rw [getParamValueFromUrl_of_place hplace] at hread
          obtain ⟨d, rest, htext, hd⟩ := hplace
          rw [htext, show param ++ '=' :: d :: rest = (param ++ ['=']) ++ d :: rest by simp,
            show param.length + 1 = (param ++ ['=']).length by simp, List.drop_left] at hread
          rw [htext, ← List.takeWhile_append_dropWhile (p := isParamChar) (l := d :: rest), hread]
          refine .here hne (fun x hx => ?_) fun x hx => ?_
          · rw [← hread] at hx
            exact List.mem_takeWhile_imp hx
          · have hhead := List.head?_dropWhile_not isParamChar (d :: rest)
            rw [show ((d :: rest).dropWhile isParamChar).head? = some x from hx] at hhead
            simpa using hhead
        · rw [getParamValueFromUrl_of_not_place hplace] at hread
          exact .later hplace (ih hread)

lemma FirstValue.unique {value' : Str} (h : FirstValue param text value)
    (h' : FirstValue param text value') : value = value' := by
  calc value = getParamValueFromUrl param text := (firstValue_iff.mp h).1.symm
    _ = value' := (firstValue_iff.mp h').1

/-- What is read where no value is found is empty. -/
lemma getParamValueFromUrl_eq_nil_iff :
    getParamValueFromUrl param text = [] ↔ ¬ ∃ value, FirstValue param text value := by
  constructor
  · rintro hread ⟨value, h⟩
    obtain ⟨heq, hne⟩ := firstValue_iff.mp h
    exact hne (heq.symm.trans hread)
  · intro h
    by_contra hne
    exact h ⟨_, firstValue_iff.mpr ⟨rfl, hne⟩⟩

end FirstValue

/-! ### Tokens and expressions -/

/-- The characters that are drawn, without the dot. -/
def drawn (draw : ℕ → Fin helpers.tokenCharacters.length) (indices : List ℕ) : Str :=
  indices.map fun i => helpers.tokenCharacters.get (draw i)

lemma mem_of_mem_drawn {draw : ℕ → Fin helpers.tokenCharacters.length} {indices : List ℕ} {c : Char}
    (hc : c ∈ drawn draw indices) : c ∈ helpers.tokenCharacters := by
  obtain ⟨i, -, rfl⟩ := List.mem_map.mp hc
  exact List.get_mem _ _

/-- The two parts of a token. -/
lemma splitTwo_generateToken (draw : ℕ → Fin helpers.tokenCharacters.length) :
    helpers.splitTwo (helpers.generateToken draw) '.' =
      [drawn draw (List.range 47), drawn draw (47 :: List.range' 48 48)] := by
  have hfold : ∀ (indices : List ℕ) (token : Str), 47 ∉ indices →
      indices.foldl (fun token i =>
        (if i = 47 then token ++ ['.'] else token) ++ [helpers.tokenCharacters.get (draw i)]) token =
        token ++ drawn draw indices := by
    intro indices
    induction indices with
    | nil => simp [drawn]
    | cons i indices ih =>
        intro token hnot
        obtain ⟨hi, hindices⟩ := not_or.mp (mt List.mem_cons.mpr hnot)
        rw [List.foldl_cons, if_neg (Ne.symm hi), ih _ hindices, List.append_assoc]
        rfl
  have hrange : List.range 96 = List.range 47 ++ 47 :: List.range' 48 48 := by decide
  have htoken : helpers.generateToken draw =
      drawn draw (List.range 47) ++ '.' :: drawn draw (47 :: List.range' 48 48) := by
    rw [helpers.generateToken, hrange, List.foldl_append, List.foldl_cons, if_pos rfl,
      hfold (List.range' 48 48) _ (by decide), hfold (List.range 47) _ (by decide)]
    simp [drawn]
  have hnot : ∀ d, d ∉ helpers.tokenCharacters → ∀ indices, d ∉ drawn draw indices :=
    fun d hd indices hmem => hd (mem_of_mem_drawn hmem)
  rw [htoken, helpers.splitTwo_append (hnot '.' (by decide) _) (by simp [drawn])
    (hnot '\n' (by decide) _)]

/-- A connect token consists of characters of a token, and it is not empty. -/
lemma IsConnectToken.spec {connectToken : Str} (h : IsConnectToken connectToken) :
    connectToken ≠ [] ∧ ∀ c ∈ connectToken, c ∈ helpers.tokenCharacters := by
  obtain ⟨draw, hdraw⟩ := h
  rw [splitTwo_generateToken] at hdraw
  obtain rfl := Option.some.inj hdraw
  exact ⟨by simp [drawn], fun c => mem_of_mem_drawn⟩

lemma exists_isConnectToken : ∃ connectToken, IsConnectToken connectToken :=
  ⟨_, fun _ => ⟨0, by decide⟩, by rw [splitTwo_generateToken]; rfl⟩

/-- Characters of a token are characters of the class. -/
lemma isParamChar_of_mem {c : Char} (h : c ∈ helpers.tokenCharacters) : isParamChar c = true := by
  have hall : helpers.tokenCharacters.all isParamChar = true := by decide
  exact List.all_eq_true.mp hall c h

/-- An expression that looks for a word anywhere in a text without line terminators. -/
lemma test_around_iff {word text : Str} (hword : ∀ c ∈ word, isLineTerminator c = false) :
    (Re.cat dotStar (.cat (.lit word) dotStar)).test text = true ↔
      word <:+: text ∧ ∀ c ∈ text, isLineTerminator c = false := by
  rw [Re.test_iff]
  constructor
  · intro h
    obtain ⟨u, v, hu, hv, rfl⟩ := Re.matches_cat.mp h
    obtain ⟨w, x, hw, hx, rfl⟩ := Re.matches_cat.mp hv
    obtain rfl := Re.matches_lit.mp hw
    refine ⟨⟨u, x, by simp⟩, fun c hc => ?_⟩
    rcases List.mem_append.mp hc with hc | hc
    · exact matches_dotStar.mp hu c hc
    · rcases List.mem_append.mp hc with hc | hc
      · exact hword c hc
      · exact matches_dotStar.mp hx c hc
  · rintro ⟨⟨u, v, rfl⟩, hclean⟩
    rw [List.append_assoc]
    refine Re.matches_cat.mpr ⟨u, _, matches_dotStar.mpr fun c hc => hclean c (by simp [hc]),
      Re.matches_cat.mpr ⟨_, v, Re.matches_lit.mpr rfl,
        matches_dotStar.mpr fun c hc => hclean c (by simp [hc]), rfl⟩, rfl⟩

/-! ### The condition -/

/-- What is read for a name: its first value, or nothing where there is none. -/
def ReadAs (param text value : Str) : Prop :=
  FirstValue param text value ∨ value = [] ∧ ¬ ∃ value, FirstValue param text value

/-- What a handshake is to do with a URL: it is accepted exactly if the request is
admissible, and its token and the id of an extension are read as they are. -/
structure HandshakeSound (url : Str) : Prop where
  accepted : ∀ config host, IsConnectToken config.connectToken →
    (handleValidate config url host = true ↔ Admissible config url host)
  extracted : ∀ connectToken id, IsConnectToken connectToken → extensionIdPattern.test id = true →
    ("connectToken".toList, connectToken) ∈ queryParams url →
      ("extensionId".toList, id) ∈ queryParams url →
        getConnectTokenFromUrl url = connectToken ∧ getExtensionIdFromUrl url = id

/-- The condition: the query has a token as the parameter `connectToken` exactly if
this is the value at the first place of the name in a URL without line
terminators; and where it has one, the ids in the query are the one id that is
read, if the text `extensionId=` stands in the URL, and none otherwise.  All of this is about the
text of the URL, read by `queryParams` and by the places of a name; `unambiguous_of_pair` gives
a shape of URLs that meets it. -/
structure Unambiguous (url : Str) : Prop where
  token : ∀ connectToken, IsConnectToken connectToken →
    (("connectToken".toList, connectToken) ∈ queryParams url ↔
      (∀ c ∈ url, isLineTerminator c = false) ∧ FirstValue "connectToken" url connectToken)
  extension : ∀ connectToken, IsConnectToken connectToken →
    ("connectToken".toList, connectToken) ∈ queryParams url → ∀ id,
      ("extensionId".toList, id) ∈ queryParams url ↔
        "extensionId=".toList <:+: url ∧ ReadAs "extensionId" url id

section Condition

variable {url : Str}

lemma readAs_iff {param value : Str} : ReadAs param url value ↔ getParamValueFromUrl param url = value := by
  rw [ReadAs, firstValue_iff, ← getParamValueFromUrl_eq_nil_iff]
  by_cases hne : value = []
  · simp [hne]
  · simp [hne]

/-- The text of a parameter stands in the URL. -/
lemma isExtensionEndpoint_iff : isExtensionEndpoint url = true ↔
    "extensionId=".toList <:+: url ∧ ∀ c ∈ url, isLineTerminator c = false :=
  test_around_iff (forall_mem_of_all (by decide))

lemma hasConnectToken_iff : hasConnectToken url = true ↔
    "connectToken=".toList <:+: url ∧ ∀ c ∈ url, isLineTerminator c = false :=
  test_around_iff (forall_mem_of_all (by decide))

/-- What a handshake is checked for. -/
lemma handleValidate_iff {config : Config} {host : Str} :
    handleValidate config url host = true ↔
      (host = "localhost".toList ∨ host = "127.0.0.1".toList ∨ config.mode = .cloud) ∧
        hasConnectToken url = true ∧ getConnectTokenFromUrl url = config.connectToken ∧
          (isExtensionEndpoint url = true →
            getExtensionIdFromUrl url ∈ config.loadedExtensions) := by
  have hlocal : ∀ a b : Str, (!(host == a || host == b) && decide (config.mode ≠ .cloud)) = true ↔
      ¬ (host = a ∨ host = b ∨ config.mode = .cloud) := by
    intro a b
    simp only [Bool.and_eq_true, Bool.not_eq_true', Bool.or_eq_false_iff, beq_eq_false_iff_ne,
      decide_eq_true_eq, not_or, ne_eq, and_assoc]
  have hverify : (!(config.connectToken == getConnectTokenFromUrl url)) = true ↔
      ¬ getConnectTokenFromUrl url = config.connectToken := by
    rw [Bool.not_eq_true', beq_eq_false_iff_ne, ne_comm]
  unfold handleValidate
  split_ifs with hhost htoken hverified hextension
  · exact iff_of_false nofun fun h => (hlocal _ _).mp hhost h.1
  · exact iff_of_false nofun fun h => by simp [h.2.1] at htoken
  · exact iff_of_false nofun fun h => hverify.mp hverified h.2.2.1
  · have hfound : hasConnectToken url = true := by simpa using htoken
    rw [List.contains_iff_mem]
    exact ⟨fun h => ⟨not_not.mp (mt (hlocal _ _).mpr hhost), hfound,
      not_not.mp (mt hverify.mpr hverified), fun _ => h⟩, fun h => h.2.2.2 hextension⟩
  · have hfound : hasConnectToken url = true := by simpa using htoken
    exact iff_of_true rfl ⟨not_not.mp (mt (hlocal _ _).mpr hhost), hfound,
      not_not.mp (mt hverify.mpr hverified), fun h => absurd h hextension⟩

/-- The token that is read is the first value of its name. -/
lemma firstValue_token_iff {connectToken : Str} (h : IsConnectToken connectToken) :
    FirstValue "connectToken" url connectToken ↔ getConnectTokenFromUrl url = connectToken := by
  rw [firstValue_iff, and_iff_left h.spec.1]
  rfl

section Sound

variable {connectToken : Str}

/-- What is read of a token and of ids, against the query. -/
lemma HandshakeSound.reads (h : HandshakeSound url) (htoken : IsConnectToken connectToken)
    (loaded : List Str) :
    (hasConnectToken url = true ∧ getConnectTokenFromUrl url = connectToken ∧
      (isExtensionEndpoint url = true → getExtensionIdFromUrl url ∈ loaded)) ↔
    ("connectToken".toList, connectToken) ∈ queryParams url ∧
      ∀ id, ("extensionId".toList, id) ∈ queryParams url → id ∈ loaded := by
  have hiff := h.accepted ⟨.window, connectToken, loaded⟩ "localhost" htoken
  rw [handleValidate_iff] at hiff
  constructor
  · intro hread
    have hadmissible := hiff.mp ⟨.inl rfl, hread⟩
    exact ⟨hadmissible.token, hadmissible.extension⟩
  · intro hquery
    exact (hiff.mpr ⟨.inl rfl, hquery.1, hquery.2⟩).2

/-- The token is read as it is: every id may be loaded. -/
lemma HandshakeSound.token_iff (h : HandshakeSound url) (htoken : IsConnectToken connectToken) :
    ("connectToken".toList, connectToken) ∈ queryParams url ↔
      hasConnectToken url = true ∧ getConnectTokenFromUrl url = connectToken := by
  have hall := h.reads htoken (getExtensionIdFromUrl url :: (queryParams url).map Prod.snd)
  constructor
  · intro hquery
    have hread := hall.mpr ⟨hquery, fun id hid =>
      List.mem_cons_of_mem _ (List.mem_map_of_mem hid)⟩
    exact ⟨hread.1, hread.2.1⟩
  · exact fun hread => (hall.mp ⟨hread.1, hread.2, fun _ => List.mem_cons_self⟩).1

/-- Where the query has the token, the id that is read is loaded exactly if every id
of the query is. -/
lemma HandshakeSound.loaded_iff (h : HandshakeSound url) (htoken : IsConnectToken connectToken)
    (hquery : ("connectToken".toList, connectToken) ∈ queryParams url) (loaded : List Str) :
    (isExtensionEndpoint url = true → getExtensionIdFromUrl url ∈ loaded) ↔
      ∀ id, ("extensionId".toList, id) ∈ queryParams url → id ∈ loaded := by
  have hread := (h.token_iff htoken).mp hquery
  have hloaded := h.reads htoken loaded
  exact ⟨fun hext => (hloaded.mp ⟨hread.1, hread.2, hext⟩).2,
    fun hext => (hloaded.mpr ⟨hquery, hext⟩).2.2⟩

/-- Where the query has the token, its ids are the one that is read. -/
lemma HandshakeSound.id_iff (h : HandshakeSound url) (htoken : IsConnectToken connectToken)
    (hquery : ("connectToken".toList, connectToken) ∈ queryParams url) (id : Str) :
    ("extensionId".toList, id) ∈ queryParams url ↔
      isExtensionEndpoint url = true ∧ getExtensionIdFromUrl url = id := by
  have hloaded := h.loaded_iff htoken hquery
  constructor
  · intro hid
    have hext : isExtensionEndpoint url = true := by
      by_contra hnot
      exact absurd ((hloaded []).mp (fun h => absurd h hnot) id hid) (by simp)
    have honly := (hloaded [getExtensionIdFromUrl url]).mp (fun _ => List.mem_singleton_self _) id hid
    exact ⟨hext, (List.mem_singleton.mp honly).symm⟩
  · rintro ⟨hext, rfl⟩
    have hmem := (hloaded (((queryParams url).filter fun param => param.1 = "extensionId".toList).map
      Prod.snd)).mpr (fun id hid => List.mem_map.mpr
        ⟨_, List.mem_filter.mpr ⟨hid, decide_eq_true rfl⟩, rfl⟩) hext
    obtain ⟨⟨name, id⟩, hparam, rfl⟩ := List.mem_map.mp hmem
    obtain ⟨hparam, hname⟩ := List.mem_filter.mp hparam
    obtain rfl : name = "extensionId".toList := of_decide_eq_true hname
    exact hparam

lemma HandshakeSound.unambiguous (h : HandshakeSound url) : Unambiguous url := by
  refine ⟨fun connectToken htoken => ?_, fun connectToken htoken hquery id => ?_⟩
  · rw [h.token_iff htoken, firstValue_token_iff htoken, hasConnectToken_iff]
    refine ⟨fun hread => ⟨hread.1.2, hread.2⟩, fun hread => ⟨⟨?_, hread.1⟩, hread.2⟩⟩
    exact ((firstValue_token_iff htoken).mpr hread.2).isInfix
  · have hclean := (hasConnectToken_iff.mp ((h.token_iff htoken).mp hquery).1).2
    have hendpoint : isExtensionEndpoint url = true ↔ "extensionId=".toList <:+: url :=
      isExtensionEndpoint_iff.trans (and_iff_left hclean)
    rw [readAs_iff, ← hendpoint]
    exact h.id_iff htoken hquery id

/-- A handshake that passes is admissible. -/
lemma Unambiguous.admissible {config : Config} {host : Str} (h : Unambiguous url)
    (htoken : IsConnectToken config.connectToken) (hvalid : handleValidate config url host = true) :
    Admissible config url host := by
  obtain ⟨hhost, hfound, hread, hext⟩ := handleValidate_iff.mp hvalid
  have hclean := (hasConnectToken_iff.mp hfound).2
  have hquery := (h.token _ htoken).mpr ⟨hclean, (firstValue_token_iff htoken).mpr hread⟩
  refine ⟨hhost, hquery, fun id hid => ?_⟩
  obtain ⟨hmid, hreadAs⟩ := (h.extension _ htoken hquery id).mp hid
  have hloaded := hext (isExtensionEndpoint_iff.mpr ⟨hmid, hclean⟩)
  rwa [getExtensionIdFromUrl, readAs_iff.mp hreadAs] at hloaded

/-- An admissible handshake passes. -/
lemma Unambiguous.accepted {config : Config} {host : Str} (h : Unambiguous url)
    (htoken : IsConnectToken config.connectToken) (hadmissible : Admissible config url host) :
    handleValidate config url host = true := by
  obtain ⟨hclean, hvalue⟩ := (h.token _ htoken).mp hadmissible.token
  refine handleValidate_iff.mpr ⟨hadmissible.host, hasConnectToken_iff.mpr ⟨hvalue.isInfix, hclean⟩,
    (firstValue_token_iff htoken).mp hvalue, fun hext => ?_⟩
  refine hadmissible.extension _ ((h.extension _ htoken hadmissible.token _).mpr ?_)
  exact ⟨(isExtensionEndpoint_iff.mp hext).1, readAs_iff.mpr rfl⟩

lemma Unambiguous.handshakeSound (h : Unambiguous url) : HandshakeSound url := by
  refine ⟨fun config host htoken => ⟨h.admissible htoken, h.accepted htoken⟩,
    fun connectToken id htoken _ hquery hid => ?_⟩
  have hvalue := ((h.token _ htoken).mp hquery).2
  have hreadAs := ((h.extension _ htoken hquery id).mp hid).2
  exact ⟨(firstValue_token_iff htoken).mp hvalue, readAs_iff.mp hreadAs⟩

end Sound

/-- **A handshake is sound for a URL** exactly if its parameters are read as they are. -/
theorem handshake_iff (url : Str) : HandshakeSound url ↔ Unambiguous url :=
  ⟨HandshakeSound.unambiguous, Unambiguous.handshakeSound⟩

end Condition

/-! ### The URL of an extension -/

/-- A URL with two parameters. -/
def pairUrl (path a v b w : Str) : Str := path ++ '?' :: (a ++ '=' :: (v ++ '&' :: (b ++ '=' :: w)))

section Pair

variable {path a v b w text value param : Str}

lemma isParamChar_of_isWordChar {c : Char} (h : isWordChar c = true) : isParamChar c = true := by
  rw [isWordChar] at h
  rw [isParamChar, h]
  rfl

/-- The id of an extension consists of characters of the class, and is not empty. -/
lemma extensionIdPattern_spec {id : Str} (h : extensionIdPattern.test id = true) :
    id ≠ [] ∧ ∀ c ∈ id, isParamChar c = true := by
  have hword : ∀ u, (Re.cat (.cls isWordChar) (.star (.cls isWordChar))).Matches u →
      u ≠ [] ∧ ∀ c ∈ u, isParamChar c = true := by
    intro u hu
    obtain ⟨x, y, hx, hy, rfl⟩ := Re.matches_cat.mp hu
    obtain ⟨c, hc, rfl⟩ := Re.matches_cls.mp hx
    refine ⟨by simp, fun d hd => ?_⟩
    rcases List.mem_cons.mp hd with rfl | hd
    · exact isParamChar_of_isWordChar hc
    · exact isParamChar_of_isWordChar (Re.matches_star_cls.mp hy d hd)
  have hdotted : ∀ u, (Re.cat (.lit ".".toList)
      (Re.cat (.cls isWordChar) (.star (.cls isWordChar)))).Matches u →
      ∀ c ∈ u, isParamChar c = true := by
    intro u hu c hc
    obtain ⟨x, y, hx, hy, rfl⟩ := Re.matches_cat.mp hu
    obtain rfl := Re.matches_lit.mp hx
    rcases List.mem_append.mp hc with hc | hc
    · rw [List.mem_singleton.mp hc]
      decide
    · exact (hword y hy).2 c hc
  obtain ⟨u, x, hu, hx, rfl⟩ := Re.matches_cat.mp ((Re.test_iff _ _).mp h)
  refine ⟨fun hnil => (hword u hu).1 (List.append_eq_nil_iff.mp hnil).1, fun c hc => ?_⟩
  rcases List.mem_append.mp hc with hc | hc
  · exact (hword u hu).2 c hc
  · exact Re.forall_mem_of_matches_star hdotted hx c hc

/-- What stands before the first equals sign of a place is the name. -/
lemma Place.takeWhile_eq (h : Place param text) (hparam : '=' ∉ param) :
    text.takeWhile (· ≠ '=') = param := by
  obtain ⟨c, rest, rfl, -⟩ := h
  rw [List.takeWhile_append_of_pos fun d hd => by simpa using ne_of_mem_of_not_mem hd hparam]
  simp

/-- A text in which the name has no place does not change the first value. -/
lemma FirstValue.append {u : Str} (h : FirstValue param text value)
    (hno : ∀ s, s ≠ [] → s <:+ u → ¬ Place param (s ++ text)) : FirstValue param (u ++ text) value := by
  induction u with
  | nil => exact h
  | cons c u ih =>
      refine .later (hno (c :: u) (by simp) (List.suffix_refl _)) (ih fun s hs hsuffix => ?_)
      exact hno s hs (hsuffix.trans (List.suffix_cons c u))

/-- A text without an equals sign has no place of a name before the name itself. -/
lemma not_place_of_not_mem {s : Str} (hs : s ≠ []) (heq : '=' ∉ s) (hparam : '=' ∉ param)
    (rest : Str) : ¬ Place param (s ++ (param ++ '=' :: rest)) := by
  intro hplace
  have htake := hplace.takeWhile_eq hparam
  rw [← List.append_assoc, List.takeWhile_append_of_pos fun d hd => by
    rcases List.mem_append.mp hd with hd | hd
    · simpa using ne_of_mem_of_not_mem hd heq
    · simpa using ne_of_mem_of_not_mem hd hparam] at htake
  have hlength := congrArg List.length htake
  simp only [List.length_append, ne_eq, not_true_eq_false, decide_false, Bool.false_eq_true,
    not_false_eq_true, List.takeWhile_cons_of_neg, List.length_nil] at hlength
  have := List.length_pos_iff.mpr hs
  omega

lemma paramOf_append (h : '=' ∉ a) : paramOf (a ++ '=' :: v) = (a, v) := by
  rw [paramOf, List.takeWhile_append_of_pos fun d hd => by simpa using ne_of_mem_of_not_mem hd h,
    List.dropWhile_append_of_pos fun d hd => by simpa using ne_of_mem_of_not_mem hd h]
  simp

section PairUrl

variable (hpath : '?' ∉ path ∧ '=' ∉ path) (ha : '=' ∉ a ∧ '&' ∉ a ∧ '?' ∉ a)
  (hb : '=' ∉ b ∧ '&' ∉ b ∧ '?' ∉ b)
  (hv : v ≠ [] ∧ ∀ c ∈ v, isParamChar c = true) (hw : w ≠ [] ∧ ∀ c ∈ w, isParamChar c = true)

lemma not_mem_of_isParamChar {c : Char} (hv : ∀ c ∈ v, isParamChar c = true)
    (hc : isParamChar c = false) : c ∉ v := by
  intro hmem
  rw [hv c hmem] at hc
  cases hc

/-- A suffix without the character stands after it. -/
lemma suffix_of_not_mem {c : Char} {x : Str} (h : b <:+ x ++ c :: a) (hc : c ∉ b) : b <:+ a := by
  rcases List.suffix_or_suffix_of_suffix h (List.suffix_append_of_suffix (List.suffix_cons c a)) with
    hba | ⟨y, rfl⟩
  · exact hba
  · rcases List.eq_nil_or_concat y with rfl | ⟨y, d, rfl⟩
    · exact List.suffix_refl _
    · obtain ⟨t, ht⟩ := h
      have hlast : t ++ y ++ [d] = x ++ [c] := by
        have heq : (t ++ y ++ [d]) ++ a = (x ++ [c]) ++ a := by simpa using ht
        exact List.append_cancel_right heq
      obtain ⟨-, hdc⟩ := List.append_inj' hlast rfl
      obtain rfl : d = c := by simpa using hdc
      exact absurd (by simp) hc

include hpath ha hv in
/-- The first parameter is read. -/
lemma firstValue_pairUrl_left : FirstValue a (pairUrl path a v b w) v := by
  have hvalue : FirstValue a (a ++ '=' :: (v ++ '&' :: (b ++ '=' :: w))) v :=
    .here hv.1 hv.2 (by simp [isParamChar])
  have happend := hvalue.append (u := path ++ ['?']) fun s hs hsuffix => by
    refine not_place_of_not_mem hs (fun hmem => ?_) ha.1 _
    rcases List.mem_append.mp (hsuffix.mem hmem) with hmem | hmem
    · exact hpath.2 hmem
    · simp at hmem
  simpa [pairUrl] using happend

include hpath ha hb hv hw in
/-- The second parameter is read, if its name does not end the name of the first. -/
lemma firstValue_pairUrl_right (hsuffix : ¬ b <:+ a) : FirstValue b (pairUrl path a v b w) w := by
  have hvalue : FirstValue b (b ++ '=' :: (w ++ [])) w := .here hw.1 hw.2 (by simp)
  have hnot : '=' ∉ v ++ ['&'] := by
    simpa using not_mem_of_isParamChar hv.2 (by decide)
  have hfirst : '=' ∉ path ++ '?' :: a := by simp [hpath.2, ha.1]
  have happend := hvalue.append (u := (path ++ '?' :: a) ++ '=' :: (v ++ ['&'])) fun s hs hs' => by
    obtain ⟨t, ht⟩ := hs'
    rcases List.append_eq_append_iff.mp ht with ⟨x, hx, hsx⟩ | ⟨x, rfl, hx⟩
    · -- the text reaches back before the first equals sign, where its name ends
      intro hplace
      have hxmem : '=' ∉ x := fun hmem => hfirst (by rw [hx]; exact List.mem_append_right _ hmem)
      have htake := hplace.takeWhile_eq hb.1
      rw [hsx, List.append_assoc, List.takeWhile_append_of_pos fun d hd => by
        simpa using ne_of_mem_of_not_mem hd hxmem] at htake
      obtain rfl : x = b := by simpa using htake
      exact hsuffix (suffix_of_not_mem ⟨t, hx.symm⟩ hb.2.2)
    · cases x with
      | nil =>
          intro hplace
          obtain rfl : '=' :: (v ++ ['&']) = s := hx
          have htake := hplace.takeWhile_eq hb.1
          obtain rfl : [] = b := by simpa using htake
          exact hsuffix List.nil_suffix
      | cons d x =>
          obtain ⟨-, hx⟩ := List.cons.inj hx
          refine not_place_of_not_mem hs (fun hmem => hnot ?_) hb.1 _
          rw [hx]
          exact List.mem_append_right x hmem
  simpa [pairUrl] using happend

include hpath ha hb hv hw in
/-- The parameters of the query. -/
lemma queryParams_pairUrl : queryParams (pairUrl path a v b w) = [(a, v), (b, w)] := by
  have hquery : ((pairUrl path a v b w).dropWhile (· ≠ '?')).tail =
      (a ++ '=' :: v) ++ '&' :: (b ++ '=' :: w) := by
    rw [pairUrl, List.dropWhile_append_of_pos fun d hd => by
      simpa using ne_of_mem_of_not_mem hd hpath.1]
    simp
  have hleft : '&' ∉ a ++ '=' :: v := by
    simpa [ha.2.1] using not_mem_of_isParamChar hv.2 (by decide)
  have hright : '&' ∉ b ++ '=' :: w := by
    simpa [hb.2.1] using not_mem_of_isParamChar hw.2 (by decide)
  rw [queryParams, hquery, List.splitOn_append_cons_self_of_not_mem hleft,
    List.splitOn_eq_singleton hright, List.map_cons, List.map_singleton, paramOf_append ha.1,
    paramOf_append hb.1]

end PairUrl

/-- A URL with these two parameters, both read, is read as it is. -/
lemma unambiguous_of_firstValues {url connectToken id : Str}
    (hclean : ∀ c ∈ url, isLineTerminator c = false)
    (htoken : FirstValue "connectToken" url connectToken) (hid : FirstValue "extensionId" url id)
    (hparams : ∀ param, param ∈ queryParams url ↔
      param = ("extensionId".toList, id) ∨ param = ("connectToken".toList, connectToken)) :
    Unambiguous url := by
  have hne : "connectToken".toList ≠ "extensionId".toList := by decide
  constructor
  · intro connectToken' _
    rw [hparams]
    constructor
    · rintro (heq | heq)
      · exact absurd (congrArg Prod.fst heq) hne
      · obtain rfl : connectToken' = connectToken := congrArg Prod.snd heq
        exact ⟨hclean, htoken⟩
    · rintro ⟨-, hvalue⟩
      rw [hvalue.unique htoken]
      exact .inr rfl
  · intro _ _ _ id'
    rw [hparams]
    constructor
    · rintro (heq | heq)
      · obtain rfl : id' = id := congrArg Prod.snd heq
        exact ⟨hid.isInfix, .inl hid⟩
      · exact absurd (congrArg Prod.fst heq).symm hne
    · rintro ⟨-, hvalue | ⟨-, hnone⟩⟩
      · rw [hvalue.unique hid]
        exact .inl rfl
      · exact absurd ⟨id, hid⟩ hnone

lemma isLineTerminator_of_isParamChar {c : Char} (h : isParamChar c = true) :
    isLineTerminator c = false := by
  by_contra hline
  rw [Bool.not_eq_false, isLineTerminator, Bool.or_eq_true, decide_eq_true_eq,
    decide_eq_true_eq] at hline
  rcases hline with rfl | rfl
  · exact absurd h (by decide)
  · exact absurd h (by decide)

/-- A URL of such parts has no line terminators. -/
lemma isLineTerminator_pairUrl (hpath : ∀ c ∈ path, isLineTerminator c = false)
    (ha : ∀ c ∈ a, isLineTerminator c = false) (hb : ∀ c ∈ b, isLineTerminator c = false)
    (hv : ∀ c ∈ v, isParamChar c = true) (hw : ∀ c ∈ w, isParamChar c = true) :
    ∀ c ∈ pairUrl path a v b w, isLineTerminator c = false := by
  intro c hc
  simp only [pairUrl, List.mem_append, List.mem_cons] at hc
  rcases hc with hc | rfl | hc | rfl | hc | rfl | hc | rfl | hc
  · exact hpath c hc
  · rfl
  · exact ha c hc
  · rfl
  · exact isLineTerminator_of_isParamChar (hv c hc)
  · rfl
  · exact hb c hc
  · rfl
  · exact isLineTerminator_of_isParamChar (hw c hc)

/-- A URL with a connect token and an id of the pattern, in either order, has no
line terminators, and both are read. -/
lemma firstValues_of_pair {connectToken id : Str}
    (hpath : ∀ c ∈ path, c ≠ '?' ∧ c ≠ '=' ∧ isLineTerminator c = false)
    (htoken : IsConnectToken connectToken) (hid : extensionIdPattern.test id = true) {url : Str}
    (hurl : url = pairUrl path "extensionId" id "connectToken" connectToken ∨
      url = pairUrl path "connectToken" connectToken "extensionId" id) :
    (∀ c ∈ url, isLineTerminator c = false) ∧ FirstValue "connectToken" url connectToken ∧
      FirstValue "extensionId" url id ∧ ∀ param, param ∈ queryParams url ↔
        param = ("extensionId".toList, id) ∨ param = ("connectToken".toList, connectToken) := by
  have hfree : '?' ∉ path ∧ '=' ∉ path :=
    ⟨fun hmem => (hpath _ hmem).1 rfl, fun hmem => (hpath _ hmem).2.1 rfl⟩
  have hext : '=' ∉ "extensionId".toList ∧ '&' ∉ "extensionId".toList ∧ '?' ∉ "extensionId".toList := by
    decide
  have hct : '=' ∉ "connectToken".toList ∧ '&' ∉ "connectToken".toList ∧
      '?' ∉ "connectToken".toList := by decide
  have hextclean : ∀ c ∈ "extensionId".toList, isLineTerminator c = false :=
    forall_mem_of_all (by decide)
  have hctclean : ∀ c ∈ "connectToken".toList, isLineTerminator c = false :=
    forall_mem_of_all (by decide)
  have htokenclass : connectToken ≠ [] ∧ ∀ c ∈ connectToken, isParamChar c = true :=
    ⟨htoken.spec.1, fun c hc => isParamChar_of_mem (htoken.spec.2 c hc)⟩
  have hidclass := extensionIdPattern_spec hid
  rcases hurl with rfl | rfl
  · refine ⟨isLineTerminator_pairUrl (fun c hc => (hpath c hc).2.2) hextclean hctclean hidclass.2
        htokenclass.2,
      firstValue_pairUrl_right hfree hext hct hidclass htokenclass (by decide),
      firstValue_pairUrl_left hfree hext hidclass, fun param => ?_⟩
    rw [queryParams_pairUrl hfree hext hct hidclass htokenclass, List.mem_pair]
  · refine ⟨isLineTerminator_pairUrl (fun c hc => (hpath c hc).2.2) hctclean hextclean
        htokenclass.2 hidclass.2,
      firstValue_pairUrl_left hfree hct htokenclass,
      firstValue_pairUrl_right hfree hct hext htokenclass hidclass (by decide), fun param => ?_⟩
    rw [queryParams_pairUrl hfree hct hext htokenclass hidclass, List.mem_pair, or_comm]

/-- **The URL that an extension is to use** is read as it is, in either order of its
parameters. -/
theorem unambiguous_of_pair {connectToken id : Str}
    (hpath : ∀ c ∈ path, c ≠ '?' ∧ c ≠ '=' ∧ isLineTerminator c = false)
    (htoken : IsConnectToken connectToken) (hid : extensionIdPattern.test id = true) :
    Unambiguous (pairUrl path "extensionId" id "connectToken" connectToken) ∧
      Unambiguous (pairUrl path "connectToken" connectToken "extensionId" id) := by
  constructor
  · obtain ⟨hclean, htoken', hid', hparams⟩ := firstValues_of_pair hpath htoken hid (.inl rfl)
    exact unambiguous_of_firstValues hclean htoken' hid' hparams
  · obtain ⟨hclean, htoken', hid', hparams⟩ := firstValues_of_pair hpath htoken hid (.inr rfl)
    exact unambiguous_of_firstValues hclean htoken' hid' hparams

/-- A parameter whose name only ends in `connectToken` is taken for it. -/
theorem look_alike_accepted : ¬ ∀ url, HandshakeSound url := by
  intro h
  obtain ⟨connectToken, htoken⟩ := exists_isConnectToken
  have hclass : ∀ c ∈ connectToken, isParamChar c = true := fun c hc =>
    isParamChar_of_mem (htoken.spec.2 c hc)
  let url := "/?x".toList ++ ("connectToken".toList ++ '=' :: (connectToken ++ []))
  have hvalue : FirstValue "connectToken" url connectToken := by
    refine FirstValue.append (.here htoken.spec.1 hclass (by simp)) fun s hs hsuffix => ?_
    exact not_place_of_not_mem hs (fun hmem => absurd (hsuffix.mem hmem) (by decide)) (by decide) _
  have hclean : ∀ c ∈ url, isLineTerminator c = false := by
    intro c hc
    rcases List.mem_append.mp hc with hc | hc
    · exact forall_mem_of_all (P := (isLineTerminator · = false)) (s := "/?x") (by decide) c hc
    · rcases List.mem_append.mp hc with hc | hc
      · exact forall_mem_of_all (P := (isLineTerminator · = false)) (s := "connectToken") (by decide) c hc
      · rcases List.mem_cons.mp hc with rfl | hc
        · rfl
        · exact isLineTerminator_of_isParamChar (hclass c (by simpa using hc))
  have hquery : queryParams url = [("xconnectToken".toList, connectToken)] := by
    have htail : (url.dropWhile (· ≠ '?')).tail = "xconnectToken".toList ++ '=' :: connectToken := by
      show 'x' :: ("connectToken".toList ++ '=' :: (connectToken ++ [])) = _
      rw [List.append_nil]
      rfl
    have hamp : '&' ∉ "xconnectToken".toList ++ '=' :: connectToken := by
      simpa using not_mem_of_isParamChar hclass (by decide)
    rw [queryParams, htail, List.splitOn_eq_singleton hamp, List.map_singleton,
      paramOf_append (by decide)]
  have haccepted : handleValidate ⟨.window, connectToken, [getExtensionIdFromUrl url]⟩ url
      "localhost" = true :=
    handleValidate_iff.mpr ⟨.inl rfl, hasConnectToken_iff.mpr ⟨hvalue.isInfix, hclean⟩,
      (firstValue_token_iff htoken).mp hvalue, fun _ => List.mem_singleton_self _⟩
  have hparam := (((h url).accepted _ _ htoken).mp haccepted).token
  rw [hquery] at hparam
  have hne : "connectToken".toList ≠ "xconnectToken".toList := by decide
  exact hne (congrArg Prod.fst (List.mem_singleton.mp hparam))

end Pair

end neuserver

end Neutralino
