import Neutralino.Config.KeyValue
import Neutralino.Config.Shadowing

/-!
The integer flags of the command line.

* `completeInt`: a complete decimal integer in the range of `int`.
* `Ignored`: the value texts with which a flag is not read as a flag.
* `Starts.insert`: what one more integer flag does to a program that starts.
* `Honoured`: the flag sets its option where its text is a complete integer, and
  changes nothing otherwise.
* `honoured_iff`: **which texts are honoured**: the conversion takes the number a
  text begins with and throws where there is none, so only complete integers and
  ignored texts are.
-/

namespace Neutralino.settings

open Paths

/-! ### Texts -/

/-- A complete decimal integer, a sign perhaps and digits, in the range of `int`. -/
def completeInt (v : Str) : Option ℤ :=
  let negative := v.head? = some '-'
  let digits := if negative ∨ v.head? = some '+' then v.tail else v
  let magnitude : ℤ := Nat.ofDigitChars 10 digits 0
  let value := if negative then -magnitude else magnitude
  if digits ≠ [] ∧ digits.all Char.isDigit ∧ -2 ^ 31 ≤ value ∧ value < 2 ^ 31 then some value
  else none

/-- The text of a complete integer: no blank stands before it. -/
lemma dropWhile_of_completeInt {v : Str} {n : ℤ} (h : completeInt v = some n) :
    v.dropWhile helpers.isspace = v ∧ '\n' ∉ v ∧ v ≠ [] := by
  unfold completeInt at h
  extract_lets negative digits magnitude value at h
  split_ifs at h with hall
  obtain ⟨hne, hdigits, -, -⟩ := hall
  have hdigit : ∀ c ∈ digits, c.isDigit = true := List.all_eq_true.mp hdigits
  have hspace : ∀ c ∈ digits, helpers.isspace c = false := fun c hc =>
    (isspace_of_isDigit (hdigit c hc)).1
  have hnewline : '\n' ∉ digits := fun hc => absurd (hspace _ hc) (by decide)
  cases v with
  | nil => exact absurd (by simp [digits]) hne
  | cons c v =>
      by_cases hsign : negative ∨ (c :: v).head? = some '+'
      · have htail : digits = v := if_pos hsign
        have hc : c = '-' ∨ c = '+' := by
          simpa [negative] using hsign
        refine ⟨?_, ?_, List.cons_ne_nil _ _⟩
        · rcases hc with rfl | rfl <;> rfl
        · rw [List.mem_cons, not_or]
          refine ⟨?_, htail ▸ hnewline⟩
          rcases hc with rfl | rfl <;> decide
      · have hwhole : digits = c :: v := if_neg hsign
        refine ⟨?_, hwhole ▸ hnewline, List.cons_ne_nil _ _⟩
        rw [List.dropWhile_cons, hspace c (hwhole ▸ List.mem_cons_self)]
        rfl

/-- A complete integer is what `stoi` reads. -/
lemma stoi_of_completeInt {v : Str} {n : ℤ} (h : completeInt v = some n) : stoi v = .ok n := by
  have hdrop := (dropWhile_of_completeInt h).1
  unfold completeInt at h
  extract_lets negative digits magnitude value at h
  split_ifs at h with hall
  obtain ⟨hne, hdigits, hlow, hhigh⟩ := hall
  have htake : (if v.head? = some '-' ∨ v.head? = some '+' then v.tail else v).takeWhile
      Char.isDigit = digits :=
    List.takeWhile_eq_self_iff.mpr (List.all_eq_true.mp hdigits)
  have hrange : ¬ (value < -2 ^ 31 ∨ 2 ^ 31 ≤ value) := by omega
  unfold stoi
  rw [hdrop]
  extract_lets s negative' digits' magnitude' value'
  have hsame : digits' = digits := htake
  have hvalue : value' = value := by simp only [value', magnitude', hsame, value, magnitude]; rfl
  rw [hsame, if_neg hne, hvalue]
  exact (if_neg hrange).trans (congrArg _ (Option.some.inj h))

/-- The value texts with which the argument is not read as the flag: no text, an
empty line, or more than one line. -/
def Ignored (v : Str) : Prop := v = [] ∨ v = ['\n'] ∨ ∃ u rest, v = u ++ '\n' :: rest ∧ rest ≠ []

/-- With an ignored text the argument is a key of its own; with any other it is
the flag with the text, of which a last newline is dropped. -/
lemma ignored_or_read (v : Str) :
    (Ignored v ∧ ∀ flag, '=' ∉ flag → parseArg (flag ++ '=' :: v) = ⟨flag ++ '=' :: v, []⟩) ∨
      (¬ Ignored v ∧ ∃ w, (v = w ∨ v = w ++ ['\n']) ∧
        ∀ flag, '=' ∉ flag → parseArg (flag ++ '=' :: v) = ⟨flag, w⟩) := by
  by_cases hnil : v = []
  · refine .inl ⟨.inl hnil, fun flag hflag => ?_⟩
    rw [parseArg_append hflag, hnil]
    rfl
  by_cases hline : '\n' ∈ v
  swap
  · refine .inr ⟨?_, v, .inl rfl, fun flag hflag => (parseArg_eq_iff hflag hnil).mpr hline⟩
    rintro (h | rfl | ⟨u, rest, rfl, -⟩)
    · exact hnil h
    · simp at hline
    · simp at hline
  obtain ⟨u, rest, rfl, hu⟩ := List.eq_append_cons_of_mem hline
  by_cases hrest : rest = []
  swap
  · refine .inl ⟨.inr (.inr ⟨u, rest, rfl, hrest⟩), fun flag hflag => ?_⟩
    obtain ⟨line, lines, hlines⟩ := List.exists_cons_of_ne_nil
      (mt helpers.lines_eq_nil_iff.mp hrest)
    rw [parseArg_append hflag, helpers.lines_append hu, hlines]
  subst hrest
  by_cases hempty : u = []
  · refine .inl ⟨.inr (.inl (by rw [hempty]; rfl)), fun flag hflag => ?_⟩
    rw [parseArg_append hflag, hempty]
    rfl
  · refine .inr ⟨?_, u, .inr rfl, fun flag hflag => ?_⟩
    · rintro (h | h | ⟨u', rest, h, hrest⟩)
      · exact hnil h
      · exact hempty (List.append_cancel_right (h.trans (List.nil_append _).symm))
      · have hlast := congrArg List.dropLast h
        rw [List.dropLast_concat, List.dropLast_append_of_ne_nil (List.cons_ne_nil _ _),
          List.dropLast_cons_of_ne_nil hrest] at hlast
        exact hu (by rw [hlast]; simp)
    · rw [parseArg_append hflag, helpers.lines_append hu]
      exact if_pos (List.length_pos_of_ne_nil hempty)

/-! ### The targets of an integer flag -/

section Flag

/-- The options that `init` reads itself. -/
def readByInit : List (List String) :=
  ["defaultMode"] :: ["applicationId"] :: ["dataLocation"] ::
    helpers.getModes.map fun mode => ["modes", mode, "dataLocation"]

lemma equals_not_mem_flag : ∀ mapping ∈ cliMappings, '=' ∉ mapping.flag.toList := by
  decide +kernel

variable {mapping : Mapping} (hmapping : mapping ∈ cliMappings) (hint : mapping.convertTo = .int)

include hmapping hint

/-- No other flag overrides a pointer of an integer flag. -/
lemma target_unique {mapping' : Mapping} (hmapping' : mapping' ∈ cliMappings) {target : List String}
    (htarget : target ∈ mapping.targets) (htarget' : target ∈ mapping'.targets) :
    mapping' = mapping := by
  have hall : ∀ m ∈ cliMappings, m.convertTo = .int → ∀ m' ∈ cliMappings, ∀ t ∈ m.targets,
      t ∈ m'.targets → m' = m := by
    decide +kernel
  exact hall mapping hmapping hint mapping' hmapping' target htarget htarget'

/-- An integer flag overrides none of the options that `init` reads itself. -/
lemma not_owns_of_int {q : List String} (hq : q ∈ readByInit) : q ∉ mapping.targets := by
  have hall : ∀ m ∈ cliMappings, m.convertTo = .int → ∀ q ∈ readByInit, q ∉ m.targets := by
    decide +kernel
  exact hall mapping hmapping hint q hq

lemma flag_of_int : mapping.flag ≠ "--mode" ∧ mapping.flag ≠ "--config-file" := by
  have hall : ∀ m ∈ cliMappings, m.convertTo = .int →
      m.flag ≠ "--mode" ∧ m.flag ≠ "--config-file" := by
    decide +kernel
  exact hall mapping hmapping hint

end Flag

/-! ### One more integer flag -/

section Insert

variable {env : Environment} {currentDirectory : Str} {before after : List Str} {given w : Str}
  {config final : Json} {s s' : State} {mapping : Mapping} {n : ℤ}
  (hmapping : mapping ∈ cliMappings) (hint : mapping.convertTo = .int)
  (hgiven : parseArg given = ⟨mapping.flag.toList, w⟩)

include hmapping hint hgiven

/-- What the flag overrides: each of its pointers with the number. -/
lemma mem_overridesOf_iff {o : ConfigOverride} : o ∈ overridesOf (parseArg given) ↔
    ∃ target ∈ mapping.targets, o = ⟨target.map String.toList, w, .int⟩ := by
  have hvalue : ∀ target, mapping.override ⟨mapping.flag.toList, w⟩ target =
      ⟨target.map String.toList, w, .int⟩ := fun target => by
    rw [Mapping.override, Mapping.valueOf, hint, if_neg (by simp)]
  rw [hgiven, overridesOf_of_flag hmapping (flag_of_int hmapping hint).1 rfl, List.mem_map]
  simp only [hvalue, eq_comm]

/-- The overrides with the flag go through where its text is read and its pointers
are reached. -/
lemma applyOverrides_insert_iff (h : Starts env currentDirectory (before ++ after) config s) :
    (∃ final, applyOverrides config (collected (before ++ given :: after)) = .ok final) ↔
      (∃ n, stoi w = .ok n) ∧ ∀ target ∈ mapping.targets, Reaches (target.map String.toList) config := by
  rw [applyOverrides_added_iff h]
  constructor
  · intro hthrough
    have hnew : ∀ target ∈ mapping.targets,
        Reaches (target.map String.toList) config ∧ ∃ n, stoi w = .ok n := by
      intro target htarget
      have ho := (mem_overridesOf_iff hmapping hint hgiven).mpr ⟨target, htarget, rfl⟩
      obtain ⟨hreaches, value, hconvert⟩ := hthrough _ ho
      obtain ⟨n, hn, -⟩ := bind_eq_ok.mp hconvert
      exact ⟨hreaches, n, hn⟩
    exact ⟨(hnew _ List.mem_cons_self).2, fun target htarget => (hnew target htarget).1⟩
  · rintro ⟨⟨n, hn⟩, hreach⟩ o ho
    obtain ⟨target, htarget, rfl⟩ := (mem_overridesOf_iff hmapping hint hgiven).mp ho
    exact ⟨hreach target htarget, .num n, by rw [ConfigOverride.convert, hn]; rfl⟩

/-- A pointer of the tables that is none of the flag's reads as without it. -/
lemma getAt_insert (h : Starts env currentDirectory (before ++ after) config s)
    (happly : applyOverrides config (collected (before ++ given :: after)) = .ok final)
    {q : List Str} (hq : isTarget q = true) (howns : ¬ mapping.Owns q) :
    getAt q final = getAt q s.options := by
  refine getAt_added_of_ne h happly hq fun o ho heq => ?_
  obtain ⟨target, htarget, rfl⟩ := (mem_overridesOf_iff hmapping hint hgiven).mp ho
  exact howns ⟨target, htarget, heq⟩

/-- The pointers of the flag read as its number, unless the flag is given again. -/
lemma getAt_target_insert (hn : stoi w = .ok n)
    (happly : applyOverrides config (collected (before ++ given :: after)) = .ok final)
    (hafter : occurrences mapping.flag after = []) {target : List String}
    (htarget : target ∈ mapping.targets) : getAt (target.map String.toList) final = .num n := by
  have hnone : (collected after).filter (fun o => o.key = target.map String.toList) = [] := by
    refine List.filter_eq_nil_iff.mpr fun o ho heq => ?_
    obtain ⟨arg, harg, ho⟩ := List.mem_flatMap.mp ho
    obtain ⟨other, hother, hflag, target', htarget', rfl⟩ := mem_overridesOf ho
    obtain rfl : target' = target :=
      List.map_injective_iff.mpr (fun _ _ => String.toList_inj.mp) (of_decide_eq_true heq)
    obtain rfl := target_unique hmapping hint hother htarget htarget'
    have hoccurs : parseArg arg ∈ occurrences other.flag after :=
      List.mem_filter.mpr ⟨List.mem_map_of_mem harg, by simpa using hflag.symm⟩
    rw [hafter] at hoccurs
    cases hoccurs
  have hlast : ∃ o, ((overridesOf (parseArg given)).filter fun o =>
      o.key = target.map String.toList).getLast? = some o := by
    refine Option.ne_none_iff_exists'.mp (mt List.getLast?_eq_none_iff.mp ?_)
    refine List.ne_nil_of_mem (List.mem_filter.mpr
      ⟨(mem_overridesOf_iff hmapping hint hgiven).mpr ⟨target, htarget, rfl⟩, ?_⟩)
    exact decide_eq_true rfl
  obtain ⟨o, ho⟩ := hlast
  obtain ⟨target', -, rfl⟩ := (mem_overridesOf_iff hmapping hint hgiven).mp
    (List.mem_of_mem_filter (List.mem_of_getLast? ho))
  rw [getAt_applyOverrides (compatible_collected _) happly
    (aside_collected (isTarget_of_mem hmapping htarget) _), collected_insert, List.filter_append,
    List.filter_append, hnone, List.append_nil, List.getLast?_append, ho, Option.some_or,
    Option.map_some, Option.getD_some, ConfigOverride.converted, ConfigOverride.convert, hn]
  rfl

/-- An option that `init` reads itself is the one without the flag. -/
lemma getAt_read_insert (h : Starts env currentDirectory (before ++ after) config s)
    (happly : applyOverrides config (collected (before ++ given :: after)) = .ok final)
    {q : List String} (hq : q ∈ readByInit) :
    getAt (q.map String.toList) final = getAt (q.map String.toList) s.options := by
  have htarget : isTarget (q.map String.toList) = true :=
    (by decide +kernel : ∀ q ∈ readByInit, isTarget (q.map String.toList) = true) q hq
  refine getAt_insert hmapping hint hgiven h happly htarget ?_
  rintro ⟨target, hmem, heq⟩
  obtain rfl : target = q := List.map_injective_iff.mpr (fun _ _ => String.toList_inj.mp) heq
  exact not_owns_of_int hmapping hint hq hmem

/-- `init` reads with the flag the data location that it reads without it. -/
lemma dataLocation_insert (h : Starts env currentDirectory (before ++ after) config s)
    (happly : applyOverrides config (collected (before ++ given :: after)) = .ok final) :
    dataLocation final = dataLocation s.options := by
  have hsame : ∀ q ∈ readByInit, getAt (q.map String.toList) final =
      getAt (q.map String.toList) s.options :=
    fun q hq => getAt_read_insert hmapping hint hgiven h happly hq
  obtain ⟨-, jLoc, hloc⟩ := h.applies
  obtain ⟨mode, hmode, -⟩ := bind_eq_ok.mp hloc
  have hreadable := h.readable hmode
  have hreadable' := readable_added h happly hreadable
  have hmode' : getMode final = .ok mode :=
    (getMode_congr hreadable.1 hreadable'.1 (hsame ["defaultMode"] (by simp [readByInit]))).trans hmode
  obtain ⟨name, hname, hplace⟩ := exists_modePath mode
  have hsection := hsame ["modes", name, "dataLocation"] (by simp [readByInit, hname])
  have hpath : ["modes", name, "dataLocation"].map String.toList = modePath mode "dataLocation" :=
    hplace "dataLocation" []
  rw [hpath] at hsection
  rw [dataLocation, dataLocation, getOptionForCurrentMode_eq hmode' hreadable',
    getOptionForCurrentMode_eq hmode hreadable,
    effective_congr hsection (hsame ["dataLocation"] (by simp [readByInit]))]

/-- **What one more integer flag does**: where its text is read and its pointers are
reached, the program starts with the number at its pointers. -/
lemma Starts.insert (h : Starts env currentDirectory (before ++ after) config s)
    (hn : stoi w = .ok n)
    (hreach : ∀ target ∈ mapping.targets, Reaches (target.map String.toList) config) :
    ∃ s', Starts env currentDirectory (before ++ given :: after) config s' ∧
      (∀ q, isTarget q = true → ¬ mapping.Owns q → getAt q s'.options = getAt q s.options) ∧
      (occurrences mapping.flag after = [] → ∀ target ∈ mapping.targets,
        getAt (target.map String.toList) s'.options = .num n) := by
  obtain ⟨final, happly⟩ := (applyOverrides_insert_iff hmapping hint hgiven h).mpr ⟨⟨n, hn⟩, hreach⟩
  obtain ⟨-, dataLoc, hdata⟩ := h.reads
  have hfile : (parseArg given).key ≠ "--config-file".toList := fun heq => by
    rw [hgiven] at heq
    exact (flag_of_int hmapping hint).2 (String.toList_inj.mp heq)
  obtain ⟨s', hs', rfl⟩ := exists_starts_added h happly hfile
    ((dataLocation_insert hmapping hint hgiven h happly).trans hdata)
  exact ⟨s', hs', fun q hq howns => getAt_insert hmapping hint hgiven h happly hq howns,
    fun hafter target htarget => getAt_target_insert hmapping hint hgiven hn happly hafter htarget⟩

end Insert

/-! ### Honoured texts -/

/-- The argument that gives a flag: bare, or with a value text. -/
def givenBy (flag : Str) : Option Str → Str
  | none => flag
  | some v => flag ++ '=' :: v

/-- What is expected of an argument with a value text, for a configuration: wherever
it stands among arguments with which the program starts, the program starts with
it too.  A complete integer is set, unless the flag is given again, and the other
pointers read as without the flag; any other text leaves the options. -/
def Honoured (mapping : Mapping) (config : Json) (v given : Str) : Prop :=
  ∀ env currentDirectory before after s,
    Starts env currentDirectory (before ++ after) config s →
      ∃ s', Starts env currentDirectory (before ++ given :: after) config s' ∧
        match completeInt v with
        | some n =>
            (∀ q, isTarget q = true → ¬ mapping.Owns q → getAt q s'.options = getAt q s.options) ∧
              (occurrences mapping.flag after = [] → ∀ target ∈ mapping.targets,
                getAt (target.map String.toList) s'.options = .num n)
        | none => s'.options = s.options

section Honour

variable {env : Environment} {currentDirectory : Str} {args : List Str} {config : Json} {s : State}
  {mapping : Mapping}

/-- An ignored text is honoured. -/
lemma honoured_of_ignored (hmapping : mapping ∈ cliMappings) {v : Str} (hv : Ignored v) :
    Honoured mapping config v (givenBy mapping.flag.toList (some v)) := by
  have hequals := equals_not_mem_flag _ hmapping
  have hparse : parseArg (givenBy mapping.flag.toList (some v)) =
      ⟨mapping.flag.toList ++ '=' :: v, []⟩ :=
    ((ignored_or_read v).resolve_right fun h => h.1 hv).2 _ hequals
  have hmem : '=' ∈ mapping.flag.toList ++ '=' :: v := by simp
  have hnone : overridesOf (parseArg (givenBy mapping.flag.toList (some v))) = [] := by
    have hfind : cliMappings.find? (fun m =>
        m.flag.toList = mapping.flag.toList ++ '=' :: v) = none := by
      refine List.find?_eq_none.mpr fun m hm heq => equals_not_mem_flag m hm ?_
      rw [of_decide_eq_true heq]
      exact hmem
    rw [hparse, overridesOf, hfind]
  have hcomplete : completeInt v = none := by
    by_contra hsome
    obtain ⟨n, hn⟩ := Option.ne_none_iff_exists'.mp hsome
    obtain ⟨-, hline, hne⟩ := dropWhile_of_completeInt hn
    rcases hv with rfl | rfl | ⟨u, rest, rfl, -⟩
    · exact hne rfl
    · exact hline (by simp)
    · exact hline (by simp)
  intro env currentDirectory before after s h
  have hfile : (parseArg (givenBy mapping.flag.toList (some v))).key ≠ "--config-file".toList := by
    rw [hparse]
    intro heq
    have heq : mapping.flag.toList ++ '=' :: v = "--config-file".toList := heq
    rw [heq] at hmem
    exact absurd hmem (by decide)
  rw [hcomplete]
  exact h.insert_of_nil hfile hnone

/-- A number that is not the one given. -/
def otherNumber (n : ℤ) : Str := if n = 0 then ['1'] else ['0']

lemma stoi_otherNumber (n : ℤ) : ∃ m, stoi (otherNumber n) = .ok m ∧ m ≠ n ∧
    ∀ flag, '=' ∉ flag → parseArg (flag ++ '=' :: otherNumber n) = ⟨flag, otherNumber n⟩ := by
  rw [otherNumber]
  split_ifs with hn
  · refine ⟨1, rfl, by omega, fun flag hflag => ?_⟩
    exact (parseArg_eq_iff hflag (by simp)).mpr (by simp)
  · refine ⟨0, rfl, by omega, fun flag hflag => ?_⟩
    exact (parseArg_eq_iff hflag (by simp)).mpr (by simp)

/-- What an argument that is read as the flag must be, to be honoured. -/
lemma of_honoured (hstart : Starts env currentDirectory args config s)
    (hmapping : mapping ∈ cliMappings) (hint : mapping.convertTo = .int) {v given w : Str}
    (hgiven : parseArg given = ⟨mapping.flag.toList, w⟩)
    (h : Honoured mapping config v given) :
    (∃ n, stoi w = .ok n ∧ (completeInt v).isSome) ∧
      ∀ target ∈ mapping.targets, Reaches (target.map String.toList) config := by
  have hstart' : Starts env currentDirectory (args ++ []) config s := by
    rwa [List.append_nil]
  obtain ⟨s', hs', -⟩ := h _ _ _ _ _ hstart'
  obtain ⟨⟨n, hn⟩, hreach⟩ :=
    (applyOverrides_insert_iff hmapping hint hgiven hstart').mp ⟨_, hs'.applies.1⟩
  refine ⟨⟨n, hn, ?_⟩, hreach⟩
  by_contra hnone
  rw [Option.not_isSome_iff_eq_none] at hnone
  -- after the flag with another number, the text changes the option
  obtain ⟨m, hm, hne, hparse⟩ := stoi_otherNumber n
  obtain ⟨t, ht, -, htarget⟩ := hstart'.insert hmapping hint
    (hparse _ (equals_not_mem_flag _ hmapping)) hm hreach
  obtain ⟨t', ht', hsame⟩ := h _ _ _ [] t (by simpa using ht)
  rw [hnone] at hsame
  have hset : getAt (mapping.key.map String.toList) t'.options = .num n :=
    getAt_target_insert hmapping hint hgiven hn ht'.applies.1 rfl List.mem_cons_self
  have hwas := htarget rfl _ List.mem_cons_self
  rw [hsame, hwas] at hset
  exact hne (Json.num.inj hset)

/-- **Which value texts are honoured**, by a configuration with which the program
starts: the ignored ones, and the complete integers where the sections on the way
to the option are objects or absent.  The bare flag never is. -/
theorem honoured_iff (hstart : Starts env currentDirectory args config s)
    (hmapping : mapping ∈ cliMappings) (hint : mapping.convertTo = .int) (v : Option Str) :
    Honoured mapping config (v.getD []) (givenBy mapping.flag.toList v) ↔
      ∃ text, v = some text ∧ (Ignored text ∨ (completeInt text).isSome ∧
        ∀ target ∈ mapping.targets, Reaches (target.map String.toList) config) := by
  have hequals := equals_not_mem_flag _ hmapping
  constructor
  · intro h
    cases v with
    | none =>
        obtain ⟨⟨n, hn, -⟩, -⟩ := of_honoured hstart hmapping hint (parseArg_flag hequals) h
        cases hn
    | some text =>
        refine ⟨text, rfl, ?_⟩
        rcases ignored_or_read text with ⟨hignored, -⟩ | ⟨-, w, -, hparse⟩
        · exact .inl hignored
        · obtain ⟨⟨n, -, hcomplete⟩, hreach⟩ :=
            of_honoured hstart hmapping hint (hparse _ hequals) h
          exact .inr ⟨hcomplete, hreach⟩
  · rintro ⟨text, rfl, hignored | ⟨hcomplete, hreach⟩⟩
    · exact honoured_of_ignored hmapping hignored
    · obtain ⟨n, hn⟩ := Option.isSome_iff_exists.mp hcomplete
      obtain ⟨-, hline, hne⟩ := dropWhile_of_completeInt hn
      have hgiven := (parseArg_eq_iff hequals hne).mpr hline
      intro env currentDirectory before after s h
      rw [Option.getD_some, hn]
      exact h.insert hmapping hint hgiven (stoi_of_completeInt hn) hreach

end Honour

/-- `--port`. -/
def portMapping : Mapping := ⟨"--port", ["port"], .int⟩

/-- Without a configuration every pointer is reached. -/
lemma reaches_empty (q : List Str) : Reaches q (.obj [] : Json) := by
  have hnull : ∀ q : List Str, Reaches q Json.null := fun q => by
    induction q with
    | nil => trivial
    | cons key q ih => exact ⟨trivial, ih⟩
  cases q with
  | nil => trivial
  | cons key q => exact ⟨trivial, hnull q⟩

lemma starts_empty : ∃ s, Starts (environmentOf (.obj [])) "/" ["/app/bin/app"] (.obj []) s :=
  ⟨_, loads_environmentOf _ _, rfl⟩

theorem port_honoured :
    Honoured portMapping (.obj []) "8080" (givenBy portMapping.flag.toList (some "8080")) := by
  obtain ⟨s, hs⟩ := starts_empty
  exact (honoured_iff hs (by simp [cliMappings, portMapping]) rfl (some "8080")).mpr
    ⟨"8080", rfl, .inr ⟨rfl, fun target _ => reaches_empty _⟩⟩

/-- **`--port=12abc` is not honoured**: it sets the port to 12; and `--port=abc` is not,
as `init` throws. -/
theorem trailing_text_not_honoured :
    ¬ Honoured portMapping (.obj []) "12abc" (givenBy portMapping.flag.toList (some "12abc")) ∧
      ¬ Honoured portMapping (.obj []) "abc" (givenBy portMapping.flag.toList (some "abc")) := by
  obtain ⟨s, hs⟩ := starts_empty
  have hmapping : portMapping ∈ cliMappings := by simp [cliMappings, portMapping]
  have hequals := equals_not_mem_flag _ hmapping
  constructor
  · intro h
    have hgiven : parseArg (portMapping.flag.toList ++ '=' :: ("12abc" : Str)) =
        ⟨portMapping.flag.toList, "12abc"⟩ := (parseArg_eq_iff hequals (by decide)).mpr (by decide)
    obtain ⟨⟨n, -, hcomplete⟩, -⟩ := of_honoured hs hmapping rfl hgiven h
    cases hcomplete
  · intro h
    have hgiven : parseArg (portMapping.flag.toList ++ '=' :: ("abc" : Str)) =
        ⟨portMapping.flag.toList, "abc"⟩ := (parseArg_eq_iff hequals (by decide)).mpr (by decide)
    obtain ⟨⟨n, hn, -⟩, -⟩ := of_honoured hs hmapping rfl hgiven h
    cases hn

end Neutralino.settings
