import Neutralino.Resources.Bundle
import Neutralino.Server.JsonRoundTrip

/-!
The header of an archive, read by the JSON library of the framework.

* `parseText`: the parser as the two loaders call it.
* `parsesPadded_iff`: the zeros behind a header text disturb nothing.
* `archive_readsBack`: **an archive is read back** whichever JSON text its header is, and
  what is no such text gives no tree.
-/

namespace Neutralino.resources

open JsonText (Floats)
open parser (domOf)
open serializer (bytesOf)

variable {φ : Type} [Floats φ] {float : φ → Json}

/-- `json::parse` of a `std::string`, absent where it throws. -/
def parseText (float : φ → Json) (s : Str) : Option Json :=
  (parser.parse float (bytesOf s)).toOption

lemma parseText_eq_some {s : Str} {j : Json} :
    parseText float s = some j ↔ parser.parse float (bytesOf s) = .ok j := by
  unfold parseText
  cases parser.parse float (bytesOf s) <;> simp [Except.toOption]

lemma bytesOf_append (s t : Str) : bytesOf (s ++ t) = bytesOf s ++ bytesOf t := List.map_append

/-- Zeros behind a text are behind its end. -/
lemma holds_append_zeros {bytes : List UInt8} {v : JsonText.Value (JsonText.Number φ)}
    (h : parser.Holds bytes v) (k : ℕ) :
    parser.Holds (bytes ++ bytesOf (List.replicate k '\x00')) v := by
  obtain ⟨mark, t, tail, rfl, hmark, htail, hparses⟩ := h
  refine ⟨mark, t, tail ++ bytesOf (List.replicate k '\x00'), by simp, hmark, ?_, hparses⟩
  cases tail with
  | nil =>
      cases k with
      | zero => exact htail
      | succ k =>
          intro b hb
          rw [List.replicate_succ] at hb
          obtain rfl := Option.some.inj hb
          rfl
  | cons b tail => exact htail

/-- **The zeros behind a header text disturb nothing.** -/
theorem parsesPadded_iff {text : Str} {header : Json} :
    ParsesPadded (parseText float) text header ↔
      ∃ v, parser.Holds (φ := φ) (bytesOf text) v ∧ header = domOf float v := by
  constructor
  · intro h
    have hparse := h 0 (by omega)
    rw [List.replicate_zero, List.append_nil, parseText_eq_some] at hparse
    exact parser.holds_of_parse hparse
  · rintro ⟨v, hholds, rfl⟩ k -
    rw [parseText_eq_some, bytesOf_append]
    exact (holds_append_zeros hholds k).parse

/-- A header is null unless it is the text of a value that is not. -/
lemma parseHeader_isNull_iff {text : Str} : (parseHeader (parseText float) text).isNull = false ↔
    ∃ v, parser.Holds (φ := φ) (bytesOf text) v ∧ domOf float v ≠ .null := by
  rw [parseHeader]
  constructor
  · intro h
    cases hparse : parseText float text with
    | none => simp [hparse, Json.isNull] at h
    | some j =>
        obtain ⟨v, hholds, rfl⟩ := parser.holds_of_parse (parseText_eq_some.mp hparse)
        refine ⟨v, hholds, fun hnull => ?_⟩
        simp [hparse, hnull, Json.isNull] at h
  · rintro ⟨v, hholds, hne⟩
    rw [parseText_eq_some.mpr hholds.parse, Option.getD_some]
    cases hj : domOf float v <;> first | rfl | exact absurd hj hne

/-- A bundle has a tree exactly if its header is the text of a value that is not null. -/
theorem makeBundleFileTree_iff {tree : FileTree} {archive : Archive} :
    (makeBundleFileTree (parseText float) tree (some archive)).1 = true ↔
      ∃ v, parser.Holds (φ := φ)
          (bytesOf (fillBuffer (headerSize archive.bytes) (archive.bytes.drop 16))) v ∧
        domOf float v ≠ .null := by
  rw [← parseHeader_isNull_iff, makeBundleFileTree]
  exact iff_of_eq (Bool.not_eq_true' _)

/-- **An archive is read back** by both loaders, file by file, whichever JSON text its header
is, as long as the end of the header fits in 32 bits. -/
theorem archive_readsBack {text payload : Str} {tree : Tree}
    {v : JsonText.Value (JsonText.Number φ)} (hholds : parser.Holds (bytesOf text) v)
    (hlays : Lays payload tree (domOf float v)) (hpayload : payload.length < 2 ^ 31)
    (hlt : paddedLength text + 16 < 2 ^ 32) (h : (archiveText text payload).length < 2 ^ 63) :
    ReadsBack (parseText float) (archiveOf text payload h) tree := by
  intro initial names content hhas
  obtain ⟨made, hheader, hsize, hbundle, loaded, hembedded⟩ :=
    makeFileTree_of_lt (parsesPadded_iff.mpr ⟨v, hholds, rfl⟩) h hlt initial
  obtain ⟨offset, hstored⟩ := holds_archiveOf hlays hpayload h hheader hsize hhas
  exact ⟨hbundle ▸ getFileFromBundle_of_stores hstored.stores, loaded, made, hembedded,
    getFileFromEmbedded_of_stores hstored.stores⟩

/-- The header of a directory with one file of one byte, as a value of its text. -/
def oneFileValue (name : Str) : JsonText.Value (JsonText.Number Empty) :=
  .obj [("files".toList, .obj [(name, .obj [("size".toList, .num (.whole 1)),
    ("offset".toList, .str "0")])])]

/-- The archive with `index.js` in it. -/
theorem index_archive_readsBack :
    ReadsBack (parseText Empty.elim) (archiveOf (oneFileText "index.js") "!" (by decide))
      (oneFile ⟨"index.js", by decide⟩) := by
  have hback : ∀ n, .num n ∈ JsonText.tokens (oneFileValue "index.js") → JsonText.ReadBack n := by
    intro n hn
    obtain rfl : n = .whole 1 := by
      simpa [oneFileValue, JsonText.tokens, JsonText.tokensMembers, List.intercalate] using hn
    exact JsonText.readBack_whole (by decide)
  have hholds : parser.Holds (bytesOf (oneFileText "index.js")) (oneFileValue "index.js") :=
    ⟨[], JsonText.dump (oneFileValue "index.js"), [], by decide, .inl rfl, by simp [lexer.Tail],
      JsonText.parses_dump hback⟩
  have hlays : Lays "!" (oneFile ⟨"index.js", by decide⟩)
      (domOf Empty.elim (oneFileValue "index.js")) := by
    refine .dir rfl fun e he => ?_
    obtain rfl := List.mem_singleton.mp he
    exact @Lays.file _ _ _ 0 rfl rfl (Nat.zero_le _) List.prefix_rfl
  exact archive_readsBack hholds hlays (by decide) (by decide) (by decide)

end Neutralino.resources
