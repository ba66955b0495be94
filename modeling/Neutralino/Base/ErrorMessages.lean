import Neutralino.Base.Errors
import Neutralino.Library.LiteralPass

/-!
The messages of `errors.cpp` and the parameter they are to quote.

* `quoted`: the template of a status code with its `%1` replaced literally.
* `readParam`: the parameter read back from a message, by its template.
* `IsTemplate`: what every template keeps to, `isTemplate_findStatusCodeDesc`.
* `quotes_iff`: **when a message quotes its parameter**: the parameter is used as a
  replacement format, so it must hold no `$` sequence, unless the template has no `%1`.
-/

namespace Neutralino.errors

open Replace

/-- The place of the parameter in a template. -/
def placeholder : Str := ['%', '1']

/-- The template of a status code with its `%1` replaced by the parameter literally. -/
def quoted (code : StatusCode) (param : Str) : Str :=
  substitute placeholder param (findStatusCodeDesc code)

/-- The parameter of a message: what stands in it in the place of the `%1`. -/
def readParam (code : StatusCode) (message : Str) : Option Str :=
  (cut placeholder (findStatusCodeDesc code)).bind fun parts => between parts.1 parts.2 message

/-- A template: without `$`, and with one `%1` at most. -/
structure IsTemplate (t : Str) : Prop where
  dollar_not_mem : '$' ∉ t
  once : ∀ parts ∈ cut placeholder t, ¬ placeholder <:+: parts.2

instance (t : Str) : Decidable (IsTemplate t) :=
  decidable_of_iff (_ ∧ _) ⟨fun h => IsTemplate.mk h.1 h.2, fun h => ⟨h.1, h.2⟩⟩

/-- A literal is a template if its characters are one. -/
lemma isTemplate_toList {s : String} {t : Str} (hs : s = String.ofList t) (h : IsTemplate t) :
    IsTemplate s.toList := by
  rwa [hs, String.toList_ofList]

/-- Every status code has a template. -/
lemma isTemplate_findStatusCodeDesc (code : StatusCode) : IsTemplate (findStatusCodeDesc code) := by
  cases code <;> exact isTemplate_toList rfl (by decide)

/-- The messages of a status code quote the parameter: that of the payload and the
logged one are the template with the parameter in it, and it is read back where the
template has a place for it. -/
structure Quotes (code : StatusCode) (param : Str) : Prop where
  payload : (makeErrorPayload code param).indexConst "message" = .ok (.str (quoted code param))
  line : makeErrorMsg code param = getStatusCodeString code ++ (": " ++ quoted code param)
  readBack : placeholder <:+: findStatusCodeDesc code →
    readParam code (getStatusCodeDesc code param) = some param

/-- The literal message gives its parameter back. -/
lemma readParam_quoted {code : StatusCode} (param : Str)
    (h : placeholder <:+: findStatusCodeDesc code) :
    readParam code (quoted code param) = some param := by
  have hne : placeholder ≠ [] := List.cons_ne_nil _ _
  obtain ⟨parts, hcut⟩ := Option.isSome_iff_exists.mp ((isSome_cut_iff hne).mpr h)
  rw [readParam, hcut, Option.bind_some]
  exact between_substitute hne hcut ((isTemplate_findStatusCodeDesc code).once parts hcut)

/-- **When a message quotes its parameter**: exactly when its template has no `%1`, or
no `$` of the parameter is followed by `$`, `&`, a quote, a backquote or a digit. -/
theorem quotes_iff (code : StatusCode) (param : Str) :
    Quotes code param ↔
      ¬ placeholder <:+: findStatusCodeDesc code ∨ isLiteral param = true := by
  have hpass : getStatusCodeDesc code param = quoted code param ↔
      ¬ placeholder <:+: findStatusCodeDesc code ∨ isLiteral param = true :=
    replaceAll_eq_substitute_iff (List.cons_ne_nil _ _) (by decide)
      (isTemplate_findStatusCodeDesc code).dollar_not_mem
  rw [← hpass]
  constructor
  · intro h
    have hmessage : (makeErrorPayload code param).indexConst "message" =
        .ok (.str (getStatusCodeDesc code param)) := rfl
    rw [h.payload] at hmessage
    exact (Json.str.inj (Except.ok.inj hmessage)).symm
  · intro h
    exact ⟨h ▸ rfl, by rw [makeErrorMsg, h], fun hplace => by rw [h, readParam_quoted param hplace]⟩

/-- Of `$$` in a file name, one `$` is left. -/
theorem dollars_not_quoted : ¬ ∀ (code : StatusCode) (param : Str), Quotes code param := by
  intro h
  have hplace : placeholder <:+: findStatusCodeDesc .NE_FS_FILRDER := by decide
  have hname := (h .NE_FS_FILRDER "/tmp/a$$b").readBack hplace
  revert hname
  decide

end Neutralino.errors
