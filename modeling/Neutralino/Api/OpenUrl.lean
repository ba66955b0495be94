import Neutralino.Api.Inputs
import Neutralino.Library.ShellExpansion
import Mathlib.Data.List.TakeWhile

/-!
`os::open`: the command that opens a URL on Linux, FreeBSD and macOS, and where the
URL comes from.

* `ShellProcess`, `execCommand`: the shell that is started for a command.
* `openUrl`, its callers `controllers.openUrl`, `decideNewWindowPolicy` and
  `startApp`; `Opened`: a URL and the shell that one of them starts for it.
* `one_argument_iff`: **which URLs reach the opener as one argument**: those without
  a character that is special inside double quotes.
-/

namespace Neutralino.os

open Shell (expand isInert isPlain expand_quoted_iff)

/-! ### Commands -/

/-- The platforms on which a command opens a URL. -/
inductive Platform where
  | linux
  | freeBsd
  | macOs
  deriving DecidableEq

/-- A `/bin/sh -c`: its line, the environment where it is not inherited, whether its
output is collected, what is written to it, and whether its end is awaited. -/
structure ShellProcess where
  line : Str
  environment : Option (List (Str × Str))
  collected : Bool
  stdIn : Option Str
  awaited : Bool

/-- The line that `TinyProcessLib::Process::open` hands to the shell, which reads it
up to the first zero. -/
def shellLine (command path : Str) : Str :=
  let quoted := path.flatMap fun c => if c = '\'' then "'\\''".toList else [c]
  helpers.cString
    (if path = [] then command else "cd '".toList ++ quoted ++ "' && ".toList ++ command)

/-- `execCommand`, as far as the shell that it starts. -/
def execCommand (command : Str) (options : ChildProcessOptions) : ShellProcess where
  line := shellLine command options.cwd
  environment := if options.envs = [] then none else some options.envs
  collected := !options.background
  stdIn := if options.stdIn = [] then none else some options.stdIn
  awaited := !options.background

/-- How a POSIX shell reads the line, in which nothing may be expanded. -/
def ShellProcess.reading (process : ShellProcess) : Shell.Reading := expand {} process.line

/-- The command that `open` puts before the URL. -/
def opener : Platform → Str
  | .linux => "xdg-open"
  | .freeBsd => "xdg-open"
  | .macOs => "open"

/-- `open`. -/
def openUrl (platform : Platform) (url : Str) : ShellProcess :=
  execCommand (opener platform ++ " \"".toList ++ url ++ "\"".toList) { background := true }

/-! ### Where a URL is opened -/

/-- `NewWindowPolicy`. -/
inductive NewWindowPolicy where
  | system
  | browser
  | custom
  deriving DecidableEq

/-- What `decideNewWindowPolicy` does: its answer, the shell that it starts, and the
event that it dispatches. -/
structure PolicyDecision where
  answer : Bool
  process : Option ShellProcess := none
  event : Option (Str × Json) := none

/-- `decideNewWindowPolicy`. -/
def decideNewWindowPolicy (platform : Platform) (policy : NewWindowPolicy) (url : Str) :
    PolicyDecision :=
  match policy with
  | .system => { answer := false }
  | .browser => { answer := true, process := some (openUrl platform url) }
  | .custom => { answer := true, event := some ("newWindowRequest", .str url) }

/-- The controller `open`, with the shell that it starts. -/
def controllers.openUrl (platform : Platform) (input : Json) :
    Except Fault (Json × Option ShellProcess) := do
  match ← inputs.open input with
  | .answer output => return (output, none)
  | .request url => return (succeeded .null, some (os.openUrl platform url))

/-- `__startApp`, as far as the shell that it starts: only the browser mode opens
`navigationUrl`. -/
def startApp (platform : Platform) (mode : settings.AppMode) (navigationUrl : Str) :
    Option ShellProcess :=
  match mode with
  | .browser => some (openUrl platform navigationUrl)
  | .window | .cloud | .chrome => none

/-- A URL, and the shell that is started for it: on a call of the client, for a new
window, or at the start of the browser mode. -/
inductive Opened (platform : Platform) : Str → ShellProcess → Prop
  | controller {input output : Json} {url : Str} {process : ShellProcess}
      (hurl : textField input "url" = .ok url)
      (hopen : controllers.openUrl platform input = .ok (output, some process)) :
      Opened platform url process
  | newWindow {policy : NewWindowPolicy} {url : Str} {process : ShellProcess}
      (hopen : (decideNewWindowPolicy platform policy url).process = some process) :
      Opened platform url process
  | start {mode : settings.AppMode} {navigationUrl : Str} {process : ShellProcess}
      (hopen : startApp platform mode navigationUrl = some process) :
      Opened platform navigationUrl process

/-- Every caller hands its URL to `open`. -/
lemma Opened.eq_openUrl {platform : Platform} {url : Str} {process : ShellProcess}
    (h : Opened platform url process) : process = openUrl platform url := by
  cases h with
  | @controller input output _ _ hurl hopen =>
      obtain ⟨taken, htaken, hopen⟩ := bind_eq_ok.mp hopen
      obtain ⟨missing, -, htaken⟩ := bind_eq_ok.mp htaken
      cases missing with
      | some field =>
          obtain rfl := Except.ok.inj htaken
          cases hopen
      | none =>
          obtain ⟨text, htext, hrequest⟩ := bind_eq_ok.mp htaken
          obtain rfl : url = text := Except.ok.inj (hurl.symm.trans htext)
          obtain rfl := Except.ok.inj hrequest
          cases hopen
          rfl
  | @newWindow policy _ _ hopen =>
      cases policy with
      | system => cases hopen
      | browser => exact (Option.some.inj hopen).symm
      | custom => cases hopen
  | @start mode _ _ hopen =>
      cases mode with
      | browser => exact (Option.some.inj hopen).symm
      | _ => cases hopen

/-! ### How the shell reads it -/

/-- The line is the command, for a URL without a zero. -/
lemma line_openUrl {platform : Platform} {url : Str} (h : '\x00' ∉ url) :
    (openUrl platform url).line = opener platform ++ ' ' :: '"' :: (url ++ ['"']) := by
  have hline : ∀ c ∈ opener platform ++ " \"".toList ++ url ++ "\"".toList, c ≠ '\x00' := by
    intro c hc hzero
    subst hzero
    rcases List.mem_append.mp hc with hc | hc
    · rcases List.mem_append.mp hc with hc | hc
      · cases platform <;> revert hc <;> decide
      · exact h hc
    · revert hc
      decide
  calc (openUrl platform url).line
      = helpers.cString (opener platform ++ " \"".toList ++ url ++ "\"".toList) := rfl
    _ = opener platform ++ " \"".toList ++ url ++ "\"".toList :=
        List.takeWhile_eq_self_iff.mpr fun c hc => decide_eq_true (hline c hc)
    _ = opener platform ++ ' ' :: '"' :: (url ++ ['"']) := by simp

/-- The opener is a word that needs no quotes. -/
lemma opener_plain (platform : Platform) :
    opener platform ≠ [] ∧ ∀ c ∈ opener platform, isPlain c = true := by
  cases platform <;> exact ⟨by decide, List.all_eq_true.mp (by decide)⟩

/-- **Which URLs reach the opener as one argument**: wherever a URL is opened, the
shell reads one simple command, the opener and the URL as it is, exactly when the URL
has no character that is special inside double quotes. -/
theorem one_argument_iff {platform : Platform} {url : Str} {process : ShellProcess}
    (hopened : Opened platform url process) (hurl : '\x00' ∉ url) :
    process.reading = .words [opener platform, url] ↔ isInert url := by
  obtain ⟨hne, hplain⟩ := opener_plain platform
  rw [hopened.eq_openUrl, ShellProcess.reading, line_openUrl hurl]
  exact expand_quoted_iff hne hplain

/-- An ordinary address, opened for a new window. -/
theorem address_one_argument :
    (openUrl .linux "https://neutralino.js.org/docs?v=6#api").reading =
      .words ["xdg-open".toList, "https://neutralino.js.org/docs?v=6#api".toList] :=
  (one_argument_iff (@Opened.newWindow .linux .browser _ _ rfl) (by decide)).mpr (by decide)

/-- A command substitution in an address is run by the shell, not passed on. -/
theorem substitution_not_passed :
    ¬ ∀ (platform : Platform) (url : Str) (process : ShellProcess),
      Opened platform url process → '\x00' ∉ url →
        process.reading = .words [opener platform, url] := by
  intro h
  have hopened := @Opened.newWindow .linux .browser "https://a.b/$(id)" _ rfl
  have hreading := h _ _ _ hopened (by decide)
  revert hreading
  decide

end Neutralino.os
