import LuaAudit.Lint.Diagnostic
import LuaAudit.Lint.Script
import LuaAudit.Text.Search

/-!
# Phrases to avoid

Calls that have a better form are found as fixed phrases in the masked lines.  A table of
`PhraseRule`s is tried in order on each line, and each occurrence is reported.

* `deprecatedCalls` are calls with a faster form;
* `legacyNames` are names with a newer form.
-/

namespace LuaAudit.Lint

/-- A phrase and how an occurrence of it is reported. -/
structure PhraseRule where
  phrase : String
  message : String
  code : String
  severity : Severity

/-- Recognises a fixed, non-empty text. -/
def phraseAt (phrase : List Char) : Text.Recogniser Unit := fun _ cs =>
  if phrase.isPrefixOf cs then some ((), phrase.length) else none

/-- The report of an occurrence. -/
def PhraseRule.report (rule : PhraseRule) (index : Nat) (o : Text.Occurrence Unit) : Diagnostic :=
  ⟨.onLine index o.start o.stop, rule.message, rule.severity, rule.code⟩

/-- The occurrences of the phrases of a table on a line, rule by rule. -/
def checkPhrasesOn (rules : List PhraseRule) (index : Nat) (line : List Char) : List Diagnostic :=
  rules.flatMap fun rule =>
    (Text.occurrences (phraseAt rule.phrase.toList) line).map (rule.report index)

/-- The occurrences of the phrases of a table in a script, line by line. -/
def checkPhrases (rules : List PhraseRule) (s : Script) : List Diagnostic :=
  s.masked.zipIdx.flatMap fun (line, index) => checkPhrasesOn rules index line

/-- Calls that have a faster form. -/
def deprecatedCalls : List PhraseRule := [
  { phrase := "GetPlayerPed(-1)"
    message := "Use PlayerPedId() instead of GetPlayerPed(-1) for better performance."
    code := "deprecated-player-ped"
    severity := .hint },
  { phrase := "GetEntityCoords(PlayerPedId())"
    message := "Consider caching PlayerPedId() and coordinates if used frequently in loops."
    code := "deprecated-cache-coords"
    severity := .hint },
  { phrase := "GetPlayerServerId(PlayerId())"
    message := "Consider caching player server ID if used frequently."
    code := "deprecated-cache-server-id"
    severity := .hint }]

/-- Names that have a newer form. -/
def legacyNames : List PhraseRule := [
  { phrase := "Citizen.CreateThread"
    message := "Use CreateThread instead of Citizen.CreateThread."
    code := "legacy-citizen-create-thread"
    severity := .information },
  { phrase := "Citizen.Wait"
    message := "Use Wait instead of Citizen.Wait."
    code := "legacy-citizen-wait"
    severity := .information }]

end LuaAudit.Lint
