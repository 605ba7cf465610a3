import LuaAudit.Proofs.Lint.Place
import LuaAudit.Proofs.Lua.Literal

/-!
# Comments and strings do not reach the rules

Every pass but the one for net events reads masked lines only.  So what a comment or a string says
cannot change what such a pass reports, as long as it has the same line ends and ends at the same
place.
-/

namespace LuaAudit.Lint

open Lua (Literal SameLayout mask)

/-- The passes that read masked lines only. -/
def maskedPasses : List Pass := passes.filter fun p => p.name != "net-event"

example : maskedPasses.map Pass.name = ["while-loop", "repeat-loop", "global-variable",
    "deprecated-api", "legacy-api", "function-order"] := by decide

/-- Such a pass cannot tell apart two scripts with the same masked lines. -/
theorem Pass.check_eq_of_masked_eq {p : Pass} (hp : p ∈ maskedPasses) (settings : Settings)
    {s s' : Script} (h : s.masked = s'.masked) : p.check settings s = p.check settings s' := by
  obtain ⟨hp, hname⟩ := List.mem_filter.1 hp
  simp only [passes, List.mem_cons, List.not_mem_nil, or_false] at hp
  rcases hp with rfl | rfl | rfl | rfl | rfl | rfl | rfl
  case inr.inr.inr.inr.inl => exact absurd hname (by decide)
  all_goals simp only [Pass.reading, LoopRule.check, checkLeaks, checkPhrases, checkOrder, h]

/-- **Bodies do not reach the rules.**  Take a comment or string that opens in code and ends at its
    closing, after any text and before any other.  Put in its place one with another body, which
    ends there too and has its line ends at the same offsets: every pass that reads masked lines
    runs to its end on both texts and makes the same reports, under all settings. -/
theorem reports_eq_of_sameLayout {l : Literal} {a body body' : List Char}
    (ha : Lua.regionAt (a ++ l.opening) a.length = some .code) (hbody : l.Closes body)
    (hbody' : l.Closes body') (hlayout : SameLayout body body') (rest : List Char)
    (settings : Settings) :
    ∀ p ∈ maskedPasses, ∃ found,
      p.check settings (.ofText (a ++ l.text body ++ rest)) = .ok found ∧
      p.check settings (.ofText (a ++ l.text body' ++ rest)) = .ok found := by
  intro p hp
  have hmasked : (Script.ofText (a ++ l.text body ++ rest)).masked =
      (Script.ofText (a ++ l.text body' ++ rest)).masked := by
    show Text.splitLines (mask _) = Text.splitLines (mask _)
    rw [Lua.mask_eq_of_sameLayout ha hbody hbody' hlayout]
  have hcheck := p.check_eq (List.mem_filter.1 hp).1 settings
    (Script.regular_ofText (a ++ l.text body ++ rest))
  exact ⟨_, hcheck, by rw [← p.check_eq_of_masked_eq hp settings hmasked, hcheck]⟩

/-- A long string after a minus: a shorter bracket, a line end and a deprecated call in its body do
    not reach the rule for such calls. -/
theorem reports_eq_of_deprecated_body : ∃ p ∈ maskedPasses, p.name = "deprecated-api" ∧ ∃ found,
    p.check .default (.ofText ("f(1 -".toList ++ (Literal.longString 1).text
      "]]\nGetPlayerPed(-1)".toList ++ ")\nx = 1".toList)) = .ok found ∧
    p.check .default (.ofText ("f(1 -".toList ++ (Literal.longString 1).text
      "x=\nwhile true do  ]".toList ++ ")\nx = 1".toList)) = .ok found := by
  have hopens : Lua.regionAt ("f(1 -".toList ++ (Literal.longString 1).opening) 5 = some .code := by
    decide +kernel
  have hbody : (Literal.longString 1).Closes "]]\nGetPlayerPed(-1)".toList := ⟨by simp, by decide⟩
  have hbody' : (Literal.longString 1).Closes "x=\nwhile true do  ]".toList := ⟨by simp, by decide⟩
  have hpass : "deprecated-api" ∈ maskedPasses.map Pass.name := by decide
  obtain ⟨p, hp, hname⟩ := List.mem_map.1 hpass
  exact ⟨p, hp, hname, reports_eq_of_sameLayout hopens hbody hbody' (by decide) _ .default p hp⟩

end LuaAudit.Lint
