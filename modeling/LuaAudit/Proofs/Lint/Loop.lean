import LuaAudit.Proofs.Lint.Block
import LuaAudit.Proofs.Lint.Pattern
import LuaAudit.Proofs.Lint.WellFormed

/-!
# Which loops are reported

A loop is reported where its opener matches, the words of its block balance on some later line, and
no line in between has a call that yields.

* `Endless`: these three conditions, in terms of patterns and counts;
* `LoopRule.checkLine_eq_some_iff`: the report for one line;
* `LoopRule.mem_check_iff` and `LoopRule.pairwise_check`: the reports for a script, at most one a
  line.
-/

namespace LuaAudit.Text

/-- No line holds a line feed. -/
theorem feed_notMem_of_mem_splitLines {t line : List Char} (h : line ∈ splitLines t) :
    '\n' ∉ line := by
  fun_induction splitLines t generalizing line with
  | case1 =>
    obtain rfl := List.mem_singleton.1 h
    simp
  | case2 cs ih =>
    rcases List.mem_cons.1 h with rfl | h
    · simp
    · exact ih h
  | case3 cs ih =>
    rcases List.mem_cons.1 h with rfl | h
    · simp
    · exact ih h
  | case4 c cs _ hc ih =>
    -- The character joins the first line of the rest, and it is no line feed.
    obtain ⟨first, more, hlines⟩ := List.exists_cons_of_ne_nil (Lua.splitLines_ne_nil cs)
    rw [hlines] at h ih
    rcases List.mem_cons.1 h with rfl | h
    · rw [List.mem_cons, not_or]
      exact ⟨Ne.symm hc, ih (.head _)⟩
    · exact ih (.tail _ h)

end LuaAudit.Text

namespace LuaAudit.Lint

open Text (first?)

/-- Line `i` opens a loop that ends and never yields, and its opener takes the columns from `first`
    up to `last`. -/
structure Endless (opener : Pattern) (words : BlockWords) (names : List (List Char))
    (lines : List (List Char)) (i first last : Nat) : Prop where
  opens : ∃ line, lines[i]? = some line ∧ opener.Finds line first last
  stays : ∃ e, IsLeast {e | words.Balance lines i e} e ∧ ∀ j line, i < j → j < e →
    lines[j]? = some line → ∀ k, (yieldPattern names).lengthsAt line k = []

/-- The report of a loop. -/
def LoopRule.report (rule : LoopRule) (i first last : Nat) : Diagnostic where
  range := .onLine i first last
  message := rule.message
  severity := .warning
  code := rule.code

theorem mem_drop_take_iff (lines : List (List Char)) (i e : Nat) (line : List Char) :
    line ∈ (lines.take e).drop (i + 1) ↔ ∃ j, i < j ∧ j < e ∧ lines[j]? = some line := by
  rw [List.mem_iff_getElem?]
  constructor
  · rintro ⟨k, hk⟩
    rw [List.getElem?_drop, List.getElem?_take] at hk
    split at hk
    next hlt => exact ⟨i + 1 + k, by omega, hlt, hk⟩
    · cases hk
  · rintro ⟨j, hij, hje, hj⟩
    refine ⟨j - (i + 1), ?_⟩
    rw [List.getElem?_drop, show i + 1 + (j - (i + 1)) = j by omega, List.getElem?_take, if_pos hje]
    exact hj

section Rule

variable {rule : LoopRule} {opener : Pattern} (hopener : opener.Recognises rule.opener)
  (hfits : rule.opener.Fits) (names : List (List Char))
include hopener hfits

/-- **One line.**  A line is reported where it opens a loop that ends and never yields. -/
theorem LoopRule.checkLine_eq_some_iff {lines : List (List Char)}
    (hlines : ∀ line ∈ lines, '\n' ∉ line) {i : Nat} {line : List Char}
    (hline : lines[i]? = some line) (d : Diagnostic) :
    rule.checkLine names lines i line = some d ↔
      ∃ first last, Endless opener rule.words names lines i first last ∧
        d = rule.report i first last := by
  have hfirst := hopener.first?_eq_some_iff hfits (hlines line (List.mem_of_getElem? hline))
  have hyields : ∀ stop, ((lines.take stop).drop (i + 1)).any (yields names) = false ↔
      ∀ j line, i < j → j < stop → lines[j]? = some line →
        ∀ k, (yieldPattern names).lengthsAt line k = [] := by
    intro stop
    rw [List.any_eq_false]
    constructor
    · intro h j line hij hj hmem
      have hno := h line ((mem_drop_take_iff lines i stop line).2 ⟨j, hij, hj, hmem⟩)
      exact (yields_eq_false_iff names (hlines line (List.mem_of_getElem? hmem))).1
        (by simpa using hno)
    · intro h line hmem
      obtain ⟨j, hij, hj, hmem⟩ := (mem_drop_take_iff lines i stop line).1 hmem
      rw [(yields_eq_false_iff names (hlines line (List.mem_of_getElem? hmem))).2
        (h j line hij hj hmem)]
      simp
  simp only [LoopRule.checkLine, Option.bind_eq_bind, Option.bind_eq_some_iff]
  constructor
  · rintro ⟨⟨first, last, ⟨⟩⟩, hfind, stop, hstop, hreport⟩
    split at hreport
    · cases hreport
    next hquiet =>
      refine ⟨first, last, ⟨⟨line, hline, (hfirst first last).1 hfind⟩, stop, ?_, ?_⟩, ?_⟩
      · exact (blockEnd?_eq_some_iff lines i stop).1 hstop
      · exact (hyields stop).1 (by simpa using hquiet)
      · exact (Option.some.inj hreport).symm
  · rintro ⟨first, last, ⟨⟨line', hline', hfinds⟩, stop, hstop, hquiet⟩, rfl⟩
    obtain rfl : line = line' := Option.some.inj (hline.symm.trans hline')
    refine ⟨⟨first, last, ()⟩, (hfirst first last).2 hfinds, stop,
      (blockEnd?_eq_some_iff lines i stop).2 hstop, ?_⟩
    rw [(hyields stop).2 hquiet]
    rfl

/-- **A script.**  The reports of a rule are those of the lines that open such a loop. -/
theorem LoopRule.mem_check_iff (t : List Char) (d : Diagnostic) :
    d ∈ rule.check names (.ofText t) ↔
      ∃ i first last, Endless opener rule.words names (Script.ofText t).masked i first last ∧
        d = rule.report i first last := by
  have hlines : ∀ line ∈ (Script.ofText t).masked, '\n' ∉ line := fun line hmem =>
    Text.feed_notMem_of_mem_splitLines hmem
  rw [LoopRule.check, List.mem_filterMap]
  constructor
  · rintro ⟨⟨line, i⟩, hmem, hreport⟩
    have hline := List.mk_mem_zipIdx_iff_getElem?.1 hmem
    exact ⟨i, (rule.checkLine_eq_some_iff hopener hfits names hlines hline d).1 hreport⟩
  · rintro ⟨i, first, last, hendless, hd⟩
    obtain ⟨line, hline, -⟩ := hendless.opens
    refine ⟨(line, i), List.mk_mem_zipIdx_iff_getElem?.2 hline, ?_⟩
    exact (rule.checkLine_eq_some_iff hopener hfits names hlines hline d).2
      ⟨first, last, hendless, hd⟩

end Rule

/-- The reports of a rule go down the script, at most one for each line. -/
theorem LoopRule.pairwise_check (rule : LoopRule) (names : List (List Char)) (s : Script) :
    (rule.check names s).Pairwise fun d e => d.line < e.line := by
  have hline : ∀ line i d, rule.checkLine names s.masked i line = some d → d.line = i := by
    intro line i d h
    simp only [LoopRule.checkLine, Option.bind_eq_bind, Option.bind_eq_some_iff] at h
    obtain ⟨o, -, stop, -, h⟩ := h
    split at h
    · cases h
    · rw [← Option.some.inj h]
      rfl
  rw [LoopRule.check, List.pairwise_filterMap]
  refine (pairwise_zipIdx s.masked).imp ?_
  rintro ⟨line, i⟩ ⟨line', j⟩ hij d hd e he
  rw [hline _ _ _ hd, hline _ _ _ he]
  exact hij

/-- The two rules for loops, each with its opener as a pattern. -/
def loopRules : List (LoopRule × Pattern) :=
  [(.while, whilePattern), (.repeat, repeatPattern)]

/-- **The loops that are reported.**  For every text and all settings, each of the two rules reports
    exactly the lines whose leftmost match of the opener takes the reported columns, whose block
    ends at a first line where its words balance, and whose block has no call of a yielding function
    before that line; at most one report a line, in the order of the lines.  The search for the end
    of a block gives that first line, for all lines and words, and nothing where there is none. -/
theorem endless_loops_reported (t : List Char) (settings : Settings) :
    (∀ rule opener, (rule, opener) ∈ loopRules →
      (∀ d, d ∈ rule.check ((settings.roster .yieldFunctions).map String.toList) (.ofText t) ↔
        ∃ i first last, Endless opener rule.words
            ((settings.roster .yieldFunctions).map String.toList)
              (Script.ofText t).masked i first last ∧
          d = rule.report i first last) ∧
      (rule.check ((settings.roster .yieldFunctions).map String.toList) (.ofText t)).Pairwise
        fun d e => d.line < e.line) ∧
    ∀ (words : BlockWords) (lines : List (List Char)) (i : Nat), ∃ found : Option Nat,
      blockEndFrom words lines i = .ok (found.map Int.ofNat) ∧
      (∀ e, found = some e ↔ IsLeast {e | words.Balance lines i e} e) ∧
      (found = none ↔ ∀ e, ¬ words.Balance lines i e) := by
  constructor
  · intro rule opener hrule
    refine ⟨fun d => ?_, rule.pairwise_check _ _⟩
    rcases List.mem_cons.1 hrule with heq | hrule
    · cases heq
      exact LoopRule.mem_check_iff recognises_whileOpener fits_whileOpener _ t d
    · cases List.mem_singleton.1 hrule
      exact LoopRule.mem_check_iff recognises_repeatOpener fits_repeatOpener _ t d
  · intro words lines i
    exact ⟨_, blockEndFrom_natCast lines i, blockEnd?_eq_some_iff lines i,
      blockEnd?_eq_none_iff lines i⟩

/-- A loop in a loop: the inner one has a call in a comment only, and the outer one goes on behind
    the end of the inner one, up to a call that yields. -/
def nestedLoops : List Char :=
  "while a do\n  while b do -- do\n    f() -- Wait(0)\n  end\n  Wait (1)\nend".toList

theorem endless_loops_reported_nested :
    LoopRule.while.check ["Wait".toList, "Citizen.Wait".toList] (.ofText nestedLoops) =
      [LoopRule.while.report 1 2 12] ∧
    ∃ i first last, Endless whilePattern ⟨"while".toList, "end".toList⟩
        ["Wait".toList, "Citizen.Wait".toList] (Script.ofText nestedLoops).masked i first last ∧
      LoopRule.while.report 1 2 12 = LoopRule.while.report i first last := by
  have hcheck : LoopRule.while.check ["Wait".toList, "Citizen.Wait".toList] (.ofText nestedLoops) =
      [LoopRule.while.report 1 2 12] := by
    decide +kernel
  refine ⟨hcheck, ?_⟩
  exact (((endless_loops_reported nestedLoops .default).1 .while whilePattern (.head _)).1 _).1
    (by
      show _ ∈ LoopRule.while.check ["Wait".toList, "Citizen.Wait".toList] (.ofText nestedLoops)
      rw [hcheck]
      exact .head _)

end LuaAudit.Lint
