import LuaAudit.Proofs.Lint.Loop
import LuaAudit.Proofs.Lua.Joined

/-!
# Following the advice of the loop rules

A loop rule asks for a call of `Wait` in the loop.  A line with that call, put in between two lines
of code, takes away the reports of the loops around it and moves the others along with their lines.

* `Text.exists_splitLines_append`: a text that ends with a line feed is made of whole lines;
* `movedBy`: where a line stands after another one was put in;
* `BlockWords.closing?_insert` and `blockEnd?_insert`: an idle line moves the ends of blocks;
* `any_yields_insert`: the calls between an opener and its end, with the new line;
* `LoopRule.check_insert`: the reports, for a line that opens and closes nothing and yields.
-/

namespace LuaAudit.Text

/-- **Whole lines.**  A text that ends with a line feed has a line for each of its line feeds, and
    what follows it starts a line of its own. -/
theorem exists_splitLines_append {t : List Char} (h : Lua.EndsLine t) :
    ∃ lines : List (List Char), lines.length = t.count '\n' ∧
      ∀ rest, splitLines (t ++ rest) = lines ++ splitLines rest := by
  fun_induction splitLines t with
  | case1 => exact ⟨[], rfl, fun rest => rfl⟩
  | case2 cs ih =>
    obtain ⟨lines, hlength, hlines⟩ := ih (h.drop 2)
    refine ⟨[] :: lines, by simp [hlength], fun rest => ?_⟩
    rw [List.cons_append, List.cons_append, splitLines, hlines, List.cons_append]
  | case3 cs ih =>
    obtain ⟨lines, hlength, hlines⟩ := ih (h.drop 1)
    refine ⟨[] :: lines, by simp [hlength], fun rest => ?_⟩
    rw [List.cons_append, splitLines, hlines, List.cons_append]
  | case4 c cs hreturn hc ih =>
    -- The text goes on at least to its last line feed, so there is a line that the character joins.
    have hne : cs ≠ [] := h.ne_nil_of_ne hc
    obtain ⟨lines, hlength, hlines⟩ := ih (h.drop 1)
    have hfeed : '\n' ∈ cs := by
      obtain ⟨s, rfl⟩ := Lua.EndsLine.exists_concat (h.drop 1) hne
      simp
    have hpos : 0 < lines.length := by
      rw [hlength]
      exact List.count_pos_iff.2 hfeed
    obtain ⟨first, more, rfl⟩ := List.exists_cons_of_length_pos hpos
    refine ⟨(c :: first) :: more, ?_, fun rest => ?_⟩
    · rw [List.count_cons_of_ne hc]
      exact hlength
    have hpair : c = '\r' → ∀ r, cs ++ rest ≠ '\n' :: r := by
      intro hr r heq
      obtain ⟨d, ds, rfl⟩ := List.exists_cons_of_ne_nil hne
      obtain ⟨rfl, -⟩ := List.cons.inj heq
      exact hreturn ds hr rfl
    rw [List.cons_append, Lua.splitLines_cons hc hpair, hlines]
    rfl

end LuaAudit.Text

namespace LuaAudit.Lua

open List (Forall₂)

/-- Masking keeps the line feeds of a text, also the last one. -/
theorem EndsLine.mask {t : List Char} (h : EndsLine t) : EndsLine (mask t) := by
  have hveils := forall₂_veils_mask t
  rcases h with rfl | hlast
  · exact .inl (maskFrom_nil .code)
  · right
    rw [List.getLast?_eq_getElem?] at hlast ⊢
    obtain ⟨m, hm, hfeed⟩ := exists_getElem?_of_forall₂ hveils hlast
    rw [← hveils.length_eq, hm, hfeed.eq_of_lineEnd (.inr rfl)]

theorem count_feed_of_veils {t u : List Char} (h : Forall₂ Veils t u) :
    u.count '\n' = t.count '\n' := by
  induction h with
  | nil => rfl
  | @cons c m t u hc _ ih =>
    simp only [List.count_cons, ih, beq_iff_eq, hc.feed_iff]

end LuaAudit.Lua

namespace LuaAudit.Lint

open Lua (EndsLine mask)

/-! ### Lines that move -/

/-- Where line `i` stands after a line was put in before line `p`. -/
def movedBy (p i : Nat) : Nat := if i < p then i else i + 1

theorem movedBy_of_lt {p i : Nat} (h : i < p) : movedBy p i = i := if_pos h

theorem movedBy_of_le {p i : Nat} (h : p ≤ i) : movedBy p i = i + 1 := if_neg (Nat.not_lt.2 h)

/-- Moving keeps the order, and no line comes to stand where the new one does. -/
theorem movedBy_lt_iff (p i j : Nat) : movedBy p i < movedBy p j ↔ i < j := by
  unfold movedBy
  split <;> split <;> omega

theorem movedBy_lt_self_iff (p i : Nat) : movedBy p i < p ↔ i < p := by
  unfold movedBy
  split <;> omega

theorem lt_movedBy_iff (p i : Nat) : p < movedBy p i ↔ p ≤ i := by
  unfold movedBy
  split <;> omega

/-- Every other line comes from somewhere. -/
theorem exists_movedBy_eq {p j : Nat} (h : j ≠ p) : ∃ i, movedBy p i = j := by
  by_cases hj : j < p
  · exact ⟨j, movedBy_of_lt hj⟩
  · exact ⟨j - 1, by rw [movedBy_of_le (by omega)]; omega⟩

theorem getElem?_insert {α : Type} (xs ys : List α) (x : α) (i : Nat) :
    (xs ++ x :: ys)[movedBy xs.length i]? = (xs ++ ys)[i]? := by
  by_cases hi : i < xs.length
  · rw [movedBy_of_lt hi, List.getElem?_append_left hi, List.getElem?_append_left hi]
  · have hle := Nat.le_of_not_lt hi
    rw [movedBy_of_le hle, List.getElem?_append_right (by omega), List.getElem?_append_right hle,
      show i + 1 - xs.length = i - xs.length + 1 by omega, List.getElem?_cons_succ]

/-- What is made of the lines and their indices, when nothing is made of the new line. -/
theorem filterMap_zipIdx_insert {α β : Type} {f : α × Nat → Option β} {xs : List α} {x : α}
    (hx : f (x, xs.length) = none) (ys : List α) :
    (xs ++ x :: ys).zipIdx.filterMap f =
      (xs ++ ys).zipIdx.filterMap fun (y, i) => f (y, movedBy xs.length i) := by
  have hfirst : xs.zipIdx.filterMap f =
      xs.zipIdx.filterMap fun (y, i) => f (y, movedBy xs.length i) := by
    apply List.filterMap_congr
    rintro ⟨y, i⟩ hmem
    have hi : i < xs.length := by simpa using (List.mem_zipIdx hmem).2.1
    simp only [movedBy_of_lt hi]
  have hlater : (ys.zipIdx (xs.length + 1)).filterMap f =
      (ys.zipIdx xs.length).filterMap fun (y, i) => f (y, movedBy xs.length i) := by
    rw [List.zipIdx_succ, List.filterMap_map]
    apply List.filterMap_congr
    rintro ⟨y, i⟩ hmem
    have hi : xs.length ≤ i := (List.mem_zipIdx hmem).1
    simp only [Function.comp_apply, movedBy_of_le hi]
  rw [List.zipIdx_append, List.zipIdx_append, List.filterMap_append, List.filterMap_append,
    Nat.zero_add, List.zipIdx_cons, List.filterMap_cons_none hx, hfirst, hlater]

/-- A report on another line: the one that `move` gives for its own. -/
def Diagnostic.onLines (move : Nat → Nat) (d : Diagnostic) : Diagnostic :=
  { d with range := ⟨⟨move d.range.start.line, d.range.start.character⟩,
                     ⟨move d.range.stop.line, d.range.stop.character⟩⟩ }

/-! ### Blocks with a new line -/

/-- The block that opens at line `i` goes on to line `p` at least, so that a line put in before line
    `p` is inside it. -/
def BlockWords.Surrounds (words : BlockWords) (lines : List (List Char)) (i p : Nat) : Prop :=
  i < p ∧ ∃ e ∈ blockEnd? words lines i, p ≤ e

instance (words : BlockWords) (lines : List (List Char)) (i p : Nat) :
    Decidable (words.Surrounds lines i p) :=
  inferInstanceAs (Decidable (i < p ∧ ∃ e ∈ blockEnd? words lines i, p ≤ e))

section Idle

variable {words : BlockWords} {idle : List Char} (hidle : words.change idle = 0)
include hidle

/-- A line that changes no depth is passed, and what closes behind it closes one line later. -/
theorem BlockWords.closing?_insert {depth : Nat} (hdepth : 1 ≤ depth) (xs ys : List (List Char)) :
    words.closing? depth (xs ++ idle :: ys) =
      (words.closing? depth (xs ++ ys)).map (movedBy xs.length) := by
  induction xs generalizing depth with
  | nil =>
    have hmove : movedBy ([] : List (List Char)).length = (· + 1) := by
      funext n
      exact movedBy_of_le (Nat.zero_le n)
    rw [List.nil_append, List.nil_append, words.closing?_cons hdepth, hidle, hmove,
      if_neg (by omega)]
    congr 2
  | cons x xs ih =>
    rw [List.cons_append, List.cons_append, words.closing?_cons hdepth, words.closing?_cons hdepth]
    split
    · rfl
    next hne =>
      -- The depth that is left is still one or more, so the hypothesis applies to the other lines.
      have hle := words.change_le x
      rw [ih (by omega), Option.map_map, Option.map_map]
      congr 1
      funext n
      simp only [Function.comp_apply, movedBy, List.length_cons, Nat.add_lt_add_iff_right]
      split <;> rfl

/-- **The end of a block** moves like its opener, each by the new line if it stands behind it. -/
theorem blockEnd?_insert (xs ys : List (List Char)) (i : Nat) :
    blockEnd? words (xs ++ idle :: ys) (movedBy xs.length i) =
      (blockEnd? words (xs ++ ys) i).map (movedBy xs.length) := by
  unfold blockEnd?
  by_cases hi : i < xs.length
  · rw [movedBy_of_lt hi, List.drop_append_of_le_length (by omega),
      List.drop_append_of_le_length (by omega), words.closing?_insert hidle le_rfl, Option.map_map,
      Option.map_map, List.length_drop]
    congr 1
    funext n
    simp only [Function.comp_apply, movedBy]
    split <;> split <;> omega
  · -- Opener and end both stand behind the new line.
    have hle := Nat.le_of_not_lt hi
    have hdrop : (xs ++ idle :: ys).drop (i + 1 + 1) = (xs ++ ys).drop (i + 1) := by
      obtain ⟨k, rfl⟩ := Nat.exists_eq_add_of_le hle
      show (xs ++ idle :: ys).drop (xs.length + (k + 2)) = (xs ++ ys).drop (xs.length + (k + 1))
      rw [List.drop_length_add_append, List.drop_length_add_append, List.drop_succ_cons]
    rw [movedBy_of_le hle, hdrop, Option.map_map]
    congr 1
    funext n
    simp only [Function.comp_apply, movedBy_of_le (show xs.length ≤ i + 1 + n by omega)]
    omega

end Idle

/-- A line between two others yields, after a line was put in: one that did before, or the new
    one. -/
theorem any_yields_insert (names : List (List Char)) (xs ys : List (List Char)) (line : List Char)
    (i e : Nat) :
    (((xs ++ line :: ys).take (movedBy xs.length e)).drop (movedBy xs.length i + 1)).any
        (yields names) = true ↔
      (((xs ++ ys).take e).drop (i + 1)).any (yields names) = true ∨
        i < xs.length ∧ xs.length ≤ e ∧ yields names line = true := by
  simp only [List.any_eq_true, mem_drop_take_iff]
  constructor
  · rintro ⟨l, ⟨j, hij, hje, hj⟩, hl⟩
    by_cases hnew : j = xs.length
    · subst hnew
      obtain rfl : line = l := by simpa using hj
      exact .inr ⟨(movedBy_lt_self_iff _ i).1 hij, (lt_movedBy_iff _ e).1 hje, hl⟩
    · obtain ⟨k, rfl⟩ := exists_movedBy_eq hnew
      rw [getElem?_insert] at hj
      exact .inl ⟨l, ⟨k, (movedBy_lt_iff _ i k).1 hij, (movedBy_lt_iff _ k e).1 hje, hj⟩, hl⟩
  · rintro (⟨l, ⟨k, hik, hke, hk⟩, hl⟩ | ⟨hi, he, hl⟩)
    · refine ⟨l, ⟨movedBy xs.length k, ?_, ?_, ?_⟩, hl⟩
      · exact (movedBy_lt_iff _ i k).2 hik
      · exact (movedBy_lt_iff _ k e).2 hke
      · rw [getElem?_insert, hk]
    · exact ⟨line, ⟨xs.length, (movedBy_lt_self_iff _ i).2 hi, (lt_movedBy_iff _ e).2 he,
        by simp⟩, hl⟩

/-! ### Reports with a new line -/

theorem LoopRule.line_report (rule : LoopRule) (i first last : Nat) :
    (rule.report i first last).line = i := rfl

section Insert

variable {rule : LoopRule} {names : List (List Char)} {line : List Char}
  (hidle : rule.words.change line = 0) (hyields : yields names line = true)
include hidle hyields

/-- **One line.**  The report of a line moves with it, and goes where the new line is in its
    loop. -/
theorem LoopRule.checkLine_insert (xs ys : List (List Char)) (i : Nat) (l : List Char) :
    rule.checkLine names (xs ++ line :: ys) (movedBy xs.length i) l =
      ((rule.checkLine names (xs ++ ys) i l).filter fun d =>
        ¬ rule.words.Surrounds (xs ++ ys) d.line xs.length).map
          (Diagnostic.onLines (movedBy xs.length)) := by
  unfold LoopRule.checkLine
  rw [blockEnd?_insert hidle]
  cases Text.first? rule.opener l with
  | none => rfl
  | some opener =>
    cases hend : blockEnd? rule.words (xs ++ ys) i with
    | none => rfl
    | some e =>
      have hany := any_yields_insert names xs ys line i e
      simp only [Option.bind_eq_bind, Option.bind_some, Option.map_some]
      by_cases hquiet : (((xs ++ ys).take e).drop (i + 1)).any (yields names) = true
      · rw [if_pos hquiet, if_pos (hany.2 (.inl hquiet))]
        rfl
      · rw [if_neg hquiet]
        show _ = ((some (rule.report i opener.start opener.stop)).filter _).map _
        rw [Option.filter_some, rule.line_report]
        by_cases hin : rule.words.Surrounds (xs ++ ys) i xs.length
        · obtain ⟨hi, e', he', hle⟩ := id hin
          obtain rfl : e = e' := Option.some.inj (hend.symm.trans he')
          rw [if_pos (hany.2 (.inr ⟨hi, hle, hyields⟩)), if_neg (by simpa using hin)]
          rfl
        · have hout : ¬ (i < xs.length ∧ xs.length ≤ e ∧ yields names line = true) := by
            rintro ⟨hi, hle, -⟩
            exact hin ⟨hi, e, hend, hle⟩
          rw [if_neg (mt hany.1 (not_or.2 ⟨hquiet, hout⟩)), if_pos (by simpa using hin)]
          rfl

/-- **A script.**  The reports with a line that yields and opens nothing are those without it, each
    on its line, except for the loops around the new line. -/
theorem LoopRule.check_insert (hopener : Text.first? rule.opener line = none) {s s' : Script}
    {xs ys : List (List Char)} (hs : s.masked = xs ++ ys) (hs' : s'.masked = xs ++ line :: ys) :
    rule.check names s' =
      ((rule.check names s).filter fun d =>
        ¬ rule.words.Surrounds s.masked d.line xs.length).map
          (Diagnostic.onLines (movedBy xs.length)) := by
  have hnew : rule.checkLine names (xs ++ line :: ys) xs.length line = none := by
    rw [LoopRule.checkLine, hopener]
    rfl
  rw [LoopRule.check, LoopRule.check, hs, hs', List.filter_filterMap, List.map_filterMap,
    filterMap_zipIdx_insert hnew]
  apply List.filterMap_congr
  rintro ⟨l, i⟩ -
  exact rule.checkLine_insert hidle hyields xs ys i l

end Insert

/-! ### A call of `Wait` -/

/-- The line with the call that the reports ask for. -/
def waitLine : List Char := "Wait(0)".toList

/-- It opens no loop, and holds no word that opens or closes a block. -/
theorem idle_waitLine {rule : LoopRule} (hrule : rule ∈ [LoopRule.while, LoopRule.repeat]) :
    rule.words.change waitLine = 0 ∧ Text.first? rule.opener waitLine = none := by
  rcases List.mem_cons.1 hrule with rfl | hrule
  · decide +kernel
  · obtain rfl := List.mem_singleton.1 hrule
    decide +kernel

theorem yields_waitLine {names : List (List Char)} (h : "Wait".toList ∈ names) :
    yields names waitLine = true := by
  have hnames : ¬ (names.isEmpty || names == [[]]) = true := by
    intro hnone
    rcases Bool.or_eq_true_iff.1 hnone with hnil | hempty
    · rw [List.isEmpty_iff.1 hnil] at h
      cases h
    · rw [eq_of_beq hempty] at h
      exact absurd h (by decide)
  -- Some name is called at the start of the line, `Wait` if not an earlier one.
  have hcall : (names.findSome? (callLength? · waitLine)).isSome :=
    List.findSome?_isSome_iff.2 ⟨"Wait".toList, h, by decide⟩
  obtain ⟨n, hn⟩ := Option.isSome_iff_exists.1 hcall
  have hfound : yieldCall names none waitLine = some ((), n) := by
    rw [yieldCall, if_neg hnames, if_pos (by decide), hn]
    rfl
  have hfirst := Text.first?_of_recognised hfound (by decide)
  rw [yields, ← Option.isSome_map, hfirst]
  rfl

/-- The masked lines of a text before and after a line of code was put in. -/
theorem masked_insert {a : List Char} (ha : EndsLine a)
    (hcode : Lua.regionAt a a.length = some .code) (b : List Char) :
    ∃ xs : List (List Char), xs.length = a.count '\n' ∧
      (Script.ofText (a ++ b)).masked = xs ++ Text.splitLines (mask b) ∧
      (Script.ofText (a ++ (waitLine ++ '\n' :: b))).masked =
        xs ++ waitLine :: Text.splitLines (mask b) := by
  obtain ⟨xs, hlength, hlines⟩ := Text.exists_splitLines_append ha.mask
  rw [Lua.count_feed_of_veils (Lua.forall₂_veils_mask a)] at hlength
  have hmask : ∀ rest, mask (a ++ rest) = mask a ++ mask rest := fun rest =>
    Lua.maskFrom_append ha hcode rest
  -- The new line is code itself and leaves the reader in code.
  have hwait : mask (waitLine ++ '\n' :: b) = waitLine ++ '\n' :: mask b := by
    have hself : mask (waitLine ++ ['\n']) = waitLine ++ ['\n'] := by decide +kernel
    have hends : EndsLine (waitLine ++ ['\n']) := by decide
    have hstands : Lua.regionAt (waitLine ++ ['\n']) 8 = some .code := by decide +kernel
    have hjoin : mask (waitLine ++ ['\n'] ++ b) = mask (waitLine ++ ['\n']) ++ mask b :=
      Lua.maskFrom_append hends hstands b
    rw [List.append_cons, hjoin, hself, ← List.append_cons]
  refine ⟨xs, hlength, ?_, ?_⟩
  · show Text.splitLines (mask (a ++ b)) = _
    rw [hmask, hlines]
  · show Text.splitLines (mask (a ++ (waitLine ++ '\n' :: b))) = _
    rw [hmask, hwait, hlines]
    rfl

/-- **The advice works.**  Take a text in two parts, the first of them empty or ended by a line feed
    at which the reader stands in code, and `Wait` among the yielding functions.  With a line
    `Wait(0)` between the parts, each of the two rules reports what it reported before, on lines
    that are moved down behind the new one, except for the loops that open before it and end behind
    it. -/
theorem loops_with_wait {a : List Char} (ha : EndsLine a)
    (hcode : Lua.regionAt a a.length = some .code) (b : List Char) (settings : Settings)
    (hwait : "Wait" ∈ settings.roster .yieldFunctions) :
    ∀ rule ∈ [LoopRule.while, LoopRule.repeat],
      rule.check ((settings.roster .yieldFunctions).map String.toList)
          (.ofText (a ++ ("Wait(0)\n".toList ++ b))) =
        ((rule.check ((settings.roster .yieldFunctions).map String.toList)
            (.ofText (a ++ b))).filter fun d =>
          ¬ rule.words.Surrounds (Script.ofText (a ++ b)).masked d.line (a.count '\n')).map
            (Diagnostic.onLines (movedBy (a.count '\n'))) := by
  intro rule hrule
  obtain ⟨xs, hlength, hbefore, hafter⟩ := masked_insert ha hcode b
  obtain ⟨hidle, hopener⟩ := idle_waitLine hrule
  have hyields := yields_waitLine (List.mem_map.2 ⟨"Wait", hwait, rfl⟩)
  rw [← hlength]
  exact rule.check_insert hidle hyields hopener hbefore hafter

/-- A loop with a comment at its end, and another one that goes on behind the cut. -/
def loopsBefore : List Char := "while a do\nend -- [[\nwhile b do\n".toList

/-- A loop inside of the second one. -/
def loopsAfter : List Char := "  while c do\n  end\nend".toList

/-- Of three loops the first keeps its report, the second loses it, and the third, which the new
    line does not stand in, is reported one line further down. -/
theorem loops_with_wait_between :
    LoopRule.while.check ["Wait".toList, "Citizen.Wait".toList]
      (.ofText (loopsBefore ++ loopsAfter)) =
      [LoopRule.while.report 0 0 10, LoopRule.while.report 2 0 10, LoopRule.while.report 3 2 12] ∧
    LoopRule.while.check ["Wait".toList, "Citizen.Wait".toList]
        (.ofText (loopsBefore ++ ("Wait(0)\n".toList ++ loopsAfter))) =
      [LoopRule.while.report 0 0 10, LoopRule.while.report 4 2 12] := by
  have hcheck : LoopRule.while.check ["Wait".toList, "Citizen.Wait".toList]
      (.ofText (loopsBefore ++ loopsAfter)) =
      [LoopRule.while.report 0 0 10, LoopRule.while.report 2 0 10,
        LoopRule.while.report 3 2 12] := by
    decide +kernel
  refine ⟨hcheck, ?_⟩
  have hwith := loops_with_wait (a := loopsBefore) (by decide)
    (by decide +kernel) loopsAfter .default
    (by decide) .while (.head _)
  have hnames : (Settings.default.roster .yieldFunctions).map String.toList =
      ["Wait".toList, "Citizen.Wait".toList] := by decide
  rw [hnames, hcheck] at hwith
  rw [hwith]
  decide +kernel

end LuaAudit.Lint
