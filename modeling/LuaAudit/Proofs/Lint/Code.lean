import LuaAudit.Proofs.Lint.Comment
import LuaAudit.Proofs.Lint.Loop
import LuaAudit.Proofs.Lua.Code
import LuaAudit.Proofs.Lua.Joined

/-!
# Which places hold code

Whether a place holds code is asked by line and column, and answered by comparing the written with
the masked line.  The answer is the one that the lexemes of the whole text give for the character at
that place, unless it is a carriage return, which masking keeps everywhere.

* `Lua.LiesAt t n i j`: offset `n` of a text lies on line `i` at column `j`, by its line feeds
  alone;
* `Lua.liesAt_lineStart`: the columns of a line are offsets of the text;
* `IndexOf`: a place that counts an index from the start or back from the end;
* `isCodeAt_exact`: the answer.
-/

namespace LuaAudit.Lua

open Text (splitLines)

/-! ### Offsets, lines and columns -/

/-- Before offset `n` of a text stand whole lines with `i` line feeds, and then `j` characters
    without one. -/
def LiesAt (t : List Char) (n i j : Nat) : Prop :=
  ∃ whole part, t.take n = whole ++ part ∧ EndsLine whole ∧ whole.count '\n' = i ∧
    '\n' ∉ part ∧ part.length = j

/-- A character in front of whole lines, if there is none, is a line feed. -/
theorem EndsLine.cons {c : Char} {w : List Char} (h : EndsLine w) (hc : w = [] → c = '\n') :
    EndsLine (c :: w) := by
  by_cases hw : w = []
  · exact .inr (by rw [hw, hc hw]; rfl)
  · obtain ⟨s, rfl⟩ := h.exists_concat hw
    exact .inr (List.getLast?_eq_some_iff.2 ⟨c :: s, rfl⟩)

/-- Before the start of a line stand whole lines, as many as there are line feeds. -/
theorem endsLine_take_lineStart {t line : List Char} {i : Nat}
    (h : (splitLines t)[i]? = some line) :
    EndsLine (t.take (lineStart t i)) ∧ (t.take (lineStart t i)).count '\n' = i := by
  fun_induction splitLines t generalizing i line with
  | case1 =>
    cases i with
    | zero => exact ⟨.inl rfl, rfl⟩
    | succ i => simp at h
  | case2 cs ih =>
    cases i with
    | zero => exact ⟨.inl rfl, rfl⟩
    | succ i =>
      obtain ⟨hends, hcount⟩ := ih h
      refine ⟨(hends.cons fun _ => rfl).cons (by simp), ?_⟩
      show ('\r' :: '\n' :: cs.take (lineStart cs i)).count '\n' = i + 1
      simpa using hcount
  | case3 cs ih =>
    cases i with
    | zero => exact ⟨.inl rfl, rfl⟩
    | succ i =>
      obtain ⟨hends, hcount⟩ := ih h
      refine ⟨hends.cons fun _ => rfl, ?_⟩
      show ('\n' :: cs.take (lineStart cs i)).count '\n' = i + 1
      simpa using hcount
  | case4 c cs hreturn hc ih =>
    cases i with
    | zero => exact ⟨.inl rfl, rfl⟩
    | succ i =>
      -- The character joins the first line, so the later lines are those of the rest.
      obtain ⟨first, more, hlines⟩ := List.exists_cons_of_ne_nil (splitLines_ne_nil cs)
      have hrest : (splitLines cs)[i + 1]? = some line := by
        rw [hlines] at h ⊢
        exact h
      obtain ⟨hends, hcount⟩ := ih hrest
      rw [lineStart, if_neg hc, List.take_succ_cons]
      refine ⟨hends.cons fun hnil => ?_, ?_⟩
      · rw [hnil] at hcount
        cases hcount
      · rw [List.count_cons_of_ne hc]
        exact hcount

/-- **Columns are offsets.**  A column of a line lies where the line starts and as many characters
    further. -/
theorem liesAt_lineStart {t line : List Char} {i j : Nat} (h : (splitLines t)[i]? = some line)
    (hj : j ≤ line.length) : LiesAt t (lineStart t i + j) i j := by
  obtain ⟨hends, hcount⟩ := endsLine_take_lineStart h
  have hline : '\n' ∉ line := Text.feed_notMem_of_mem_splitLines (List.mem_of_getElem? h)
  refine ⟨t.take (lineStart t i), line.take j, ?_, hends, hcount, ?_, by simpa using hj⟩
  · rw [List.take_add, ← take_drop_lineStart h, List.take_take, Nat.min_eq_left (by simpa using hj)]
  · exact fun hmem => hline (List.mem_of_mem_take hmem)

end LuaAudit.Lua

namespace LuaAudit.Lint

open Lua (CodeAt LiesAt blankOut lineStart)
open Text (splitLines)

/-! ### Places that count back -/

/-- A place is index `i` of `n` members, counted from the start or, below zero, back from the
    end. -/
def IndexOf (place : Int) (i n : Nat) : Prop := i < n ∧ (place = i ∨ place = (i : Int) - n)

instance (place : Int) (i n : Nat) : Decidable (IndexOf place i n) :=
  inferInstanceAs (Decidable (_ ∧ _))

theorem IndexOf.atPlace?_eq {α : Type} {xs : List α} {place : Int} {i : Nat}
    (h : IndexOf place i xs.length) : atPlace? xs place = xs[i]? := by
  obtain ⟨hi, rfl | rfl⟩ := h
  · exact atPlace?_natCast xs i
  · rw [atPlace?, if_neg (by omega), if_pos (by omega)]
    congr 1
    omega

/-- A place that counts back is answered like the index that it counts back to: the masked view has
    as many lines, and its lines have as many columns. -/
theorem Script.isCodeAt_of_indexOf {t raw : List Char} {i j : Nat} {line column : Int}
    (hraw : (ofText t).lines[i]? = some raw) (hline : IndexOf line i (ofText t).lines.length)
    (hcolumn : IndexOf column j raw.length) :
    (ofText t).isCodeAt line column = (ofText t).isCodeAt i j := by
  have hviews := Lua.forall₂_veils_lines t
  obtain ⟨masked, hmasked, hveils⟩ := Lua.exists_getElem?_of_forall₂ hviews hraw
  replace hmasked : (ofText t).masked[i]? = some masked := hmasked
  have hlines : (ofText t).lines.length = (ofText t).masked.length := hviews.length_eq
  have hinside : ¬ (raw.length : Int) ≤ column ∧ ¬ (raw.length : Int) ≤ j := by
    obtain ⟨hj, rfl | rfl⟩ := hcolumn <;> omega
  simp only [isCodeAt, atPlace?_natCast, hline.atPlace?_eq, hcolumn.atPlace?_eq, hraw, hmasked,
    if_neg hinside.1, if_neg hinside.2, (hlines ▸ hline).atPlace?_eq,
    (hveils.length_eq ▸ hcolumn).atPlace?_eq]

/-! ### The answer -/

/-- **Code is told exactly.**  For every text, every line and column that it has, counted from the
    start or back from the end, and every character there but a carriage return, the question
    whether the place holds code has an answer.  It is yes exactly if the character is no space and
    is a character of code among the lexemes of the text, at the offset of that line and column. -/
theorem isCodeAt_exact {t raw : List Char} {i j : Nat} {c : Char} {line column : Int}
    (hraw : (splitLines t)[i]? = some raw) (hc : raw[j]? = some c) (hreturn : c ≠ '\r')
    (hline : IndexOf line i (splitLines t).length) (hcolumn : IndexOf column j raw.length) :
    LiesAt t (lineStart t i + j) i j ∧ t[lineStart t i + j]? = some c ∧
    ∃ answer, (Script.ofText t).isCodeAt line column = .ok answer ∧
      (answer = true ↔ c ≠ ' ' ∧ CodeAt t (lineStart t i + j)) := by
  have hj : j < raw.length := hcolumn.1
  have hoffset : t[lineStart t i + j]? = some c := by rw [← getElem?_line hraw hj, hc]
  refine ⟨Lua.liesAt_lineStart hraw (Nat.le_of_lt hj), hoffset, ?_⟩
  refine ⟨(Script.ofText t).holdsCode i j, ?_, ?_⟩
  · obtain ⟨d, m, hat, -⟩ := Script.exists_at_ofText hraw hj
    rw [Script.isCodeAt_of_indexOf hraw hline hcolumn, Script.holdsCode, hat.isCodeAt_eq]
  · rw [Script.holdsCode_ofText_iff hraw hc]
    refine and_congr_right fun hspace => ?_
    -- Neither a space nor a line end, the character shows whether it was blanked.
    have hfeed : c ≠ '\n' := by
      rintro rfl
      exact Text.feed_notMem_of_mem_splitLines (List.mem_of_getElem? hraw) (List.mem_of_getElem? hc)
    have hblank : blankOut c ≠ c := by
      rw [Lua.blankOut_of_ne hreturn hfeed]
      exact Ne.symm hspace
    rw [Lua.getElem?_mask_iff hblank, hoffset]
    exact and_iff_right rfl

/-- Lines that end in either way, with a string and a comment. -/
def mixedText : List Char := "a\r\n\n'b' c -- c".toList

/-- The last line, counted back: the first `c` is code, the one in the comment is not. -/
theorem isCodeAt_exact_mixed :
    (Script.ofText mixedText).isCodeAt (-1) 4 = .ok true ∧ CodeAt mixedText 8 ∧
    (Script.ofText mixedText).isCodeAt (-1) (-1) = .ok false ∧ ¬ CodeAt mixedText 13 := by
  have hplaces : (splitLines mixedText)[2]? = some "'b' c -- c".toList ∧
      IndexOf (-1) 2 (splitLines mixedText).length ∧ IndexOf 4 4 "'b' c -- c".toList.length ∧
      IndexOf (-1) 9 "'b' c -- c".toList.length ∧
      ((Script.ofText mixedText).isCodeAt (-1) 4).toOption = some true ∧
      ((Script.ofText mixedText).isCodeAt (-1) (-1)).toOption = some false := by
    decide +kernel
  obtain ⟨hraw, hline, hfirst, hlast, hyes, hno⟩ := hplaces
  obtain ⟨-, -, answer, hanswer, hcode⟩ :=
    isCodeAt_exact hraw (c := 'c') rfl (by decide) hline hfirst
  obtain ⟨-, -, answer', hanswer', hcode'⟩ :=
    isCodeAt_exact hraw (c := 'c') rfl (by decide) hline hlast
  rw [hanswer] at hyes
  rw [hanswer'] at hno
  obtain rfl : answer = true := Option.some.inj hyes
  obtain rfl : answer' = false := Option.some.inj hno
  refine ⟨hanswer, (hcode.1 rfl).2, hanswer', fun hcomment => ?_⟩
  exact absurd (hcode'.2 ⟨by decide, hcomment⟩) (by decide)

end LuaAudit.Lint
