import LuaAudit.Lint.Depth
import LuaAudit.Proofs.Text.Read
import Mathlib.Algebra.BigOperators.Group.List.Basic
import Mathlib.Algebra.Order.Ring.Int
import Mathlib.Data.List.Infix
import Mathlib.Order.Bounds.Defs

/-!
# Depths as reflected sums

A depth goes up and down with what each line opens and closes, and stops at zero where lines close
more than is open.  So it depends on the whole history of lines; the closed form is the greatest
change over the last lines, for some number of them.

* `tableChange` and `functionChange`: what a line opens beyond what it closes;
* `changeFrom`: the change over the lines from an index on;
* `Follows`: one line changes a depth by its change, down to zero and no further;
* `Reflected`: the closed form and what it means for surplus closers;
* `depths_reflected`: both depths have it.
-/

namespace LuaAudit.Lint

/-! ### Changes -/

/-- What a line opens beyond what it closes, in braces. -/
def tableChange (line : List Char) : Int := line.count '\x7b' - line.count '\x7d'

/-- What a line opens beyond what it closes, in function bodies. -/
def functionChange (line : List Char) : Int :=
  if "function".toList <:+: line ∧ ¬ "end".toList <:+: line then 1
  else if "end".toList <:+: line ∧ ¬ "function".toList <:+: line then -1
  else 0

/-- The change over the lines from index `k` on. -/
def changeFrom (change : List Char → Int) (lines : List (List Char)) (k : Nat) : Int :=
  ((lines.drop k).map change).sum

section changeFrom

variable (change : List Char → Int)

theorem changeFrom_length (lines : List (List Char)) :
    changeFrom change lines lines.length = 0 := by
  rw [changeFrom, List.drop_length]
  rfl

/-- One more line adds its change wherever the sum starts. -/
theorem changeFrom_concat (lines : List (List Char)) (line : List Char) {k : Nat}
    (hk : k ≤ lines.length) :
    changeFrom change (lines ++ [line]) k = changeFrom change lines k + change line := by
  rw [changeFrom, List.drop_append_of_le_length hk, List.map_append, List.sum_append,
    List.map_singleton, List.sum_singleton]
  rfl

/-- Lines before the start of the sum do not count. -/
theorem changeFrom_append (earlier later : List (List Char)) (k : Nat) :
    changeFrom change (earlier ++ later) (earlier.length + k) = changeFrom change later k := by
  rw [changeFrom, List.drop_length_add_append]
  rfl

end changeFrom

/-! ### One line -/

/-- A line changes the depth by its change, down to zero and no further. -/
def Follows (feed : Nat → List Char → Nat) (change : List Char → Int) : Prop :=
  ∀ depth line, (feed depth line : Int) = max 0 (depth + change line)

theorem tableDepth_follows : Follows tableDepth tableChange := by
  intro depth line
  rw [tableDepth, tableChange]
  omega

theorem functionDepth_follows : Follows functionDepth functionChange := by
  intro depth line
  unfold functionDepth functionChange
  simp only [← Text.containsText_iff]
  generalize Text.containsText "function".toList line = opens
  generalize Text.containsText "end".toList line = closes
  -- Only a line with one word and without the other changes anything.
  rcases opens with _ | _ <;> rcases closes with _ | _
  · show (depth : Int) = max 0 ((depth : Int) + 0)
    omega
  · show ((depth - 1 : Nat) : Int) = max 0 ((depth : Int) + -1)
    omega
  · show ((depth + 1 : Nat) : Int) = max 0 ((depth : Int) + 1)
    omega
  · show (depth : Int) = max 0 ((depth : Int) + 0)
    omega

/-! ### All lines -/

/-- The depth after lines that are fed to it one by one. -/
def fed (feed : Nat → List Char → Nat) (lines : List (List Char)) : Nat := lines.foldl feed 0

/-- A depth is the greatest change over the last lines, for some number of them.  Hence it is never
    negative, a line that opens more than it closes shows whatever stands before it, and lines in
    front of others never lower the depth behind them. -/
structure Reflected (feed : Nat → List Char → Nat) (change : List Char → Int) : Prop where
  greatest : ∀ lines : List (List Char),
    IsGreatest {s | ∃ k ≤ lines.length, s = changeFrom change lines k} (fed feed lines : Int)
  nonneg : ∀ lines : List (List Char), 0 ≤ (fed feed lines : Int)
  shows : ∀ (lines : List (List Char)) (line : List Char),
    change line ≤ (fed feed (lines ++ [line]) : Int)
  later_le : ∀ earlier later : List (List Char), fed feed later ≤ fed feed (earlier ++ later)

variable {feed : Nat → List Char → Nat} {change : List Char → Int}

/-- **The closed form.** -/
theorem Follows.isGreatest (h : Follows feed change) (lines : List (List Char)) :
    IsGreatest {s | ∃ k ≤ lines.length, s = changeFrom change lines k} (fed feed lines : Int) := by
  induction lines using List.reverseRecOn with
  | nil =>
    constructor
    · exact ⟨0, le_rfl, rfl⟩
    · rintro s ⟨k, hk, rfl⟩
      obtain rfl : k = 0 := Nat.le_zero.1 hk
      exact le_rfl
  | append_singleton lines line ih =>
    obtain ⟨⟨best, hbest, hdepth⟩, hmost⟩ := ih
    have hstep : (fed feed (lines ++ [line]) : Int) = max 0 (fed feed lines + change line) := by
      rw [fed, List.foldl_append]
      exact h _ line
    have hlength : (lines ++ [line]).length = lines.length + 1 := by simp
    rw [hstep]
    constructor
    · -- Either the line leaves nothing open, or the best start so far is still the best.
      rcases max_choice 0 ((fed feed lines : Int) + change line) with hmax | hmax
      · refine ⟨(lines ++ [line]).length, le_rfl, ?_⟩
        rw [hmax, changeFrom_length]
      · refine ⟨best, by omega, ?_⟩
        rw [hmax, changeFrom_concat change lines line hbest, hdepth]
    · rintro s ⟨k, hk, rfl⟩
      rcases Nat.lt_or_ge lines.length k with hlast | hbefore
      · obtain rfl : k = (lines ++ [line]).length := by omega
        rw [changeFrom_length]
        exact le_max_left _ _
      · -- A start before the line was no better than the depth there.
        have hle : changeFrom change lines k ≤ fed feed lines := hmost ⟨k, hbefore, rfl⟩
        rw [changeFrom_concat change lines line hbefore]
        omega

/-- What follows from the closed form. -/
theorem Follows.reflected (h : Follows feed change) : Reflected feed change where
  greatest := h.isGreatest
  nonneg lines := by
    -- The sum over no lines is one of those compared.
    apply (h.isGreatest lines).2
    exact ⟨lines.length, le_rfl, (changeFrom_length change lines).symm⟩
  shows lines line := by
    apply (h.isGreatest (lines ++ [line])).2
    refine ⟨lines.length, by simp, ?_⟩
    rw [changeFrom_concat change lines line le_rfl, changeFrom_length, Int.zero_add]
  later_le earlier later := by
    -- The best start in the later lines is a start in all of them.
    obtain ⟨⟨best, hbest, hdepth⟩, -⟩ := h.isGreatest later
    have hle : (fed feed later : Int) ≤ fed feed (earlier ++ later) := by
      apply (h.isGreatest (earlier ++ later)).2
      refine ⟨earlier.length + best, ?_, ?_⟩
      · rw [List.length_append]
        omega
      · rw [changeFrom_append, hdepth]
    omega

/-- **Depths are reflected sums.**  For every sequence of lines, the depth of table braces and that
    of function bodies behind it is the greatest change over the last lines, for some number of
    them; so neither is negative, and closers without an opener never hide an opener behind them. -/
theorem depths_reflected :
    Reflected tableDepth tableChange ∧ Reflected functionDepth functionChange :=
  ⟨tableDepth_follows.reflected, functionDepth_follows.reflected⟩

/-- Three surplus closers do not hide the opener behind them. -/
example : fed tableDepth ["\x7d\x7d".toList, "\x7d".toList, "t = \x7b".toList] = 1 := by decide

end LuaAudit.Lint
