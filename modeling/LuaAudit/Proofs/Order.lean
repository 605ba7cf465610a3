import LuaAudit.Order
import Mathlib.Data.String.Basic

/-!
# The order of lists and texts is the lexicographic one

* `listLe_iff`: lists that are compared member by member are in lexicographic order;
* `textLe_iff`: so are texts, by their characters.
-/

namespace LuaAudit.Order

/-- Lists that are compared by a linear order of their members are in lexicographic order. -/
theorem listLe_iff {α : Type} [LinearOrder α] {le : α → α → Bool}
    (hle : ∀ a b, le a b = true ↔ ¬ b < a) (as bs : List α) :
    listLe le as bs = true ↔ ¬ bs < as := by
  induction as generalizing bs with
  | nil => simp [listLe]
  | cons a as ih =>
    cases bs with
    | nil => simp [listLe]
    | cons b bs =>
      rw [listLe, List.cons_lt_cons_iff]
      split
      next heq =>
        -- equal members decide nothing
        subst heq
        simp [ih]
      next hne => simp [hle, Ne.symm hne]

/-- Texts are in the order of their characters. -/
theorem textLe_iff (s t : String) : textLe s t = true ↔ ¬ t < s := by
  rw [String.lt_iff_toList_lt]
  apply listLe_iff
  intro a b
  rw [decide_eq_true_eq, Char.lt_def, UInt32.lt_iff_toNat_lt, Nat.not_lt]
  rfl

end LuaAudit.Order
