/-!
# Orders of lists and texts

Lists are compared member by member, a shorter one coming first; texts are compared by the code
points of their characters.

* `Order.listLe` orders lists by an order of their members;
* `Order.textLe` orders texts.
-/

namespace LuaAudit.Order

variable {α : Type} [DecidableEq α]

/-- Whether a list comes before another or equals it, by the first members that differ. -/
def listLe (le : α → α → Bool) : List α → List α → Bool
  | [], _ => true
  | _ :: _, [] => false
  | a :: as, b :: bs => if a = b then listLe le as bs else le a b

/-- Whether a text comes before another or equals it. -/
def textLe (s t : String) : Bool := listLe (fun a b => a.toNat ≤ b.toNat) s.toList t.toList

end LuaAudit.Order
