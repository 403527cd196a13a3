/-!
# Allocation budgets

A budget counts what is left before allocations fail. Tasks that share a budget draw from it in
turn. One unit more than may be drawn is kept, so that a budget that has failed once fails for
good.
-/

namespace Skiff

structure Budget where
  left : Int
  deriving DecidableEq, Repr, Inhabited

namespace Budget

/-- Counters are 64 bits wide. -/
def greatest : Int := 0x7fffffffffffffff
def least : Int := -0x8000000000000000

/-- A budget of so many allocations. -/
def ofLimit (limit : Int64) : Budget := ⟨min (limit.toInt + 1) greatest⟩

/-- Draws from the budget; the answer is whether there was enough. What is drawn is gone in
either case. -/
def charge (budget : Budget) (count : Nat) : Bool × Budget :=
  let amount := min (count : Int) greatest
  (amount < budget.left, ⟨max (budget.left - amount) least⟩)

end Budget

end Skiff
