import DualInit.Token

/-!
# Rows of a table

A table of metadata is kept as the list of its rows in stored order.  A row is looked up by the
first match, changed in place, and a new row takes the number after the greatest one in use, so
that tables whose numbers have gaps or are out of order are allocated in like any other.
-/

namespace DualInit
namespace Rows

/-- Applies a change that may fail to the first row that matches; answers `none` if no row
does. -/
def updateFirst {α ε : Type} (matching : α → Bool) (change : α → Except ε α) :
    List α → Option (Except ε (List α))
  | [] => none
  | row :: rows =>
    if matching row then
      some (do return (← change row) :: rows)
    else
      (updateFirst matching change rows).map fun changed => do return row :: (← changed)

/-- The greatest row number that tokens hold, or 0 if there are none. -/
def greatest (tokens : List Token) : Nat :=
  tokens.foldr (fun t most => max t.row most) 0

/-- The number that the next row of a table takes. -/
def next (tokens : List Token) : Nat :=
  greatest tokens + 1

theorem row_le_greatest {tokens : List Token} {t : Token} (h : t ∈ tokens) :
    t.row ≤ greatest tokens := by
  induction tokens with
  | nil => exact absurd h List.not_mem_nil
  | cons u tokens ih =>
    rcases List.mem_cons.mp h with rfl | h
    · exact Nat.le_max_left ..
    · exact Nat.le_trans (ih h) (Nat.le_max_right ..)

/-- The next row number is greater than every one in use. -/
theorem row_lt_next {tokens : List Token} {t : Token} (h : t ∈ tokens) : t.row < next tokens :=
  Nat.lt_succ_of_le (row_le_greatest h)

/-- No row matches exactly if there is nothing to update. -/
theorem updateFirst_eq_none_iff {α ε : Type} {matching : α → Bool} {change : α → Except ε α}
    {rows : List α} : updateFirst matching change rows = none ↔ ∀ row ∈ rows, ¬ matching row := by
  induction rows with
  | nil => simp [updateFirst]
  | cons row rows ih =>
    unfold updateFirst
    split
    · next h => simp [h]
    · next h => simp [h, ih]

end Rows
end DualInit
