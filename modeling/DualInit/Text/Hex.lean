/-!
# Hexadecimal text of a fixed width

Row numbers and table numbers are shown with a fixed count of hexadecimal digits, so that the
text of two tokens has the same length and the table number can be read off its first two
places.  `Hex.fixed w n` writes the lowest `w` digits of `n`, the most significant one first;
`length_fixed` says that the width is always the one asked for.
-/

namespace DualInit
namespace Hex

/-- The lowest `width` hexadecimal digits of a number, most significant first, with small
letters. -/
def fixed : (width : Nat) → Nat → List Char
  | 0, _ => []
  | width + 1, n => fixed width (n / 16) ++ [Nat.digitChar (n % 16)]

@[simp] theorem fixed_zero (n : Nat) : fixed 0 n = [] := rfl

theorem fixed_succ (width n : Nat) :
    fixed (width + 1) n = fixed width (n / 16) ++ [Nat.digitChar (n % 16)] := rfl

/-- The width is kept, whatever the number. -/
@[simp] theorem length_fixed (width n : Nat) : (fixed width n).length = width := by
  induction width generalizing n with
  | zero => rfl
  | succ width ih => rw [fixed_succ, List.length_append, ih, List.length_singleton]

/-- The digits as text, with small letters. -/
def lower (width n : Nat) : String :=
  String.ofList (fixed width n)

/-- The digits as text, with capital letters. -/
def upper (width n : Nat) : String :=
  String.ofList ((fixed width n).map Char.toUpper)

end Hex
end DualInit
