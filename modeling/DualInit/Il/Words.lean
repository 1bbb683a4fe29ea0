/-!
# Words in code bytes

Code bytes hold words of several bytes, the lowest byte first.  `Words.encode w n` writes the
lowest `w` bytes of a number and `Words.decode` reads a number off all the bytes it is given;
they undo each other on numbers that fit (`decode_encode`).  A number with a sign is written in
two's complement, by `Words.encodeSigned`, if it fits.
-/

namespace DualInit
namespace Words

/-- How many numbers fit into words of so many bytes. -/
def limit : (width : Nat) → Nat
  | 0 => 1
  | width + 1 => 256 * limit width

/-- The lowest `width` bytes of a number, the lowest one first. -/
def encode : (width : Nat) → Nat → List UInt8
  | 0, _ => []
  | width + 1, n => UInt8.ofNat n :: encode width (n / 256)

/-- The number that bytes stand for, the lowest one first. -/
def decode : List UInt8 → Nat
  | [] => 0
  | b :: bs => b.toNat + 256 * decode bs

@[simp] theorem length_encode (width n : Nat) : (encode width n).length = width := by
  induction width generalizing n with
  | zero => rfl
  | succ width ih => simp [encode, ih]

/-- Reading gives back what was written, up to what the width cuts off. -/
theorem decode_encode_mod (width n : Nat) : decode (encode width n) = n % limit width := by
  induction width generalizing n with
  | zero => exact (Nat.mod_one n).symm
  | succ width ih =>
    have hb : (UInt8.ofNat n).toNat = n % 256 := UInt8.toNat_ofNat'
    rw [encode, decode, ih, hb, limit, Nat.mod_mul]

/-- A number that fits is read back as it was written. -/
theorem decode_encode {width n : Nat} (h : n < limit width) : decode (encode width n) = n := by
  rw [decode_encode_mod, Nat.mod_eq_of_lt h]

/-! ## Signed words -/

/-- Whether a number fits a signed word of so many bytes. -/
def fits (width : Nat) (n : Int) : Bool :=
  -(limit width : Int) ≤ 2 * n && 2 * n < limit width

/-- A number as a signed word of so many bytes. -/
def encodeSigned (width : Nat) (n : Int) : List UInt8 :=
  encode width (n % limit width).toNat

theorem fits_iff {width : Nat} {n : Int} :
    fits width n = true ↔ -(limit width : Int) ≤ 2 * n ∧ 2 * n < limit width := by
  simp only [fits, Bool.and_eq_true, decide_eq_true_eq]

theorem fits_ofNat (width n : Nat) : fits width (n : Int) = true ↔ 2 * n < limit width := by
  rw [fits_iff]
  omega

end Words
end DualInit
