import DualInit.Il.Layout
import Mathlib.Algebra.GroupWithZero.Nat

/-!
# Offsets and sizes

The offset of an instruction is the size of what stands in front of it, as far as a word of four
bytes can tell (`getElem?_offsets`).  In code of less than four gigabytes no offset wraps around, and
then the displacement of a branch that goes forward is the size of what stands between the branch and
its target (`displacement_eq`).
-/

namespace DualInit
namespace Layout

variable {forms : List OpCode} {index target : Nat} {form : OpCode}

/-! ## Sizes -/

@[simp] theorem codeSize_nil : codeSize [] = 0 := rfl

@[simp] theorem codeSize_cons (form : OpCode) (forms : List OpCode) :
    codeSize (form :: forms) = form.size + codeSize forms := rfl

@[simp] theorem codeSize_append (forms rest : List OpCode) :
    codeSize (forms ++ rest) = codeSize forms + codeSize rest := by
  induction forms with
  | nil => rw [List.nil_append, codeSize_nil, Nat.zero_add]
  | cons form forms ih => rw [List.cons_append, codeSize_cons, codeSize_cons, ih, Nat.add_assoc]

theorem offset_le_codeSize (forms : List OpCode) (index : Nat) :
    offset forms index ≤ codeSize forms := by
  have hall := congrArg codeSize (List.take_append_drop index forms)
  rw [codeSize_append] at hall
  exact Nat.le.intro hall

theorem distance_le_codeSize (forms : List OpCode) (index target : Nat) :
    distance forms index target ≤ codeSize forms := by
  have hfront := congrArg codeSize (List.take_append_drop (index + 1) (forms.take target))
  have hall := congrArg codeSize (List.take_append_drop target forms)
  rw [codeSize_append] at hfront hall
  unfold distance
  omega

/-- A branch, its size and its distance lead from its offset to that of its target. -/
theorem offset_add_distance (hform : forms[index]? = some form) (h : index < target) :
    offset forms index + form.size + distance forms index target = offset forms target := by
  obtain ⟨hlt, rfl⟩ := List.getElem?_eq_some_iff.mp hform
  have hsplit : forms.take target
      = forms.take index ++ forms[index] :: (forms.take target).drop (index + 1) := by
    have hi : index < (forms.take target).length := by
      rw [List.length_take]; exact Nat.lt_min.mpr ⟨h, hlt⟩
    have htake : (forms.take target).take index = forms.take index := by
      rw [List.take_take, Nat.min_eq_left (Nat.le_of_lt h)]
    calc forms.take target
        = (forms.take target).take index ++ (forms.take target).drop index :=
          (List.take_append_drop index _).symm
      _ = _ := by rw [htake, List.drop_eq_getElem_cons hi, List.getElem_take]
  have hsum := congrArg codeSize hsplit
  rw [codeSize_append, codeSize_cons, ← Nat.add_assoc] at hsum
  exact hsum.symm

/-! ## Offsets -/

@[simp] theorem length_offsetsFrom (start : UInt32) (forms : List OpCode) :
    (offsetsFrom start forms).length = forms.length := by
  induction forms generalizing start with
  | nil => rfl
  | cons form forms ih => simp [offsetsFrom, ih]

@[simp] theorem length_offsets (forms : List OpCode) : (offsets forms).length = forms.length :=
  length_offsetsFrom 0 forms

theorem getElem?_offsetsFrom (start : UInt32) (forms : List OpCode) {index : Nat}
    (h : index < forms.length) :
    (offsetsFrom start forms)[index]? = some (start + UInt32.ofNat (offset forms index)) := by
  induction forms generalizing start index with
  | nil => exact absurd h (Nat.not_lt_zero _)
  | cons form forms ih =>
    cases index with
    | zero => simp [offsetsFrom, offset]
    | succ index =>
      rw [offsetsFrom, List.getElem?_cons_succ, ih _ (Nat.lt_of_succ_lt_succ h), UInt32.add_assoc,
        ← UInt32.ofNat_add]
      rfl

/-- The list of offsets holds the offset of every instruction, up to what a word cuts off. -/
theorem getElem?_offsets (h : index < forms.length) :
    (offsets forms)[index]? = some (UInt32.ofNat (offset forms index)) := by
  rw [offsets, getElem?_offsetsFrom 0 forms h, UInt32.zero_add]

section

variable (hsize : codeSize forms < 2 ^ 32)
include hsize

/-- A word cuts nothing off the offsets of code that is not too long. -/
theorem toNat_ofNat_offset (index : Nat) :
    (UInt32.ofNat (offset forms index)).toNat = offset forms index :=
  UInt32.toNat_ofNat_of_lt' (Nat.lt_of_le_of_lt (offset_le_codeSize forms index) hsize)

theorem toNat_getD_offsets (h : index < forms.length) :
    ((offsets forms).getD index 0).toNat = offset forms index := by
  rw [List.getD_eq_getElem?_getD, getElem?_offsets h, Option.getD_some, toNat_ofNat_offset hsize]

/-- The offsets as numbers. -/
theorem getElem?_map_offsets (h : index < forms.length) :
    ((offsets forms).map (·.toNat))[index]? = some (offset forms index) := by
  rw [List.getElem?_map, getElem?_offsets h, Option.map_some, toNat_ofNat_offset hsize]

/-- The displacement of a branch that goes forward is the distance to its target. -/
theorem displacement_eq (hform : forms[index]? = some form) (hahead : index < target)
    (hinside : target < forms.length) :
    displacement (offsets forms) index target form = (distance forms index target : Int) := by
  have hsum := offset_add_distance hform hahead
  rw [displacement, toNat_getD_offsets hsize hinside,
    toNat_getD_offsets hsize (Nat.lt_trans hahead hinside)]
  omega

/-- A signed byte bridges a displacement if the distance is not too long. -/
theorem fits_displacement (hform : forms[index]? = some form) (hahead : index < target)
    (hinside : target < forms.length) :
    Words.fits 1 (displacement (offsets forms) index target form) = true ↔
      distance forms index target ≤ shortReach := by
  rw [displacement_eq hsize hform hahead hinside, Words.fits_ofNat, Words.limit, Words.limit,
    shortReach]
  omega

end

end Layout
end DualInit
