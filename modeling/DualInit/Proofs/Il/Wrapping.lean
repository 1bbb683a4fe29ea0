import DualInit.Proofs.Il.Sizing

/-!
# Why sizes are bounded

The search for forms begins with all branches long, and offsets of four bytes may wrap around there
though they would not in the layout that is wanted.  Then a branch may be taken for one that fits and
is made short, and no round makes it long again (`isShort_forms`).

The code to see this with has a branch over a run of branches, each of which goes to the next
instruction (`overRun`).  Only the first branch has to be long, and with it the code has a tight layout
of about two bytes for each of the others.  The search takes up five bytes for each instead.  So there
is code whose tight layout takes less than two gigabytes and is not found (`exists_forms_not_fitting`),
and the condition on the layout that the search starts from cannot be replaced by one on that layout.
-/

namespace DualInit
namespace Layout

variable {code : List Instruction} {forms : List OpCode} {index : Nat}

/-! ## Short branches stay short -/

theorem isShort_round (hlength : forms.length = code.length) (h : IsShort forms index) :
    IsShort (round code forms) index := by
  obtain ⟨form, hform, hshort⟩ := h
  obtain ⟨hindex, -⟩ := List.getElem?_eq_some_iff.mp hform
  have hi : code[index]? = some code[index] := List.getElem?_eq_getElem (hlength ▸ hindex)
  refine ⟨form, ?_, hshort⟩
  rw [getElem?_round hi hform]
  rcases shrink_cases (Layout.offsets forms) index code[index] form with
    hsame | ⟨_, short, -, hshort', -⟩
  · rw [hsame]
  · rw [OpCode.shortForm?_eq_none hshort] at hshort'
    cases hshort'

theorem isShort_settle (rounds : Nat) (hassign : IsAssignment code forms) (h : IsShort forms index) :
    IsShort (settle code rounds forms) index := by
  induction rounds generalizing forms with
  | zero => exact h
  | succ rounds ih =>
    rw [settle]
    split
    · exact h
    · exact ih hassign.round (isShort_round hassign.length_eq h)

/-- A branch that the first round makes short is short in the end. -/
theorem isShort_forms (h : IsShort (round code (longForms code)) index) :
    IsShort (Layout.forms code) index := by
  have hindex : index < code.length := by
    obtain ⟨form, hform, -⟩ := h
    obtain ⟨hlt, -⟩ := List.getElem?_eq_some_iff.mp hform
    rwa [(isAssignment_longForms code).round.length_eq] at hlt
  obtain ⟨rounds, hrounds⟩ := Nat.exists_eq_add_one_of_ne_zero (Nat.ne_zero_of_lt hindex)
  rw [Layout.forms, hrounds, settle]
  split
  · next hsame => rwa [hsame] at h
  · exact isShort_settle rounds (isAssignment_longForms code).round h

/-! ## A branch over a run of branches -/

/-- A branch over a run of `n` branches, each of which goes to the next instruction. -/
def overRun (n : Nat) : List Instruction :=
  ⟨.ldarg0, .none⟩ :: ⟨.brtrue, .target ⟨n + 2⟩⟩ ::
    ((List.range n).map fun k => ⟨.br, .target ⟨k + 3⟩⟩) ++ [⟨.ret, .none⟩]

/-- Forms of that code. -/
def overRunForms (far near : OpCode) (n : Nat) : List OpCode :=
  .ldarg0 :: far :: (List.replicate n near ++ [.ret])

variable {n k : Nat} {far near : OpCode} {i : Instruction}

theorem codeSize_replicate (n : Nat) (form : OpCode) :
    codeSize (List.replicate n form) = n * form.size := by
  induction n with
  | zero => rw [List.replicate_zero, codeSize_nil, Nat.zero_mul]
  | succ n ih => rw [List.replicate_succ, codeSize_cons, ih, Nat.succ_mul, Nat.add_comm]

theorem length_le_codeSize (forms : List OpCode) : forms.length ≤ codeSize forms := by
  induction forms with
  | nil => exact Nat.le_refl 0
  | cons form forms ih =>
    rw [List.length_cons, codeSize_cons, Nat.add_comm]
    exact Nat.add_le_add form.size_pos ih

/-- What stands in front of the instruction behind the run. -/
theorem offset_overRunForms : offset (overRunForms far near n) (n + 2) =
    1 + far.size + n * near.size := by
  have htake : (overRunForms far near n).take (n + 2) = .ldarg0 :: far :: List.replicate n near := by
    simp [overRunForms]
  rw [offset, htake, codeSize_cons, codeSize_cons, codeSize_replicate, ← Nat.add_assoc]
  rfl

/-- The instructions of the code: what is in front of the run, the run, and what is behind it. -/
theorem overRun_cases (hi : (overRun n)[index]? = some i) :
    (index = 0 ∧ i = ⟨.ldarg0, .none⟩) ∨ (index = 1 ∧ i = ⟨.brtrue, .target ⟨n + 2⟩⟩) ∨
      (∃ k < n, index = k + 2 ∧ i = ⟨.br, .target ⟨k + 3⟩⟩) ∨ (index = n + 2 ∧ i = ⟨.ret, .none⟩) := by
  rcases index with _ | _ | k
  · exact .inl ⟨rfl, (Option.some.inj hi).symm⟩
  · exact .inr (.inl ⟨rfl, (Option.some.inj hi).symm⟩)
  · rw [overRun, List.cons_append, List.cons_append, List.getElem?_cons_succ,
      List.getElem?_cons_succ] at hi
    by_cases hk : k < n
    · rw [List.getElem?_append_left (by simpa using hk)] at hi
      simp only [List.getElem?_map, List.getElem?_range hk, Option.map_some, Option.some.injEq] at hi
      exact .inr (.inr (.inl ⟨k, hk, rfl, hi.symm⟩))
    · rw [List.getElem?_append_right (by simpa using hk)] at hi
      simp only [List.length_map, List.length_range, List.getElem?_singleton] at hi
      split at hi
      · next hlast =>
        have hk' : k = n := by omega
        subst hk'
        exact .inr (.inr (.inr ⟨rfl, (Option.some.inj hi).symm⟩))
      · cases hi

theorem branchesForward_overRun (n : Nat) : BranchesForward (overRun n) := by
  intro index hindex hbranch
  have hlength : (overRun n).length = n + 3 := by simp [overRun]
  rcases overRun_cases (List.getElem?_eq_getElem hindex) with
    ⟨rfl, hi⟩ | ⟨rfl, hi⟩ | ⟨k, hk, rfl, hi⟩ | ⟨rfl, hi⟩
  · rw [hi] at hbranch
    exact absurd hbranch (by decide)
  · exact ⟨⟨n + 2⟩, by rw [hi]; rfl, by simp, by simp [hlength]⟩
  · exact ⟨⟨k + 3⟩, by rw [hi]; rfl, by simp, by simp [hlength]; omega⟩
  · rw [hi] at hbranch
    exact absurd hbranch (by decide)

theorem longForms_overRun (n : Nat) : longForms (overRun n) = overRunForms .brtrue .br n := by
  simp [longForms, overRun, overRunForms, OpCode.longForm, List.map_const', Function.comp_def]

/-! ## What is wanted of the code -/

theorem isAssignment_overRun (n : Nat) :
    IsAssignment (overRun n) (overRunForms .brtrue .brS n) := by
  rw [IsAssignment, longForms_overRun]
  simp [overRunForms, OpCode.longForm]

/-- The first branch goes over all others. -/
theorem le_distance_overRun (hlength : forms.length = n + 3) : n ≤ distance forms 1 (n + 2) := by
  have hbetween : ((forms.take (n + 2)).drop 2).length = n := by
    simp [hlength]
  rw [distance]
  exact Nat.le_trans (Nat.le_of_eq hbetween.symm) (length_le_codeSize _)

/-- The code has a tight layout, in which only the first branch is long. -/
theorem isTight_overRun (hrun : shortReach < n) :
    IsTight (overRun n) (overRunForms .brtrue .brS n) := by
  intro index i target hi hbranch htarget
  rcases overRun_cases hi with ⟨rfl, rfl⟩ | ⟨rfl, rfl⟩ | ⟨k, hk, rfl, rfl⟩ | ⟨rfl, rfl⟩
  · cases hbranch
  · obtain rfl := Option.some.inj htarget
    have hform : (overRunForms .brtrue .brS n)[1]? = some .brtrue := rfl
    have hlong : n ≤ distance (overRunForms .brtrue .brS n) 1 (n + 2) :=
      le_distance_overRun (by simp [overRunForms])
    rw [isShort_iff hform]
    exact iff_of_false (by decide) (Nat.not_le_of_lt (Nat.lt_of_lt_of_le hrun hlong))
  · obtain rfl := Option.some.inj htarget
    have hform : (overRunForms .brtrue .brS n)[k + 2]? = some .brS := by
      simp [overRunForms, List.getElem?_append_left, hk]
    have hnext : distance (overRunForms .brtrue .brS n) (k + 2) (k + 3) = 0 := by
      simp [distance]
    rw [isShort_iff hform]
    exact iff_of_true rfl (hnext ▸ Nat.zero_le _)
  · cases hbranch

/-! ## What is found -/

/-- If the offset of the last instruction wraps around to where the first branch reaches, the first
round makes that branch short. -/
theorem isShort_round_overRun (hwrap : (6 + n * 5) % 2 ^ 32 ≤ 6 + shortReach) :
    IsShort (round (overRun n) (longForms (overRun n))) 1 := by
  have hlong := longForms_overRun n
  have hlength : (overRunForms .brtrue .br n).length = n + 3 := by simp [overRunForms]
  have hform : (longForms (overRun n))[1]? = some .brtrue := by rw [hlong]; rfl
  have hlast : (offsets (longForms (overRun n))).getD (n + 2) 0 = UInt32.ofNat (6 + n * 5) := by
    rw [hlong, List.getD_eq_getElem?_getD, getElem?_offsets (by omega), offset_overRunForms]
    rfl
  have hfirst : (offsets (longForms (overRun n))).getD 1 0 = 1 := by
    rw [hlong, List.getD_eq_getElem?_getD, getElem?_offsets (by omega)]
    rfl
  have hreach : Words.fits 1 (displacement (offsets (longForms (overRun n))) 1 (n + 2) .brtrue) =
      true := by
    have hsize : OpCode.brtrue.size = 5 := by decide
    have hone : (1 : UInt32).toNat = 1 := rfl
    rw [displacement, hlast, hfirst, hsize, hone, UInt32.toNat_ofNat', Words.fits_iff]
    simp only [Words.limit, shortReach] at hwrap ⊢
    omega
  refine ⟨.brtrueS, ?_, rfl⟩
  rw [getElem?_round (i := ⟨.brtrue, .target ⟨n + 2⟩⟩) rfl hform]
  exact congrArg some (if_pos hreach)

/-- Then the branch does not fit in the layout that is found. -/
theorem not_fits_overRun (hrun : shortReach < n)
    (hwrap : (6 + n * 5) % 2 ^ 32 ≤ 6 + shortReach) :
    ¬ Fits (overRun n) (Layout.forms (overRun n)) := by
  intro hfits
  have hshort := isShort_forms (isShort_round_overRun hwrap)
  have hreach := hfits 1 ⟨.brtrue, .target ⟨n + 2⟩⟩ ⟨n + 2⟩ rfl rfl hshort
  have hlength : (Layout.forms (overRun n)).length = n + 3 := by
    rw [(isAssignment_forms (overRun n)).length_eq]
    simp [overRun]
  exact absurd (Nat.le_trans (le_distance_overRun hlength) hreach) (Nat.not_le_of_lt hrun)

/-- There is code whose branches go forward and which has a tight layout of less than two gigabytes,
but the search for it ends in a layout with a short branch that does not fit. -/
theorem exists_forms_not_fitting : ∃ code, BranchesForward code ∧
    (∃ other, IsAssignment code other ∧ IsTight code other ∧ codeSize other < 2 ^ 31) ∧
    ¬ Fits code (Layout.forms code) := by
  have hrun : shortReach < 858993460 := by decide
  have hsize : codeSize (overRunForms .brtrue .brS 858993460) = 1717986927 := by
    rw [overRunForms, codeSize_cons, codeSize_cons, codeSize_append, codeSize_replicate]
    rfl
  exact ⟨overRun 858993460, branchesForward_overRun _, ⟨_, isAssignment_overRun _,
    isTight_overRun hrun, by rw [hsize]; decide⟩, not_fits_overRun hrun (by decide)⟩

end Layout
end DualInit
