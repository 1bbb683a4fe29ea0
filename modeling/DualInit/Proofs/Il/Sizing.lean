import DualInit.Proofs.Il.Offsets
import Mathlib.Data.List.Forall2
import Mathlib.Data.Nat.Init

/-!
# Short and long branches

`Layout.forms` settles the form of every branch.  `forms_tight_unique_least` says what it comes to
for code whose branches go forward: a branch is short exactly if a signed byte bridges the distance
in the layout that results, no other choice of forms has this property, and no choice in which the
short branches fit takes fewer bytes.

The search keeps two things: the forms are forms of the code (`IsAssignment.round`), and every short
branch fits (`Fits.round`), because no distance ever grows.  Once a round changes nothing the long
branches are those that do not fit (`isTight_of_round_eq`), and each other round leaves fewer long
branches (`round_eq_or_lt`), so the search comes to an end (`settles_forms`).

The search has all branches long to begin with, and measures with offsets of four bytes.  Hence the
one condition on sizes: the code with all branches long has to be shorter than four gigabytes.  If it
is, so is the code in all other forms (`IsAssignment.codeSize_le`), and no offset wraps around.  If it
is not, the search may go wrong (`exists_forms_not_fitting`).

Since branches go forward, a distance depends on later instructions only.  So two layouts are
compared from the end of the code to its start (`shorter_drop`): where the rest of a tight layout
takes no more bytes than that of another one, a branch that fits in the other one fits in the
tight one too.
-/

namespace DualInit

/-! ## Forms of one operation -/

namespace OpCode

variable {op other short : OpCode}

/-- A short branch is the short form of its long form. -/
theorem shortForm?_longForm (h : op.operand = .int8) : op.longForm.shortForm? = some op := by
  cases op <;> first | rfl | exact absurd h (by decide)

/-- What is not a short branch is its own long form. -/
theorem longForm_of_operand (h : op.operand ≠ .int8) : op.longForm = op := by
  cases op <;> first | rfl | exact absurd rfl h

theorem operand_of_shortForm? (h : op.shortForm? = some short) : short.operand = .int8 := by
  cases op <;> cases h <;> rfl

/-- A branch is short, or it has a short form. -/
theorem exists_shortForm? (hbranch : op.isBranch = true) (h : op.operand ≠ .int8) :
    ∃ short, op.shortForm? = some short := by
  cases op <;> first
    | exact ⟨_, rfl⟩
    | exact absurd rfl h
    | exact absurd hbranch (by decide)

theorem isBranch_of_operand (h : op.operand = .int8) : op.isBranch = true := by
  cases op <;> first | rfl | exact absurd h (by decide)

theorem isBranch_of_shortForm? (h : op.shortForm? = some short) : op.isBranch = true := by
  cases op <;> cases h <;> rfl

/-- The forms of one operation differ in nothing but being short or not. -/
theorem eq_of_longForm (h : op.longForm = other.longForm)
    (hshort : op.operand = .int8 ↔ other.operand = .int8) : op = other := by
  by_cases hop : op.operand = .int8
  · have hsame := shortForm?_longForm hop
    rw [h, shortForm?_longForm (hshort.mp hop)] at hsame
    exact (Option.some.inj hsame).symm
  · rw [← longForm_of_operand hop, h, longForm_of_operand (mt hshort.mpr hop)]

theorem size_le_longForm (op : OpCode) : op.size ≤ op.longForm.size := by
  cases op <;> decide

/-- If the other form is short only where this one is, this one is not longer. -/
theorem size_le_of_longForm (h : op.longForm = other.longForm)
    (hshort : other.operand = .int8 → op.operand = .int8) : op.size ≤ other.size := by
  by_cases hsame : op.operand = .int8 ↔ other.operand = .int8
  · exact Nat.le_of_eq (congrArg size (eq_of_longForm h hsame))
  · have hother : other.operand ≠ .int8 := fun hother => hsame ⟨fun _ => hother, fun _ => hshort hother⟩
    rw [← longForm_of_operand hother, ← h]
    exact size_le_longForm op

theorem shortForm?_ne_self : op.shortForm? ≠ some op := by
  cases op <;> decide

theorem shortForm?_eq_none (h : op.operand = .int8) : op.shortForm? = none := by
  cases op <;> first | rfl | exact absurd h (by decide)

end OpCode

namespace Layout

variable {code : List Instruction} {forms other settled : List OpCode} {offsets : List UInt32}
  {index start : Nat} {i : Instruction} {form : OpCode}

/-! ## Comparing layouts -/

/-- No instruction takes more bytes than in another layout. -/
def Shorter (forms other : List OpCode) : Prop :=
  List.Forall₂ (fun form form' => form.size ≤ form'.size) forms other

theorem Shorter.refl (forms : List OpCode) : Shorter forms forms :=
  List.forall₂_same.mpr fun _ _ => Nat.le_refl _

theorem Shorter.codeSize_le (h : Shorter forms other) : codeSize forms ≤ codeSize other := by
  induction h with
  | nil => exact Nat.le_refl 0
  | cons hform _ ih => exact Nat.add_le_add hform ih

/-- A distance is a matter of the instructions behind the branch. -/
theorem distance_eq (forms : List OpCode) (index target : Nat) :
    distance forms index target =
      codeSize ((forms.drop (index + 1)).take (target - (index + 1))) := by
  rw [distance, List.drop_take]

theorem distance_le_of_drop (h : Shorter (forms.drop (index + 1)) (other.drop (index + 1)))
    (target : Nat) : distance forms index target ≤ distance other index target := by
  rw [distance_eq, distance_eq]
  exact Shorter.codeSize_le (List.forall₂_take _ h)

theorem Shorter.distance_le (h : Shorter forms other) (index target : Nat) :
    distance forms index target ≤ distance other index target :=
  distance_le_of_drop (List.forall₂_drop _ h) target

/-! ## The form of one instruction -/

theorem IsAssignment.length_eq (h : IsAssignment code forms) : forms.length = code.length := by
  have hlength := congrArg List.length h
  rwa [longForms, List.length_map, List.length_map] at hlength

theorem IsAssignment.exists_form (h : IsAssignment code forms) (hi : code[index]? = some i) :
    ∃ form, forms[index]? = some form ∧ form.longForm = i.opcode.longForm := by
  have hindex := congrArg (·[index]?) h
  simp only [longForms, List.getElem?_map, hi, Option.map_some] at hindex
  exact Option.map_eq_some_iff.mp hindex

theorem isShort_iff (hform : forms[index]? = some form) :
    IsShort forms index ↔ form.operand = .int8 := by
  constructor
  · rintro ⟨form', hform', hshort⟩
    rw [Option.some.inj (hform.symm.trans hform')]
    exact hshort
  · intro hshort
    exact ⟨form, hform, hshort⟩

/-- A round shortens a branch whose displacement fits and leaves everything else as it is. -/
theorem shrink_cases (offsets : List UInt32) (index : Nat) (i : Instruction) (form : OpCode) :
    shrink offsets index i form = form ∨
      ∃ target short, i.target? = some target ∧ form.shortForm? = some short ∧
        Words.fits 1 (displacement offsets index target.index form) = true ∧
        shrink offsets index i form = short := by
  unfold shrink
  cases htarget : i.target? with
  | none => exact Or.inl rfl
  | some target =>
    cases hshort : form.shortForm? with
    | none => exact Or.inl rfl
    | some short =>
      by_cases hfits : Words.fits 1 (displacement offsets index target.index form) = true
      · exact Or.inr ⟨target, short, rfl, rfl, hfits, if_pos hfits⟩
      · exact Or.inl (if_neg hfits)

theorem longForm_shrink (offsets : List UInt32) (index : Nat) (i : Instruction) (form : OpCode) :
    (shrink offsets index i form).longForm = form.longForm := by
  rcases shrink_cases offsets index i form with h | ⟨_, short, -, hshort, -, h⟩
  · rw [h]
  · have hlong := OpCode.longForm_of_shortForm? hshort
    rw [h, ← hlong, OpCode.longForm_longForm]

theorem size_shrink_le (offsets : List UInt32) (index : Nat) (i : Instruction) (form : OpCode) :
    (shrink offsets index i form).size ≤ form.size := by
  rcases shrink_cases offsets index i form with h | ⟨_, short, -, hshort, -, h⟩
  · exact Nat.le_of_eq (congrArg OpCode.size h)
  · rw [h, ← OpCode.longForm_of_shortForm? hshort]
    exact OpCode.size_le_longForm short

/-! ## Rounds -/

theorem map_longForm_roundFrom (h : forms.length = code.length) :
    (roundFrom offsets start code forms).map OpCode.longForm = forms.map OpCode.longForm := by
  induction code generalizing forms start with
  | nil => rw [List.length_eq_zero_iff.mp h]; rfl
  | cons i code ih =>
    obtain ⟨form, forms, rfl⟩ := List.exists_cons_of_length_eq_add_one h
    rw [roundFrom, List.map_cons, List.map_cons, longForm_shrink, ih (Nat.succ.inj h)]

theorem shorter_roundFrom (h : forms.length = code.length) :
    Shorter (roundFrom offsets start code forms) forms := by
  induction code generalizing forms start with
  | nil => rw [List.length_eq_zero_iff.mp h]; exact .nil
  | cons i code ih =>
    obtain ⟨form, forms, rfl⟩ := List.exists_cons_of_length_eq_add_one h
    exact .cons (size_shrink_le ..) (ih (Nat.succ.inj h))

theorem getElem?_roundFrom (hi : code[index]? = some i) (hform : forms[index]? = some form) :
    (roundFrom offsets start code forms)[index]? = some (shrink offsets (start + index) i form) := by
  induction code generalizing forms start index with
  | nil => exact absurd hi (by simp)
  | cons first code ih =>
    cases forms with
    | nil => exact absurd hform (by simp)
    | cons form' forms =>
      cases index with
      | zero =>
        obtain rfl := Option.some.inj hi
        obtain rfl := Option.some.inj hform
        rfl
      | succ index =>
        rw [roundFrom, List.getElem?_cons_succ, ih hi hform, Nat.add_assoc, Nat.add_comm 1]

theorem getElem?_round (hi : code[index]? = some i) (hform : forms[index]? = some form) :
    (round code forms)[index]? = some (shrink (Layout.offsets forms) index i form) := by
  rw [round, getElem?_roundFrom hi hform, Nat.zero_add]

theorem IsAssignment.round (h : IsAssignment code forms) : IsAssignment code (round code forms) :=
  (map_longForm_roundFrom h.length_eq).trans h

theorem codeSize_le_map_longForm (forms : List OpCode) :
    codeSize forms ≤ codeSize (forms.map OpCode.longForm) := by
  induction forms with
  | nil => exact Nat.le_refl 0
  | cons form forms ih => exact Nat.add_le_add form.size_le_longForm ih

/-- In no forms does code take more bytes than with all branches long. -/
theorem IsAssignment.codeSize_le (h : IsAssignment code forms) :
    codeSize forms ≤ codeSize (longForms code) := by
  have hlong := codeSize_le_map_longForm forms
  rwa [h] at hlong

/-- Each branch has a target, which comes later and is an instruction of the code. -/
def BranchesForward (code : List Instruction) : Prop :=
  ∀ (index : Nat) (h : index < code.length), code[index].opcode.isBranch = true →
    ∃ target ∈ code[index].target?, index < target.index ∧ target.index < code.length

instance (code : List Instruction) : Decidable (BranchesForward code) :=
  inferInstanceAs (Decidable (∀ (index : Nat) (h : index < code.length),
    code[index].opcode.isBranch = true →
      ∃ target ∈ code[index].target?, index < target.index ∧ target.index < code.length))

/-- The target of a branch lies ahead, in the code and so in every layout of it. -/
theorem BranchesForward.target {target : Position} (h : BranchesForward code)
    (hassign : IsAssignment code forms) (hi : code[index]? = some i)
    (hbranch : i.opcode.isBranch = true) (htarget : i.target? = some target) :
    index < target.index ∧ target.index < forms.length := by
  obtain ⟨hindex, rfl⟩ := List.getElem?_eq_some_iff.mp hi
  obtain ⟨target', htarget', hahead⟩ := h index hindex hbranch
  rw [hassign.length_eq, Option.some.inj (htarget.symm.trans htarget')]
  exact hahead

theorem IsAssignment.isBranch_eq (h : IsAssignment code forms) (hi : code[index]? = some i)
    (hform : forms[index]? = some form) : form.isBranch = i.opcode.isBranch := by
  obtain ⟨form', hform', hlong⟩ := h.exists_form hi
  obtain rfl := Option.some.inj (hform.symm.trans hform')
  rw [← OpCode.isBranch_longForm, hlong, OpCode.isBranch_longForm]

section

variable (hforward : BranchesForward code) (hsize : codeSize (longForms code) < 2 ^ 32)
include hforward hsize

/-- Short branches keep fitting, because a round brings every target nearer. -/
theorem Fits.round (hfits : Fits code forms) (hassign : IsAssignment code forms) :
    Fits code (round code forms) := by
  intro index i target hi htarget hshort
  have hnearer : distance (Layout.round code forms) index target.index ≤
      distance forms index target.index :=
    Shorter.distance_le (shorter_roundFrom hassign.length_eq) index target.index
  refine Nat.le_trans hnearer ?_
  obtain ⟨form, hform, -⟩ := hassign.exists_form hi
  rw [isShort_iff (getElem?_round hi hform)] at hshort
  rcases shrink_cases (Layout.offsets forms) index i form with
    h | ⟨target', short, htarget', hshort', hreach, -⟩
  · rw [h] at hshort
    exact hfits index i target hi htarget ((isShort_iff hform).mpr hshort)
  · obtain rfl := Option.some.inj (htarget.symm.trans htarget')
    have hbranch : i.opcode.isBranch = true :=
      (hassign.isBranch_eq hi hform).symm.trans (OpCode.isBranch_of_shortForm? hshort')
    obtain ⟨hahead, hinside⟩ := hforward.target hassign hi hbranch htarget
    exact (fits_displacement (Nat.lt_of_le_of_lt hassign.codeSize_le hsize) hform hahead
      hinside).mp hreach

/-- Where a round changes nothing, the branches that are still long do not fit. -/
theorem isTight_of_round_eq (hassign : IsAssignment code forms) (hfits : Fits code forms)
    (h : round code forms = forms) : IsTight code forms := by
  intro index i target hi hbranch htarget
  refine ⟨hfits index i target hi htarget, fun hreach => ?_⟩
  obtain ⟨form, hform, -⟩ := hassign.exists_form hi
  rw [isShort_iff hform]
  by_contra hshort
  have hbranch' : form.isBranch = true := (hassign.isBranch_eq hi hform).trans hbranch
  obtain ⟨short, hshort⟩ := OpCode.exists_shortForm? hbranch' hshort
  have hsame := getElem?_round hi hform
  rw [h, hform] at hsame
  have hshrunk : shrink (Layout.offsets forms) index i form = short := by
    obtain ⟨hahead, hinside⟩ := hforward.target hassign hi hbranch htarget
    have hfits' := (fits_displacement (Nat.lt_of_le_of_lt hassign.codeSize_le hsize) hform hahead
      hinside).mpr hreach
    simp only [shrink, htarget, hshort, if_pos hfits']
  rw [hshrunk] at hsame
  exact OpCode.shortForm?_ne_self (hshort.trans hsame.symm)

end

/-! ## The search -/

/-- How many branches are long. -/
def longBranches (forms : List OpCode) : Nat :=
  forms.countP (·.shortForm?.isSome)

theorem longBranches_cons (form : OpCode) (forms : List OpCode) :
    longBranches (form :: forms) =
      longBranches forms + if form.shortForm?.isSome then 1 else 0 :=
  List.countP_cons

theorem roundFrom_eq_or_lt (h : forms.length = code.length) :
    roundFrom offsets start code forms = forms ∨
      longBranches (roundFrom offsets start code forms) < longBranches forms := by
  induction code generalizing forms start with
  | nil => rw [List.length_eq_zero_iff.mp h]; exact Or.inl rfl
  | cons i code ih =>
    obtain ⟨form, forms, rfl⟩ := List.exists_cons_of_length_eq_add_one h
    rw [roundFrom, longBranches_cons, longBranches_cons]
    have hrest : roundFrom offsets (start + 1) code forms = forms ∨
        longBranches (roundFrom offsets (start + 1) code forms) < longBranches forms :=
      ih (Nat.succ.inj h)
    rcases shrink_cases offsets start i form with hsame | ⟨_, short, -, hshort, -, hshrunk⟩
    · rw [hsame]
      rcases hrest with hrest | hrest
      · exact Or.inl (by rw [hrest])
      · exact Or.inr (by omega)
    · have hgone : short.shortForm? = none :=
        OpCode.shortForm?_eq_none (OpCode.operand_of_shortForm? hshort)
      have hle : longBranches (roundFrom offsets (start + 1) code forms) ≤ longBranches forms := by
        rcases hrest with hrest | hrest
        · exact Nat.le_of_eq (congrArg longBranches hrest)
        · exact Nat.le_of_lt hrest
      rw [hshrunk, hgone, hshort]
      exact Or.inr (Nat.lt_succ_of_le hle)

/-- A round that changes something leaves fewer long branches. -/
theorem round_eq_or_lt (h : forms.length = code.length) :
    round code forms = forms ∨ longBranches (round code forms) < longBranches forms :=
  roundFrom_eq_or_lt h

/-- With as many rounds as there are long branches, the search comes to its end. -/
theorem settles_settle {rounds : Nat} (hassign : IsAssignment code forms)
    (hrounds : longBranches forms ≤ rounds) : Settles code forms (settle code rounds forms) := by
  induction rounds generalizing forms with
  | zero =>
    rcases round_eq_or_lt hassign.length_eq with h | h
    · exact .done h
    · omega
  | succ rounds ih =>
    rw [settle]
    by_cases hsame : round code forms = forms
    · rw [if_pos hsame]
      exact .done hsame
    · rw [if_neg hsame]
      rcases round_eq_or_lt hassign.length_eq with h | h
      · exact absurd h hsame
      · exact .again hsame (ih hassign.round (by omega))

theorem isAssignment_longForms (code : List Instruction) : IsAssignment code (longForms code) := by
  rw [IsAssignment, longForms, List.map_map]
  exact List.map_congr_left fun i _ => OpCode.longForm_longForm i.opcode

/-- The search for the forms of a sequence comes to its end. -/
theorem settles_forms (code : List Instruction) : Settles code (longForms code) (Layout.forms code) := by
  refine settles_settle (isAssignment_longForms code) ?_
  have hlength : (longForms code).length = code.length := List.length_map _
  rw [← hlength]
  exact List.countP_le_length

/-- What every round keeps holds at the end, where one more round would change nothing. -/
theorem Settles.induct {P : List OpCode → Prop} (h : Settles code forms settled) (hforms : P forms)
    (hstep : ∀ forms, P forms → P (round code forms)) :
    P settled ∧ round code settled = settled := by
  induction h with
  | done h => exact ⟨hforms, h⟩
  | again _ _ ih => exact ih (hstep _ hforms)

/-- The forms that are chosen are forms of the code. -/
theorem isAssignment_forms (code : List Instruction) : IsAssignment code (Layout.forms code) :=
  ((settles_forms code).induct (isAssignment_longForms code) fun _ h => h.round).1

/-- The branches that are short when the search comes to its end are exactly those that fit. -/
theorem isTight_forms (hforward : BranchesForward code)
    (hsize : codeSize (longForms code) < 2 ^ 32) :
    Fits code (Layout.forms code) ∧ IsTight code (Layout.forms code) := by
  have hlong : Fits code (longForms code) := by
    rintro index i target hi - ⟨form, hform, hshort⟩
    obtain ⟨_, hform', -⟩ := (isAssignment_longForms code).exists_form hi
    rw [longForms, List.getElem?_map, hi] at hform
    rw [← Option.some.inj hform] at hshort
    have hnone := OpCode.shortForm?_eq_none hshort
    have hsome := OpCode.shortForm?_longForm hshort
    rw [OpCode.longForm_longForm, hnone] at hsome
    exact absurd hsome (by simp)
  obtain ⟨⟨hassign, hfits⟩, hfixed⟩ := (settles_forms code).induct
    (P := fun forms => IsAssignment code forms ∧ Fits code forms)
    ⟨isAssignment_longForms code, hlong⟩ fun _ h => ⟨h.1.round, h.2.round hforward hsize h.1⟩
  exact ⟨hfits, isTight_of_round_eq hforward hsize hassign hfits hfixed⟩

/-! ## One tight layout only -/

theorem IsTight.fits (h : IsTight code forms) (hassign : IsAssignment code forms) :
    Fits code forms := by
  intro index i target hi htarget hshort
  obtain ⟨form, hform, -⟩ := hassign.exists_form hi
  have hbranch : form.isBranch = true :=
    OpCode.isBranch_of_operand ((isShort_iff hform).mp hshort)
  rw [hassign.isBranch_eq hi hform] at hbranch
  exact (h index i target hi hbranch htarget).mp hshort

/-- From every instruction on, a tight layout takes no more bytes than any other one that fits.
The induction goes from the end of the code to its start, where each branch finds the distances
behind it compared already. -/
theorem shorter_drop (hforward : BranchesForward code) (hassign : IsAssignment code forms)
    (htight : IsTight code forms) (hassign' : IsAssignment code other) (hfits' : Fits code other)
    {start : Nat} (hstart : start ≤ code.length) :
    Shorter (forms.drop start) (other.drop start) := by
  induction hstart using Nat.decreasingInduction with
  | self =>
    rw [List.drop_eq_nil_of_le (Nat.le_of_eq hassign.length_eq),
      List.drop_eq_nil_of_le (Nat.le_of_eq hassign'.length_eq)]
    exact .nil
  | of_succ start hstart ih =>
    have hi : code[start]? = some code[start] := List.getElem?_eq_getElem hstart
    obtain ⟨form, hform, hlong⟩ := hassign.exists_form hi
    obtain ⟨form', hform', hlong'⟩ := hassign'.exists_form hi
    obtain ⟨hlt, rfl⟩ := List.getElem?_eq_some_iff.mp hform
    obtain ⟨hlt', rfl⟩ := List.getElem?_eq_some_iff.mp hform'
    rw [List.drop_eq_getElem_cons hlt, List.drop_eq_getElem_cons hlt']
    refine .cons ?_ ih
    refine OpCode.size_le_of_longForm (hlong.trans hlong'.symm) fun hshort' => ?_
    have hbranch : code[start].opcode.isBranch = true :=
      (hassign'.isBranch_eq hi hform').symm.trans (OpCode.isBranch_of_operand hshort')
    obtain ⟨target, htarget, -, -⟩ := hforward start hstart hbranch
    have hreach' : distance other start target.index ≤ shortReach :=
      hfits' start _ target hi htarget ((isShort_iff hform').mpr hshort')
    have hreach : distance forms start target.index ≤ shortReach :=
      Nat.le_trans (distance_le_of_drop ih target.index) hreach'
    exact (isShort_iff hform).mp ((htight start _ target hi hbranch htarget).mpr hreach)

/-- No layout that fits takes fewer bytes than a tight one. -/
theorem IsTight.codeSize_le (hforward : BranchesForward code) (hassign : IsAssignment code forms)
    (htight : IsTight code forms) (hassign' : IsAssignment code other)
    (hfits' : Fits code other) : codeSize forms ≤ codeSize other :=
  Shorter.codeSize_le (shorter_drop hforward hassign htight hassign' hfits' (Nat.zero_le _))

/-- There is one tight layout only: the distances of two of them are the same. -/
theorem IsTight.eq (hforward : BranchesForward code) (hassign : IsAssignment code forms)
    (htight : IsTight code forms) (hassign' : IsAssignment code other)
    (htight' : IsTight code other) : other = forms := by
  have hshorter : Shorter forms other :=
    shorter_drop hforward hassign htight hassign' (htight'.fits hassign') (Nat.zero_le _)
  have hshorter' : Shorter other forms :=
    shorter_drop hforward hassign' htight' hassign (htight.fits hassign) (Nat.zero_le _)
  refine List.ext_getElem? fun index => ?_
  rcases Nat.lt_or_ge index code.length with hindex | hindex
  · have hi : code[index]? = some code[index] := List.getElem?_eq_getElem hindex
    obtain ⟨form, hform, hlong⟩ := hassign.exists_form hi
    obtain ⟨form', hform', hlong'⟩ := hassign'.exists_form hi
    have hsame : form'.operand = .int8 ↔ form.operand = .int8 := by
      by_cases hbranch : code[index].opcode.isBranch = true
      · obtain ⟨target, htarget, -, -⟩ := hforward index hindex hbranch
        have hdistance : distance other index target.index = distance forms index target.index :=
          Nat.le_antisymm (hshorter'.distance_le ..) (hshorter.distance_le ..)
        rw [← isShort_iff hform, ← isShort_iff hform', htight' index _ target hi hbranch htarget,
          htight index _ target hi hbranch htarget, hdistance]
      · refine iff_of_false (fun hshort => hbranch ?_) (fun hshort => hbranch ?_)
        · exact (hassign'.isBranch_eq hi hform').symm.trans (OpCode.isBranch_of_operand hshort)
        · exact (hassign.isBranch_eq hi hform).symm.trans (OpCode.isBranch_of_operand hshort)
    rw [hform, hform', OpCode.eq_of_longForm (hlong'.trans hlong.symm) hsame]
  · rw [List.getElem?_eq_none (Nat.le_trans (Nat.le_of_eq hassign.length_eq) hindex),
      List.getElem?_eq_none (Nat.le_trans (Nat.le_of_eq hassign'.length_eq) hindex)]

/-! ## What the search looks at -/

variable {code' : List Instruction}

theorem shrink_congr {i' : Instruction} (h : i.target? = i'.target?) :
    shrink offsets index i form = shrink offsets index i' form := by
  rw [shrink, shrink, h]

theorem roundFrom_congr (h : code.map Instruction.target? = code'.map Instruction.target?) :
    roundFrom offsets start code forms = roundFrom offsets start code' forms := by
  induction code generalizing start code' forms with
  | nil => rw [List.map_eq_nil_iff.mp h.symm]
  | cons i code ih =>
    obtain ⟨i', code', rfl, hi, hcode⟩ := List.map_eq_cons_iff.mp h.symm
    cases forms with
    | nil => rfl
    | cons form forms => rw [roundFrom, roundFrom, shrink_congr hi.symm, ih hcode.symm]

theorem settle_congr (rounds : Nat)
    (h : code.map Instruction.target? = code'.map Instruction.target?) :
    settle code rounds forms = settle code' rounds forms := by
  induction rounds generalizing forms with
  | zero => rfl
  | succ rounds ih =>
    have hround : round code forms = round code' forms := roundFrom_congr h
    simp only [settle, hround, ih]

/-- The search looks at the long forms of branches and at their targets only. -/
theorem forms_congr (hlong : longForms code = longForms code')
    (htargets : code.map Instruction.target? = code'.map Instruction.target?) :
    Layout.forms code = Layout.forms code' := by
  have hlength := congrArg List.length htargets
  rw [List.length_map, List.length_map] at hlength
  rw [Layout.forms, Layout.forms, settle_congr _ htargets, hlong, hlength]

end Layout

/-- The instruction with its operation in long form. -/
def Instruction.lengthened (i : Instruction) : Instruction :=
  { i with opcode := i.opcode.longForm }

namespace Layout

variable {code : List Instruction} {forms : List OpCode} {index : Nat} {i : Instruction}

/-- It makes no difference in which form a branch was emitted. -/
theorem forms_eq_of_lengthened {others : List Instruction}
    (h : others.map Instruction.lengthened = code.map Instruction.lengthened) :
    Layout.forms others = Layout.forms code := by
  have hlong := congrArg (List.map (·.opcode)) h
  have htargets := congrArg (List.map Instruction.target?) h
  rw [List.map_map, List.map_map] at hlong htargets
  exact forms_congr hlong htargets

/-! ## The choice of forms -/

/-- What a form of an instruction can be. -/
theorem IsAssignment.form_cases (h : IsAssignment code forms) (hi : code[index]? = some i) :
    ∃ form, forms[index]? = some form ∧ (i.opcode.isBranch = false → form = i.opcode) ∧
      (i.opcode.isBranch = true →
        form = i.opcode.longForm ∨ i.opcode.longForm.shortForm? = some form) := by
  obtain ⟨form, hform, hlong⟩ := h.exists_form hi
  refine ⟨form, hform, ?_, ?_⟩
  · intro hbranch
    have hbranch' : form.isBranch = false := (h.isBranch_eq hi hform).trans hbranch
    rw [← OpCode.longForm_of_not_isBranch hbranch', hlong,
      OpCode.longForm_of_not_isBranch hbranch]
  · intro _
    by_cases hshort : form.operand = .int8
    · exact Or.inr (hlong ▸ OpCode.shortForm?_longForm hshort)
    · exact Or.inl ((OpCode.longForm_of_operand hshort).symm.trans hlong)

/-- For code whose branches go forward, the search for the forms comes to its end.  What is not a
branch keeps its operation, and a branch is in its long form or in its short one: the short one
exactly if its displacement in the layout that results is at most 127.  No other choice of forms
has this property, no choice whose short branches fit takes fewer bytes, and it makes no
difference in which form the branches were emitted.

All this is for code whose size stays within what offsets can say, from the layout that the search
starts from on. -/
theorem forms_tight_unique_least (code : List Instruction) (hforward : BranchesForward code)
    (hsize : codeSize (longForms code) < 2 ^ 32) :
    Settles code (longForms code) (Layout.forms code) ∧
    (∀ (index : Nat) (i : Instruction), code[index]? = some i →
      ∃ form, (Layout.forms code)[index]? = some form ∧
        (i.opcode.isBranch = false → form = i.opcode) ∧
        (i.opcode.isBranch = true →
          form = i.opcode.longForm ∨ i.opcode.longForm.shortForm? = some form)) ∧
    (IsAssignment code (Layout.forms code) ∧ IsTight code (Layout.forms code)) ∧
    (∀ other, IsAssignment code other → IsTight code other → other = Layout.forms code) ∧
    (∀ other, IsAssignment code other → Fits code other →
      codeSize (Layout.forms code) ≤ codeSize other) ∧
    (∀ others : List Instruction,
      others.map Instruction.lengthened = code.map Instruction.lengthened →
        Layout.forms others = Layout.forms code) := by
  have hassign := isAssignment_forms code
  obtain ⟨-, htight⟩ := isTight_forms hforward hsize
  refine ⟨settles_forms code, fun index i hi => hassign.form_cases hi, ⟨hassign, htight⟩, ?_, ?_,
    ?_⟩
  · intro other hassign' htight'
    exact IsTight.eq hforward hassign htight hassign' htight'
  · intro other hassign' hfits'
    exact IsTight.codeSize_le hforward hassign htight hassign' hfits'
  · exact fun others hothers => forms_eq_of_lengthened hothers

/-- Two branches over 122 bytes to one target, the outer one over the inner one too.  The outer one
fits only once the inner one is short. -/
def nestedBranches : List Instruction :=
  [⟨.ldarg1, .none⟩, ⟨.brtrue, .target ⟨126⟩⟩, ⟨.ldarg1, .none⟩, ⟨.brtrue, .target ⟨126⟩⟩] ++
    List.replicate 122 ⟨.nop, .none⟩ ++ [⟨.ret, .none⟩]

/-- Both branches come out short, and in no form that fits does the code take fewer bytes. -/
theorem forms_nestedBranches :
    BranchesForward nestedBranches ∧ codeSize (longForms nestedBranches) < 2 ^ 32 ∧
    (Layout.forms nestedBranches).take 4 = [.ldarg1, .brtrueS, .ldarg1, .brtrueS] ∧
    ∀ other, IsAssignment nestedBranches other → Fits nestedBranches other →
      129 ≤ codeSize other := by
  have hforward : BranchesForward nestedBranches := by decide +kernel
  have hlong : codeSize (longForms nestedBranches) < 2 ^ 32 := by decide +kernel
  have hsize : codeSize (Layout.forms nestedBranches) = 129 := by decide +kernel
  obtain ⟨-, -, -, -, hleast, -⟩ := forms_tight_unique_least nestedBranches hforward hlong
  refine ⟨hforward, hlong, by decide +kernel, fun other hassign hfits => ?_⟩
  rw [← hsize]
  exact hleast other hassign hfits

end Layout
end DualInit
