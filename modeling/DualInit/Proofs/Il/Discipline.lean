import DualInit.Il.Path
import DualInit.Proofs.Il.Encoding
import DualInit.Proofs.Il.Tally
import Mathlib.Algebra.GroupWithZero.Nat

/-!
# One pass over all paths

The check of the stack goes over a sequence once, from its first instruction to its last.
`encode_ok_iff_disciplined` says that this decides the discipline of all paths: since branches go
forward, every path to an instruction comes from in front of it, so that in front of an instruction
the pass knows all there is to know about paths that come there.

What it knows is `Knows`: the depths that paths bring to the instruction at hand from the one
before it are the depth of the tally, and those that branches bring to it or to a later one are
those noted.  One step of the pass keeps this knowledge and finds the discipline kept at the
instruction, or ends because it is not kept (`step_knows`); a run of the pass does the same for
all instructions (`follow_knows`).  The depth never exceeds the number of values that have been
left so far (`Within.follow`).
-/

namespace DualInit

variable {s s' : Sequence} {returnsValue : Bool} {bound index next depth : Nat} {i : Instruction}
  {target : Position}

/-! ## Paths to and from an instruction -/

namespace Sequence

/-- Some path goes on from an instruction and leaves it with a stack of some depth. -/
def Departs (returnsValue : Bool) (s : Sequence) (index depth : Nat) : Prop :=
  ∃ found i, s.Reaches returnsValue index found ∧ s.instructions[index]? = some i ∧
    (i.effect returnsValue).1 ≤ found ∧
    depth = found - (i.effect returnsValue).1 + (i.effect returnsValue).2

/-- Some path comes to an index with a stack of some depth from in front of another index. -/
inductive ComesFrom (returnsValue : Bool) (s : Sequence) (bound : Nat) : Nat → Nat → Prop where
  /-- The path that only starts. -/
  | start : ComesFrom returnsValue s bound 0 0
  /-- A path that leaves an instruction in front of the bound. -/
  | step {index next depth : Nat} (hindex : index < bound)
      (h : s.Departs returnsValue index depth) (hl : s.Leads index next) :
      ComesFrom returnsValue s bound next depth

/-- What the discipline asks of one instruction. -/
structure DisciplinedAt (returnsValue : Bool) (s : Sequence) (index : Nat) : Prop where
  /-- The instruction finds the values that it takes. -/
  takes : ∀ {depth : Nat} {i : Instruction}, s.Reaches returnsValue index depth →
    s.instructions[index]? = some i → (i.effect returnsValue).1 ≤ depth
  /-- If it returns, it leaves nothing behind. -/
  returns : ∀ {depth : Nat} {i : Instruction}, s.Reaches returnsValue index depth →
    s.instructions[index]? = some i → i.opcode.flow = .leaving →
      depth = (i.effect returnsValue).1
  /-- All paths come to it with one depth. -/
  agrees : ∀ {depth other : Nat}, s.Reaches returnsValue index depth →
    s.Reaches returnsValue index other → depth = other

/-- A sequence is disciplined if it is at each instruction. -/
theorem disciplined_of_forall (h : ∀ index, s.DisciplinedAt returnsValue index) :
    s.Disciplined returnsValue :=
  ⟨(h _).takes, (h _).returns, (h _).agrees⟩

theorem ComesFrom.reaches (h : s.ComesFrom returnsValue bound next depth) :
    s.Reaches returnsValue next depth := by
  cases h with
  | start => exact .start
  | step _ h hl =>
    obtain ⟨found, i, hreaches, hi, htakes, rfl⟩ := h
    exact hreaches.step hi htakes hl

/-- A path only goes forward. -/
theorem Leads.lt (hs : s.Regular) (hl : s.Leads index next) : index < next := by
  cases hl with
  | next _ _ => exact Nat.lt_succ_self _
  | jump hi htarget => exact (hs.forward _ _ _ hi htarget).1

/-- A path only goes to instructions of the sequence. -/
theorem Leads.lt_length (hs : s.Regular) (hl : s.Leads index next) : next < s.length := by
  cases hl with
  | @next i hi hterminal =>
    have hindex : index < s.instructions.length := (List.getElem?_eq_some_iff.mp hi).1
    rcases Nat.lt_or_ge (index + 1) s.instructions.length with h | h
    · exact h
    · obtain ⟨last, hlast, hret⟩ := hs.ends
      rw [List.getLast?_eq_getElem?, show s.instructions.length - 1 = index by omega, hi] at hlast
      cases hlast
      rw [hret] at hterminal
      cases hterminal
  | jump hi htarget => exact (hs.forward _ _ _ hi htarget).2

theorem Reaches.lt_length (hs : s.Regular) (h : s.Reaches returnsValue index depth) :
    index < s.length := by
  cases h with
  | start =>
    obtain ⟨last, hlast, -⟩ := hs.ends
    rw [List.getLast?_eq_getElem?] at hlast
    have hinside := (List.getElem?_eq_some_iff.mp hlast).1
    exact Nat.lt_of_le_of_lt (Nat.zero_le _) hinside
  | step _ _ _ hl => exact hl.lt_length hs

/-- Every path to an instruction comes from in front of it. -/
theorem comesFrom_iff_reaches (hs : s.Regular) :
    s.ComesFrom returnsValue index index depth ↔ s.Reaches returnsValue index depth := by
  constructor
  · exact ComesFrom.reaches
  · intro h
    cases h with
    | start => exact .start
    | step h hi htakes hl => exact .step (hl.lt hs) ⟨_, _, h, hi, htakes, rfl⟩ hl

/-- What comes from in front of the next instruction comes from in front of this one or from this
one. -/
theorem comesFrom_succ :
    s.ComesFrom returnsValue (bound + 1) next depth ↔
      s.ComesFrom returnsValue bound next depth ∨
        s.Departs returnsValue bound depth ∧ s.Leads bound next := by
  constructor
  · intro h
    cases h with
    | start => exact Or.inl .start
    | @step index _ _ hindex h hl =>
      rcases Nat.lt_or_eq_of_le (Nat.le_of_lt_succ hindex) with hlt | rfl
      · exact Or.inl (.step hlt h hl)
      · exact Or.inr ⟨h, hl⟩
  · rintro (h | ⟨h, hl⟩)
    · cases h with
      | start => exact .start
      | step hindex h hl => exact .step (Nat.lt_succ_of_lt hindex) h hl
    · exact .step (Nat.lt_succ_self _) h hl

/-- Where a path goes from an instruction. -/
theorem leads_iff (hi : s.instructions[index]? = some i) :
    s.Leads index next ↔ i.opcode.isTerminal = false ∧ next = index + 1 ∨
      ∃ target, i.target? = some target ∧ next = target.index := by
  constructor
  · intro hl
    cases hl with
    | next hi' hterminal =>
      obtain rfl := Option.some.inj (hi.symm.trans hi')
      exact Or.inl ⟨hterminal, rfl⟩
    | jump hi' htarget =>
      obtain rfl := Option.some.inj (hi.symm.trans hi')
      exact Or.inr ⟨_, htarget, rfl⟩
  · rintro (⟨hterminal, rfl⟩ | ⟨target, htarget, rfl⟩)
    · exact .next hi hterminal
    · exact .jump hi htarget

end Sequence

/-- A pass over a list finds at each index the first of what is left, and goes on with the rest. -/
theorem head_and_tail_of_drop {α : Type} {all rest : List α} {start : Nat} {x : α}
    (h : all.drop start = x :: rest) : all[start]? = some x ∧ all.drop (start + 1) = rest := by
  constructor
  · rw [← List.head?_drop, h, List.head?_cons]
  · rw [← List.tail_drop, h, List.tail_cons]

namespace Stack

variable {t : Tally} {position : Position}

/-! ## What the pass knows -/

/-- What the pass knows in front of the instruction at an index: which depths paths from in front of
it bring to it and to later ones. -/
def Knows (returnsValue : Bool) (s : Sequence) (index : Nat) (t : Tally) : Prop :=
  ∀ next depth, index ≤ next → (s.ComesFrom returnsValue index next depth ↔
    next = index ∧ t.reachable = true ∧ depth = t.depth ∨
      t.noted.lookup ⟨next⟩ = some depth)

theorem knows_start (returnsValue : Bool) (s : Sequence) : Knows returnsValue s 0 .start := by
  intro next depth _
  constructor
  · intro h
    cases h with
    | start => exact Or.inl ⟨rfl, rfl, rfl⟩
    | step hindex _ _ => exact absurd hindex (Nat.not_lt_zero _)
  · rintro (⟨rfl, -, rfl⟩ | h)
    · exact .start
    · cases h

/-- What the pass knows once it has come to the instruction: the depth with which paths come to it,
if any do, and which depths earlier branches bring to later instructions. -/
structure KnowsAt (returnsValue : Bool) (s : Sequence) (index : Nat) (t : Tally) : Prop where
  /-- Paths come to the instruction with the depth of the tally. -/
  here : ∀ depth, s.Reaches returnsValue index depth ↔ t.reachable = true ∧ depth = t.depth
  /-- The depths noted for later instructions are those of paths from in front of this one. -/
  ahead : ∀ next depth, index < next →
    (s.ComesFrom returnsValue index next depth ↔ t.noted.lookup ⟨next⟩ = some depth)

/-- Coming to an instruction, the pass gets to know how paths come to it, or finds two depths. -/
theorem arrive_knows (hs : s.Regular) (h : Knows returnsValue s index t) :
    (∃ t', t.arrive ⟨index⟩ = some t' ∧ KnowsAt returnsValue s index t') ∨
      t.arrive ⟨index⟩ = none ∧ ¬ s.Disciplined returnsValue := by
  have hhere : ∀ depth, s.Reaches returnsValue index depth ↔
      t.reachable = true ∧ depth = t.depth ∨ t.noted.lookup ⟨index⟩ = some depth := by
    intro depth
    rw [← Sequence.comesFrom_iff_reaches hs, h index depth (Nat.le_refl _)]
    simp only [true_and]
  have hahead : ∀ next depth, index < next →
      (s.ComesFrom returnsValue index next depth ↔ t.noted.lookup ⟨next⟩ = some depth) := by
    intro next depth hnext
    rw [h next depth (Nat.le_of_lt hnext)]
    simp only [Nat.ne_of_gt hnext, false_and, false_or]
  unfold Tally.arrive
  cases hlookup : t.noted.lookup ⟨index⟩ with
  | none =>
    refine Or.inl ⟨t, rfl, fun depth => ?_, hahead⟩
    rw [hhere, hlookup]
    simp only [reduceCtorEq, or_false]
  | some noted =>
    by_cases hmismatch : (t.reachable && noted != t.depth) = true
    · obtain ⟨hreachable, hne⟩ := Bool.and_eq_true_iff.mp hmismatch
      refine Or.inr ⟨if_pos hmismatch, fun hdisciplined => bne_iff_ne.mp hne ?_⟩
      exact hdisciplined.agrees ((hhere noted).mpr (Or.inr hlookup))
        ((hhere t.depth).mpr (Or.inl ⟨hreachable, rfl⟩))
    · refine Or.inl ⟨_, if_neg hmismatch, fun depth => ?_, hahead⟩
      rw [hhere, hlookup]
      have hagree : t.reachable = true → noted = t.depth := by
        intro hreachable
        by_contra hne
        exact hmismatch (Bool.and_eq_true_iff.mpr ⟨hreachable, bne_iff_ne.mpr hne⟩)
      constructor
      · rintro (⟨hreachable, rfl⟩ | hnoted)
        · exact ⟨rfl, (hagree hreachable).symm⟩
        · exact ⟨rfl, (Option.some.inj hnoted).symm⟩
      · rintro ⟨-, rfl⟩
        exact Or.inr rfl

/-! ## The effect of an instruction -/

/-- Taking values either finds them on all paths, or fails because a path does not. -/
theorem take_knows (hi : s.instructions[index]? = some i) (h : KnowsAt returnsValue s index t) :
    (∃ t', t.take (i.effect returnsValue).1 = some t' ∧
        (∀ depth, s.Reaches returnsValue index depth → (i.effect returnsValue).1 ≤ depth) ∧
        (t.reachable = true → t'.depth + (i.effect returnsValue).1 = t.depth) ∧
        t'.reachable = t.reachable ∧ t'.noted = t.noted) ∨
      t.take (i.effect returnsValue).1 = none ∧ ¬ s.Disciplined returnsValue := by
  unfold Tally.take
  by_cases hcount : (i.effect returnsValue).1 ≤ t.depth
  · refine Or.inl ⟨_, if_pos hcount, fun depth hreaches => ?_, fun _ => ?_, rfl, rfl⟩
    · obtain ⟨-, rfl⟩ := (h.here depth).mp hreaches
      exact hcount
    · exact Nat.sub_add_cancel hcount
  · rw [if_neg hcount]
    cases hreachable : t.reachable with
    | true =>
      refine Or.inr ⟨if_pos rfl, fun hdisciplined => hcount ?_⟩
      exact hdisciplined.takes ((h.here t.depth).mpr ⟨hreachable, rfl⟩) hi
    | false =>
      refine Or.inl ⟨_, if_neg Bool.false_ne_true, fun depth hreaches => ?_, fun hfalse => ?_, rfl,
        rfl⟩
      · rw [h.here, hreachable] at hreaches
        exact absurd hreaches.1 Bool.false_ne_true
      · exact absurd hfalse Bool.false_ne_true

/-! ## Going on -/

/-- Noting a depth adds it for the target, if code gets there at all, or finds another one noted. -/
theorem note_cases (target : Position) (t : Tally) :
    (∃ t', t.note target = some t' ∧ t'.depth = t.depth ∧ t'.reachable = t.reachable ∧
        ∀ position depth, t'.noted.lookup position = some depth ↔
          t.noted.lookup position = some depth ∨
            position = target ∧ t.reachable = true ∧ depth = t.depth) ∨
      ∃ existing, t.note target = none ∧ t.reachable = true ∧
        t.noted.lookup target = some existing ∧ existing ≠ t.depth := by
  unfold Tally.note
  cases hreachable : t.reachable with
  | false =>
    refine Or.inl ⟨t, if_neg Bool.false_ne_true, rfl, hreachable, fun position depth => ?_⟩
    simp only [Bool.false_eq_true, false_and, and_false, or_false]
  | true =>
    rw [if_pos rfl]
    cases hlookup : t.noted.lookup target with
    | none =>
      refine Or.inl ⟨_, rfl, rfl, rfl, fun position depth => ?_⟩
      change ((target, t.depth) :: t.noted).lookup position = some depth ↔ _
      rw [List.lookup_cons]
      by_cases hposition : position = target
      · subst hposition
        simp only [beq_self_eq_true, hlookup, Option.some.injEq, reduceCtorEq, true_and, false_or]
        exact eq_comm
      · simp only [beq_false_of_ne hposition, hposition, false_and, or_false]
    | some existing =>
      by_cases hsame : existing = t.depth
      · refine Or.inl ⟨t, if_pos hsame, rfl, hreachable, fun position depth => ?_⟩
        constructor
        · exact Or.inl
        · rintro (h | ⟨rfl, -, rfl⟩)
          · exact h
          · rw [hlookup, hsame]
      · exact Or.inr ⟨existing, if_neg hsame, rfl, rfl, hsame⟩

/-- What the pass knows once it has followed the effect of the instruction: the depth with which
paths leave it, and which depths earlier branches bring to later instructions. -/
structure KnowsAfter (returnsValue : Bool) (s : Sequence) (index : Nat) (t : Tally) : Prop where
  /-- Paths leave the instruction with the depth of the tally. -/
  here : ∀ depth, s.Departs returnsValue index depth ↔ t.reachable = true ∧ depth = t.depth
  /-- The depths noted for later instructions are those of paths from in front of this one. -/
  ahead : ∀ next depth, index < next →
    (s.ComesFrom returnsValue index next depth ↔ t.noted.lookup ⟨next⟩ = some depth)

/-- Leaving values, the pass gets to know how paths leave the instruction. -/
theorem leave_knows {taken : Tally} (hi : s.instructions[index]? = some i)
    (h : KnowsAt returnsValue s index t)
    (hdepth : t.reachable = true → taken.depth + (i.effect returnsValue).1 = t.depth)
    (hreachable : taken.reachable = t.reachable) (hnoted : taken.noted = t.noted) :
    KnowsAfter returnsValue s index (taken.leave (i.effect returnsValue).2) := by
  refine ⟨fun depth => ?_, fun next depth hnext => ?_⟩
  · show _ ↔ taken.reachable = true ∧ depth = taken.depth + (i.effect returnsValue).2
    rw [hreachable]
    refine ⟨?_, ?_⟩
    · rintro ⟨found, i', hreaches, hi', hle, rfl⟩
      obtain rfl := Option.some.inj (hi.symm.trans hi')
      obtain ⟨hreachable, rfl⟩ := (h.here found).mp hreaches
      have := hdepth hreachable
      exact ⟨hreachable, by omega⟩
    · rintro ⟨hreachable, rfl⟩
      have := hdepth hreachable
      exact ⟨t.depth, i, (h.here _).mpr ⟨hreachable, rfl⟩, hi, by omega, by omega⟩
  · show _ ↔ taken.noted.lookup ⟨next⟩ = some depth
    rw [hnoted]
    exact h.ahead next depth hnext

/-- The pass knows what it needs in front of the next instruction if the tally holds what falls
through to it and the target has been noted. -/
theorem knows_succ (hi : s.instructions[index]? = some i)
    (hfalls : ∀ depth, t.reachable = true ∧ depth = t.depth ↔
      i.opcode.isTerminal = false ∧ s.Departs returnsValue index depth)
    (hnoted : ∀ next depth, index < next → (t.noted.lookup ⟨next⟩ = some depth ↔
      s.ComesFrom returnsValue index next depth ∨
        s.Departs returnsValue index depth ∧
          ∃ target, i.target? = some target ∧ next = target.index)) :
    Knows returnsValue s (index + 1) t := by
  intro next depth hnext
  rw [Sequence.comesFrom_succ, Sequence.leads_iff hi, hfalls, hnoted next depth hnext]
  constructor
  · rintro (h | ⟨h, ⟨hterminal, hnext⟩ | htarget⟩)
    · exact Or.inr (Or.inl h)
    · exact Or.inl ⟨hnext, hterminal, h⟩
    · exact Or.inr (Or.inr ⟨h, htarget⟩)
  · rintro (⟨hnext, hterminal, h⟩ | h | ⟨h, htarget⟩)
    · exact Or.inr ⟨h, Or.inl ⟨hterminal, hnext⟩⟩
    · exact Or.inl h
    · exact Or.inr ⟨h, Or.inr htarget⟩

/-- Noting the target of a branch adds what paths bring there from it, or finds another depth. -/
theorem noteTarget_knows (hs : s.Regular) (hi : s.instructions[index]? = some i)
    (hbranch : i.opcode.isBranch = true) (h : KnowsAfter returnsValue s index t) :
    (∃ t', t.noteTarget i = some t' ∧ t'.depth = t.depth ∧ t'.reachable = t.reachable ∧
        ∀ next depth, index < next → (t'.noted.lookup ⟨next⟩ = some depth ↔
          s.ComesFrom returnsValue index next depth ∨
            s.Departs returnsValue index depth ∧
              ∃ target, i.target? = some target ∧ next = target.index)) ∨
      t.noteTarget i = none ∧ ¬ s.Disciplined returnsValue := by
  obtain ⟨target, htarget⟩ := (hs.wellFormed index i hi).exists_target hbranch
  have hnote : t.noteTarget i = t.note target := by
    rw [Tally.noteTarget, htarget]
  rw [hnote]
  rcases note_cases target t with ⟨t', hok, hdepth, hreachable, hlookup⟩ |
    ⟨existing, hnone, hreachable, hexisting, hne⟩
  · refine Or.inl ⟨t', hok, hdepth, hreachable, fun next depth hnext => ?_⟩
    rw [hlookup, h.ahead next depth hnext, h.here, htarget]
    constructor
    · rintro (hold | ⟨hposition, hnew⟩)
      · exact Or.inl hold
      · exact Or.inr ⟨hnew, target, rfl, congrArg Position.index hposition⟩
    · rintro (hold | ⟨hnew, _, hsame, rfl⟩)
      · exact Or.inl hold
      · cases hsame
        exact Or.inr ⟨rfl, hnew⟩
  · refine Or.inr ⟨hnone, fun hdisciplined => hne ?_⟩
    have hahead : index < target.index := (hs.forward index i target hi htarget).1
    have hearlier : s.Reaches returnsValue target.index existing :=
      ((h.ahead target.index existing hahead).mpr hexisting).reaches
    have hnow : s.Reaches returnsValue target.index t.depth :=
      (Sequence.ComesFrom.step (Nat.lt_succ_self index) ((h.here t.depth).mpr ⟨hreachable, rfl⟩)
        (.jump hi htarget)).reaches
    exact hdisciplined.agrees hearlier hnow

/-- An instruction that is no branch brings nothing to a target. -/
theorem KnowsAfter.noted_of_not_isBranch (hwell : i.WellFormed)
    (hbranch : i.opcode.isBranch = false) (h : KnowsAfter returnsValue s index t) (next depth : Nat)
    (hnext : index < next) :
    t.noted.lookup ⟨next⟩ = some depth ↔ s.ComesFrom returnsValue index next depth ∨
      s.Departs returnsValue index depth ∧
        ∃ target, i.target? = some target ∧ next = target.index := by
  rw [h.ahead next depth hnext]
  constructor
  · exact Or.inl
  · rintro (hold | ⟨-, target, htarget, -⟩)
    · exact hold
    · rw [hwell.isBranch_of_target htarget] at hbranch
      cases hbranch

/-- Going on, the pass gets to know what is in front of the next instruction, or finds that paths do
not keep to the discipline.  A return that is passed leaves nothing behind. -/
theorem depart_knows (hs : s.Regular) (hi : s.instructions[index]? = some i)
    (h : KnowsAfter returnsValue s index t) (hreturns : s.Disciplined returnsValue →
      i.opcode.flow = .leaving → t.reachable = true → t.depth = 0) :
    (∃ t', t.depart i = some t' ∧ Knows returnsValue s (index + 1) t' ∧
        (i.opcode.flow = .leaving → t.reachable = true → t.depth = 0)) ∨
      t.depart i = none ∧ ¬ s.Disciplined returnsValue := by
  have hwell : i.WellFormed := hs.wellFormed index i hi
  have hnothing : ∀ depth, (false = true ∧ depth = t.depth) ↔
      (true = false ∧ s.Departs returnsValue index depth) := fun depth =>
    ⟨fun h => absurd h.1 Bool.false_ne_true, fun h => absurd h.1.symm Bool.false_ne_true⟩
  unfold Tally.depart
  cases hflow : i.opcode.flow with
  | sequential | call =>
    have hbranch : i.opcode.isBranch = false := by rw [OpCode.isBranch, hflow]; rfl
    have hterminal : i.opcode.isTerminal = false := by rw [OpCode.isTerminal, hflow]; rfl
    refine Or.inl ⟨t, rfl, knows_succ hi (fun depth => ?_) (h.noted_of_not_isBranch hwell hbranch),
      fun hleaving => absurd hleaving (by decide)⟩
    rw [h.here, hterminal, eq_self, true_and]
  | conditionalBranch =>
    have hbranch : i.opcode.isBranch = true := by rw [OpCode.isBranch, hflow]; rfl
    have hterminal : i.opcode.isTerminal = false := by rw [OpCode.isTerminal, hflow]; rfl
    rcases noteTarget_knows hs hi hbranch h with ⟨t', hok, hdepth, hreachable, hnoted⟩ | hnone
    · refine Or.inl ⟨t', hok, knows_succ hi (fun depth => ?_) hnoted,
        fun hleaving => absurd hleaving (by decide)⟩
      rw [h.here, hterminal, hdepth, hreachable, eq_self, true_and]
    · exact Or.inr hnone
  | unconditionalBranch =>
    have hbranch : i.opcode.isBranch = true := by rw [OpCode.isBranch, hflow]; rfl
    have hterminal : i.opcode.isTerminal = true := by rw [OpCode.isTerminal, hflow]; rfl
    rcases noteTarget_knows hs hi hbranch h with ⟨t', hok, hdepth, -, hnoted⟩ | ⟨hnone, hnot⟩
    · refine Or.inl ⟨{ t' with reachable := false }, ?_,
        knows_succ hi (fun depth => ?_) hnoted,
        fun hleaving => absurd hleaving (by decide)⟩
      · rw [hok, Option.map_some]
      · rw [hterminal, hdepth]
        exact hnothing depth
    · refine Or.inr ⟨?_, hnot⟩
      rw [hnone, Option.map_none]
  | leaving =>
    have hbranch : i.opcode.isBranch = false := by rw [OpCode.isBranch, hflow]; rfl
    have hterminal : i.opcode.isTerminal = true := by rw [OpCode.isTerminal, hflow]; rfl
    by_cases hleft : (t.reachable && t.depth != 0) = true
    · obtain ⟨hreachable, hne⟩ := Bool.and_eq_true_iff.mp hleft
      refine Or.inr ⟨if_pos hleft, fun hdisciplined => bne_iff_ne.mp hne ?_⟩
      exact hreturns hdisciplined hflow hreachable
    · have hnoted := h.noted_of_not_isBranch hwell hbranch
      refine Or.inl ⟨_, if_neg hleft, knows_succ hi (fun depth => ?_) hnoted,
        fun _ hreachable => ?_⟩
      · rw [hterminal]
        exact hnothing depth
      · by_contra hne
        exact hleft (Bool.and_eq_true_iff.mpr ⟨hreachable, bne_iff_ne.mpr hne⟩)

/-! ## Steps and runs -/

/-- A return leaves no values on the stack. -/
theorem effect_of_leaving (hwell : i.WellFormed) (h : i.opcode.flow = .leaving) :
    (i.effect returnsValue).2 = 0 := by
  have hkind : i.operand.kind = .none := by
    rw [hwell]
    revert h
    cases i.opcode <;> decide
  unfold Instruction.effect
  cases hoperand : i.operand with
  | call site => rw [hoperand] at hkind; cases hkind
  | _ => simp only [if_pos h]

/-- One step of the pass finds the discipline kept at its instruction and knows what is in front of
the next one, or fails because some path does not keep to the discipline. -/
theorem step_knows (hs : s.Regular) (hi : s.instructions[index]? = some i)
    (h : Knows returnsValue s index t) :
    (∃ t', t.step returnsValue ⟨index⟩ i = some t' ∧ Knows returnsValue s (index + 1) t' ∧
        s.DisciplinedAt returnsValue index) ∨
      t.step returnsValue ⟨index⟩ i = none ∧ ¬ s.Disciplined returnsValue := by
  unfold Tally.step
  rcases arrive_knows hs h with ⟨arrived, harrive, hat⟩ | ⟨hnone, hnot⟩
  swap
  · exact Or.inr ⟨by rw [hnone]; rfl, hnot⟩
  rcases take_knows hi hat with ⟨taken, htake, htakes, hdepth, hreachable, hnoted⟩ | ⟨hnone, hnot⟩
  swap
  · exact Or.inr ⟨by simp only [harrive, Option.bind, bind, hnone], hnot⟩
  have hleaving : i.opcode.flow = .leaving → (i.effect returnsValue).2 = 0 :=
    effect_of_leaving (hs.wellFormed index i hi)
  have hafter : KnowsAfter returnsValue s index (taken.leave (i.effect returnsValue).2) :=
    leave_knows hi hat hdepth hreachable hnoted
  have hreturns : s.Disciplined returnsValue → i.opcode.flow = .leaving →
      (taken.leave (i.effect returnsValue).2).reachable = true →
        (taken.leave (i.effect returnsValue).2).depth = 0 := by
    intro hdisciplined hflow hafter
    have hreachable' : arrived.reachable = true := hreachable.symm.trans hafter
    have hexact := hdisciplined.returns ((hat.here arrived.depth).mpr ⟨hreachable', rfl⟩) hi hflow
    have hsum := hdepth hreachable'
    change taken.depth + (i.effect returnsValue).2 = 0
    rw [hleaving hflow]
    omega
  rcases depart_knows hs hi hafter hreturns with ⟨t', hdepart, hknows, hempty⟩ | ⟨hnone, hnot⟩
  swap
  · exact Or.inr ⟨by simp only [harrive, htake, Option.bind, bind, hnone], hnot⟩
  refine Or.inl ⟨t', by simp only [harrive, htake, Option.bind, bind, hdepart], hknows, ?_⟩
  constructor
  · intro depth i' hreaches hi'
    obtain rfl := Option.some.inj (hi.symm.trans hi')
    exact htakes depth hreaches
  · intro depth i' hreaches hi' hflow
    obtain rfl := Option.some.inj (hi.symm.trans hi')
    obtain ⟨hreachable', rfl⟩ := (hat.here depth).mp hreaches
    have hnone := hempty hflow (hreachable.trans hreachable')
    have hsum := hdepth hreachable'
    change taken.depth + (i.effect returnsValue).2 = 0 at hnone
    omega
  · intro depth other hreaches hother
    rw [((hat.here depth).mp hreaches).2, ((hat.here other).mp hother).2]

/-- A run of the pass finds the discipline kept at all instructions from an index on, or fails
because some path does not keep to it. -/
theorem follow_knows (hs : s.Regular) {code : List Instruction}
    (hcode : s.instructions.drop index = code) (h : Knows returnsValue s index t) :
    (∃ t', t.follow returnsValue index code = some t' ∧
        ∀ later, index ≤ later → s.DisciplinedAt returnsValue later) ∨
      t.follow returnsValue index code = none ∧ ¬ s.Disciplined returnsValue := by
  induction code generalizing index t with
  | nil =>
    refine Or.inl ⟨t, rfl, fun later hlater => ?_⟩
    have hlength : s.length ≤ later :=
      Nat.le_trans (List.drop_eq_nil_iff.mp hcode) hlater
    have hunreached : ∀ depth, ¬ s.Reaches returnsValue later depth := fun depth hreaches =>
      Nat.not_le.mpr (hreaches.lt_length hs) hlength
    exact ⟨fun h _ => absurd h (hunreached _), fun h _ _ => absurd h (hunreached _),
      fun h _ => absurd h (hunreached _)⟩
  | cons i code ih =>
    obtain ⟨hi, hrest⟩ := head_and_tail_of_drop hcode
    rw [Tally.follow]
    rcases step_knows hs hi h with ⟨t', hok, hknows, hdisciplined⟩ | ⟨hnone, hnot⟩
    · rcases ih hrest hknows with ⟨last, hlast, hall⟩ | ⟨hnone, hnot⟩
      · refine Or.inl ⟨last, Option.bind_eq_some_iff.mpr ⟨t', hok, hlast⟩, fun later hlater => ?_⟩
        rcases Nat.eq_or_lt_of_le hlater with rfl | hlater
        · exact hdisciplined
        · exact hall later hlater
      · exact Or.inr ⟨by rw [hok]; exact hnone, hnot⟩
    · exact Or.inr ⟨by rw [hnone]; rfl, hnot⟩

/-! ## The greatest depth -/

variable {total : Nat} {t' : Tally}

/-- How many values the instructions of a sequence leave on the stack, taken together. -/
def pushTotal (returnsValue : Bool) (code : List Instruction) : Nat :=
  (code.map fun i => (i.effect returnsValue).2).sum

theorem Within.follow {code : List Instruction} (h : Within total t)
    (hok : t.follow returnsValue index code = some t') :
    Within (total + pushTotal returnsValue code) t' := by
  induction code generalizing index total t with
  | nil =>
    cases hok
    exact h
  | cons i code ih =>
    obtain ⟨next, hstep, hok⟩ := Option.bind_eq_some_iff.mp hok
    have hlast := ih (h.step hstep) hok
    rwa [Nat.add_assoc] at hlast

/-- The pass decides the discipline, as long as a header can say the depth. -/
theorem maxDepth_cases (hs : s.Regular)
    (hpushes : pushTotal returnsValue s.instructions ≤ depthLimit) :
    (s.Disciplined returnsValue ∧ ∃ depth, maxDepth returnsValue s = .ok depth) ∨
      ¬ s.Disciplined returnsValue ∧
        ∃ fault, maxDepth returnsValue s = .error (.malformed fault) := by
  rcases follow_knows hs List.drop_zero (knows_start returnsValue s) with ⟨t, hok, hall⟩ |
    ⟨hnone, hnot⟩
  · have hpeak : t.peak ≤ depthLimit := by
      have h := (within_start.follow hok).peak
      omega
    refine Or.inl ⟨Sequence.disciplined_of_forall fun index => hall index (Nat.zero_le _), t.peak,
      maxDepth_eq_ok.mpr ?_⟩
    rw [Tally.maxDepth, hok]
    exact if_pos hpeak
  · refine Or.inr ⟨hnot, ?_⟩
    cases hdepth : maxDepth returnsValue s with
    | ok depth =>
      have hfound := maxDepth_eq_ok.mp hdepth
      rw [Tally.maxDepth, hnone] at hfound
      cases hfound
    | error e =>
      obtain ⟨fault, rfl⟩ := malformed_of_maxDepth hdepth
      exact ⟨fault, rfl⟩

end Stack

/-! ## Instructions that no path reaches -/

namespace Sequence

theorem Leads.congr (h : s'.instructions[index]? = s.instructions[index]?)
    (hl : s.Leads index next) : s'.Leads index next := by
  cases hl with
  | next hi hterminal => exact .next (h.trans hi) hterminal
  | jump hi htarget => exact .jump (h.trans hi) htarget

/-- Paths are a matter of the instructions that they reach. -/
theorem reaches_congr (h : ∀ index depth, s.Reaches returnsValue index depth →
      s'.instructions[index]? = s.instructions[index]?) :
    s'.Reaches returnsValue index depth ↔ s.Reaches returnsValue index depth := by
  constructor
  · intro hreaches
    induction hreaches with
    | start => exact .start
    | step _ hi htakes hl ih =>
      have hsame := (h _ _ ih).symm
      exact ih.step (hsame.trans hi) htakes (hl.congr hsame)
  · intro hreaches
    induction hreaches with
    | start => exact .start
    | step hreaches hi htakes hl ih =>
      have hsame := h _ _ hreaches
      exact ih.step (hsame.trans hi) htakes (hl.congr hsame)

theorem Disciplined.congr (hs : s.Disciplined returnsValue)
    (h : ∀ index depth, s.Reaches returnsValue index depth →
      s'.instructions[index]? = s.instructions[index]?) : s'.Disciplined returnsValue := by
  constructor
  · intro index depth i hreaches hi
    have hreaches := (reaches_congr h).mp hreaches
    exact hs.takes hreaches ((h _ _ hreaches).symm.trans hi)
  · intro index depth i hreaches hi hflow
    have hreaches := (reaches_congr h).mp hreaches
    exact hs.returns hreaches ((h _ _ hreaches).symm.trans hi) hflow
  · intro index depth other hreaches hother
    exact hs.agrees ((reaches_congr h).mp hreaches) ((reaches_congr h).mp hother)

end Sequence

/-! ## Encoding and the discipline -/

/-- The sequence is small enough for a header to say its depths, and for a branch across its code.
Its offsets do not wrap around in the layout that the choice of forms starts from, where all branches
are long. -/
structure Sequence.InBounds (returnsValue : Bool) (s : Sequence) : Prop where
  /-- The values left on the stack add up to a depth that a header can say. -/
  pushes : Stack.pushTotal returnsValue s.instructions ≤ Stack.depthLimit
  size : Layout.codeSize (Layout.forms s.instructions) < 2 ^ 31
  longSize : Layout.codeSize (Layout.longForms s.instructions) < 2 ^ 32

theorem Sequence.InBounds.encode_cases (h : s.InBounds returnsValue) (hs : s.IsFinished) :
    (s.Disciplined returnsValue ∧ ∃ body, encode s returnsValue = .ok body) ∨
      ¬ s.Disciplined returnsValue ∧
        ∃ fault, encode s returnsValue = .error (.malformed fault) := by
  obtain ⟨code, hencode⟩ := encode_of_regular hs.regular h.longSize h.size returnsValue
  rcases Stack.maxDepth_cases hs.regular h.pushes with ⟨hdisciplined, depth, hdepth⟩ |
    ⟨hnot, fault, herror⟩
  · rw [hdepth] at hencode
    exact Or.inl ⟨hdisciplined, _, hencode⟩
  · rw [herror] at hencode
    exact Or.inr ⟨hnot, fault, hencode⟩

theorem Sequence.InBounds.encode_ok_iff (h : s.InBounds returnsValue) (hs : s.IsFinished) :
    (∃ body, encode s returnsValue = .ok body) ↔ s.Disciplined returnsValue := by
  rcases h.encode_cases hs with ⟨hdisciplined, hok⟩ | ⟨hnot, fault, herror⟩
  · exact ⟨fun _ => hdisciplined, fun _ => hok⟩
  · constructor
    · rintro ⟨body, hok⟩
      rw [herror] at hok
      cases hok
    · exact fun hdisciplined => absurd hdisciplined hnot

/-- A finished sequence within bounds is encoded exactly if all paths through it keep to the
discipline of the stack, and refused as malformed if one does not.  Instructions that no path
reaches make no difference: a sequence with others in their place is encoded just as well. -/
theorem encode_ok_iff_disciplined (s : Sequence) (returnsValue : Bool) (hs : s.IsFinished)
    (hbounds : s.InBounds returnsValue) :
    ((∃ body, encode s returnsValue = .ok body) ↔ s.Disciplined returnsValue) ∧
    (¬ s.Disciplined returnsValue →
      ∃ fault, encode s returnsValue = .error (.malformed fault)) ∧
    ∀ s' : Sequence, s'.IsFinished → s'.InBounds returnsValue →
      (∀ index depth, s.Reaches returnsValue index depth →
        s'.instructions[index]? = s.instructions[index]?) →
      ((∃ body, encode s' returnsValue = .ok body) ↔
        ∃ body, encode s returnsValue = .ok body) := by
  refine ⟨hbounds.encode_ok_iff hs, fun hnot => ?_, fun s' hs' hbounds' hsame => ?_⟩
  · rcases hbounds.encode_cases hs with ⟨hdisciplined, -⟩ | ⟨-, herror⟩
    · exact absurd hdisciplined hnot
    · exact herror
  · rw [hbounds.encode_ok_iff hs, hbounds'.encode_ok_iff hs']
    constructor
    · intro hdisciplined
      refine hdisciplined.congr fun index depth hreaches => ?_
      exact (hsame index depth ((Sequence.reaches_congr hsame).mp hreaches)).symm
    · exact fun hdisciplined => hdisciplined.congr hsame

/-- Goes past an instruction that would find the stack empty. -/
def Sequence.pastPop : Sequence :=
  ⟨[⟨.br, .target ⟨2⟩⟩, ⟨.pop, .none⟩, ⟨.ret, .none⟩]⟩

/-- No path reaches that instruction, so the sequence keeps to the discipline. -/
theorem disciplined_pastPop :
    Sequence.pastPop.IsFinished ∧ Sequence.pastPop.InBounds false ∧
      Sequence.pastPop.Disciplined false := by
  have hfinished : Sequence.pastPop.IsFinished :=
    Or.inl ⟨[.newLabel, .branch .br ⟨0⟩, .emit .pop, .emit .ret, .bind ⟨0⟩ ⟨2⟩], rfl⟩
  have hbounds : Sequence.pastPop.InBounds false := ⟨by decide, by decide, by decide⟩
  refine ⟨hfinished, hbounds, ?_⟩
  exact (encode_ok_iff_disciplined .pastPop false hfinished hbounds).1.mp ⟨_, rfl⟩

end DualInit
