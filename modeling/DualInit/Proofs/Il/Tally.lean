import DualInit.Il.Stack
import DualInit.Proofs.Endings
import Mathlib.Algebra.GroupWithZero.Nat

/-!
# Depths as numbers

The check of the stack keeps depths in words of four bytes.  A `Tally` is kept in the same way, with
numbers for depths, and it just ends where the check has something to tell about a fault: paths are
compared with it and not with the words.

One step of the two comes to the same while depths are small enough for words (`toOption_step`).  The
sum of a depth and what an instruction leaves can wrap around only if the depth was beyond what a
header can say before, and the peak never gets less.  So whenever one of the two finds that a header
can say the greatest depth, the other one finds the same depth (`maxDepth_eq_ok`), however long the
sequence.
-/

namespace DualInit
namespace Stack

variable {returnsValue : Bool} {index count total : Nat} {i : Instruction} {position : Position}

/-- What is known in front of an instruction, with numbers for depths. -/
structure Tally where
  depth : Nat
  reachable : Bool
  peak : Nat
  noted : List (Position × Nat)

namespace Tally

/-- The start of a body. -/
def start : Tally :=
  ⟨0, true, 0, []⟩

/-- Comes to an instruction, unless another depth is noted for it than code brings that runs on
into it. -/
def arrive (position : Position) (t : Tally) : Option Tally :=
  match t.noted.lookup position with
  | none => some t
  | some noted =>
    if t.reachable && noted != t.depth then none
    else some { t with depth := noted, reachable := true }

/-- Takes values from the stack, unless code gets here and finds too few. -/
def take (count : Nat) (t : Tally) : Option Tally :=
  if count ≤ t.depth then some { t with depth := t.depth - count }
  else if t.reachable then none
  else some { t with depth := 0 }

/-- Leaves values on the stack. -/
def leave (count : Nat) (t : Tally) : Tally :=
  { t with depth := t.depth + count, peak := max t.peak (t.depth + count) }

/-- Notes the depth that a branch leaves for its target, unless another one is noted. -/
def note (target : Position) (t : Tally) : Option Tally :=
  if t.reachable then
    match t.noted.lookup target with
    | none => some { t with noted := (target, t.depth) :: t.noted }
    | some existing => if existing = t.depth then some t else none
  else some t

/-- Notes the depth for the target of an instruction, if it has one. -/
def noteTarget (i : Instruction) (t : Tally) : Option Tally :=
  match i.target? with
  | none => some t
  | some target => note target t

/-- Goes on from an instruction to the next one, unless it returns and leaves values behind. -/
def depart (i : Instruction) (t : Tally) : Option Tally :=
  match i.opcode.flow with
  | .sequential | .call => some t
  | .conditionalBranch => noteTarget i t
  | .unconditionalBranch => (noteTarget i t).map ({ · with reachable := false })
  | .leaving => if t.reachable && t.depth != 0 then none else some { t with reachable := false }

/-- Follows one instruction. -/
def step (returnsValue : Bool) (position : Position) (i : Instruction) (t : Tally) :
    Option Tally := do
  let t ← t.arrive position
  let t ← t.take (i.effect returnsValue).1
  (t.leave (i.effect returnsValue).2).depart i

/-- Follows the instructions from an index on. -/
def follow (returnsValue : Bool) : (index : Nat) → List Instruction → Tally → Option Tally
  | _, [], t => some t
  | index, i :: code, t => do
    let t ← t.step returnsValue ⟨index⟩ i
    follow returnsValue (index + 1) code t

/-- The greatest depth, if a header can say it. -/
def result (t : Tally) : Option Nat :=
  if t.peak ≤ depthLimit then some t.peak else none

/-- The greatest depth of a sequence. -/
def maxDepth (returnsValue : Bool) (s : Sequence) : Option Nat :=
  (follow returnsValue 0 s.instructions start).bind result

/-- The same with words for depths. -/
def track (t : Tally) : Track :=
  ⟨Int32.ofNat t.depth, t.reachable, Int32.ofNat t.peak,
    t.noted.map fun entry => (entry.1, Int32.ofNat entry.2)⟩

end Tally

/-! ## What a step can do -/

variable {t t' : Tally}

namespace Tally

theorem arrive_cases (hok : t.arrive position = some t') :
    t' = t ∨ ∃ noted, t.noted.lookup position = some noted ∧
      t' = { t with depth := noted, reachable := true } := by
  unfold arrive at hok
  cases hlookup : t.noted.lookup position with
  | none =>
    rw [hlookup] at hok
    exact .inl (Option.some.inj hok).symm
  | some noted =>
    simp only [hlookup] at hok
    split at hok
    · cases hok
    · exact .inr ⟨noted, rfl, (Option.some.inj hok).symm⟩

theorem take_cases (hok : t.take count = some t') :
    ∃ depth, depth ≤ t.depth ∧ t' = { t with depth := depth } := by
  unfold take at hok
  split at hok
  · exact ⟨t.depth - count, Nat.sub_le _ _, (Option.some.inj hok).symm⟩
  · split at hok
    · cases hok
    · exact ⟨0, Nat.zero_le _, (Option.some.inj hok).symm⟩

theorem noteTarget_cases (hok : t.noteTarget i = some t') :
    t' = t ∨ ∃ target, t' = { t with noted := (target, t.depth) :: t.noted } := by
  unfold noteTarget at hok
  split at hok
  · exact .inl (Option.some.inj hok).symm
  · next target _ =>
    unfold note at hok
    split at hok
    · split at hok
      · exact .inr ⟨target, (Option.some.inj hok).symm⟩
      · split at hok
        · exact .inl (Option.some.inj hok).symm
        · cases hok
    · exact .inl (Option.some.inj hok).symm

/-- What is noted on the way out is all that is kept of it, next to whether the code behind is
reachable. -/
theorem depart_cases (hok : t.depart i = some t') :
    ∃ next reachable, (next = t ∨ t.noteTarget i = some next) ∧
      t' = { next with reachable := reachable } := by
  unfold depart at hok
  split at hok
  · exact ⟨t, t.reachable, .inl rfl, (Option.some.inj hok).symm⟩
  · exact ⟨t, t.reachable, .inl rfl, (Option.some.inj hok).symm⟩
  · exact ⟨t', t'.reachable, .inr hok, rfl⟩
  · obtain ⟨next, hnote, hnext⟩ := Option.map_eq_some_iff.mp hok
    exact ⟨next, false, .inr hnote, hnext.symm⟩
  · split at hok
    · cases hok
    · exact ⟨t, false, .inl rfl, (Option.some.inj hok).symm⟩

end Tally

/-! ## What is held -/

/-- Nothing that a tally holds is deeper than some total. -/
structure Within (total : Nat) (t : Tally) : Prop where
  depth : t.depth ≤ total
  peak : t.peak ≤ total
  noted : ∀ position depth, t.noted.lookup position = some depth → depth ≤ total

theorem within_start : Within 0 .start :=
  ⟨Nat.le_refl _, Nat.le_refl _, nofun⟩

theorem Within.arrive (h : Within total t) (hok : t.arrive position = some t') :
    Within total t' := by
  obtain rfl | ⟨noted, hlookup, rfl⟩ := Tally.arrive_cases hok
  · exact h
  · exact ⟨h.noted position noted hlookup, h.peak, h.noted⟩

theorem Within.take (h : Within total t) (hok : t.take count = some t') : Within total t' := by
  obtain ⟨depth, hle, rfl⟩ := Tally.take_cases hok
  exact ⟨Nat.le_trans hle h.depth, h.peak, h.noted⟩

theorem Within.leave (h : Within total t) (count : Nat) :
    Within (total + count) (t.leave count) := by
  have hdepth : t.depth + count ≤ total + count := Nat.add_le_add_right h.depth count
  refine ⟨hdepth, ?_, fun position depth hlookup => ?_⟩
  · exact Nat.max_le.mpr ⟨Nat.le_trans h.peak (Nat.le_add_right _ _), hdepth⟩
  · exact Nat.le_trans (h.noted position depth hlookup) (Nat.le_add_right _ _)

theorem Within.noteTarget (h : Within total t) (hok : t.noteTarget i = some t') :
    Within total t' := by
  obtain rfl | ⟨target, rfl⟩ := Tally.noteTarget_cases hok
  · exact h
  · refine ⟨h.depth, h.peak, fun position depth hlookup => ?_⟩
    rw [List.lookup_cons] at hlookup
    split at hlookup
    · cases hlookup
      exact h.depth
    · exact h.noted position depth hlookup

theorem Within.depart (h : Within total t) (hok : t.depart i = some t') : Within total t' := by
  obtain ⟨next, reachable, hnext, rfl⟩ := Tally.depart_cases hok
  have hwithin : Within total next := by
    rcases hnext with rfl | hnote
    · exact h
    · exact h.noteTarget hnote
  exact ⟨hwithin.depth, hwithin.peak, hwithin.noted⟩

theorem Within.step (h : Within total t) (hok : t.step returnsValue position i = some t') :
    Within (total + (i.effect returnsValue).2) t' := by
  obtain ⟨arrived, harrive, hok⟩ := Option.bind_eq_some_iff.mp hok
  obtain ⟨taken, htake, hok⟩ := Option.bind_eq_some_iff.mp hok
  exact (((h.arrive harrive).take htake).leave _).depart hok

/-! ## The peak -/

namespace Tally

theorem peak_of_arrive (hok : t.arrive position = some t') : t'.peak = t.peak := by
  obtain rfl | ⟨noted, -, rfl⟩ := arrive_cases hok
  · rfl
  · rfl

theorem peak_of_take (hok : t.take count = some t') : t'.peak = t.peak := by
  obtain ⟨depth, -, rfl⟩ := take_cases hok
  rfl

theorem peak_of_depart (hok : t.depart i = some t') : t'.peak = t.peak := by
  obtain ⟨next, reachable, rfl | hnote, rfl⟩ := depart_cases hok
  · rfl
  · obtain rfl | ⟨target, rfl⟩ := noteTarget_cases hnote
    · rfl
    · rfl

/-- A step never makes the peak less. -/
theorem peak_le_of_step (hok : t.step returnsValue position i = some t') : t.peak ≤ t'.peak := by
  obtain ⟨arrived, harrive, hok⟩ := Option.bind_eq_some_iff.mp hok
  obtain ⟨taken, htake, hok⟩ := Option.bind_eq_some_iff.mp hok
  rw [peak_of_depart hok, ← peak_of_arrive harrive, ← peak_of_take htake]
  exact Nat.le_max_left _ _

/-- Nothing that a tally holds is deeper than the peak, if nothing was. -/
theorem within_peak_of_step (h : Within t.peak t)
    (hok : t.step returnsValue position i = some t') : Within t'.peak t' := by
  obtain ⟨arrived, harrive, hok⟩ := Option.bind_eq_some_iff.mp hok
  obtain ⟨taken, htake, hdepart⟩ := Option.bind_eq_some_iff.mp hok
  have hpeak : taken.peak = t.peak := (peak_of_take htake).trans (peak_of_arrive harrive)
  have hwithin : Within taken.peak taken := hpeak ▸ (h.arrive harrive).take htake
  have hle : taken.peak ≤ (taken.leave (i.effect returnsValue).2).peak := Nat.le_max_left _ _
  have hleft : Within (taken.leave (i.effect returnsValue).2).peak
      (taken.leave (i.effect returnsValue).2) :=
    ⟨Nat.le_max_right _ _, Nat.le_refl _, fun position depth hlookup =>
      Nat.le_trans (hwithin.noted position depth hlookup) hle⟩
  rw [peak_of_depart hdepart]
  exact hleft.depart hdepart

theorem peak_le_of_follow {code : List Instruction}
    (hok : t.follow returnsValue index code = some t') : t.peak ≤ t'.peak := by
  induction code generalizing index t with
  | nil =>
    cases hok
    exact Nat.le_refl _
  | cons i code ih =>
    obtain ⟨next, hstep, hok⟩ := Option.bind_eq_some_iff.mp hok
    exact Nat.le_trans (peak_le_of_step hstep) (ih hok)

end Tally

/-! ## Words -/

section

variable {m n : Nat}

theorem ofNat_inj (hm : m < 2 ^ 31) (hn : n < 2 ^ 31) : Int32.ofNat m = Int32.ofNat n ↔ m = n := by
  rw [← Int32.toInt_inj, Int32.toInt_ofNat_of_lt hm, Int32.toInt_ofNat_of_lt hn, Int.natCast_inj]

theorem toInt_max (a b : Int32) : (max a b).toInt = max a.toInt b.toInt := by
  have hmax : max a b = if a ≤ b then b else a := rfl
  rw [hmax]
  split
  · next h => rw [Int.max_eq_right (Int32.le_iff_toInt_le.mp h)]
  · next h =>
    rw [Int32.le_iff_toInt_le] at h
    rw [Int.max_eq_left (by omega)]

theorem max_ofNat (hm : m < 2 ^ 31) (hn : n < 2 ^ 31) :
    max (Int32.ofNat m) (Int32.ofNat n) = Int32.ofNat (max m n) := by
  have hmax : max m n < 2 ^ 31 := Nat.max_lt.mpr ⟨hm, hn⟩
  rw [← Int32.toInt_inj, toInt_max, Int32.toInt_ofNat_of_lt hm, Int32.toInt_ofNat_of_lt hn,
    Int32.toInt_ofNat_of_lt hmax]
  omega

/-- Taking values from a depth leaves a negative number exactly if there are too few. -/
theorem zero_le_ofNat_sub (hm : m < 2 ^ 31) (hn : n < 2 ^ 31) :
    0 ≤ Int32.ofNat m - Int32.ofNat n ↔ n ≤ m := by
  have hdifference : (Int32.ofNat m - Int32.ofNat n).toInt = (m : Int) - n := by
    rw [Int32.toInt_sub, Int32.toInt_ofNat_of_lt hm, Int32.toInt_ofNat_of_lt hn]
    exact Int.bmod_eq_of_le (by omega) (by omega)
  rw [Int32.le_iff_toInt_le, hdifference]
  show (0 : Int) ≤ _ ↔ _
  omega

end

/-- What a look-up finds in a list with other values. -/
theorem lookup_map_snd {α β : Type} (f : α → β) (position : Position)
    (entries : List (Position × α)) :
    (entries.map fun entry => (entry.1, f entry.2)).lookup position =
      (entries.lookup position).map f := by
  induction entries with
  | nil => rfl
  | cons entry entries ih =>
    rw [List.map_cons, List.lookup_cons, List.lookup_cons, ih]
    split <;> rfl

/-! ## Both passes together -/

/-- Two parts of a computation come to the same if they do one by one. -/
theorem toOption_bind {α β : Type} {ε : Type} (x : Except ε α) (f : α → Except ε β) :
    (x >>= f).toOption = x.toOption.bind fun a => (f a).toOption := by
  cases x <;> rfl

section

variable (h : Within total t) (htotal : total < 2 ^ 31)
include h htotal

theorem toOption_arrive : (t.track.arrive position).toOption = (t.arrive position).map (·.track) := by
  unfold Track.arrive Tally.arrive
  have hlookup : t.track.noted.lookup position = (t.noted.lookup position).map Int32.ofNat :=
    lookup_map_snd Int32.ofNat position t.noted
  rw [hlookup]
  cases hnoted : t.noted.lookup position with
  | none => rfl
  | some noted =>
    have hdepth := h.depth
    have hle := h.noted position noted hnoted
    have hsame : (Int32.ofNat noted != Int32.ofNat t.depth) = (noted != t.depth) := by
      rw [Bool.eq_iff_iff, bne_iff_ne, bne_iff_ne, ne_eq, ne_eq,
        ofNat_inj (by omega) (by omega)]
    show (if t.reachable && Int32.ofNat noted != Int32.ofNat t.depth then _ else _ :
      Except Error Track).toOption = _
    rw [hsame]
    dsimp only
    split <;> rfl

theorem toOption_take (hcount : count < 2 ^ 31) :
    (t.track.take position i count).toOption = (t.take count).map (·.track) := by
  have hdepth := h.depth
  unfold Track.take Tally.take
  have hfloor : 0 ≤ t.track.depth - Int32.ofNat count ↔ count ≤ t.depth :=
    zero_le_ofNat_sub (by omega) hcount
  by_cases hle : count ≤ t.depth
  · rw [if_pos hle]
    simp only [if_pos (hfloor.mpr hle)]
    have hsub : t.track.depth - Int32.ofNat count = Int32.ofNat (t.depth - count) :=
      (Int32.ofNat_sub _ _ hle).symm
    rw [hsub]
    rfl
  · rw [if_neg hle]
    simp only [if_neg (mt hfloor.mp hle)]
    show (if t.reachable then _ else _ : Except Error Track).toOption = _
    split <;> rfl

theorem toOption_noteTarget :
    (t.track.noteTarget i).toOption = (t.noteTarget i).map (·.track) := by
  unfold Track.noteTarget Tally.noteTarget
  cases i.target? with
  | none => rfl
  | some target =>
    unfold Track.note Tally.note
    have hreachable : t.track.reachable = t.reachable := rfl
    have hlookup : t.track.noted.lookup target = (t.noted.lookup target).map Int32.ofNat :=
      lookup_map_snd Int32.ofNat target t.noted
    dsimp only
    rw [hreachable, hlookup]
    by_cases hgets : t.reachable = true
    · rw [if_pos hgets, if_pos hgets]
      cases hnoted : t.noted.lookup target with
      | none => rfl
      | some existing =>
        have hdepth := h.depth
        have hle := h.noted target existing hnoted
        have hsame : Int32.ofNat existing = Int32.ofNat t.depth ↔ existing = t.depth :=
          ofNat_inj (by omega) (by omega)
        show (if Int32.ofNat existing = Int32.ofNat t.depth then _ else _ :
          Except Error Track).toOption = _
        simp only [hsame]
        split <;> rfl
    · rw [if_neg hgets, if_neg hgets]
      rfl

theorem toOption_depart :
    (t.track.depart position i).toOption = (t.depart i).map (·.track) := by
  unfold Track.depart Tally.depart
  cases i.opcode.flow with
  | sequential | call => rfl
  | conditionalBranch => exact toOption_noteTarget h htotal
  | unconditionalBranch =>
    dsimp only
    rw [toOption_bind, toOption_noteTarget h htotal, Option.map_map, Option.bind_map]
    cases t.noteTarget i <;> rfl
  | leaving =>
    have hdepth := h.depth
    have hempty : (Int32.ofNat t.depth != 0) = (t.depth != 0) := by
      rw [Bool.eq_iff_iff, bne_iff_ne, bne_iff_ne]
      exact not_congr (ofNat_inj (n := 0) (by omega) (by decide))
    show (if t.reachable && Int32.ofNat t.depth != 0 then _ else _ :
      Except Error Track).toOption = _
    rw [hempty]
    dsimp only
    split <;> rfl

end

theorem track_leave (h : Within total t) (hcount : total + count < 2 ^ 31) :
    t.track.leave count = (t.leave count).track := by
  have hdepth := h.depth
  have hpeak := h.peak
  have hsum : t.track.depth + Int32.ofNat count = Int32.ofNat (t.depth + count) :=
    (Int32.ofNat_add _ _).symm
  have hmax : max t.track.peak (Int32.ofNat (t.depth + count)) =
      Int32.ofNat (max t.peak (t.depth + count)) := max_ofNat (by omega) (by omega)
  simp only [Track.leave, hsum, hmax]
  rfl

/-- An instruction takes no more values than a byte can say, and leaves no more. -/
theorem effect_lt (returnsValue : Bool) (i : Instruction) :
    (i.effect returnsValue).1 < 256 ∧ (i.effect returnsValue).2 < 256 := by
  have hopcode : ∀ op : OpCode, op.pops < 256 ∧ op.pushes < 256 := fun op => by
    cases op <;> decide
  unfold Instruction.effect
  split
  · exact ⟨UInt8.toNat_lt _, UInt8.toNat_lt _⟩
  · split
    · cases returnsValue <;> decide
    · exact hopcode i.opcode

/-- One step of the check comes to the same as one of the tally, as long as depths are small. -/
theorem toOption_step (h : Within total t) (htotal : total + 255 < 2 ^ 31) :
    (t.track.step returnsValue position i).toOption =
      (t.step returnsValue position i).map (·.track) := by
  obtain ⟨htake, hleave⟩ := effect_lt returnsValue i
  rw [Track.step, Tally.step, toOption_bind, toOption_arrive h (by omega)]
  cases harrive : t.arrive position with
  | none => rfl
  | some arrived =>
    have harrived := h.arrive harrive
    show ((arrived.track.take position i (i.effect returnsValue).1) >>= _ :
      Except Error Track).toOption = (arrived.take (i.effect returnsValue).1 >>= _).map _
    rw [toOption_bind, toOption_take harrived (by omega) (by omega)]
    cases htaken : arrived.take (i.effect returnsValue).1 with
    | none => rfl
    | some taken =>
      have hwithin := harrived.take htaken
      show ((taken.track.leave (i.effect returnsValue).2).depart position i).toOption =
        ((taken.leave (i.effect returnsValue).2).depart i).map _
      rw [track_leave hwithin (by omega)]
      exact toOption_depart (hwithin.leave _) (by omega)

/-! ## Answers of the check -/

/-- The check goes on without making the peak less, or finds a body malformed. -/
def Answers (peak : Int) : Except Error Track → Prop
  | .ok t => peak ≤ t.peak.toInt
  | .error e => ∃ fault, e = .malformed fault

theorem Answers.mono {peak peak' : Int} {x : Except Error Track} (h : Answers peak' x)
    (hle : peak ≤ peak') : Answers peak x := by
  cases x with
  | error e => exact h
  | ok t => exact Int.le_trans hle h

theorem Answers.bind {peak : Int} {x : Except Error Track} {f : Track → Except Error Track}
    (hx : Answers peak x) (hf : ∀ t, Answers t.peak.toInt (f t)) : Answers peak (x >>= f) := by
  cases x with
  | error e => exact hx
  | ok t => exact (hf t).mono hx

section

variable (t : Track)

theorem answers_arrive : Answers t.peak.toInt (t.arrive position) := by
  unfold Track.arrive
  split
  · exact Int.le_refl _
  · split
    · exact ⟨_, rfl⟩
    · exact Int.le_refl _

theorem answers_take : Answers t.peak.toInt (t.take position i count) := by
  unfold Track.take
  dsimp only
  split
  · exact Int.le_refl _
  · split
    · exact ⟨_, rfl⟩
    · exact Int.le_refl _

theorem answers_noteTarget : Answers t.peak.toInt (t.noteTarget i) := by
  unfold Track.noteTarget
  split
  · exact Int.le_refl _
  · unfold Track.note
    split
    · split
      · exact Int.le_refl _
      · split
        · exact Int.le_refl _
        · exact ⟨_, rfl⟩
    · exact Int.le_refl _

theorem answers_depart : Answers t.peak.toInt (t.depart position i) := by
  unfold Track.depart
  split
  · exact Int.le_refl _
  · exact Int.le_refl _
  · exact answers_noteTarget t
  · exact (answers_noteTarget t).bind fun noted => Int.le_refl _
  · split
    · exact ⟨_, rfl⟩
    · exact Int.le_refl _

theorem answers_step : Answers t.peak.toInt (t.step returnsValue position i) := by
  refine (answers_arrive t).bind fun arrived => (answers_take arrived).bind fun taken => ?_
  refine (answers_depart _).mono ?_
  show _ ≤ (max taken.peak _).toInt
  rw [toInt_max]
  exact Int.le_max_left _ _

theorem answers_follow (code : List Instruction) :
    Answers t.peak.toInt (t.follow returnsValue index code) := by
  induction code generalizing index t with
  | nil => exact Int.le_refl _
  | cons i code ih => exact (answers_step t).bind fun next => ih next

end

/-- What the check refuses is malformed. -/
theorem malformed_of_maxDepth {s : Sequence} {e : Error}
    (h : maxDepth returnsValue s = .error e) : ∃ fault, e = .malformed fault := by
  have hanswers : Answers 0 (Track.follow returnsValue 0 s.instructions .start) :=
    answers_follow .start s.instructions
  rcases except_bind_error.mp h with herror | ⟨t, -, h⟩
  · rw [herror] at hanswers
    exact hanswers
  · split at h
    · cases h
    · cases h
      exact ⟨_, rfl⟩

/-! ## The greatest depth -/

/-- The greatest depth that the check has found, if a header can say it. -/
def Track.result (t : Track) : Option Nat :=
  if 0 ≤ t.peak.toInt ∧ t.peak.toInt ≤ depthLimit then some t.peak.toInt.toNat else none

/-- Once the peak is too deep for a header, nothing makes up for it. -/
theorem result_eq_none {x : Except Error Track} {peak : Int} (h : Answers peak x)
    (hpeak : depthLimit < peak) : x.toOption.bind Track.result = none := by
  cases x with
  | error e => rfl
  | ok t =>
    have hdeep : peak ≤ t.peak.toInt := h
    exact if_neg fun hresult => by omega

theorem Tally.result_of_follow {code : List Instruction} (hpeak : depthLimit < t.peak) :
    (t.follow returnsValue index code).bind result = none := by
  cases hfollow : t.follow returnsValue index code with
  | none => rfl
  | some last =>
    have hle := peak_le_of_follow hfollow
    exact if_neg (by omega)

/-- A peak that a header can say is the same number in both passes. -/
theorem result_track (t : Tally) (hpeak : t.peak < 2 ^ 31) : t.track.result = t.result := by
  have hword : t.track.peak.toInt = t.peak := Int32.toInt_ofNat_of_lt hpeak
  simp only [Track.result, Tally.result, hword, Int.toNat_natCast, Int.natCast_nonneg, true_and,
    Int.ofNat_le]

/-- The two passes find the same greatest depth, if they find one: as long as the peak is one that a
header can say, the depths are small enough for the next step to be the same. -/
theorem result_follow {code : List Instruction} (h : Within t.peak t)
    (hpeak : t.peak ≤ depthLimit) :
    (t.track.follow returnsValue index code).toOption.bind Track.result =
      (t.follow returnsValue index code).bind Tally.result := by
  have hlimit : depthLimit = 65535 := rfl
  induction code generalizing index t with
  | nil => exact result_track t (by omega)
  | cons i code ih =>
    rw [Track.follow, Tally.follow, toOption_bind, toOption_step h (by omega)]
    cases hstep : t.step returnsValue ⟨index⟩ i with
    | none => rfl
    | some next =>
      have hwithin := h.step hstep
      have hcount := (effect_lt returnsValue i).2
      have hnext := hwithin.peak
      show (next.track.follow returnsValue (index + 1) code).toOption.bind _ =
        (next.follow returnsValue (index + 1) code).bind _
      rcases Nat.lt_or_ge depthLimit next.peak with hdeep | hsmall
      · have hword : next.track.peak.toInt = next.peak := Int32.toInt_ofNat_of_lt (by omega)
        rw [Tally.result_of_follow hdeep,
          result_eq_none (answers_follow next.track code) (by omega)]
      · exact ih (Tally.within_peak_of_step h hstep) hsmall

/-- **The check finds the depths that counting gives.**  It finds a greatest depth exactly if
counting with numbers does, and it is the same one. -/
theorem maxDepth_eq_ok {s : Sequence} {depth : Nat} :
    maxDepth returnsValue s = .ok depth ↔ Tally.maxDepth returnsValue s = some depth := by
  have hresult : (Track.follow returnsValue 0 s.instructions .start).toOption.bind Track.result =
      (Tally.follow returnsValue 0 s.instructions .start).bind Tally.result :=
    result_follow (t := .start) within_start (Nat.zero_le _)
  rw [Tally.maxDepth, ← hresult, maxDepth]
  cases Track.follow returnsValue 0 s.instructions .start with
  | error e => exact ⟨nofun, nofun⟩
  | ok t =>
    show (if _ then _ else _ : Except Error Nat) = _ ↔ t.result = _
    unfold Track.result
    split
    · exact ⟨fun h => congrArg some (Except.ok.inj h), fun h => congrArg _ (Option.some.inj h)⟩
    · exact ⟨nofun, nofun⟩

end Stack
end DualInit
