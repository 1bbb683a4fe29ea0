import DualInit.Metadata.Rows
import Mathlib.Algebra.GroupWithZero.Nat
import Mathlib.Data.List.Nodup

/-!
# Changing rows of a table

The rows of a table have tokens, and no two rows have the same one.  Then looking a row up by its
token, changing it and putting it back touches this row only: `updateFirst_of_find?` says that a
change of the first row is a replacement, and `find?_set` what is found after one.

The number of the next row is above all numbers in use (`greatest_le_iff`), so a row of that
number is a new one as long as the numbers are not exhausted.
-/

namespace DualInit
namespace Rows

variable {α : Type} (key : α → Token)

/-- The rows with a row in the place of the one that has the same token. -/
def set (row : α) (rows : List α) : List α :=
  rows.map fun r => if key r = key row then row else r

variable {key} {row old : α} {rows : List α} {token : Token}

@[simp] theorem set_nil : set key row [] = [] := rfl

theorem set_cons {r : α} : set key row (r :: rows) =
    (if key r = key row then row else r) :: set key row rows := rfl

theorem map_set_congr {β : Type} {f : α → β} (h : ∀ r ∈ rows, key r = key row → f r = f row) :
    (set key row rows).map f = rows.map f := by
  rw [set, List.map_map]
  refine List.map_congr_left fun r hr => ?_
  rw [Function.comp_apply]
  split
  · next heq => exact (h r hr heq).symm
  · rfl

@[simp] theorem map_key_set : (set key row rows).map key = rows.map key :=
  map_set_congr fun _ _ heq => heq

/-! ## Looking rows up -/

theorem key_eq_of_find? (h : rows.find? (key · == token) = some old) : key old = token := by
  simpa using List.find?_some h

/-- The row that is found under a token after a replacement. -/
theorem find?_set : (set key row rows).find? (key · == token) =
    if key row = token then (rows.find? (key · == token)).map fun _ => row
    else rows.find? (key · == token) := by
  induction rows with
  | nil => simp
  | cons r rows ih =>
    rw [set, List.map_cons, ← set, List.find?_cons, List.find?_cons, ih]
    by_cases hrow : key row = token
    · by_cases hr : key r = token
      · simp [hrow, hr]
      · have hne : (key r == token) = false := beq_false_of_ne hr
        simp [hrow, hr, hne]
    · by_cases hr : key r = key row
      · have hne : (key row == token) = false := beq_false_of_ne hrow
        simp [hrow, hr, hne]
      · simp [hrow, hr]

theorem find?_set_self (h : rows.find? (key · == key row) = some old) :
    (set key row rows).find? (key · == key row) = some row := by
  rw [find?_set, if_pos rfl, h]
  rfl

theorem find?_set_of_ne (h : key row ≠ token) :
    (set key row rows).find? (key · == token) = rows.find? (key · == token) := by
  rw [find?_set, if_neg h]

/-- With distinct tokens a row is found under its own token. -/
theorem find?_of_mem (hdistinct : (rows.map key).Nodup) (hrow : row ∈ rows) :
    rows.find? (key · == key row) = some row := by
  induction rows with
  | nil => exact absurd hrow List.not_mem_nil
  | cons r rows ih =>
    rw [List.map_cons, List.nodup_cons] at hdistinct
    rcases List.mem_cons.mp hrow with rfl | hrow
    · simp
    · have hne : key r ≠ key row := fun heq =>
        hdistinct.1 (heq ▸ List.mem_map_of_mem hrow)
      rw [List.find?_cons, beq_false_of_ne hne]
      exact ih hdistinct.2 hrow

/-- A row that is the only one to match is found. -/
theorem find?_of_unique {p : α → Bool} (hrow : row ∈ rows) (hp : p row = true)
    (hunique : ∀ r ∈ rows, p r = true → r = row) : rows.find? p = some row := by
  obtain ⟨r, hr⟩ := Option.isSome_iff_exists.mp (List.find?_isSome.mpr ⟨row, hrow, hp⟩)
  rw [hr, hunique r (List.mem_of_find?_eq_some hr) (List.find?_some hr)]

/-! ## Replacing rows -/

theorem set_of_notMem (h : key row ∉ rows.map key) : set key row rows = rows := by
  refine (List.map_congr_left fun r hr => ?_).trans (List.map_id rows)
  rw [if_neg fun heq => h (by rw [← heq]; exact List.mem_map_of_mem hr)]
  rfl

/-- A row that stands there already is replaced by itself. -/
theorem set_of_find? (hdistinct : (rows.map key).Nodup) (hrow : row ∈ rows) :
    set key row rows = rows := by
  refine (List.map_congr_left fun r hr => ?_).trans (List.map_id rows)
  split
  · next heq =>
    have h := find?_of_mem hdistinct hr
    rw [heq, find?_of_mem hdistinct hrow] at h
    exact Option.some.inj h
  · rfl

/-- Of two replacements of one row the second one counts. -/
theorem set_set (h : key old = key row) : set key row (set key old rows) = set key row rows := by
  rw [set, set, set, List.map_map]
  refine List.map_congr_left fun r _ => ?_
  rw [Function.comp_apply]
  by_cases hr : key r = key row
  · rw [if_pos (hr.trans h.symm), if_pos h, if_pos hr]
  · rw [if_neg fun heq : key r = key old => hr (heq.trans h), if_neg hr]

/-- With distinct tokens, changing the first row of a token is replacing the row. -/
theorem updateFirst_of_find? {ε : Type} {change : α → Except ε α}
    (hdistinct : (rows.map key).Nodup) (hkey : ∀ r, change old = .ok r → key r = key old)
    (h : rows.find? (key · == token) = some old) :
    updateFirst (key · == token) change rows =
      some (do return set key (← change old) rows) := by
  have htoken := key_eq_of_find? h
  induction rows with
  | nil => exact absurd h (by simp)
  | cons r rows ih =>
    rw [List.map_cons, List.nodup_cons] at hdistinct
    unfold updateFirst
    by_cases hr : key r = token
    · have hr' : (key r == token) = true := beq_iff_eq.mpr hr
      rw [List.find?_cons, hr'] at h
      obtain rfl := Option.some.inj h
      rw [if_pos hr']
      cases hchange : change r with
      | error e => rfl
      | ok row =>
        have hrest : set key row rows = rows :=
          set_of_notMem (by rw [hkey row hchange]; exact hdistinct.1)
        show some (Except.ok (row :: rows)) = some (Except.ok (set key row (r :: rows)))
        rw [set_cons, hrest, if_pos (hkey row hchange).symm]
    · have hr' : (key r == token) = false := beq_false_of_ne hr
      rw [List.find?_cons, hr'] at h
      rw [if_neg (by simp [hr']), ih hdistinct.2 h]
      cases hchange : change old with
      | error e => rfl
      | ok row =>
        have hne : key r ≠ key row := by
          rw [hkey row hchange, htoken]
          exact hr
        show some (Except.ok (r :: set key row rows)) = some (Except.ok (set key row (r :: rows)))
        rw [set_cons, if_neg hne]

/-- A change of the first row that matches leaves the rows in front of it and behind it, whether or
not tokens are distinct. -/
theorem exists_split_of_updateFirst {ε : Type} {matching : α → Bool} {change : α → Except ε α}
    {changed : List α} (h : updateFirst matching change rows = some (.ok changed)) :
    ∃ front row row' back, rows = front ++ row :: back ∧ (∀ r ∈ front, matching r = false) ∧
      matching row = true ∧ change row = .ok row' ∧ changed = front ++ row' :: back := by
  induction rows generalizing changed with
  | nil => cases h
  | cons r rows ih =>
    unfold updateFirst at h
    split at h
    · next hr =>
      cases hchange : change r with
      | error e => rw [hchange] at h; cases h
      | ok row' =>
        rw [hchange] at h
        cases h
        exact ⟨[], r, row', rows, rfl, fun _ h => absurd h List.not_mem_nil, hr, hchange, rfl⟩
    · next hr =>
      cases hrest : updateFirst matching change rows with
      | none => rw [hrest] at h; cases h
      | some result =>
        cases result with
        | error e => rw [hrest] at h; cases h
        | ok rest =>
          rw [hrest] at h
          cases h
          obtain ⟨front, row, row', back, rfl, hfront, hrow, hchange, rfl⟩ := ih hrest
          have hfront' : ∀ x ∈ r :: front, matching x = false :=
            List.forall_mem_cons.mpr ⟨Bool.eq_false_iff.mpr hr, hfront⟩
          exact ⟨r :: front, row, row', back, rfl, hfront', hrow, hchange, rfl⟩

/-- A change of the first row that matches fails as it does on this row, whether or not tokens are
distinct. -/
theorem updateFirst_error {ε : Type} {matching : α → Bool} {change : α → Except ε α} {e : ε}
    (h : rows.find? matching = some old) :
    updateFirst matching change rows = some (.error e) ↔ change old = .error e := by
  induction rows with
  | nil => cases h
  | cons r rows ih =>
    unfold updateFirst
    cases hr : matching r with
    | true =>
      rw [List.find?_cons, hr] at h
      obtain rfl := Option.some.inj h
      cases change r <;> simp [bind, Except.bind, pure, Except.pure]
    | false =>
      rw [List.find?_cons, hr] at h
      rw [if_neg Bool.false_ne_true, ← ih h]
      rcases updateFirst matching change rows with _ | _ | _ <;>
        simp [bind, Except.bind, pure, Except.pure]

/-- What a change keeps of the row that it is made to, it keeps of all rows. -/
theorem map_of_updateFirst {ε β : Type} {matching : α → Bool} {change : α → Except ε α}
    {changed : List α} {f : α → β} (hf : ∀ r r', change r = .ok r' → f r' = f r)
    (h : updateFirst matching change rows = some (.ok changed)) : changed.map f = rows.map f := by
  obtain ⟨front, row, row', back, rfl, -, -, hchange, rfl⟩ := exists_split_of_updateFirst h
  rw [List.map_append, List.map_append, List.map_cons, List.map_cons, hf row row' hchange]

/-- After a change of the first row of a token that keeps the token, the changed row is found there
and the other rows where they were. -/
theorem exists_of_updateFirst {ε : Type} {change : α → Except ε α} {changed : List α}
    (hkey : ∀ r r', change r = .ok r' → key r' = key r)
    (h : updateFirst (key · == token) change rows = some (.ok changed)) :
    ∃ row row', rows.find? (key · == token) = some row ∧ change row = .ok row' ∧
      ∀ other, changed.find? (key · == other) =
        if other = token then some row' else rows.find? (key · == other) := by
  obtain ⟨front, row, row', back, rfl, hfront, hrow, hchange, rfl⟩ := exists_split_of_updateFirst h
  have hfound : front.find? (key · == token) = none :=
    List.find?_eq_none.mpr fun r hr => Bool.eq_false_iff.mp (hfront r hr)
  have htoken : key row = token := beq_iff_eq.mp hrow
  have htoken' : key row' = token := (hkey row row' hchange).trans htoken
  refine ⟨row, row', ?_, hchange, fun other => ?_⟩
  · rw [List.find?_append, hfound, Option.none_or, List.find?_cons, hrow]
  · rw [List.find?_append, List.find?_append, List.find?_cons, List.find?_cons, htoken, htoken']
    by_cases hother : other = token
    · rw [if_pos hother, hother, hfound, beq_self_eq_true, Option.none_or]
    · rw [if_neg hother, beq_false_of_ne (Ne.symm hother)]

theorem mem_set {r : α} : r ∈ set key row rows ↔
    (r ∈ rows ∧ key r ≠ key row) ∨ ∃ old ∈ rows, key old = key row ∧ r = row := by
  rw [set, List.mem_map]
  constructor
  · rintro ⟨old, hold, rfl⟩
    by_cases h : key old = key row
    · exact Or.inr ⟨old, hold, h, if_pos h⟩
    · rw [if_neg h]
      exact Or.inl ⟨hold, h⟩
  · rintro (⟨hr, h⟩ | ⟨old, hold, h, rfl⟩)
    · exact ⟨r, hr, if_neg h⟩
    · exact ⟨old, hold, if_pos h⟩

/-- What holds of all rows after a replacement holds of the new row and of the other ones. -/
theorem forall_mem_set {p : α → Prop} (hold : key row ∈ rows.map key) :
    (∀ r ∈ set key row rows, p r) ↔ p row ∧ ∀ r ∈ rows, key r ≠ key row → p r := by
  obtain ⟨old, hmem, heq⟩ := List.mem_map.mp hold
  constructor
  · intro h
    exact ⟨h row (mem_set.mpr (Or.inr ⟨old, hmem, heq, rfl⟩)),
      fun r hr hne => h r (mem_set.mpr (Or.inl ⟨hr, hne⟩))⟩
  · rintro ⟨hrow, hrest⟩ r hr
    rcases mem_set.mp hr with ⟨hr, hne⟩ | ⟨-, -, -, rfl⟩
    · exact hrest r hr hne
    · exact hrow

/-- What holds of all rows holds of one of them and of the other ones. -/
theorem forall_mem_of_mem {p : α → Prop} (hdistinct : (rows.map key).Nodup) (hrow : row ∈ rows) :
    (∀ r ∈ rows, p r) ↔ p row ∧ ∀ r ∈ rows, key r ≠ key row → p r := by
  have h := forall_mem_set (p := p) (List.mem_map_of_mem (f := key) hrow)
  rwa [set_of_find? hdistinct hrow] at h

/-- What a row and its replacement both have or both lack is found in the same place. -/
theorem find?_set_congr {p : α → Bool} (h : ∀ r ∈ rows, key r = key row → p r = p row) :
    (set key row rows).find? p =
      (rows.find? p).map fun r => if key r = key row then row else r := by
  induction rows with
  | nil => rfl
  | cons r rows ih =>
    rw [set_cons, List.find?_cons, List.find?_cons,
      ih fun r' hr' => h r' (List.mem_cons_of_mem _ hr')]
    by_cases hr : key r = key row
    · rw [if_pos hr, ← h r List.mem_cons_self hr]
      cases p r with
      | true => exact congrArg some (if_pos hr).symm
      | false => rfl
    · rw [if_neg hr]
      cases p r with
      | true => exact congrArg some (if_neg hr).symm
      | false => rfl

/-- What a row and its replacement both have or both lack is there as often as it was. -/
theorem countP_set_congr {p : α → Bool} (h : ∀ r ∈ rows, key r = key row → p r = p row) :
    (set key row rows).countP p = rows.countP p := by
  rw [set, List.countP_map]
  refine List.countP_congr fun r hr => ?_
  rw [Function.comp_apply]
  by_cases heq : key r = key row
  · rw [if_pos heq, h r hr heq]
  · rw [if_neg heq]

/-- What a row and its replacement both have or both lack is had in the same places. -/
theorem filter_set_congr {p : α → Bool} (h : ∀ r ∈ rows, key r = key row → p r = p row) :
    (set key row rows).filter p = set key row (rows.filter p) := by
  rw [set, set, List.filter_map]
  refine congrArg (List.map _) (List.filter_congr fun r hr => ?_)
  rw [Function.comp_apply]
  by_cases heq : key r = key row
  · rw [if_pos heq, h r hr heq]
  · rw [if_neg heq]

/-- What neither a row nor its replacement has is found where it was. -/
theorem find?_set_of_false {p : α → Bool} (h : ∀ r ∈ rows, key r = key row → p r = false)
    (hrow : p row = false) : (set key row rows).find? p = rows.find? p := by
  rw [find?_set_congr fun r hr heq => (h r hr heq).trans hrow.symm]
  cases hfound : rows.find? p with
  | none => rfl
  | some r =>
    refine congrArg some (if_neg fun heq => ?_)
    have hp := List.find?_some hfound
    rw [h r (List.mem_of_find?_eq_some hfound) heq] at hp
    exact absurd hp (by simp)

/-- What no row had is found at its replacement. -/
theorem find?_set_of_none {p : α → Bool} (hnone : rows.find? p = none)
    (hold : key row ∈ rows.map key) (hrow : p row = true) :
    (set key row rows).find? p = some row := by
  cases hfound : (set key row rows).find? p with
  | none =>
    obtain ⟨old, hmem, heq⟩ := List.mem_map.mp hold
    exact absurd hrow
      (List.find?_eq_none.mp hfound row (mem_set.mpr (Or.inr ⟨old, hmem, heq, rfl⟩)))
  | some r =>
    rcases mem_set.mp (List.mem_of_find?_eq_some hfound) with ⟨hr, -⟩ | ⟨-, -, -, rfl⟩
    · exact absurd (List.find?_some hfound) (List.find?_eq_none.mp hnone r hr)
    · rfl

/-- Replacing the first row that has something by one that lacks it leaves the later ones. -/
theorem filter_set_eq_tail {p : α → Bool} (hdistinct : (rows.map key).Nodup)
    (h : rows.find? p = some old) (hkey : key old = key row) (hrow : p row = false) :
    (set key row rows).filter p = (rows.filter p).tail := by
  induction rows with
  | nil => exact absurd h (by simp)
  | cons r rows ih =>
    rw [List.map_cons, List.nodup_cons] at hdistinct
    rw [set_cons]
    cases hr : p r with
    | true =>
      rw [List.find?_cons, hr] at h
      obtain rfl := Option.some.inj h
      rw [if_pos hkey, set_of_notMem (hkey ▸ hdistinct.1), List.filter_cons_of_neg (by simp [hrow]),
        List.filter_cons_of_pos hr, List.tail_cons]
    | false =>
      rw [List.find?_cons, hr] at h
      have hne : key r ≠ key row := by
        rw [← hkey]
        intro heq
        exact hdistinct.1 (heq ▸ List.mem_map_of_mem (List.mem_of_find?_eq_some h))
      rw [if_neg hne, List.filter_cons_of_neg (by simp [hr]), List.filter_cons_of_neg (by simp [hr])]
      exact ih hdistinct.2 h

/-- Replacing a row by one that holds more adds what the new one holds to what all rows hold. -/
theorem flatMap_set_perm {β : Type} {f : α → List β} {added : List β}
    (hdistinct : (rows.map key).Nodup) (h : rows.find? (key · == key row) = some old)
    (hf : f row = f old ++ added) :
    ((set key row rows).flatMap f).Perm (rows.flatMap f ++ added) := by
  induction rows with
  | nil => exact absurd h (by simp)
  | cons r rows ih =>
    rw [List.map_cons, List.nodup_cons] at hdistinct
    rw [set_cons, List.flatMap_cons, List.flatMap_cons]
    by_cases hr : key r = key row
    · have hr' : (key r == key row) = true := beq_iff_eq.mpr hr
      rw [List.find?_cons, hr'] at h
      obtain rfl := Option.some.inj h
      rw [if_pos hr, set_of_notMem (hr ▸ hdistinct.1), hf, List.append_assoc, List.append_assoc]
      exact List.Perm.append_left _ List.perm_append_comm
    · have hr' : (key r == key row) = false := beq_false_of_ne hr
      rw [List.find?_cons, hr'] at h
      rw [if_neg hr, List.append_assoc]
      exact List.Perm.append_left _ (ih hdistinct.2 h)

/-- Replacing a row changes a sum over the rows by what the row contributes. -/
theorem sum_map_set {f g : α → Nat} (hdistinct : (rows.map key).Nodup)
    (h : rows.find? (key · == key row) = some old) (hg : ∀ r ∈ rows, key r ≠ key row → g r = f r) :
    ((set key row rows).map g).sum + f old = (rows.map f).sum + g row := by
  induction rows with
  | nil => exact absurd h (by simp)
  | cons r rows ih =>
    rw [List.map_cons, List.nodup_cons] at hdistinct
    rw [set_cons, List.map_cons, List.map_cons, List.sum_cons, List.sum_cons]
    by_cases hr : key r = key row
    · have hr' : (key r == key row) = true := beq_iff_eq.mpr hr
      rw [List.find?_cons, hr'] at h
      obtain rfl := Option.some.inj h
      have hrest : rows.map g = rows.map f := by
        refine List.map_congr_left fun r' hr'' => hg r' (List.mem_cons_of_mem _ hr'') fun heq => ?_
        exact hdistinct.1 (List.mem_map.mpr ⟨r', hr'', heq.trans hr.symm⟩)
      rw [if_pos hr, set_of_notMem (hr ▸ hdistinct.1), hrest]
      omega
    · have hr' : (key r == key row) = false := beq_false_of_ne hr
      rw [List.find?_cons, hr'] at h
      have hrest := ih hdistinct.2 h fun r' hr'' => hg r' (List.mem_cons_of_mem _ hr'')
      rw [if_neg hr, hg r List.mem_cons_self hr]
      omega

/-! ## New rows -/

theorem greatest_le_iff {tokens : List Token} {n : Nat} :
    greatest tokens ≤ n ↔ ∀ t ∈ tokens, t.row ≤ n := by
  induction tokens with
  | nil => simp [greatest]
  | cons t tokens ih =>
    rw [List.forall_mem_cons, ← ih]
    exact Nat.max_le

theorem greatest_perm {tokens other : List Token} (h : tokens.Perm other) :
    greatest tokens = greatest other := by
  refine Nat.le_antisymm ?_ ?_
  · exact greatest_le_iff.mpr fun t ht => row_le_greatest (h.mem_iff.mp ht)
  · exact greatest_le_iff.mpr fun t ht => row_le_greatest (h.mem_iff.mpr ht)

/-- No number is greater than the last one. -/
theorem greatest_lt {tokens : List Token} : greatest tokens < Token.rowLimit :=
  Nat.lt_of_le_pred (by decide) (greatest_le_iff.mpr fun t _ => Nat.le_pred_of_lt t.row_lt)

/-- While there are row numbers left, the token of the next row is a new one. -/
theorem ofParts_next_notMem {tokens : List Token} {table : Nat} (htable : table < 256)
    (hroom : next tokens < Token.rowLimit) : Token.ofParts table (next tokens) ∉ tokens := by
  intro h
  have hrow := row_lt_next h
  rw [Token.row_ofParts _ htable, Nat.mod_eq_of_lt hroom] at hrow
  exact Nat.lt_irrefl _ hrow

/-- A new row takes up one more number. -/
theorem greatest_append_next {tokens : List Token} {table : Nat} (htable : table < 256)
    (hroom : next tokens < Token.rowLimit) :
    greatest (tokens ++ [.ofParts table (next tokens)]) = greatest tokens + 1 := by
  have hrow : (Token.ofParts table (next tokens)).row = greatest tokens + 1 := by
    rw [Token.row_ofParts _ htable, Nat.mod_eq_of_lt hroom]
    rfl
  refine Nat.le_antisymm (greatest_le_iff.mpr fun t ht => ?_) ?_
  · rcases List.mem_append.mp ht with ht | ht
    · exact Nat.le_succ_of_le (row_le_greatest ht)
    · exact Nat.le_of_eq ((congrArg Token.row (List.mem_singleton.mp ht)).trans hrow)
  · rw [← hrow]
    exact row_le_greatest (List.mem_append_right _ (List.mem_singleton_self _))

end Rows
end DualInit
