/-!
# Entries under keys

A list of entries is searched from its front, so the first entry under a key hides the others.
Where no key has two entries, each of them is found (`lookup_eq_some_iff_mem`), and taking out what
is under one key changes nothing under another (`lookup_filter_bne`).
-/

namespace DualInit

variable {κ β : Type}

/-- With distinct keys every entry of a list is found under its key. -/
theorem lookup_eq_some_iff_mem [BEq κ] [LawfulBEq κ] {entries : List (κ × β)} {key : κ} {b : β}
    (h : (entries.map Prod.fst).Nodup) : entries.lookup key = some b ↔ (key, b) ∈ entries := by
  induction entries with
  | nil => simp
  | cons entry entries ih =>
    obtain ⟨first, c⟩ := entry
    rw [List.map_cons, List.nodup_cons] at h
    rw [List.lookup_cons, List.mem_cons]
    by_cases hkey : key = first
    · subst hkey
      have hrest : (key, b) ∉ entries := fun hmem => h.1 (List.mem_map.mpr ⟨_, hmem, rfl⟩)
      simp [hrest, eq_comm]
    · rw [beq_false_of_ne hkey, ih h.2]
      simp [hkey]

/-- What is found among entries from which those under one key were taken out. -/
theorem lookup_filter_bne [DecidableEq κ] (key other : κ) (entries : List (κ × β)) :
    (entries.filter (·.1 != key)).lookup other =
      if other = key then none else entries.lookup other := by
  induction entries with
  | nil => simp
  | cons entry entries ih =>
    by_cases hentry : entry.1 = key
    · rw [List.filter_cons_of_neg (by simp [hentry]), ih]
      split
      · rfl
      · next hne => rw [List.lookup_cons, hentry, beq_false_of_ne hne]
    · rw [List.filter_cons_of_pos (by simp [hentry]), List.lookup_cons, List.lookup_cons, ih]
      split
      · next heq =>
        split
        · next hother => exact absurd ((beq_iff_eq.mp heq).symm.trans hother) hentry
        · rfl
      · rfl

end DualInit
