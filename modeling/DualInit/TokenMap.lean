import DualInit.Entries
import DualInit.Token

/-!
# Maps from tokens

A map that lists its entries in ascending order of their tokens, each token once.  The order is
part of the type, so a map is listed in one way only, however it came about.  `get?` is the view
through which the operations are described: `get?_insert`, `get?_filterMap` and `get?_adjust`
say what stands under each token afterwards.  Whether several changes in a row come to the same is
seen from any one entry (`filterMap_idem`, `filterMap_comm`).
-/

namespace DualInit

/-- A finite map whose keys are tokens. -/
structure TokenMap (α : Type) where
  /-- The entries. -/
  entries : List (Token × α)
  /-- Tokens ascend, so none is listed twice. -/
  ascending : entries.Pairwise fun a b => a.1.value.toNat < b.1.value.toNat
deriving DecidableEq, Repr

namespace TokenMap

variable {α : Type}

/-- The map without entries. -/
def empty : TokenMap α :=
  ⟨[], .nil⟩

instance : Inhabited (TokenMap α) := ⟨empty⟩

/-- The value under a token. -/
def get? (m : TokenMap α) (t : Token) : Option α :=
  m.entries.lookup t

/-! ## Inserting -/

/-- Inserts into entries in ascending order; an entry with the same token is replaced. -/
def insertInto (t : Token) (a : α) : List (Token × α) → List (Token × α)
  | [] => [(t, a)]
  | (u, b) :: rest =>
    if t = u then (t, a) :: rest
    else if t.value.toNat < u.value.toNat then (t, a) :: (u, b) :: rest
    else (u, b) :: insertInto t a rest

theorem mem_insertInto {t : Token} {a : α} {x : Token × α} {entries : List (Token × α)}
    (h : x ∈ insertInto t a entries) : x = (t, a) ∨ x ∈ entries := by
  induction entries with
  | nil => exact Or.inl (List.mem_singleton.mp h)
  | cons e rest ih =>
    obtain ⟨u, b⟩ := e
    unfold insertInto at h
    split at h
    · rcases List.mem_cons.mp h with h | h
      · exact Or.inl h
      · exact Or.inr (List.mem_cons_of_mem _ h)
    · split at h
      · exact List.mem_cons.mp h
      · rcases List.mem_cons.mp h with h | h
        · exact Or.inr (h ▸ List.mem_cons_self)
        · exact (ih h).imp_right (List.mem_cons_of_mem _)

theorem value_ne_of_ne {t u : Token} (h : t ≠ u) : t.value.toNat ≠ u.value.toNat := by
  intro heq
  apply h
  cases t
  cases u
  exact congrArg _ (UInt32.toNat_inj.mp heq)

theorem ascending_insertInto (t : Token) (a : α) {entries : List (Token × α)}
    (h : entries.Pairwise fun a b => a.1.value.toNat < b.1.value.toNat) :
    (insertInto t a entries).Pairwise fun a b => a.1.value.toNat < b.1.value.toNat := by
  induction entries with
  | nil => exact List.pairwise_singleton ..
  | cons e rest ih =>
    obtain ⟨u, b⟩ := e
    have ⟨hhead, hrest⟩ := List.pairwise_cons.mp h
    unfold insertInto
    split
    · next heq => exact List.pairwise_cons.mpr ⟨fun x hx => heq ▸ hhead x hx, hrest⟩
    · next hne =>
      split
      · next hlt =>
        refine List.pairwise_cons.mpr ⟨fun x hx => ?_, h⟩
        rcases List.mem_cons.mp hx with rfl | hx
        · exact hlt
        · exact Nat.lt_trans hlt (hhead x hx)
      · next hge =>
        refine List.pairwise_cons.mpr ⟨fun x hx => ?_, ih hrest⟩
        rcases mem_insertInto hx with rfl | hx
        · have := value_ne_of_ne hne
          show u.value.toNat < t.value.toNat
          omega
        · exact hhead x hx

/-- The map with one more entry, in the place of an entry with the same token. -/
def insert (t : Token) (a : α) (m : TokenMap α) : TokenMap α :=
  ⟨insertInto t a m.entries, ascending_insertInto t a m.ascending⟩

/-- The map of a list of entries; of entries with the same token the last one counts. -/
def ofList (entries : List (Token × α)) : TokenMap α :=
  entries.foldl (fun m e => m.insert e.1 e.2) empty

/-! ## Changing and dropping entries -/

/-- Changes or drops each entry. -/
def filterMap (f : Token → α → Option α) (m : TokenMap α) : TokenMap α where
  entries := m.entries.filterMap fun e => (f e.1 e.2).map (e.1, ·)
  ascending := by
    refine List.Pairwise.filterMap _ (fun a b hab x hx y hy => ?_) m.ascending
    obtain ⟨_, _, rfl⟩ := Option.map_eq_some_iff.mp hx
    obtain ⟨_, _, rfl⟩ := Option.map_eq_some_iff.mp hy
    exact hab

/-- Changes the value under a token, if there is one. -/
def adjust (t : Token) (f : α → α) (m : TokenMap α) : TokenMap α :=
  m.filterMap fun u a => some (if u = t then f a else a)

/-! ## Looking up -/

@[simp] theorem get?_empty (t : Token) : (empty : TokenMap α).get? t = none := rfl

/-- No token has two entries. -/
theorem nodup_tokens (m : TokenMap α) : (m.entries.map Prod.fst).Nodup := by
  refine List.pairwise_map.mpr (m.ascending.imp fun hlt heq => ?_)
  rw [heq] at hlt
  exact Nat.lt_irrefl _ hlt

/-- What stands under a token is listed as its entry. -/
theorem get?_eq_some {m : TokenMap α} {t : Token} {a : α} :
    m.get? t = some a ↔ (t, a) ∈ m.entries :=
  lookup_eq_some_iff_mem m.nodup_tokens

/-- What stands under a token after inserting. -/
theorem get?_insert (t u : Token) (a : α) (m : TokenMap α) :
    (m.insert t a).get? u = if u = t then some a else m.get? u := by
  obtain ⟨entries, hasc⟩ := m
  show (insertInto t a entries).lookup u = if u = t then some a else entries.lookup u
  clear hasc
  induction entries with
  | nil =>
    by_cases h : u = t
    · simp [insertInto, h]
    · simp [insertInto, List.lookup_cons, h, beq_false_of_ne h]
  | cons e rest ih =>
    obtain ⟨v, b⟩ := e
    unfold insertInto
    split
    · next heq =>
      subst heq
      by_cases h : u = t
      · simp [h]
      · simp [List.lookup_cons, h, beq_false_of_ne h]
    · next hne =>
      split
      · by_cases h : u = t
        · simp [h]
        · simp [List.lookup_cons, h, beq_false_of_ne h]
      · rw [List.lookup_cons, List.lookup_cons, ih]
        by_cases h : u = t
        · subst h
          simp [beq_false_of_ne hne]
        · simp [h]

/-- What stands under a token after changing and dropping entries. -/
theorem get?_filterMap (f : Token → α → Option α) (m : TokenMap α) (t : Token) :
    (m.filterMap f).get? t = (m.get? t).bind (f t) := by
  obtain ⟨entries, hasc⟩ := m
  show (entries.filterMap fun e => (f e.1 e.2).map (e.1, ·)).lookup t
    = (entries.lookup t).bind (f t)
  induction entries with
  | nil => rfl
  | cons e rest ih =>
    obtain ⟨u, b⟩ := e
    have ⟨hhead, hrest⟩ := List.pairwise_cons.mp hasc
    by_cases h : t = u
    · subst h
      have hnone : (rest.filterMap fun e => (f e.1 e.2).map (e.1, ·)).lookup t = none := by
        refine List.lookup_eq_none_iff.mpr fun e he => bne_iff_ne.mpr fun heq => ?_
        obtain ⟨x, hx, hxe⟩ := List.mem_filterMap.mp he
        obtain ⟨_, _, rfl⟩ := Option.map_eq_some_iff.mp hxe
        have := hhead x hx
        rw [← show t = x.1 from heq] at this
        exact Nat.lt_irrefl _ this
      cases hf : f t b with
      | none => simpa [List.filterMap_cons, hf, List.lookup_cons] using hnone
      | some c => simp [hf]
    · have hne : (t == u) = false := beq_false_of_ne h
      cases hf : f u b with
      | none => simpa [List.filterMap_cons, hf, List.lookup_cons, hne] using ih hrest
      | some c => simpa [List.filterMap_cons, hf, List.lookup_cons, hne] using ih hrest

/-- What stands under a token after changing one value. -/
theorem get?_adjust (t u : Token) (f : α → α) (m : TokenMap α) :
    (m.adjust t f).get? u = if u = t then (m.get? u).map f else m.get? u := by
  rw [adjust, get?_filterMap]
  by_cases h : u = t
  · simp only [h, if_true]
    cases m.get? t <;> rfl
  · simp only [h, if_false]
    cases m.get? u <;> rfl

/-! ## Several changes -/

/-- A map is its list of entries. -/
theorem eq_of_entries {m n : TokenMap α} (h : m.entries = n.entries) : m = n := by
  cases m
  cases n
  exact (TokenMap.mk.injEq ..).mpr h

/-- Two changes of all entries in a row are one. -/
theorem filterMap_filterMap (f g : Token → α → Option α) (m : TokenMap α) :
    (m.filterMap f).filterMap g = m.filterMap fun t a => (f t a).bind (g t) := by
  have hone : (fun e : Token × α => ((f e.1 e.2).map (e.1, ·)).bind fun e =>
      (g e.1 e.2).map (e.1, ·)) = fun e => ((f e.1 e.2).bind (g e.1)).map (e.1, ·) := by
    funext e
    cases f e.1 e.2 <;> rfl
  apply eq_of_entries
  show List.filterMap _ (List.filterMap _ m.entries) = List.filterMap _ m.entries
  rw [List.filterMap_filterMap, hone]

/-- A change is the same as doing it twice if it is so for each entry. -/
theorem filterMap_idem {f : Token → α → Option α} (h : ∀ t a, (f t a).bind (f t) = f t a)
    (m : TokenMap α) : (m.filterMap f).filterMap f = m.filterMap f := by
  rw [filterMap_filterMap]
  exact congrArg m.filterMap (funext fun t => funext (h t))

/-- It does not matter which of two changes is done first if it does not for any entry. -/
theorem filterMap_comm {f g : Token → α → Option α}
    (h : ∀ t a, (f t a).bind (g t) = (g t a).bind (f t)) (m : TokenMap α) :
    (m.filterMap f).filterMap g = (m.filterMap g).filterMap f := by
  rw [filterMap_filterMap, filterMap_filterMap]
  exact congrArg m.filterMap (funext fun t => funext (h t))

/-- Changing one value keeps the tokens and their order. -/
theorem entries_adjust (t : Token) (f : α → α) (m : TokenMap α) :
    (m.adjust t f).entries = m.entries.map fun e => (e.1, if e.1 = t then f e.2 else e.2) :=
  congrFun List.filterMap_eq_map m.entries

end TokenMap
end DualInit
