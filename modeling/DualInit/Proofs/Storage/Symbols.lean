import DualInit.Proofs.Storage.Requests

/-!
# Opening with symbols

An assembly is stored without its symbols and opened with or without them.  Either way it is, but
for symbols, the stored one (`withoutSymbols_of_read_ok`).  `withSymbols_ok` says when it can be
opened with them: the first section has symbols, and no section has them in another format.
-/

namespace DualInit

namespace Store

variable {path : Path} {i : Image} {format : SymbolFormat} {a : Assembly}

/-- Symbols of one format are in line with it; symbols beyond the sections do not count. -/
theorem formatMismatch?_eq_none (sections : List Section) (tables : List (Option SymbolTable)) :
    formatMismatch? format sections tables = none ↔
      ∀ table, some table ∈ tables.take sections.length → table.format = format := by
  induction sections generalizing tables with
  | nil =>
    cases tables with
    | nil => simp [formatMismatch?]
    | cons table tables => cases table <;> simp [formatMismatch?]
  | cons s sections ih =>
    cases tables with
    | nil => simp [formatMismatch?]
    | cons table tables =>
      cases table with
      | none => simp [formatMismatch?, ih]
      | some table =>
        rw [formatMismatch?]
        split
        · next heq => simp [ih, heq]
        · next hne => simp [hne]

theorem withoutSymbols_attachSymbols (sections : List Section)
    (tables : List (Option SymbolTable)) :
    (attachSymbols sections tables).map Section.withoutSymbols =
      sections.map Section.withoutSymbols := by
  induction sections generalizing tables with
  | nil => cases tables <;> rfl
  | cons s sections ih =>
    cases tables with
    | nil => rfl
    | cons table tables =>
      have htail := congrArg (s.withoutSymbols :: ·) (ih tables)
      cases table with
      | none => exact htail
      | some table => exact htail

/-- An assembly can be opened with symbols in a format exactly if its first section has symbols and
no section has them in another format. -/
theorem withSymbols_ok :
    (withSymbols path i format).1 = .ok a ↔
      (∃ table, i.symbols.head? = some (some table)) ∧
        (∀ table, some table ∈ i.symbols.take i.assembly.sections.length →
          table.format = format) ∧
        a = { i.assembly with sections := attachSymbols i.assembly.sections i.symbols } := by
  rw [← formatMismatch?_eq_none]
  unfold withSymbols
  split
  · next table hhead =>
    cases hmismatch : formatMismatch? format i.assembly.sections i.symbols with
    | none => simp [hhead, eq_comm]
    | some found => simp
  · next hhead =>
    constructor
    · intro h
      exact absurd h (by simp)
    · rintro ⟨⟨table, htable⟩, -, -⟩
      exact absurd htable (hhead table)

/-- Opening answers the stored assembly, with symbols if they were asked for. -/
theorem read_ok {s : Store} {options : ReadOptions} :
    (s.read path options).1 = .ok a ↔ ∃ i, s.image? path = some i ∧ s.isLocked path = false ∧
      if options.readSymbols then (withSymbols path i options.symbolFormat).1 = .ok a
      else a = i.assembly := by
  unfold read
  cases hi : s.image? path with
  | none => simp
  | some i =>
    cases hlocked : s.isLocked path with
    | true => simp
    | false => cases options.readSymbols <;> simp [eq_comm]

/-- An assembly that is stored and not open can be opened, if the symbols that are asked for are
there. -/
theorem exists_read {s : Store} {options : ReadOptions} (hi : s.image? path = some i)
    (hlocked : s.isLocked path = false)
    (hsymbols : options.readSymbols = true → (∃ table, i.symbols.head? = some (some table)) ∧
      ∀ table, some table ∈ i.symbols.take i.assembly.sections.length →
        table.format = options.symbolFormat) :
    ∃ a, (s.read path options).1 = .ok a := by
  cases hread : options.readSymbols with
  | false =>
    refine ⟨i.assembly, read_ok.mpr ⟨i, hi, hlocked, ?_⟩⟩
    rw [hread]
    exact rfl
  | true =>
    obtain ⟨hhead, hformat⟩ := hsymbols hread
    have hopened : ∃ a, (withSymbols path i options.symbolFormat).1 = .ok a :=
      ⟨_, withSymbols_ok.mpr ⟨hhead, hformat, rfl⟩⟩
    obtain ⟨a, hopened⟩ := hopened
    refine ⟨a, read_ok.mpr ⟨i, hi, hlocked, ?_⟩⟩
    rw [if_pos hread]
    exact hopened

/-- What is opened is what is stored, but for symbols. -/
theorem withoutSymbols_of_read_ok {s : Store} {options : ReadOptions} (hi : s.image? path = some i)
    (h : (s.read path options).1 = .ok a) : a.withoutSymbols = i.assembly.withoutSymbols := by
  obtain ⟨j, hj, -, hread⟩ := read_ok.mp h
  obtain rfl := Option.some.inj (hi.symm.trans hj)
  split at hread
  · obtain ⟨-, -, rfl⟩ := withSymbols_ok.mp hread
    have hsections := withoutSymbols_attachSymbols i.assembly.sections i.symbols
    exact congrArg (Assembly.mk i.assembly.name) hsections
  · rw [hread]

end Store
end DualInit
