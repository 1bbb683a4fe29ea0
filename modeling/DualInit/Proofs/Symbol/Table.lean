import DualInit.Metadata.Section
import Mathlib.Data.List.Nodup

/-!
# What symbol tables record

A table is changed in two ways: the symbols of methods are hidden, and the table is brought in line
with the methods that there are.  `SymbolTable.get?_hideAll` and `SymbolTable.get?_refreshed` say
what is recorded for a method afterwards, and `liveName?_of_mem` that a method whose token no other
method has is recorded under its own name.
-/

namespace DualInit

/-! ## Hiding -/

/-- Hidden symbols have nothing left to hide. -/
theorem MethodSymbols.hide_hide (symbols : MethodSymbols) : symbols.hide.hide = symbols.hide := by
  obtain ⟨name, points⟩ := symbols
  cases points <;> rfl

namespace SymbolTable

/-- The symbols when those of some methods are hidden. -/
def hideAll (methods : List Token) (table : SymbolTable) : SymbolTable :=
  methods.foldl (fun table method => table.hideMethod method) table

theorem hideAll_append (methods methods' : List Token) (table : SymbolTable) :
    table.hideAll (methods ++ methods') = (table.hideAll methods).hideAll methods' :=
  List.foldl_append ..

theorem get?_hideMethod (table : SymbolTable) (method token : Token) :
    (table.hideMethod method).get? token =
      if token = method then (table.get? token).map (·.hide) else table.get? token :=
  TokenMap.get?_adjust method token MethodSymbols.hide table.methods

/-- What is recorded for a method when the symbols of some methods are hidden, each of them once
or several times. -/
theorem get?_hideAll (methods : List Token) (table : SymbolTable) (token : Token) :
    (table.hideAll methods).get? token =
      if token ∈ methods then (table.get? token).map (·.hide) else table.get? token := by
  induction methods generalizing table with
  | nil => rfl
  | cons method methods ih =>
    rw [hideAll, List.foldl_cons, ← hideAll, ih, get?_hideMethod]
    have hhide : MethodSymbols.hide ∘ MethodSymbols.hide = .hide := funext MethodSymbols.hide_hide
    by_cases hmethod : token = method
    · rw [if_pos hmethod, if_pos (List.mem_cons.mpr (Or.inl hmethod)), Option.map_map, hhide,
        ite_self]
    · simp only [List.mem_cons, hmethod, if_false, false_or]

/-! ## Refreshing -/

/-- What is recorded for a method when a table is brought in line: what was, under the listed name,
if the method is listed. -/
theorem get?_refreshed (live : List (Token × String)) (table : SymbolTable) (token : Token) :
    (table.refreshed live).get? token = (table.get? token).bind fun symbols =>
      (liveName? live token).map fun name => { symbols with name } :=
  TokenMap.get?_filterMap _ table.methods token

/-- A method is listed exactly if it has a name in the list. -/
theorem liveName?_eq_none {live : List (Token × String)} {token : Token} :
    liveName? live token = none ↔ token ∉ live.map (·.1) := by
  rw [liveName?, List.lookup_eq_none_iff]
  simp only [List.mem_reverse, List.mem_map, not_exists, not_and, bne_iff_ne, ne_eq]
  exact forall₂_congr fun _ _ => not_congr eq_comm

/-- Where nothing is listed twice, a method is found under its name. -/
theorem liveName?_of_nodup {live : List (Token × String)} {token : Token} {name : String}
    (hdistinct : (live.map (·.1)).Nodup) (hmem : (token, name) ∈ live) :
    liveName? live token = some name := by
  have hreverse : (live.reverse.map Prod.fst).Nodup := by
    rw [List.map_reverse, List.nodup_reverse]
    exact hdistinct
  exact (lookup_eq_some_iff_mem hreverse).mpr (List.mem_reverse.mpr hmem)

end SymbolTable

/-! ## Sections -/

namespace Section

variable {s : Section}

theorem map_fst_liveMethods (s : Section) :
    s.liveMethods.map (·.1) = s.methods.map (·.token) := by
  rw [liveMethods, List.map_map]
  rfl

/-- A method that no other one shares its token with is listed under its name. -/
theorem liveName?_of_mem {m : MethodDef} (hdistinct : (s.methods.map (·.token)).Nodup)
    (hm : m ∈ s.methods) : SymbolTable.liveName? s.liveMethods m.token = some m.name := by
  refine SymbolTable.liveName?_of_nodup ?_ (List.mem_map.mpr ⟨m, hm, rfl⟩)
  rw [map_fst_liveMethods]
  exact hdistinct

/-- Bringing the symbols up to date brings the table in line with the methods. -/
theorem symbols_refreshSymbols (s : Section) :
    s.refreshSymbols.2.symbols = s.symbols.map (·.refreshed s.liveMethods) := by
  rw [refreshSymbols]
  cases hsymbols : s.symbols with
  | none => rw [hsymbols]; rfl
  | some table => rfl

theorem withoutSymbols_refreshSymbols (s : Section) :
    s.refreshSymbols.2.withoutSymbols = s.withoutSymbols := by
  rw [refreshSymbols]
  cases s.symbols <;> rfl

end Section
end DualInit
