import DualInit.Proofs.Endings
import DualInit.Proofs.Symbol.Table
import DualInit.Symbol.Refresh

/-!
# Laws of refreshing and hiding

Refreshing and hiding both change a table entry by entry, and what becomes of an entry depends on
nothing but the entry.  So each law that says that two ways of changing a table come to the same
needs no more than a look at one entry (`TokenMap.filterMap_idem`, `TokenMap.filterMap_comm`): a
second refresh changes nothing, nor does hiding a second time, and it does not matter which of the
two is done first.

What refreshing counts can be told from the table before and the table after:
`SymbolTable.difference` counts the methods that are missing in the second one and those that have
another name there.  That a second refresh counts nothing, and that hiding does not change what is
counted, follows from this alone (`changes_eq_difference`).
-/

namespace DualInit

/-- A name is the last one that a list gives to a method. -/
def LastListed (live : List (Token × String)) (method : Token) (name : String) : Prop :=
  ∃ front back, live = front ++ (method, name) :: back ∧ method ∉ back.map (·.1)

namespace SymbolTable

variable {live : List (Token × String)} {method : Token} {name : String}

/-- How another table differs from a table: how many of its methods the other one records under
other names, and how many it does not record. -/
def difference (t t' : SymbolTable) : SymbolRefresh where
  renamed := t.methods.entries.countP fun e =>
    (t'.get? e.1).any fun symbols => symbols.name != e.2.name
  dropped := t.methods.entries.countP fun e => (t'.get? e.1).isNone

/-! ## One entry -/

theorem liveName?_eq_some : liveName? live method = some name ↔ LastListed live method name := by
  rw [liveName?, List.lookup_eq_some_iff]
  constructor
  · rintro ⟨later, earlier, hlive, hlater⟩
    refine ⟨earlier.reverse, later.reverse, ?_, fun hmem => ?_⟩
    · rw [← List.reverse_reverse live, hlive]
      simp
    · obtain ⟨e, he, rfl⟩ := List.mem_map.mp hmem
      exact bne_iff_ne.mp (hlater e (List.mem_reverse.mp he)) rfl
  · rintro ⟨front, back, rfl, hback⟩
    refine ⟨back.reverse, front.reverse, by simp, fun e he => bne_iff_ne.mpr ?_⟩
    rintro rfl
    exact hback (List.mem_map_of_mem (List.mem_reverse.mp he))

/-- What is recorded for a method when a table was brought in line: what was, under the last name
listed for it. -/
theorem get?_refreshed_eq_some {t : SymbolTable} {symbols' : MethodSymbols} :
    (t.refreshed live).get? method = some symbols' ↔ ∃ symbols name,
      t.get? method = some symbols ∧ LastListed live method name ∧
        symbols' = { symbols with name } := by
  simp only [get?_refreshed, Option.bind_eq_some_iff, Option.map_eq_some_iff, liveName?_eq_some]
  constructor
  · rintro ⟨symbols, hsymbols, name, hname, rfl⟩
    exact ⟨symbols, name, hsymbols, hname, rfl⟩
  · rintro ⟨symbols, name, hsymbols, hname, rfl⟩
    exact ⟨symbols, hsymbols, name, hname, rfl⟩

/-- A method has a name in a list exactly if it is listed. -/
theorem isSome_liveName? : (liveName? live method).isSome ↔ method ∈ live.map (·.1) := by
  rw [Option.isSome_iff_ne_none, ne_eq, liveName?_eq_none, not_not]

theorem isSome_get?_refreshed (t : SymbolTable) : ((t.refreshed live).get? method).isSome ↔
    (t.get? method).isSome ∧ method ∈ live.map (·.1) := by
  rw [get?_refreshed, ← isSome_liveName?]
  cases t.get? method <;> simp

/-! ## All entries -/

@[simp] theorem refreshed_refreshed (live : List (Token × String)) (t : SymbolTable) :
    (t.refreshed live).refreshed live = t.refreshed live := by
  refine congrArg (SymbolTable.mk t.format) (TokenMap.filterMap_idem (fun token symbols => ?_) _)
  cases liveName? live token <;> rfl

@[simp] theorem hideMethod_hideMethod (method : Token) (t : SymbolTable) :
    (t.hideMethod method).hideMethod method = t.hideMethod method := by
  refine congrArg (SymbolTable.mk t.format) (TokenMap.filterMap_idem (fun token symbols => ?_) _)
  show some _ = some _
  by_cases htoken : token = method
  · simp only [htoken, if_true, MethodSymbols.hide_hide]
  · simp only [htoken, if_false]

/-- Hiding leaves the names alone, and refreshing the points. -/
theorem refreshed_hideMethod (live : List (Token × String)) (method : Token) (t : SymbolTable) :
    (t.hideMethod method).refreshed live = (t.refreshed live).hideMethod method := by
  have hentry (token : Token) (symbols : MethodSymbols) :
      (some (if token = method then symbols.hide else symbols)).bind (fun symbols =>
          (liveName? live token).map fun name => { symbols with name }) =
        ((liveName? live token).map fun name => { symbols with name }).bind fun symbols =>
          some (if token = method then symbols.hide else symbols) := by
    cases liveName? live token with
    | none => rfl
    | some name =>
      show some _ = some _
      split <;> rfl
  exact congrArg (SymbolTable.mk t.format) (TokenMap.filterMap_comm hentry t.methods)

/-! ## What is counted -/

theorem get?_of_mem {t : SymbolTable} {e : Token × MethodSymbols} (he : e ∈ t.methods.entries) :
    t.get? e.1 = some e.2 :=
  TokenMap.get?_eq_some.mpr he

theorem difference_self (t : SymbolTable) : t.difference t = ⟨0, 0⟩ := by
  refine congrArg₂ SymbolRefresh.mk ?_ ?_
  · refine List.countP_eq_zero.mpr fun e he => ?_
    simp [get?_of_mem he]
  · refine List.countP_eq_zero.mpr fun e he => ?_
    simp [get?_of_mem he]

/-- Hiding takes away no method and changes no name. -/
theorem difference_hideMethod (method : Token) (t t' : SymbolTable) :
    (t.hideMethod method).difference (t'.hideMethod method) = t.difference t' := by
  have hentries : (t.hideMethod method).methods.entries =
      t.methods.entries.map fun e => (e.1, if e.1 = method then e.2.hide else e.2) :=
    TokenMap.entries_adjust ..
  have hname (token : Token) (symbols : MethodSymbols) :
      (if token = method then symbols.hide else symbols).name = symbols.name := by
    split <;> rfl
  have hget (token : Token) : (t'.hideMethod method).get? token =
      (t'.get? token).map fun symbols => if token = method then symbols.hide else symbols := by
    rw [get?_hideMethod]
    split
    · rfl
    · exact Option.map_id'.symm
  simp only [difference, hentries, List.countP_map, Function.comp_def, hget, hname, Option.any_map,
    Option.isNone_map]

/-- Refreshing counts what it changes. -/
theorem changes_eq_difference (live : List (Token × String)) (t : SymbolTable) :
    t.changes live = t.difference (t.refreshed live) := by
  have hget {e : Token × MethodSymbols} (he : e ∈ t.methods.entries) :
      (t.refreshed live).get? e.1 =
        (liveName? live e.1).map fun name => { e.2 with name } := by
    rw [get?_refreshed, get?_of_mem he]
    rfl
  refine congrArg₂ SymbolRefresh.mk ?_ ?_
  · rw [renamings, List.length_filterMap_eq_countP]
    refine List.countP_congr fun e he => ?_
    rw [hget he]
    cases hlive : liveName? live e.1 with
    | none => simp [hlive]
    | some name =>
      by_cases hname : e.2.name = name
      · simp [hlive, hname]
      · simp [hlive, hname, Ne.symm hname]
  · refine List.countP_congr fun e he => ?_
    rw [hget he, Option.isNone_map]

theorem refresh_refresh (live : List (Token × String)) (t : SymbolTable) :
    (t.refresh live).1.refresh live = ((t.refresh live).1, ⟨0, 0⟩) := by
  have hsame := refreshed_refreshed live t
  refine Prod.ext hsame ?_
  show (t.refreshed live).changes live = _
  rw [changes_eq_difference, hsame, difference_self]

/-- It does not matter for a table, nor for what is counted, whether a method is hidden before or
after. -/
theorem refresh_hideMethod (live : List (Token × String)) (method : Token) (t : SymbolTable) :
    (t.hideMethod method).refresh live =
      ((t.refresh live).1.hideMethod method, (t.refresh live).2) := by
  have hcomm := refreshed_hideMethod live method t
  refine Prod.ext hcomm ?_
  show (t.hideMethod method).changes live = t.changes live
  rw [changes_eq_difference, hcomm, difference_hideMethod, ← changes_eq_difference]

/-- The edit that tells about each new name changes the table, and counts, in the same way. -/
theorem ends_bringUpToDate (live : List (Token × String)) (t : SymbolTable) :
    (bringUpToDate live).Ends t (.ok (t.refresh live).2) (t.refresh live).1 :=
  ⟨rfl, rfl⟩

/-- **The laws of symbol tables.**  Refreshing keeps exactly what is recorded for listed methods,
under the last name listed for each, with its points; it counts the methods that the table loses and
those that it has under another name afterwards; and doing it again changes and counts nothing.
Hiding a method gives the same table and the same counts before as after it; hiding it twice is
hiding it once; and what is recorded for another method stays as it is. -/
theorem refresh_and_hide_laws (t : SymbolTable) (live : List (Token × String)) :
    (∀ token, ((t.refresh live).1.get? token).isSome ↔
      (t.get? token).isSome ∧ token ∈ live.map (·.1)) ∧
    (∀ token symbols', (t.refresh live).1.get? token = some symbols' ↔ ∃ symbols name,
      t.get? token = some symbols ∧ LastListed live token name ∧
        symbols' = ⟨name, symbols.points⟩) ∧
    (t.refresh live).2 = t.difference (t.refresh live).1 ∧
    (t.refresh live).1.refresh live = ((t.refresh live).1, ⟨0, 0⟩) ∧
    ∀ method,
      (t.hideMethod method).refresh live =
        ((t.refresh live).1.hideMethod method, (t.refresh live).2) ∧
      (t.hideMethod method).hideMethod method = t.hideMethod method ∧
      ∀ other, (t.hideMethod method).get? other =
        if other = method then (t.get? other).map (·.hide) else t.get? other := by
  refine ⟨fun _ => isSome_get?_refreshed t, fun _ _ => get?_refreshed_eq_some,
    changes_eq_difference live t, refresh_refresh live t, fun method => ⟨?_, ?_, ?_⟩⟩
  · exact refresh_hideMethod live method t
  · exact hideMethod_hideMethod method t
  · exact get?_hideMethod t method

/-- Of two names listed for a method the last one is the one that is recorded already. -/
example : (⟨.mdb, .ofList [(⟨0x06000001⟩, ⟨"Kept", []⟩), (⟨0x06000002⟩, ⟨"Gone", []⟩)]⟩ :
      SymbolTable).refresh [(⟨0x06000001⟩, "Other"), (⟨0x06000001⟩, "Kept")] =
    (⟨.mdb, .ofList [(⟨0x06000001⟩, ⟨"Kept", []⟩)]⟩, ⟨0, 1⟩) := by
  decide

end SymbolTable
end DualInit
