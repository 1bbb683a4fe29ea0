import DualInit.Edit
import DualInit.Metadata.Section

/-!
# Bringing symbols up to date, step by step

The same changes as those of `SymbolTable.refresh` and `Section.refreshSymbols`, as edits that
tell of every method whose symbols get another name, in the order of the tokens.
-/

namespace DualInit

/-- Brings a table in line with the listed methods. -/
def SymbolTable.bringUpToDate (live : List (Token × String)) : Edit SymbolTable SymbolRefresh := do
  let table ← Edit.current
  Edit.tellAll ((table.renamings live).map fun (method, name) => .symbolsRenamed method name)
  Edit.replace (table.refreshed live)
  return table.changes live

/-- Brings the symbols of a section, if it has any, in line with its methods. -/
def Section.bringSymbolsUpToDate : Edit Section (Option SymbolRefresh) := do
  let s ← Edit.current
  Edit.tellAll (s.symbolRenamings.map fun (method, name) => .symbolsRenamed method name)
  Edit.replace s.refreshSymbols.2
  return s.refreshSymbols.1

end DualInit
