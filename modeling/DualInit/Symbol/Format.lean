import DualInit.Text.Blank

/-!
# Formats of debug symbols

Debug symbols come in two file formats.  A setting may name one of them in any mixture of small
and capital letters and with blanks around it; a setting that is missing or blank stands for
the format native to the host, which is the first of the two.
-/

namespace DualInit

/-- A file format of debug symbols. -/
inductive SymbolFormat where
  /-- Symbol files with the extension `mdb`. -/
  | mdb
  /-- Program databases, with the extension `pdb`. -/
  | pdb
deriving DecidableEq, Repr, Inhabited

namespace SymbolFormat

/-- The name of a format, which is also the extension of its files. -/
def name : SymbolFormat → String
  | mdb => "mdb"
  | pdb => "pdb"

instance : ToString SymbolFormat := ⟨name⟩

/-- Every format. -/
def all : List SymbolFormat := [mdb, pdb]

/-- The format native to the host. -/
def hostDefault : SymbolFormat := mdb

/-- The format of a given name, whatever the case of its ASCII letters. -/
def ofName? (text : String) : Option SymbolFormat :=
  all.find? fun format => text.toList.map Char.toLower == format.name.toList

/-- Each format is found under its own name. -/
theorem ofName?_name (format : SymbolFormat) : ofName? format.name = some format := by
  cases format <;> decide

end SymbolFormat
end DualInit
