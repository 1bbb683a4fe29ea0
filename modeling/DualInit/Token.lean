import DualInit.Text.Hex

/-!
# Metadata tokens

Every row of the metadata tables is addressed by a token: one word whose high byte is the
number of a table and whose low 24 bits are the row, counted from 1.  The word itself is the
datum, because tokens are embedded in code bytes as they are; table and row are read from it.

`Token.ofParts` builds the token of a row.  A row number wider than 24 bits loses its upper
bits, so that the next row of a full table is row 0 again: `table_ofParts` and `row_ofParts`
say what can be read back.
-/

namespace DualInit

/-- A word naming a row of a metadata table. -/
structure Token where
  /-- The word as it is embedded in code. -/
  value : UInt32
deriving DecidableEq, Repr, Inhabited

namespace Token

/-! ## Tables -/

/-- Number of the table of types defined elsewhere. -/
@[match_pattern] abbrev typeRefTable : Nat := 0x01

/-- Number of the table of type definitions. -/
@[match_pattern] abbrev typeDefTable : Nat := 0x02

/-- Number of the table of method definitions. -/
@[match_pattern] abbrev methodDefTable : Nat := 0x06

/-- Number of the table of members defined elsewhere. -/
@[match_pattern] abbrev memberRefTable : Nat := 0x0A

/-- Number of the table of constructed types, such as generic instantiations. -/
@[match_pattern] abbrev typeSpecTable : Nat := 0x1B

/-- How many rows a token can tell apart: 24 bits of them. -/
def rowLimit : Nat := 0x1000000

/-! ## Reading and building tokens -/

/-- The table a token points into. -/
def table (t : Token) : Nat :=
  t.value.toNat / rowLimit

/-- The row a token points at, counted from 1. -/
def row (t : Token) : Nat :=
  t.value.toNat % rowLimit

/-- The token of a row; row numbers wider than 24 bits are cut to their low 24 bits. -/
def ofParts (table row : Nat) : Token :=
  ⟨UInt32.ofNat (table * rowLimit + row % rowLimit)⟩

/-- The token that names no row. -/
def null : Token :=
  ⟨0⟩

/-- Whether a token names no row of any table. -/
def isNull (t : Token) : Bool :=
  t == null

/-- Whether a token points into the table of method definitions. -/
def isMethodDef (t : Token) : Bool :=
  t.table == methodDefTable

/-- Whether a token points into the table of member references. -/
def isMemberRef (t : Token) : Bool :=
  t.table == memberRefTable

theorem row_lt (t : Token) : t.row < rowLimit :=
  Nat.mod_lt _ (by decide)

/-- A table that fits a byte and the low 24 bits of a row make up a word. -/
theorem toNat_value_ofParts {table : Nat} (row : Nat) (h : table < 256) :
    (ofParts table row).value.toNat = table * rowLimit + row % rowLimit := by
  have hr : row % rowLimit < rowLimit := Nat.mod_lt _ (by decide)
  have hw : table * rowLimit + row % rowLimit < 4294967296 := by
    simp only [rowLimit] at hr ⊢
    omega
  exact (UInt32.toNat_ofNat').trans (Nat.mod_eq_of_lt hw)

/-- The table read back is the one the token was built with, if it fits a byte. -/
theorem table_ofParts {table : Nat} (row : Nat) (h : table < 256) :
    (ofParts table row).table = table := by
  have hr : row % rowLimit < rowLimit := Nat.mod_lt _ (by decide)
  rw [Token.table, toNat_value_ofParts row h]
  simp only [rowLimit] at hr ⊢
  omega

/-- The row read back is the low 24 bits of the one the token was built with. -/
theorem row_ofParts {table : Nat} (row : Nat) (h : table < 256) :
    (ofParts table row).row = row % rowLimit := by
  have hr : row % rowLimit < rowLimit := Nat.mod_lt _ (by decide)
  rw [Token.row, toNat_value_ofParts row h]
  simp only [rowLimit] at hr ⊢
  omega

/-! ## Text -/

/-- A token is shown as its eight hexadecimal digits. -/
def text (t : Token) : String :=
  "0x" ++ Hex.lower 8 t.value.toNat

instance : ToString Token := ⟨text⟩

/-- A token shown with the table and the row it consists of. -/
def details (t : Token) : String :=
  "Token(" ++ t.text ++ ", table: 0x" ++ Hex.lower 2 t.table ++ ", row: " ++ toString t.row ++ ")"

end Token
end DualInit
