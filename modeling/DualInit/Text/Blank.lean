/-!
# Blank characters

The blanks that are trimmed from a setting are the characters with the Unicode property
`White_Space`: the ASCII blanks, the next-line and no-break spaces, the typographic spaces and
the line and paragraph separators.
-/

namespace DualInit
namespace Blank

/-- Code points of the characters with the property `White_Space`, in ascending order. -/
def codePoints : List Nat :=
  [0x09, 0x0A, 0x0B, 0x0C, 0x0D, 0x20, 0x85, 0xA0, 0x1680, 0x2000, 0x2001, 0x2002, 0x2003, 0x2004,
    0x2005, 0x2006, 0x2007, 0x2008, 0x2009, 0x200A, 0x2028, 0x2029, 0x202F, 0x205F, 0x3000]

/-- Whether a character is blank. -/
def isBlank (c : Char) : Bool :=
  codePoints.contains c.toNat

/-- A text without the blanks in front of and behind it. -/
def trim (s : String) : String :=
  String.ofList
    (((s.toList.dropWhile isBlank).reverse.dropWhile isBlank).reverse)

end Blank
end DualInit
