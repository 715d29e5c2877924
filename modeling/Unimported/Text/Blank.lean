/-
Blank characters: the Unicode property `White_Space`, which is what separates a keyword from
what follows it in an import or export signature.

The table lists the property's twenty-five characters as closed ranges. They are more than blank,
tab and the two line ends, which the core library calls whitespace.
-/

set_option autoImplicit false

namespace Unimported.Text

/-- The closed ranges of code points with the property `White_Space`. -/
def blankRanges : List (Nat × Nat) :=
  [(0x09, 0x0D), (0x20, 0x20), (0x85, 0x85), (0xA0, 0xA0), (0x1680, 0x1680), (0x2000, 0x200A),
   (0x2028, 0x2029), (0x202F, 0x202F), (0x205F, 0x205F), (0x3000, 0x3000)]

/-- Whether `c` has the property `White_Space`. -/
def isBlank (c : Char) : Bool :=
  blankRanges.any fun r => r.1 ≤ c.toNat && c.toNat ≤ r.2

/-- The property has twenty-five members. -/
example : (blankRanges.map fun r => r.2 + 1 - r.1).sum = 25 := by decide

end Unimported.Text
