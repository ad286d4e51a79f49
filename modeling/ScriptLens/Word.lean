/-!
Numbers in machine words. A sum or a product that does not fit its word stops the program.
-/

namespace ScriptLens

/-- A number in a word with so many values; none where the word is too small for it. -/
def word? (size n : Nat) : Option Nat := if n < size then some n else none

theorem word?_of_lt {size n : Nat} (fits : n < size) : word? size n = some n := if_pos fits

theorem word?_of_le {size n : Nat} (large : size ≤ n) : word? size n = none :=
  if_neg (Nat.not_lt_of_le large)

/-- A number that fits a word of 32 bits is not cut to it. -/
theorem toNat_toUInt32 {n : Nat} (small : n < UInt32.size) : n.toUInt32.toNat = n :=
  UInt32.toNat_ofNat_of_lt' small

end ScriptLens
