/-!
# Machine words

Numbers that are kept in a machine word are smaller than `wordCount`, and adding goes round
there. Lines are counted in words of half the length.
-/

namespace CallOrigins

/-- The number of machine words of 64 bits. -/
def wordCount : Nat := 0x10000000000000000

/-- The number of machine words of 32 bits. -/
def halfWordCount : Nat := 0x100000000

end CallOrigins
