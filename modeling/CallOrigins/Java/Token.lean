/-!
# Tokens of a Java source

A token keeps the text it was read from, its byte offset in the source, and the *gap* before
it: the blanks and comments between the previous token and this one. Nothing of a source is
lost in its tokens: gaps and texts, one after the other, are the source up to its last token.

Where a source does not follow the grammar, a gap may also hold text that was passed over, and a
token that is missing in the source has no text.
-/

namespace CallOrigins.Java

/-- A piece of the source that counts, with the gap before it. -/
structure Token where
  gap : String
  text : String
  start : Nat
  /-- Was anything but blanks and comments passed over in the gap? -/
  stray : Bool
  deriving DecidableEq, Repr

namespace Token

/-- The byte offset after the token's last character. -/
def stop (t : Token) : Nat :=
  t.start + t.text.utf8ByteSize

/-- A token that should stand at an offset and does not. -/
def missing (offset : Nat) : Token :=
  ⟨"", "", offset, false⟩

end Token
end CallOrigins.Java
