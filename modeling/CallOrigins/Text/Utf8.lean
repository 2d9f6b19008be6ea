/-!
# UTF-8

Decoding of bytes into characters. Bytes that are no UTF-8 are cut into the longest pieces that
could still have become a character, and each such piece counts as one *fault*. A strict reading
refuses a text with a fault; a lossy one puts U+FFFD in its place.
-/

namespace CallOrigins.Text.Utf8

/-- What must follow a first byte above the ASCII bytes: the bounds of the second byte, and the
number of bytes after that one. -/
structure Follow where
  low : Nat
  high : Nat
  further : Nat
  deriving DecidableEq, Repr

/-- What follows a first byte; `none` for a byte with which no character starts. -/
def follow? (b : Nat) : Option Follow :=
  if 0xC2 ≤ b && b ≤ 0xDF then some ⟨0x80, 0xBF, 0⟩
  else if b == 0xE0 then some ⟨0xA0, 0xBF, 1⟩
  else if b == 0xED then some ⟨0x80, 0x9F, 1⟩
  else if 0xE1 ≤ b && b ≤ 0xEF then some ⟨0x80, 0xBF, 1⟩
  else if b == 0xF0 then some ⟨0x90, 0xBF, 2⟩
  else if 0xF1 ≤ b && b ≤ 0xF3 then some ⟨0x80, 0xBF, 2⟩
  else if b == 0xF4 then some ⟨0x80, 0x8F, 2⟩
  else none

/-- Is a byte between two bounds? -/
def within (low high : Nat) (b : UInt8) : Bool :=
  low ≤ b.toNat && b.toNat ≤ high

/-- Can a byte stand in third or fourth place? -/
def isTail (b : UInt8) : Bool :=
  within 0x80 0xBF b

/-- The six bits of a byte that is not the first one. -/
def bits (b : UInt8) : Nat :=
  b.toNat % 64

/-- The character of two bytes. -/
def char2 (a b : UInt8) : Char :=
  Char.ofNat (a.toNat % 32 * 64 + bits b)

/-- The character of three bytes. -/
def char3 (a b c : UInt8) : Char :=
  Char.ofNat ((a.toNat % 16 * 64 + bits b) * 64 + bits c)

/-- The character of four bytes. -/
def char4 (a b c d : UInt8) : Char :=
  Char.ofNat (((a.toNat % 8 * 64 + bits b) * 64 + bits c) * 64 + bits d)

/-- **The characters of bytes, and `none` for each fault.** -/
def decode : List UInt8 → List (Option Char)
  | [] => []
  | a :: rest =>
    if a.toNat < 0x80 then some (Char.ofNat a.toNat) :: decode rest
    else
      match follow? a.toNat with
      | none => none :: decode rest
      | some f =>
        match rest with
        | [] => [none]
        | b :: rest₂ =>
          if !within f.low f.high b then none :: decode (b :: rest₂)
          else if f.further == 0 then some (char2 a b) :: decode rest₂
          else
            match rest₂ with
            | [] => [none]
            | c :: rest₃ =>
              if !isTail c then none :: decode (c :: rest₃)
              else if f.further == 1 then some (char3 a b c) :: decode rest₃
              else
                match rest₃ with
                | [] => [none]
                | d :: rest₄ =>
                  if !isTail d then none :: decode (d :: rest₄)
                  else some (char4 a b c d) :: decode rest₄

/-- **The strict reading**: the text of bytes without a fault. -/
def text? (bytes : List UInt8) : Option String :=
  ((decode bytes).mapM id).map String.ofList

/-- What stands for a fault. -/
def replacement : Char :=
  Char.ofNat 0xFFFD

/-- **The lossy reading**: the text, with a replacement for each fault. -/
def textLossy (bytes : List UInt8) : String :=
  String.ofList ((decode bytes).map (fun c => c.getD replacement))

/-- Is there a fault? -/
def isFaulty (bytes : List UInt8) : Bool :=
  (decode bytes).any Option.isNone

/-- The bytes of a text. -/
def bytes (s : String) : List UInt8 :=
  s.toUTF8.toList

end CallOrigins.Text.Utf8
