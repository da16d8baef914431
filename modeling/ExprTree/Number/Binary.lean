import ExprTree.Number.Shortest

/-!
# Binary floating-point numbers

Numbers of 32 and 64 bits, held as their bits so that every statement about them is one about
natural numbers. The format of a number is part of its type. Two of them are equal as numbers when
neither is a NaN and they have the same bits or are both zero. A number is written with the fewest
digits that give it back, never with an exponent, and all NaNs are written alike.
-/

namespace ExprTree.Number

/-- The widths of the fields of a floating-point format, below the sign bit. -/
structure Format where
  /-- Bits of the exponent field. -/
  exponentBits : Nat
  /-- Bits of the fraction field. -/
  fractionBits : Nat
  /-- The exponent field is there, so that the bits of zero are those of a number. -/
  exponent_pos : 0 < exponentBits

/-- What a bit pattern stands for. -/
inductive Reading where
  | nan
  | infinity (negative : Bool)
  | zero (negative : Bool)
  | finite (negative : Bool) (magnitude : Magnitude)

namespace Format

/-- The format of 32 bits. -/
def single : Format := ⟨8, 23, by decide⟩

/-- The format of 64 bits. -/
def double : Format := ⟨11, 52, by decide⟩

/-- The bits of a number: both fields and the sign. -/
def width (format : Format) : Nat := format.fractionBits + format.exponentBits + 1

/-- Reads a bit pattern. An exponent field of ones marks infinities and NaNs, one of zeros marks
zero and the numbers without a leading one. -/
def read (format : Format) (bits : Nat) : Reading :=
  let fraction := bits % Nat.pow 2 format.fractionBits
  let field := bits / Nat.pow 2 format.fractionBits % Nat.pow 2 format.exponentBits
  let negative := bits / Nat.pow 2 (format.fractionBits + format.exponentBits) % 2 = 1
  let bias : Int := Nat.pow 2 (format.exponentBits - 1) - 1 + format.fractionBits
  if field = Nat.pow 2 format.exponentBits - 1 then
    if fraction = 0 then .infinity negative else .nan
  else if field = 0 then
    if fraction = 0 then .zero negative else .finite negative ⟨fraction, 1 - bias, false⟩
  else
    .finite negative
      ⟨Nat.pow 2 format.fractionBits + fraction, field - bias, fraction = 0 && 1 < field⟩

end Format

namespace Reading

/-- A NaN is equal to no number, not even to itself. -/
def isNaN : Reading → Bool
  | .nan => true
  | _ => false

/-- Zero of either sign. -/
def isZero : Reading → Bool
  | .zero _ => true
  | _ => false

/-- The sign as it is written. -/
def signText (negative : Bool) : String :=
  if negative then "-" else ""

/-- The number as it is written. -/
def text : Reading → String
  | .nan => "NaN"
  | .infinity negative => signText negative ++ "inf"
  | .zero negative => signText negative ++ "0"
  | .finite negative magnitude => signText negative ++ magnitude.shortest.positional

end Reading

/-- A floating-point number of the format. -/
structure Binary (format : Format) where
  /-- Sign, exponent and fraction, from the highest bit down. -/
  bits : BitVec format.width
deriving DecidableEq

namespace Binary

variable {format : Format}

/-- What the bits stand for. -/
def reading (x : Binary format) : Reading := format.read x.bits.toNat

/-- Equality as numbers. -/
def sameNumber (x y : Binary format) : Bool :=
  !x.reading.isNaN && !y.reading.isNaN &&
    (x.bits = y.bits || x.reading.isZero && y.reading.isZero)

/-- The number as it is written. -/
def text (x : Binary format) : String := x.reading.text

end Binary

end ExprTree.Number
