/-!
# Shortest decimals

A positive binary value is rounded to from every real number between two bounds. Of all decimals
between the bounds the shortest are those of the coarsest power-of-ten grid that has a point there.
On a grid only the two neighbours of the value need to be tried: if any point of the grid lies
between the bounds, one of them does. The nearer one is taken, and of two equally near ones the
larger. All comparisons are exact, in natural numbers.
-/

namespace ExprTree.Number

/-- A positive value `significand * 2 ^ exponent` with the gaps to its neighbours. -/
structure Magnitude where
  /-- The integer that is scaled. -/
  significand : Nat
  /-- The power of two that scales it. -/
  exponent : Int
  /-- The neighbour below is only half as far away as the one above. -/
  narrowBelow : Bool

/-- A decimal `digits * 10 ^ exponent`. -/
structure Decimal where
  /-- The integer that is scaled. -/
  digits : Nat
  /-- The power of ten that scales it. -/
  exponent : Int

/-- Compares `a * 10 ^ p` with `b * 2 ^ q`. -/
def compareScaled (a : Nat) (p : Int) (b : Nat) (q : Int) : Ordering :=
  compare (a * Nat.pow 10 p.toNat * Nat.pow 2 (-q).toNat)
    (b * Nat.pow 2 q.toNat * Nat.pow 10 (-p).toNat)

namespace Magnitude

/-- The decimal lies between the bounds of the reals that round to the value. The bounds belong to
them when the significand is even. In quarters of the last place they are two (or one, below a
narrow gap) away from the value. -/
def admits (x : Magnitude) (d : Decimal) : Bool :=
  let below := 4 * x.significand - if x.narrowBelow then 1 else 2
  let above := 4 * x.significand + 2
  let quarter := x.exponent - 2
  let closed := x.significand % 2 = 0
  let low := compareScaled d.digits d.exponent below quarter
  let high := compareScaled d.digits d.exponent above quarter
  (low = .gt || closed && low = .eq) && (high = .lt || closed && high = .eq)

/-- The last point of the grid `10 ^ p` that is not above the value. -/
def floorOn (x : Magnitude) (p : Int) : Nat :=
  x.significand * Nat.pow 2 x.exponent.toNat * Nat.pow 10 (-p).toNat /
    (Nat.pow 2 (-x.exponent).toNat * Nat.pow 10 p.toNat)

/-- The upper of the two neighbours on the grid is at least as near. -/
def nearerAbove (x : Magnitude) (p : Int) (lower : Nat) : Bool :=
  compareScaled (2 * lower + 1) p (2 * x.significand) x.exponent ≠ .gt

/-- The decimal on the grid `10 ^ p` that stands for the value, if the grid has one. -/
def onGrid? (x : Magnitude) (p : Int) : Option Decimal :=
  let lower := x.floorOn p
  let down : Decimal := ⟨lower, p⟩
  let up : Decimal := ⟨lower + 1, p⟩
  match x.admits down, x.admits up with
  | true, true => some (if x.nearerAbove p lower then up else down)
  | true, false => some down
  | false, true => some up
  | false, false => none

/-- Tries the grid `10 ^ p` and at most `steps` finer ones. -/
def search (x : Magnitude) : (steps : Nat) → (p : Int) → Decimal
  | 0, p => ⟨x.floorOn p, p⟩
  | steps + 1, p => (x.onGrid? p).getD (x.search steps (p - 1))

/-- The power of ten of the leading digit, or at most two more than that. A grid that is coarser
than the leading digit admits at most the power of ten just above the value. -/
def leadingPower (x : Magnitude) : Int :=
  let digitCount (n : Nat) : Int := (Nat.toDigits 10 n).length
  if 0 ≤ x.exponent then digitCount (x.significand * Nat.pow 2 x.exponent.toNat) - 1
  else digitCount x.significand - digitCount (Nat.pow 2 (-x.exponent).toNat) + 1

/-- The shortest decimal that stands for the value. Values of at most 64 significant bits need at
most twenty digits. -/
def shortest (x : Magnitude) : Decimal :=
  x.search 24 x.leadingPower

end Magnitude

namespace Decimal

/-- The decimal digits without zeros at the end. -/
def trimmed (digits : List Char) : List Char :=
  (digits.reverse.dropWhile (· = '0')).reverse

/-- The decimal in positional notation, without a point if it is an integer. -/
def positional (d : Decimal) : String :=
  let digits := Nat.toDigits 10 d.digits
  if 0 ≤ d.exponent then
    String.ofList (digits ++ List.replicate d.exponent.toNat '0')
  else
    let places := (-d.exponent).toNat
    let padded := List.replicate (places + 1 - digits.length) '0' ++ digits
    let whole := padded.take (padded.length - places)
    let fraction := trimmed (padded.drop (padded.length - places))
    String.ofList (if fraction.isEmpty then whole else whole ++ '.' :: fraction)

end Decimal

end ExprTree.Number
