import SharedCollections.Word
/-!
# Doubles

Binary floating-point numbers of 53 bits, kept as a whole mantissa and a power of two, so that
every operation on them is one on natural numbers. `nearest` rounds a fraction, `ofDecimal` reads a
decimal, and `shortest` finds the fewest digits that stand for a double: those that no coarser grid
of decimals can replace.

There is no largest double; what would be too large for the format is kept as it is.
-/

namespace SharedCollections

/-- The number `mantissa * 2 ^ exponent`, or its negative. -/
structure Double where
  negative : Bool
  mantissa : Nat
  exponent : Int
deriving DecidableEq, Repr

namespace Double

/-- Mantissas are smaller than this: they have 53 bits. -/
def mantissaLimit : Nat := 0x20000000000000

/-- The exponent of the smallest doubles. -/
def leastExponent : Int := -1074

/-- The whole number nearest to `num / den`; halfway between two it is the even one. -/
def roundDiv (num den : Nat) : Nat :=
  let below := num / den
  match compare (2 * (num % den)) den with
  | .lt => below
  | .eq => below + below % 2
  | .gt => below + 1

/-- The fraction `num / den` divided by `base ^ k`. -/
def scale (base : Nat) (k : Int) (num den : Nat) : Nat × Nat :=
  (num * Nat.pow base (-k).toNat, den * Nat.pow base k.toNat)

/-- The double nearest to `num / den`; halfway between two it is the one with the even mantissa. -/
def nearest (negative : Bool) (num den : Nat) : Double :=
  if num = 0 then ⟨negative, 0, leastExponent⟩
  else
    let low := max ((Nat.log2 num : Int) - Nat.log2 den - 53) leastExponent
    let units := scale 2 low num den
    let exponent := if units.1 / units.2 < mantissaLimit then low else low + 1
    let units := scale 2 exponent num den
    let mantissa := roundDiv units.1 units.2
    if mantissa < mantissaLimit then ⟨negative, mantissa, exponent⟩
    else ⟨negative, mantissa / 2, exponent + 1⟩

/-- The absolute value as a fraction. -/
def fraction (x : Double) : Nat × Nat := scale 2 (-x.exponent) x.mantissa 1

def mul (x y : Double) : Double :=
  nearest (x.negative != y.negative) (x.fraction.1 * y.fraction.1) (x.fraction.2 * y.fraction.2)

def div (x y : Double) : Double :=
  nearest (x.negative != y.negative) (x.fraction.1 * y.fraction.2) (x.fraction.2 * y.fraction.1)

def powTen (k : Nat) : Double := nearest false (Nat.pow 10 k) 1

/-- The largest `k` for which `powTen k` is used. -/
def mostTens : Nat := 308

/-- Divides by `10 ^ k`, in steps if `k` is large. -/
def divPowTen (x : Double) (k : Nat) : Double :=
  if k ≤ mostTens then x.div (powTen k) else divPowTen (x.div (powTen mostTens)) (k - mostTens)
termination_by k
decreasing_by simp only [mostTens] at *; omega

/-- Drops digits from the end of `digits * 10 ^ exponent` until the rest fits into a word. -/
def dropExcess (digits : Nat) (exponent : Int) : Nat × Int :=
  if digits < Word.limit then (digits, exponent) else dropExcess (digits / 10) (exponent + 1)
termination_by digits
decreasing_by simp only [Word.limit] at *; omega

/-- Reads the decimal `digits * 10 ^ exponent`. The digits that fill a word, the power of ten and
their product or quotient are rounded one after the other, so of more than fifteen digits the last
may be lost. -/
def ofDecimal (negative : Bool) (digits : Nat) (exponent : Int) : Double :=
  let (digits, exponent) := dropExcess digits exponent
  let x := nearest negative digits 1
  if 0 ≤ exponent then x.mul (powTen exponent.toNat) else x.divPowTen (-exponent).toNat

/-- Whether `x` is the double nearest to `digits * 10 ^ k`, with the sign of `x`. -/
def isNearestTo (x : Double) (k : Int) (digits : Nat) : Bool :=
  let (num, den) := scale 10 (-k) digits 1
  nearest x.negative num den = x

/-- The multiple of `10 ^ k` next to `x` that stands for `x`, if there is one: the nearer one if
both do. -/
def digitsOn? (x : Double) (k : Int) : Option Nat :=
  let (num, den) := scale 10 k x.fraction.1 x.fraction.2
  let nearer := roundDiv num den
  let other := if nearer = num / den then nearer + 1 else num / den
  [nearer, other].find? (x.isNearestTo k)

/-- Tries ever finer grids of decimals, from the multiples of `10 ^ k` on. After `steps` grids the
double has to be on the grid. -/
def shortestFrom (x : Double) : (steps : Nat) → (k : Int) → Nat × Int
  | 0, k =>
    let (num, den) := scale 10 k x.fraction.1 x.fraction.2
    (num / den, k)
  | steps + 1, k =>
    match x.digitsOn? k with
    | some digits => (digits, k)
    | none => shortestFrom x steps (k - 1)

/-- The fewest digits that stand for `x`, and the exponent of ten that goes with them. -/
def shortest (x : Double) : Nat × Int :=
  let top := (Nat.toDigits 10 (x.fraction.1 / x.fraction.2)).length
  shortestFrom x (top + (-x.exponent).toNat) top

end Double

end SharedCollections
