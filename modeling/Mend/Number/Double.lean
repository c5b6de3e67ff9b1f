/-!
# What a double holds

A finite double is a whole number times a power of two. Everything that has to be exact about
doubles (their texts, rounding to whole numbers) is worked out on that number and that power.
-/

namespace Mend

/-- The exact value of a double. -/
inductive Double
  | nan
  | infinite (negative : Bool)
  /-- `mantissa` times two to the `exponent`, with a sign. -/
  | finite (negative : Bool) (mantissa : Nat) (exponent : Int)
  deriving DecidableEq, Repr

namespace Double

/-- The mantissa of the smallest normal doubles. -/
def hiddenBit : Nat := Nat.pow 2 52

/-- The exponent of the smallest doubles. -/
def leastExponent : Int := -1074

/-- The exact value of a double. -/
def ofFloat (x : Float) : Double :=
  let bits := x.toBits.toNat
  let negative := bits / Nat.pow 2 63 = 1
  let scale := bits / hiddenBit % 2048
  let fraction := bits % hiddenBit
  if scale = 2047 then
    if fraction = 0 then .infinite negative else .nan
  else if scale = 0 then .finite negative fraction leastExponent
  else .finite negative (hiddenBit + fraction) (scale - 1 + leastExponent)

end Double

/-! ## Fractions and whole numbers -/

/-- A power as a fraction: the numerator and the denominator of `base` to the `exponent`. -/
def powFraction (base : Nat) (exponent : Int) : Nat × Nat :=
  if 0 ≤ exponent then (base.pow exponent.toNat, 1) else (1, base.pow (-exponent).toNat)

/-- The whole number nearest to a fraction; a half goes to the even neighbour. -/
def roundHalfEven (num den : Nat) : Nat :=
  let below := num / den
  let rest := 2 * (num % den)
  if rest < den || (rest = den && below % 2 = 0) then below else below + 1

/-- A number with a sign. -/
def signed (negative : Bool) (n : Nat) : Int := if negative then -n else n

/-- Why a double is no whole number. -/
inductive WholeError
  | notANumber
  | infinite
  deriving DecidableEq, Repr

/-- The whole number nearest to a double; a half goes to the even neighbour. -/
def nearestWhole (x : Float) : Except WholeError Int :=
  match Double.ofFloat x with
  | .nan => .error .notANumber
  | .infinite _ => .error .infinite
  | .finite negative m e =>
    let (num, den) := powFraction 2 e
    .ok (signed negative (roundHalfEven (m * num) den))

/-- The whole number that is left when the fraction of a double is dropped. -/
def wholePart (x : Float) : Except WholeError Int :=
  match Double.ofFloat x with
  | .nan => .error .notANumber
  | .infinite _ => .error .infinite
  | .finite negative m e =>
    let (num, den) := powFraction 2 e
    .ok (signed negative (m * num / den))

end Mend
