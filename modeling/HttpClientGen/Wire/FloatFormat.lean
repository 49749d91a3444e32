/-!
# Floating-point numbers

A format of floating-point numbers is told by the binary digits that a number has and by the bits of
its exponent. The bits of a number, read as an integer, hold a sign in front, then the exponent and
then the digits behind the first one. Without the sign they ascend with the numbers: behind the
finite ones comes infinity, and behind that what is not a number.
-/

namespace HttpClientGen.Wire

structure FloatFormat where
  /-- How many binary digits a number has, unless it is too small for that. -/
  precision : Nat
  exponentBits : Nat
  deriving DecidableEq, Repr

/-- The integer that is nearest to a quotient, and the even one if two are. -/
def roundedQuotient (dividend divisor : Nat) : Nat :=
  let below := dividend / divisor
  let twice := 2 * (dividend % divisor)
  if divisor < twice ∨ divisor = twice ∧ below % 2 = 1 then below + 1 else below

/-- A quotient after a division by a power of two. -/
def dividedByPower (exponent : Int) (dividend divisor : Nat) : Nat × Nat :=
  if 0 ≤ exponent then (dividend, divisor <<< exponent.toNat)
  else (dividend <<< (-exponent).toNat, divisor)

namespace FloatFormat

/-- Numbers in four bytes. -/
def single : FloatFormat := ⟨24, 8⟩

/-- Numbers in eight bytes. -/
def double : FloatFormat := ⟨53, 11⟩

def signBit (format : FloatFormat) : Nat :=
  1 <<< (format.precision + format.exponentBits - 1)

def magnitude (format : FloatFormat) (bits : Nat) : Nat :=
  bits % format.signBit

def signed (format : FloatFormat) (isNegative : Bool) (magnitude : Nat) : Nat :=
  if isNegative then format.signBit + magnitude else magnitude

/-- The bit of the exponent's last digit. Numbers with smaller bits lack the full precision. -/
def exponentUnit (format : FloatFormat) : Nat :=
  1 <<< (format.precision - 1)

def infinity (format : FloatFormat) : Nat :=
  (1 <<< format.exponentBits - 1) * format.exponentUnit

def notANumber (format : FloatFormat) : Nat :=
  format.infinity + format.exponentUnit / 2

/-- The least positive number is two to the power of this. -/
def leastExponent (format : FloatFormat) : Int :=
  3 - (1 <<< (format.exponentBits - 1) : Nat) - format.precision

/-- The bits of the number that is nearest to a quotient, and of the one with the even digits if two
are. A quotient beyond the finite numbers gives infinity. -/
def nearest (format : FloatFormat) (dividend divisor : Nat) : Nat :=
  if dividend = 0 then 0
  else
    let high : Int := (dividend.log2 : Int) - divisor.log2 - format.precision + 1
    let (top, bottom) := dividedByPower high dividend divisor
    let full := if top < bottom * format.exponentUnit then high - 1 else high
    let exponent := max full format.leastExponent
    let (top, bottom) := dividedByPower exponent dividend divisor
    min format.infinity
      ((exponent - format.leastExponent).toNat * format.exponentUnit + roundedQuotient top bottom)

def ofInt (format : FloatFormat) (n : Int) : Nat :=
  format.signed (n < 0) (format.nearest n.natAbs 1)

/-- The bits of the number that is nearest to an integer times a power of ten. Far away powers need
not be computed. -/
def ofDecimal (format : FloatFormat) (digits : Nat) (exponent : Int) : Nat :=
  if digits = 0 ∨ exponent < -(400 + digits.log2 : Int) then 0
  else if 400 < exponent then format.infinity
  else if 0 ≤ exponent then format.nearest (digits * Nat.pow 10 exponent.toNat) 1
  else format.nearest digits (Nat.pow 10 (-exponent).toNat)

/-- The number with the given bits, which is finite and has no sign, as a quotient. -/
def quotient (format : FloatFormat) (bits : Nat) : Nat × Nat :=
  let exponent := bits / format.exponentUnit
  let behind := bits % format.exponentUnit
  let digits := if exponent = 0 then behind else format.exponentUnit + behind
  dividedByPower (-(format.leastExponent + (exponent - 1 : Nat))) digits 1

/-- The bits in one format of the number that is nearest to one in another format. -/
def converted (source target : FloatFormat) (bits : Nat) : Nat :=
  let magnitude := source.magnitude bits
  target.signed (source.signBit ≤ bits)
    (if source.infinity < magnitude then target.notANumber
    else if magnitude = source.infinity then target.infinity
    else
      let (dividend, divisor) := source.quotient magnitude
      target.nearest dividend divisor)

/-- Whether two numbers are equal. The zeros are, whatever their signs, and what is not a number is
not even equal to itself. -/
def areEqual (format : FloatFormat) (left right : Nat) : Bool :=
  format.magnitude left ≤ format.infinity && format.magnitude right ≤ format.infinity &&
    (left = right || format.magnitude left = 0 && format.magnitude right = 0)

end FloatFormat

end HttpClientGen.Wire
