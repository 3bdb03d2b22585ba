/-!
# Doubles as exact binary fractions

A finite double is a sign and a magnitude `mantissa · 2 ^ exponent`.  Decimal
forms are computed from these two numbers in exact arithmetic.
-/

namespace ModuleRecovery.Decimal

inductive Parts where
  | nan
  | infinite (negative : Bool)
  | finite (negative : Bool) (mantissa : Nat) (exponent : Int)
  deriving DecidableEq, Repr

def minExponent : Int := -1074

/-- The mantissa of a normal double is at least this. -/
def hiddenBit : Nat := 0x10000000000000

/-- The bits of a negative double are at least this. -/
def signBit : Nat := 0x8000000000000000

def parts (x : Float) : Parts :=
  let bits := x.toBits.toNat
  let negative := signBit ≤ bits
  let field := bits / hiddenBit % 2048
  let fraction := bits % hiddenBit
  if field = 2047 then
    if fraction = 0 then .infinite negative else .nan
  else if field = 0 then .finite negative fraction minExponent
  else .finite negative (hiddenBit + fraction) (minExponent + field - 1)

/-- The factor of `10 ^ ten · 2 ^ two` that belongs above a fraction bar. -/
def above (ten two : Int) : Nat :=
  Nat.pow 10 ten.toNat * Nat.pow 2 two.toNat

/-- The factor of `10 ^ ten · 2 ^ two` that belongs below a fraction bar. -/
def below (ten two : Int) : Nat :=
  above (-ten) (-two)

end ModuleRecovery.Decimal
