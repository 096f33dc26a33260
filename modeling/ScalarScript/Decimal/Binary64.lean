import ScalarScript.Text.Number

/-!
# Double-precision numbers

Model of the numbers with a point that documents and hosts hand over, and that `render_value` shows.

A `Binary64` is the 64 bits of an IEEE 754 double. A script does no arithmetic on such numbers; it
carries them, shows them and reads them from decimal text. So all that is here is exact arithmetic
on whole numbers:

* `view` splits the bits into not-a-number, infinity, or `± m · 2 ^ q`;
* `ofDecimal` is the double nearest to `± m · 10 ^ e`, a tie going to the even significand.
-/

namespace ScalarScript

/-- The bits of a double. -/
structure Binary64 where
  bits : UInt64
deriving DecidableEq, Repr, Inhabited

namespace Binary64

/-- What the bits of a double stand for. -/
inductive View where
  | nan
  | infinity (negative : Bool)
  | finite (negative : Bool) (significand : Nat) (exponent : Int)
deriving DecidableEq, Repr

/-- Whether the sign bit is set. -/
def negative (x : Binary64) : Bool := 1 <<< 63 ≤ x.bits.toNat

/-- The eleven exponent bits. -/
def exponentBits (x : Binary64) : Nat := (x.bits.toNat >>> 52) % 2048

/-- The 52 fraction bits. -/
def fraction (x : Binary64) : Nat := x.bits.toNat % (1 <<< 52)

def view (x : Binary64) : View :=
  if x.exponentBits = 2047 then
    if x.fraction = 0 then .infinity x.negative else .nan
  else if x.exponentBits = 0 then .finite x.negative x.fraction (-1074)
  else .finite x.negative (1 <<< 52 + x.fraction) (x.exponentBits - 1075)

/-- The double with this sign and these exponent and fraction bits. -/
def ofMagnitude (negative : Bool) (magnitude : Nat) : Binary64 :=
  ⟨UInt64.ofNat ((if negative then 1 <<< 63 else 0) + magnitude)⟩

def zero (negative : Bool) : Binary64 := ofMagnitude negative 0

def infinity (negative : Bool) : Binary64 := ofMagnitude negative (2047 <<< 52)

def nan : Binary64 := ofMagnitude false (2047 <<< 52 + 1 <<< 51)

/-- The whole number nearest to `num / den`, a tie going to the even one. -/
def roundDiv (num den : Nat) : Nat :=
  let quotient := num / den
  let twice := 2 * (num % den)
  if twice < den then quotient
  else if den < twice then quotient + 1
  else quotient + quotient % 2

/-- The fraction `num / den` scaled by `2 ^ (-q)`. -/
def scaled (num den : Nat) (q : Int) : Nat × Nat :=
  if 0 ≤ q then (num, den <<< q.toNat) else (num <<< (-q).toNat, den)

/-- The double nearest to the positive fraction `num / den`. The exponent is the least that leaves
at most 53 bits of quotient, and at least -1074. -/
def ofFraction (negative : Bool) (num den : Nat) : Binary64 :=
  let estimate : Int := (num.log2 : Int) - den.log2 - 53
  let (n, d) := scaled num den estimate
  let tight := if 1 <<< 53 ≤ n / d then estimate + 1 else estimate
  let q := max tight (-1074)
  let (n, d) := scaled num den q
  let significand := roundDiv n d
  let magnitude :=
    if significand < 1 <<< 52 then significand
    else (q + 1075).toNat <<< 52 + (significand - 1 <<< 52)
  if 2047 <<< 52 ≤ magnitude then infinity negative else ofMagnitude negative magnitude

/-- The double nearest to `± m · 10 ^ e`. Numbers far outside the range of doubles are settled by
their count of digits. -/
def ofDecimal (negative : Bool) (m : Nat) (e : Int) : Binary64 :=
  let order : Int := (Nat.toDigits 10 m).length + e
  if m = 0 then zero negative
  else if 310 < order then infinity negative
  else if order < -330 then zero negative
  else if 0 ≤ e then ofFraction negative (m * Nat.pow 10 e.toNat) 1
  else ofFraction negative m (Nat.pow 10 (-e).toNat)

/-- The whole number that a double is equal to, if it is one. -/
def toInt? (x : Binary64) : Option Int :=
  match x.view with
  | .nan | .infinity _ => none
  | .finite negative m q =>
    let signed : Nat → Int := fun n => if negative then -(n : Int) else n
    if 0 ≤ q then some (signed (m <<< q.toNat))
    else if m % (1 <<< (-q).toNat) = 0 then some (signed (m >>> (-q).toNat))
    else none

end Binary64

end ScalarScript
