import ScalarScript.Decimal.Binary64

/-!
# The shortest decimal form of a double

Model of how `render_value`, `script_to_json` and `script_to_yaml` write such a number.

A double is shown by the fewest significant digits that read back as the same double, and among
those by the digits nearest to it.

* `Rounding` is the interval of reals that round to a double, as whole numbers over one
  denominator; its ends belong to it when the significand is even.
* `shortest` tries 1, 2, … 17 digits. For each count it looks at the two neighbours of the double
  on the grid of decimals with that many digits, and takes the first count at which one of them
  lies in the interval; of two the nearer, and of two equally near the even one.
* `Layout` holds the choices of the written form, and `Binary64.text` uses `Layout.plain`.
-/

namespace ScalarScript

namespace Binary64

/-- The reals that round to one double: `low`, `value` and `high` over `den`, and whether the ends
belong to the interval. -/
structure Rounding where
  low : Nat
  value : Nat
  high : Nat
  den : Nat
  closed : Bool

/-- The interval of `m · 2 ^ q`. Below a power of two the doubles lie twice as close. -/
def Rounding.of (m : Nat) (q : Int) : Rounding :=
  let below := if m = 1 <<< 52 ∧ -1074 < q then 1 else 2
  let scale := if 2 ≤ q then 1 <<< (q - 2).toNat else 1
  { low := (4 * m - below) * scale
    value := 4 * m * scale
    high := (4 * m + 2) * scale
    den := if 2 ≤ q then 1 else 1 <<< (2 - q).toNat
    closed := m % 2 = 0 }

/-- The least `k` with `value < 10 ^ k · den`, from a bound on both sides of zero. -/
def Rounding.order (r : Rounding) : Int :=
  if r.den ≤ r.value then (Nat.toDigits 10 (r.value / r.den)).length
  else go 400 0 r.value
where
  /-- Counts the factors of ten that keep the value below one. -/
  go : Nat → Int → Nat → Int
    | 0, k, _ => k
    | fuel + 1, k, value => if r.den ≤ value * 10 then k else go fuel (k - 1) (value * 10)

/-- The grid of decimals with step `10 ^ step`: its unit over the denominator of the interval, and
the factor that the interval is scaled by. -/
def Rounding.grid (r : Rounding) (step : Int) : Nat × Nat :=
  if 0 ≤ step then (r.den * Nat.pow 10 step.toNat, 1) else (r.den, Nat.pow 10 (-step).toNat)

/-- The point of the grid that stands for the double, if one lies in the interval. -/
def Rounding.onGrid (r : Rounding) (step : Int) : Option Nat :=
  let (unit, factor) := r.grid step
  let value := r.value * factor
  let inside (c : Nat) : Bool :=
    if r.closed then r.low * factor ≤ c * unit && c * unit ≤ r.high * factor
    else r.low * factor < c * unit && c * unit < r.high * factor
  let floor := value / unit
  match inside floor, inside (floor + 1) with
  | false, false => none
  | true, false => some floor
  | false, true => some (floor + 1)
  | true, true =>
    let twice := 2 * (value % unit)
    if twice < unit then some floor
    else if unit < twice then some (floor + 1)
    else some (floor + floor % 2)

/-- Drops the trailing zeros of `n`, and counts them. -/
def dropZeros : (fuel : Nat) → Nat → Int → Nat × Int
  | 0, n, e => (n, e)
  | fuel + 1, n, e => if n % 10 = 0 then dropZeros fuel (n / 10) (e + 1) else (n, e)

/-- The shortest decimal `c · 10 ^ e` that reads back as `m · 2 ^ q`, for positive `m`. -/
def shortest (m : Nat) (q : Int) : Nat × Int :=
  let r := Rounding.of m q
  let order := r.order
  let found := (List.range 17).findSome? fun n : Nat =>
    let step := order - (n + 1 : Nat)
    (r.onGrid step).map fun c => (c, step)
  let (c, e) := found.getD (m, q)
  dropZeros 20 c e

end Binary64

/-- The choices of a written form for doubles. -/
structure Layout where
  /-- The scientific exponents that are written positionally. -/
  leastPositional : Int
  mostPositional : Int
  /-- What a whole number ends in, where it is written positionally. -/
  whole : String
  /-- The least number of digits of an exponent. -/
  exponentWidth : Nat
  nan : String
  infinity : String

/-- Exponents from -4 to 15 are written positionally, whole numbers end in `.0`, and other
exponents carry a sign and at least two digits. -/
def Layout.plain : Layout := ⟨-4, 15, ".0", 2, "nan", "inf"⟩

/-- The form of data documents, which differs in the words for what is not finite. -/
def Layout.document : Layout := { Layout.plain with nan := "NaN", infinity := "Infinity" }

namespace Layout

/-- A positive decimal `c · 10 ^ e`. -/
def positive (layout : Layout) (c : Nat) (e : Int) : Text :=
  let digits := Text.ofNat c
  let exponent := e + digits.length - 1
  if layout.leastPositional ≤ exponent ∧ exponent ≤ layout.mostPositional then
    if 0 ≤ e then digits ++ List.replicate e.toNat (.scalar '0') ++ Text.of layout.whole
    else if 0 ≤ exponent then
      digits.take (exponent + 1).toNat ++ [.scalar '.'] ++ digits.drop (exponent + 1).toNat
    else Text.of "0." ++ List.replicate (-exponent - 1).toNat (.scalar '0') ++ digits
  else
    let fraction := if digits.length = 1 then [] else .scalar '.' :: digits.drop 1
    let sign := if exponent < 0 then '-' else '+'
    let power := (Nat.toDigits 10 exponent.natAbs).leftpad layout.exponentWidth '0'
    digits.take 1 ++ fraction ++ Text.ofChars ('e' :: sign :: power)

/-- The text of a double. -/
def text (layout : Layout) (x : Binary64) : Text :=
  let signed (negative : Bool) (t : Text) : Text :=
    if negative then .scalar '-' :: t else t
  match x.view with
  | .nan => Text.of layout.nan
  | .infinity negative => signed negative (Text.of layout.infinity)
  | .finite negative m q =>
    if m = 0 then signed negative (Text.of ("0" ++ layout.whole))
    else
      let (c, e) := Binary64.shortest m q
      signed negative (layout.positive c e)

end Layout

namespace Binary64

/-- The text of a double in messages and in printed output. -/
def text (x : Binary64) : Text := Layout.plain.text x

/-- Reads `nan`, `inf`, or a decimal with an optional sign, point and exponent. -/
def ofText? (t : Text) : Option Binary64 :=
  match t with
  | .scalar '-' :: rest => unsigned true rest
  | .scalar '+' :: rest => unsigned false rest
  | rest => unsigned false rest
where
  unsigned (negative : Bool) (t : Text) : Option Binary64 :=
    if t = Text.of "nan" then some nan
    else if t = Text.of "inf" then some (infinity negative)
    else
      let digits := t.takeWhile CodePoint.isDigit
      let afterDigits := t.dropWhile CodePoint.isDigit
      let (decimals, afterPoint) := match afterDigits with
        | .scalar '.' :: rest =>
          (rest.takeWhile CodePoint.isDigit, rest.dropWhile CodePoint.isDigit)
        | rest => ([], rest)
      let exponent? : Option Int := match afterPoint with
        | [] => some 0
        | .scalar c :: rest => if c = 'e' ∨ c = 'E' then Text.intValue? rest else none
        | _ => none
      if digits.isEmpty && decimals.isEmpty then none
      else exponent?.map fun e =>
        ofDecimal negative (Text.decimalValue (digits ++ decimals)) (e - decimals.length)

end Binary64

end ScalarScript
