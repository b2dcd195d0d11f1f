import ProceduralScene.Number.Binary

/-!
Decimal notations of numbers. Three notations of a floating number are exact: the fewest digits that read back
as the same number, a fixed count of decimal places, and a fixed count of digits with an exponent; the last two
round the binary value to nearest with ties to even.
-/

set_option autoImplicit false

namespace ProceduralScene.Number

/-- The digits of a positive decimal number `digits · 10 ^ exponent`. -/
structure DecimalDigits where
  digits : Nat
  exponent : Int
  deriving DecidableEq, Repr

/-- The quotient `num / den` in units of `10 ^ exponent`. -/
def scaleByTen (num den : Nat) (exponent : Int) : Nat × Nat :=
  if exponent < 0 then (num * tenTo exponent.natAbs, den) else (num, den * tenTo exponent.natAbs)

/-- The exponent of the leading decimal digit of a positive quotient. -/
def leadingExponent (num den : Nat) : Int :=
  let guess : Int := (((Nat.log2 num : Int) - (Nat.log2 den : Int)) * 30103).fdiv 100000 - 1
  let atLeast (exponent : Int) : Bool :=
    let (scaled, unit) := scaleByTen num den exponent
    decide (unit ≤ scaled)
  if atLeast (guess + 2) then guess + 2
  else if atLeast (guess + 1) then guess + 1
  else guess

/-- The numbers that round to `d` lie between these two quarters of a unit around the mantissa; the flag says
whether the ends round to it too. -/
def roundingInterval (d : Dyadic) : Nat × Nat × Bool :=
  let below := if d.mantissa == twoTo 52 && d.exponent != -1074 then 1 else 2
  (4 * d.mantissa - below, 4 * d.mantissa + 2, d.mantissa % 2 == 0)

/-- The candidate with `count` digits nearest to the number, when one reads back as the number. -/
def candidate? (d : Dyadic) (lead : Int) (count : Nat) : Option DecimalDigits :=
  let unitTen := lead - (count : Int) + 1
  let (low, high, closed) := roundingInterval d
  let quarter : Dyadic := ⟨false, 1, d.exponent - 2⟩
  let (quarterNum, quarterDen) := quarter.ratio
  let (unitNum, unitDen) := if unitTen < 0 then (1, tenTo unitTen.natAbs) else (tenTo unitTen.natAbs, 1)
  let exact := 4 * d.mantissa * quarterNum * unitDen
  let step := quarterDen * unitNum
  let reads (n : Nat) : Bool :=
    let at' := n * step
    let lowest := low * quarterNum * unitDen
    let highest := high * quarterNum * unitDen
    if closed then lowest ≤ at' && at' ≤ highest else lowest < at' && at' < highest
  let down := exact / step
  let up := down + 1
  let rest := exact % step
  let nearer := if 2 * rest < step then down else if step < 2 * rest then up
    else if down % 2 == 0 then down else up
  let farther := if nearer == down then up else down
  if reads nearer then some ⟨nearer, unitTen⟩
  else if reads farther then some ⟨farther, unitTen⟩
  else none

def shortestFrom (d : Dyadic) (lead : Int) (count : Nat) : Nat → DecimalDigits
  | 0 => (candidate? d lead 17).getD ⟨0, 0⟩
  | fuel + 1 =>
    match candidate? d lead count with
    | some found => found
    | none => shortestFrom d lead (count + 1) fuel

/-- The fewest digits that read back as the number, nearest to it among those. -/
def shortest (d : Dyadic) : DecimalDigits :=
  let (num, den) := d.ratio
  shortestFrom d (leadingExponent num den) 1 17

def signText (negative : Bool) : String :=
  if negative then "-" else ""

def zeros (n : Nat) : String :=
  String.ofList (List.replicate n '0')

/-- An exponent with its sign and at least two digits. -/
def exponentText (exponent : Int) : String :=
  let digits := toString exponent.natAbs
  (if exponent < 0 then "e-" else "e+") ++ (if digits.length < 2 then "0" ++ digits else digits)

/-- Digits with a point after the first one. -/
def pointAfterFirst (digits : String) : String :=
  let cs := digits.toList
  if cs.length ≤ 1 then digits else String.ofList (cs.take 1 ++ '.' :: cs.drop 1)

/-- The number as shown to a reader: the fewest digits that read back, with a point and at least one decimal
place while the leading digit stands for `10 ^ -4` to `10 ^ 15`, and with an exponent otherwise. -/
def shortestText (x : Float) : String :=
  match decode x with
  | .notANumber => "nan"
  | .infinite negative => signText negative ++ "inf"
  | .finite d =>
    if d.mantissa == 0 then signText d.negative ++ "0.0"
    else
      let found := shortest d
      let digits := toString found.digits
      let trimmed := String.ofList ((digits.toList.reverse.dropWhile (· == '0')).reverse)
      let lead : Int := found.exponent + digits.length - 1
      let count := trimmed.length
      signText d.negative ++
        (if lead < -4 || 16 ≤ lead then pointAfterFirst trimmed ++ exponentText lead
        else if lead < 0 then "0." ++ zeros (lead.natAbs - 1) ++ trimmed
        else if count ≤ lead.toNat + 1 then trimmed ++ zeros (lead.toNat + 1 - count) ++ ".0"
        else
          let cs := trimmed.toList
          String.ofList (cs.take (lead.toNat + 1) ++ '.' :: cs.drop (lead.toNat + 1)))

/-- The number with exactly `places` decimal places. -/
def fixedText (places : Nat) (x : Float) : String :=
  match decode x with
  | .notANumber => "nan"
  | .infinite negative => signText negative ++ "inf"
  | .finite d =>
    let (num, den) := d.ratio
    let digits := toString (divideEven (num * tenTo places) den)
    let padded := zeros (places + 1 - digits.length) ++ digits
    let cs := padded.toList
    let whole := cs.length - places
    signText d.negative ++ String.ofList (cs.take whole) ++
      (if places == 0 then "" else "." ++ String.ofList (cs.drop whole))

/-- The number with one digit before the point, `places` after it, and an exponent. -/
def scientificText (places : Nat) (x : Float) : String :=
  match decode x with
  | .notANumber => "nan"
  | .infinite negative => signText negative ++ "inf"
  | .finite d =>
    if d.mantissa == 0 then signText d.negative ++ pointAfterFirst (zeros (places + 1)) ++ exponentText 0
    else
      let (num, den) := d.ratio
      let lead := leadingExponent num den
      let (scaled, unit) := scaleByTen num den (lead - places)
      let rounded := divideEven scaled unit
      let (digits, lead) := if rounded == tenTo (places + 1) then (tenTo places, lead + 1) else (rounded, lead)
      signText d.negative ++ pointAfterFirst (toString digits) ++ exponentText lead

/-- The most decimal digits that an integer may have when it is written or read. -/
def digitLimit : Nat := 4300

/-- The decimal text of an integer, refused past the digit limit. -/
def intText? (n : Int) : Option String :=
  if n.natAbs < tenTo digitLimit then some (toString n) else none

end ProceduralScene.Number
