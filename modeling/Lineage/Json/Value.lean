import Lineage.Decimal

/-!
JSON values. Objects keep the order and the repetitions of their members, and numbers keep the shape
they were written in, because both decide whether a text has the shape that was asked for.
-/

namespace Lineage

namespace Json

/-- A number as it is written. -/
structure Number where
  negative : Bool := false
  whole : Nat
  /-- The digits after the point, none if there is no point. -/
  fraction : List Char := []
  exponent : Option Int := none
  deriving Repr, DecidableEq, Inhabited

end Json

/-- A JSON value. A string literal whose escapes hold half of a surrogate pair has no text. -/
inductive Json where
  | null
  | bool (value : Bool)
  | number (value : Json.Number)
  | string (text : Option String)
  | array (items : List Json)
  | object (members : List (Option String × Json))
  deriving Inhabited

namespace Json

namespace Number

def ofNat (n : Nat) : Number :=
  { whole := n }

/-- The value of a number written as bare digits. -/
def toNat? (n : Number) : Option Nat :=
  if n.negative || !n.fraction.isEmpty || n.exponent.isSome then none else some n.whole

/-- The value of a digit. -/
def digitValue (c : Char) : Nat :=
  c.toNat - '0'.toNat

def ofDigits (cs : List Char) : Nat :=
  cs.foldl (fun n c => 10 * n + digitValue c) 0

/-- Takes digits into a significand while it stays below `2 ^ 64`, and returns the digits left. -/
def takeDigits : (significand : Nat) → List Char → Nat × List Char
  | significand, [] => (significand, [])
  | significand, c :: cs =>
    if 10 * significand + digitValue c < UInt64.size then
      takeDigits (10 * significand + digitValue c) cs
    else (significand, c :: cs)

/-- A significand of at most 64 bits and a power of ten for it. Digits that do not fit are dropped:
before the point each of them raises the exponent, after the point they are lost. -/
def significand (n : Number) : Nat × Int :=
  let (front, dropped) := takeDigits 0 (Decimal.digits n.whole)
  let (all, lost) := takeDigits front n.fraction
  (all, (dropped.length : Int) - ((n.fraction.length : Int) - lost.length))

def powerOfTen (k : Nat) : Float :=
  Float.ofScientific 1 false k

/-- The largest power of ten below the overflow threshold. -/
def maxPower : Nat := 308

/-- Scales by a negative power of ten, in steps that stay finite. -/
def scaleDown (x : Float) (k : Nat) : Float :=
  if k ≤ maxPower then x / powerOfTen k
  else if x == 0 then x
  else scaleDown (x / powerOfTen maxPower) (k - maxPower)
termination_by k
decreasing_by simp only [maxPower] at *; omega

/-- The significand times its power of ten, unless that overflows. -/
def scale? (significand : Nat) (exponent : Int) : Option Float :=
  let x := significand.toUInt64.toFloat
  if exponent < 0 then some (scaleDown x (-exponent).toNat)
  else if exponent.toNat ≤ maxPower then
    let y := x * powerOfTen exponent.toNat
    if y.isInf then none else some y
  else if x == 0 then some x
  else none

/-- Exponents are 32-bit numbers: one that is larger overflows or vanishes, whatever else the
number says. -/
def maxExponent : Int := 2147483647

/-- The double that a number stands for, unless it is out of range. The digits are rounded to 64
bits first and scaled afterwards, so the last place may differ from the nearest double's. -/
def toFloat? (n : Number) : Option Float :=
  let (significand, shift) := n.significand
  let exponent := n.exponent.getD 0
  let magnitude :=
    if maxExponent < exponent then if significand = 0 then some 0 else none
    else if exponent < -maxExponent then some 0
    else scale? significand (shift + exponent)
  magnitude.map fun x => if n.negative then -x else x

/-- A finite double in the fewest digits. It is written out if its point falls within sixteen digits
or at most four zeros before the first one, always with a fraction; otherwise with an exponent. -/
def ofFloat (x : Float) : Number :=
  let negative := Decimal.isNegative x
  let b := Decimal.Binary.ofBits x.toBits
  if b.mantissa = 0 then { negative, whole := 0, fraction := ['0'] }
  else
    let s := Decimal.shortest .toEven b
    let point := Decimal.width s.digits + s.exponent
    if -5 < point ∧ point ≤ 16 then
      let p := s.positional negative
      { negative, whole := ofDigits p.whole,
        fraction := if p.fraction.isEmpty then ['0'] else p.fraction }
    else
      let ds := Decimal.digits s.digits
      { negative, whole := ofDigits (ds.take 1), fraction := ds.drop 1,
        exponent := some (point - 1) }

end Number

/-- A string with a text. -/
def text (s : String) : Json :=
  .string (some s)

def nat (n : Nat) : Json :=
  .number (.ofNat n)

/-- An object with the given members. -/
def record (members : List (String × Json)) : Json :=
  .object (members.map fun (key, value) => (some key, value))

/-- The value, or `null` if there is none. -/
def ofOption (value : Option Json) : Json :=
  value.getD .null

end Json

end Lineage
