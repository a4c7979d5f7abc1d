/-!
Decimal text of binary floating point numbers: the fewest digits that read back as the same number,
and of several such decimals the nearest. The search compares exact natural numbers only.
-/

namespace Lineage.Decimal

/-- The number `digits * 10 ^ exponent`. -/
structure Scaled where
  digits : Nat
  exponent : Int
  deriving Repr, DecidableEq

/-- Which of two equally near decimals is taken. -/
inductive Tie where
  | up
  | toEven
  deriving Repr, DecidableEq

/-- The magnitude of a finite number as `mantissa * 2 ^ exponent`. -/
structure Binary where
  mantissa : Nat
  exponent : Int
  /-- Whether the next smaller number is only half as far away as the next larger one. -/
  narrowBelow : Bool
  deriving Repr, DecidableEq

/-- Decodes the bits of a finite double, without its sign. -/
def Binary.ofBits (bits : UInt64) : Binary :=
  let fraction := bits.toNat % Nat.pow 2 52
  let field := bits.toNat / Nat.pow 2 52 % Nat.pow 2 11
  if field = 0 then ⟨fraction, -1074, false⟩
  else ⟨fraction + Nat.pow 2 52, (field : Int) - 1075, fraction = 0 && field > 1⟩

/-- The order of `d * 10 ^ k` and `x * 2 ^ q`. -/
def compareScaled (d : Nat) (k : Int) (x : Nat) (q : Int) : Ordering :=
  compare (d * Nat.pow 10 k.toNat * Nat.pow 2 (-q).toNat)
    (x * Nat.pow 2 q.toNat * Nat.pow 10 (-k).toNat)

/-- Whether `d * 10 ^ k` reads back as `b`: it lies between the midpoints to the two neighbours, and
on one of them only if the mantissa is even. -/
def readsBack (b : Binary) (d : Nat) (k : Int) : Bool :=
  let low := compareScaled d k (4 * b.mantissa - if b.narrowBelow then 1 else 2) (b.exponent - 2)
  let high := compareScaled d k (4 * b.mantissa + 2) (b.exponent - 2)
  let even := b.mantissa % 2 == 0
  (low == .gt || (low == .eq && even)) && (high == .lt || (high == .eq && even))

/-- The number of decimal digits. -/
def width (n : Nat) : Nat :=
  (Nat.toDigits 10 n).length

/-- The exponent of the first decimal digit. -/
def leadingExponent (b : Binary) : Int :=
  let num := b.mantissa * Nat.pow 2 b.exponent.toNat
  let den := Nat.pow 2 (-b.exponent).toNat
  if den ≤ num then width (num / den) - 1 else -width ((den - 1) / num)

/-- The largest multiple of `10 ^ k` that is not above `b`, as a multiple. -/
def floorOn (b : Binary) (k : Int) : Nat :=
  b.mantissa * Nat.pow 2 b.exponent.toNat * Nat.pow 10 (-k).toNat
    / (Nat.pow 2 (-b.exponent).toNat * Nat.pow 10 k.toNat)

/-- Of the two multiples of `10 ^ k` next to `b`, the nearer one that reads back. -/
def nearestOn (tie : Tie) (b : Binary) (k : Int) : Option Nat :=
  let below := floorOn b k
  match readsBack b below k, readsBack b (below + 1) k with
  | false, false => none
  | true, false => some below
  | false, true => some (below + 1)
  | true, true =>
    match compareScaled (2 * below + 1) k (2 * b.mantissa) b.exponent with
    | .gt => some below
    | .lt => some (below + 1)
    | .eq =>
      match tie with
      | .up => some (below + 1)
      | .toEven => some (if below % 2 = 0 then below else below + 1)

/-- Removes zeros at the end. -/
def Scaled.trim (digits : Nat) (exponent : Int) : Scaled :=
  if digits ≠ 0 ∧ digits % 10 = 0 then Scaled.trim (digits / 10) (exponent + 1)
  else ⟨digits, exponent⟩
termination_by digits
decreasing_by omega

/-- The decimal with the fewest digits that reads back as `b`, which is not zero. Seventeen digits
are always enough. -/
def shortest (tie : Tie) (b : Binary) : Scaled :=
  let lead := leadingExponent b
  let found := (List.range 17).findSome? fun (n : Nat) =>
    (nearestOn tie b (lead - n)).map fun d => Scaled.trim d (lead - n)
  found.getD ⟨floorOn b (lead - 16), lead - 16⟩

/-- The digits of a natural number. -/
def digits (n : Nat) : List Char :=
  Nat.toDigits 10 n

/-- A number written out: its sign, the part before the point and the digits after it. -/
structure Positional where
  negative : Bool
  whole : List Char
  fraction : List Char
  deriving Repr, DecidableEq

/-- Writes out `digits * 10 ^ exponent`. -/
def Scaled.positional (negative : Bool) (s : Scaled) : Positional :=
  let ds := Decimal.digits s.digits
  if 0 ≤ s.exponent then ⟨negative, ds ++ List.replicate s.exponent.toNat '0', []⟩
  else
    let places := (-s.exponent).toNat
    let padded := List.replicate (places + 1 - ds.length) '0' ++ ds
    ⟨negative, padded.take (padded.length - places), padded.drop (padded.length - places)⟩

/-- The sign bit; zero and numbers that are none have one, too. -/
def isNegative (x : Float) : Bool :=
  x.toBits >>> 63 == 1

/-- The text of a number, never with an exponent and without a needless point. -/
def plainText (x : Float) : String :=
  if x.isNaN then "NaN"
  else
    let sign := if isNegative x then "-" else ""
    if x.isInf then sign ++ "inf"
    else
      let b := Binary.ofBits x.toBits
      if b.mantissa = 0 then sign ++ "0"
      else
        let p := (shortest .up b).positional false
        let fraction := if p.fraction.isEmpty then [] else '.' :: p.fraction
        sign ++ String.ofList (p.whole ++ fraction)

end Lineage.Decimal
