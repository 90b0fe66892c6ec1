import ScriptSandbox.Number.Double

/-!
Decimal texts of floating-point numbers: the shortest text that reads back as the number, and the
text with a fixed number of decimals.
-/

namespace ScriptSandbox.Double

def digits (n : Nat) : String :=
  String.ofList (Nat.toDigits 10 n)

def zeros (n : Nat) : String :=
  String.ofList (List.replicate n '0')

/-- The bounds, as quotients, of the exact values that round to a positive number: halfway to its
neighbours. The neighbour below is nearer where the significand is the least of its exponent. -/
def roundingInterval (x : Double) : (Nat × Nat) × (Nat × Nat) :=
  let m := x.significand
  let q := x.exponent
  let lower := if m = leastNormal ∧ -1074 < q then 4 * m - 1 else 4 * m - 2
  (scaled lower 1 (q - 2), scaled (4 * m + 2) 1 (q - 2))

/-- Whether `a / b ≤ c / d`. -/
def ratioLe (x y : Nat × Nat) : Bool :=
  x.1 * y.2 ≤ y.1 * x.2

/-- Whether a decimal `n · 10 ^ e` reads back as a positive number. -/
def readsBack (x : Double) (n : Nat) (e : Int) : Bool :=
  let decimal := if 0 ≤ e then (n * Nat.pow 10 e.toNat, 1) else (n, Nat.pow 10 (-e).toNat)
  let (lower, upper) := x.roundingInterval
  if x.significand % 2 = 0 then ratioLe lower decimal && ratioLe decimal upper
  else !ratioLe decimal lower && !ratioLe upper decimal

/-- The quotient of a number and a power of ten, as a quotient of natural numbers. -/
def inUnits (x : Double) (e : Int) : Nat × Nat :=
  let (n, d) := x.ratio
  if 0 ≤ e then (n, d * Nat.pow 10 e.toNat) else (n * Nat.pow 10 (-e).toNat, d)

/-- A decimal `n · 10 ^ e` next to a positive number that reads back as it, the nearer one if
both neighbours do. -/
def neighbour? (x : Double) (e : Int) : Option Nat :=
  let (n, d) := x.inUnits e
  let near := roundDiv n d
  let far := if near * d ≤ n then near + 1 else near - 1
  if x.readsBack near e then some near
  else if x.readsBack far e then some far
  else none

/-- The exponent of the first digit of a positive number. -/
def leadingExponent (x : Double) : Int :=
  let guess : Int := Int.fdiv (((x.significand.log2 : Int) + x.exponent) * 30103) 100000
  let (n, d) := x.inUnits (guess + 1)
  if d ≤ n then guess + 1 else guess

/-- The shortest decimal that reads back as a positive number, with at least `count` digits. As
seventeen digits always suffice, no more are tried. -/
def shortestFrom (x : Double) (leading : Int) (count : Nat) : Nat × Int :=
  match x.neighbour? (leading + 1 - count) with
  | some n => (n, leading + 1 - count)
  | none =>
    if count < 17 then shortestFrom x leading (count + 1)
    else
      let (n, d) := x.inUnits (leading + 1 - count)
      (roundDiv n d, leading + 1 - count)
termination_by 17 - count

/-- The shortest decimal that reads back as a positive number. -/
def shortest (x : Double) : Nat × Int :=
  shortestFrom x x.leadingExponent 1

/-- A decimal `n · 10 ^ e` without the zeros at the end of `n`. -/
def stripZeros (n : Nat) (e : Int) : Nat × Int :=
  if 0 < n ∧ n % 10 = 0 then stripZeros (n / 10) (e + 1) else (n, e)
termination_by n
decreasing_by omega

/-- The text of a finite number. It has a decimal point or an exponent, and is positional unless
the point would stand more than sixteen digits after the first or five zeros before it. -/
def text (x : Double) : String :=
  let sign := if x.isNegative then "-" else ""
  if x.magnitude = 0 then sign ++ "0.0"
  else
    let (n, e) := x.shortest
    let (n, e) := stripZeros n e
    let ds := digits n
    let point : Int := ds.length + e
    sign ++
      if 0 ≤ e ∧ point ≤ 16 then ds ++ zeros e.toNat ++ ".0"
      else if 0 < point ∧ point ≤ 16 then
        String.ofList (ds.toList.take point.toNat) ++ "." ++
          String.ofList (ds.toList.drop point.toNat)
      else if -5 < point ∧ point ≤ 0 then "0." ++ zeros (-point).toNat ++ ds
      else
        let fraction := String.ofList (ds.toList.drop 1)
        let tail := if fraction.isEmpty then "" else "." ++ fraction
        let power := if 0 < point then "e+" ++ digits (point - 1).toNat
          else "e-" ++ digits (1 - point).toNat
        String.ofList (ds.toList.take 1) ++ tail ++ power

/-- The text of a finite number with so many decimals, rounded to the nearest and to the even one
of two nearest. -/
def fixedText (x : Double) (decimals : Nat) : String :=
  let (n, d) := x.ratio
  let scale := Nat.pow 10 decimals
  let units := roundDiv (n * scale) d
  let fraction := digits (units % scale)
  (if x.isNegative then "-" else "") ++ digits (units / scale) ++ "." ++
    zeros (decimals - fraction.length) ++ fraction

end ScriptSandbox.Double
