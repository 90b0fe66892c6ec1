/-!
Binary floating-point numbers of 64 bits, by their bits, with operations in exact arithmetic that
round once, to the nearest number and to the even one of two nearest.
-/

namespace ScriptSandbox

/-- A quotient rounded to the nearest natural number, and to the even one of two nearest. -/
def roundDiv (n d : Nat) : Nat :=
  let q := n / d
  let r := n % d
  if 2 * r < d || (2 * r == d && q % 2 == 0) then q else q + 1

/-- A rounded quotient lies within half a unit of the exact one. -/
theorem roundDiv_near {n d : Nat} (h : 0 < d) :
    2 * n ≤ 2 * d * roundDiv n d + d ∧ 2 * d * roundDiv n d ≤ 2 * n + d := by
  have hmod := Nat.mod_lt n h
  have hdiv := Nat.div_add_mod n d
  unfold roundDiv
  generalize n / d = q at *
  generalize n % d = r at *
  subst hdiv
  have hq : d * (q + 1) = d * q + d := Nat.mul_succ d q
  simp only [Bool.or_eq_true, Bool.and_eq_true, decide_eq_true_eq, beq_iff_eq]
  split
  · rw [Nat.mul_assoc]
    omega
  · rw [Nat.mul_assoc]
    omega

structure Double where
  bits : UInt64
deriving DecidableEq

namespace Double

def signBit : Nat := Nat.pow 2 63

/-- The least significand of a number that is not among the smallest. -/
def leastNormal : Nat := Nat.pow 2 52

def isNegative (x : Double) : Bool :=
  signBit ≤ x.bits.toNat

def magnitude (x : Double) : Nat :=
  x.bits.toNat % signBit

def infinity : Nat := 0x7FF0000000000000

/-- Whether the number is neither infinite nor undefined. -/
def isFinite (x : Double) : Bool :=
  x.magnitude < infinity

/-- The factor `m` of a finite number `m · 2 ^ q`. -/
def significand (x : Double) : Nat :=
  if x.magnitude < leastNormal then x.magnitude else x.magnitude % leastNormal + leastNormal

/-- The exponent `q` of a finite number `m · 2 ^ q`. -/
def exponent (x : Double) : Int :=
  if x.magnitude < leastNormal then -1074 else ((x.magnitude / leastNormal : Nat) : Int) - 1075

def ofMagnitude (negative : Bool) (magnitude : Nat) : Double :=
  ⟨UInt64.ofNat (if negative then magnitude + signBit else magnitude)⟩

def scaled (n d : Nat) (q : Int) : Nat × Nat :=
  if 0 ≤ q then (n * Nat.pow 2 q.toNat, d) else (n, d * Nat.pow 2 (-q).toNat)

/-- The bits, without sign, of the number nearest to `n / d`. -/
def nearest (n d : Nat) : Nat :=
  if n = 0 then 0
  else
    let guess : Int := max ((n.log2 : Int) - d.log2 - 52) (-1074)
    let (a, b) := scaled n d (-guess)
    -- The guess is one too large where the quotient does not fill the significand.
    let q := if a < leastNormal * b ∧ -1074 < guess then guess - 1 else guess
    let (a, b) := scaled n d (-q)
    min (roundDiv a b + (q + 1074).toNat * leastNormal) infinity

/-- The number nearest to `n / d`, with a sign. -/
def ofRatio (negative : Bool) (n d : Nat) : Double :=
  ofMagnitude negative (nearest n d)

def ofNat (n : Nat) : Double :=
  ofRatio false n 1

def ratio (x : Double) : Nat × Nat :=
  scaled x.significand 1 x.exponent

def mul (x y : Double) : Double :=
  ofRatio false (x.ratio.1 * y.ratio.1) (x.ratio.2 * y.ratio.2)

def div (x y : Double) : Double :=
  ofRatio false (x.ratio.1 * y.ratio.2) (x.ratio.2 * y.ratio.1)

def powerOfTen (e : Nat) : Double :=
  ofNat (Nat.pow 10 e)

def withSign (negative : Bool) (x : Double) : Double :=
  ofMagnitude negative x.magnitude

/-- A number divided by a power of ten. As powers of ten are numbers only up to the 308th, a
greater one is taken in steps. -/
def divPowerOfTen (x : Double) (e : Nat) : Double :=
  if e ≤ 308 then x.div (powerOfTen e)
  else if x.magnitude = 0 then x
  else divPowerOfTen (x.div (powerOfTen 308)) (e - 308)
termination_by e

/-- A decimal `significand · 10 ^ exponent` as a number: the significand is rounded first and then
multiplied or divided once. There is none if the product is too large. -/
def ofDecimal? (negative : Bool) (significand : Nat) (exponent : Int) : Option Double :=
  let x := ofNat significand
  if exponent < 0 then some (withSign negative (x.divPowerOfTen (-exponent).toNat))
  else if x.magnitude = 0 then some (withSign negative x)
  else if 308 < exponent then none
  else
    let y := x.mul (powerOfTen exponent.toNat)
    if y.isFinite then some (withSign negative y) else none

end Double

end ScriptSandbox
