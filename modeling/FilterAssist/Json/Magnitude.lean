import FilterAssist.Text.Number

/-! How large a number may be. A number is read as 64 bits of leading digits times a power
of ten. Both are rounded to doubles and then multiplied, so that near the largest double
the product decides, not the number as it is written. -/

namespace FilterAssist.Json

def roundHalfEven (n unit : Nat) : Nat :=
  let q := n / unit
  let twice := 2 * (n % unit)
  if twice < unit then q
  else if unit < twice then q + 1
  else q + q % 2

/-- The whole number of 53 significant bits that is nearest. -/
def nearestDouble (n : Nat) : Nat :=
  let unit := Nat.pow 2 (n.log2 + 1 - 53)
  roundHalfEven n unit * unit

structure Magnitude where
  significand : Nat
  exponent : Int
  deriving DecidableEq, Repr

namespace Magnitude

def push? (m : Magnitude) (digit : Char) : Option Nat :=
  let next := 10 * m.significand + (digit.toNat - '0'.toNat)
  if next < Nat.pow 2 64 then some next else none

/-- Digits in front of the point. From the first without room on, each is a zero. -/
def addWhole (m : Magnitude) : List Char → Magnitude
  | [] => m
  | d :: ds =>
    match m.push? d with
    | some significand => addWhole { m with significand } ds
    | none => { m with exponent := m.exponent + (ds.length + 1) }

theorem addWhole_of_push? {m : Magnitude} {d : Char} {significand : Nat}
    (room : m.push? d = some significand) (ds : List Char) :
    m.addWhole (d :: ds) = addWhole { m with significand } ds := by
  -- not by the definition's own equation, which would unfold the limit of 64 bits
  change (match m.push? d with
    | some significand => addWhole { m with significand } ds
    | none => { m with exponent := m.exponent + (ds.length + 1) }) = _
  rw [room]

/-- Digits behind the point. From the first without room on, none counts. -/
def addFraction (m : Magnitude) : List Char → Magnitude
  | [] => m
  | d :: ds =>
    match m.push? d with
    | some significand => addFraction ⟨significand, m.exponent - 1⟩ ds
    | none => m

def ofNumber (n : Text.Number) : Magnitude :=
  let m := ((⟨0, 0⟩ : Magnitude).addWhole n.whole).addFraction n.fraction.tail
  { m with exponent := m.exponent + n.exponentValue }

/-- Whether the product is beyond every double. There is no double for a power of ten
above the 308th; below the point nothing can become too large. -/
def isTooLarge (m : Magnitude) : Bool :=
  if m.significand = 0 || m.exponent < 0 then false
  else if 308 < m.exponent then true
  else Text.doubleLimit ≤ nearestDouble m.significand * nearestDouble (Nat.pow 10 m.exponent.toNat)

end Magnitude

end FilterAssist.Json
