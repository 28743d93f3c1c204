/-! Decimal number texts: an optional minus, a whole part without leading zeros, an
optional fraction, an optional exponent. Queries and data documents share this form. -/

namespace FilterAssist.Text

def digits (cs : List Char) : List Char := cs.takeWhile Char.isDigit

/-- A whole number has no leading zero. -/
def wholePart : List Char → Option (List Char)
  | [] => none
  | c :: cs =>
    if c == '0' then some [c]
    else if c.isDigit then some (c :: digits cs)
    else none

/-- A dot with at least one digit behind it, else nothing. -/
def fractionPart : List Char → List Char
  | [] => []
  | c :: cs =>
    if c == '.' then
      if (digits cs).isEmpty then [] else c :: digits cs
    else []

def signPart : List Char → List Char
  | [] => []
  | c :: _ => if c == '+' || c == '-' then [c] else []

def exponentPart : List Char → List Char
  | [] => []
  | c :: cs =>
    if c == 'e' || c == 'E' then
      let sign := signPart cs
      let ds := digits (cs.drop sign.length)
      if ds.isEmpty then [] else c :: sign ++ ds
    else []

structure Number where
  sign : List Char
  whole : List Char
  fraction : List Char
  exponent : List Char
  deriving DecidableEq, Repr

namespace Number

def source (n : Number) : List Char := n.sign ++ n.whole ++ n.fraction ++ n.exponent

def isInteger (n : Number) : Bool := n.fraction.isEmpty && n.exponent.isEmpty

def scan? (cs : List Char) : Option Number :=
  let sign := if cs.head? == some '-' then ['-'] else []
  let afterSign := cs.drop sign.length
  (wholePart afterSign).map fun whole =>
    let afterWhole := afterSign.drop whole.length
    let fraction := fractionPart afterWhole
    ⟨sign, whole, fraction, exponentPart (afterWhole.drop fraction.length)⟩

theorem source_ne_nil_of_scan? {cs : List Char} {n : Number} (h : scan? cs = some n) :
    n.source ≠ [] := by
  obtain ⟨whole, hw, rfl⟩ := Option.map_eq_some_iff.1 h
  have : whole ≠ [] := by
    rintro rfl
    unfold wholePart at hw
    split at hw <;> grind
  simp [source, this]

end Number

def ofDigits (ds : List Char) : Nat :=
  ds.foldl (fun n d => 10 * n + (d.toNat - '0'.toNat)) 0

/-- The least magnitude that no double is nearest to: halfway between the largest
double and the next power of two. -/
def doubleLimit : Nat := Nat.pow 2 1024 - Nat.pow 2 970

/-- Whether `significand * 10 ^ exponent` is too large for a double. Only numbers with
309 places in front of the point have to be compared with the limit. -/
def exceedsDouble (significand : Nat) (exponent : Int) : Bool :=
  if significand = 0 then false
  else
    let places : Int := (Nat.toDigits 10 significand).length + exponent
    if places > 309 then true
    else if places < 309 then false
    else if 0 ≤ exponent then doubleLimit ≤ significand * Nat.pow 10 exponent.toNat
    else doubleLimit * Nat.pow 10 (-exponent).toNat ≤ significand

def Number.exponentValue (n : Number) : Int :=
  match n.exponent with
  | _ :: '-' :: ds => -(ofDigits ds : Int)
  | _ :: '+' :: ds => ofDigits ds
  | _ :: ds => ofDigits ds
  | [] => 0

def Number.exceedsDouble (n : Number) : Bool :=
  let fraction := n.fraction.tail
  Text.exceedsDouble (ofDigits (n.whole ++ fraction)) (n.exponentValue - fraction.length)

end FilterAssist.Text
