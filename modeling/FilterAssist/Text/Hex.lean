/-! Hexadecimal digits. -/

namespace FilterAssist.Text

def hexValue? (c : Char) : Option Nat :=
  if c.isDigit then some (c.toNat - '0'.toNat)
  else if 'a' ≤ c && c ≤ 'f' then some (c.toNat - 'a'.toNat + 10)
  else if 'A' ≤ c && c ≤ 'F' then some (c.toNat - 'A'.toNat + 10)
  else none

def isHexDigit (c : Char) : Bool := (hexValue? c).isSome

def ofHex? (digits : List Char) : Option Nat :=
  digits.foldlM (fun n c => (hexValue? c).map (16 * n + ·)) 0

def toHex (n : Nat) : List Char := Nat.toDigits 16 n

/-- The digits, filled up with zeros on the left to the given width. -/
def toHexPadded (width n : Nat) : List Char :=
  List.replicate (width - (toHex n).length) '0' ++ toHex n

def charOfNat? (n : Nat) : Option Char :=
  if h : n.isValidChar then some (Char.ofNatAux n h) else none

end FilterAssist.Text
