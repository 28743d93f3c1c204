/-! Positions counted in UTF-8 bytes. -/

namespace FilterAssist.Text

def byteLength : List Char → Nat
  | [] => 0
  | c :: cs => c.utf8Size + byteLength cs

/-- The first `n` bytes as whole characters; `none` when byte `n` lies inside a
character or past the end. -/
def takeBytes? (n : Nat) : List Char → Option (List Char)
  | [] => if n = 0 then some [] else none
  | c :: cs =>
    if n = 0 then some []
    else if n < c.utf8Size then none
    else (takeBytes? (n - c.utf8Size) cs).map (c :: ·)

def sliceBytes? (start stop : Nat) (cs : List Char) : Option (List Char) :=
  (takeBytes? stop cs).bind fun front =>
    (takeBytes? start front).map fun before => front.drop before.length

/-- The byte at which each character starts, and at last the byte behind them all; the
first is byte `n`. -/
def byteOffsets (n : Nat) : List Char → List Nat
  | [] => [n]
  | c :: cs => n :: byteOffsets (n + c.utf8Size) cs

end FilterAssist.Text
