import FilterAssist.Query.Token
import FilterAssist.Report.Style
import FilterAssist.Text.Bytes

/-! Colouring a line: the line is cut into pieces, one for each token and one for each
gap between tokens. Tokens count characters, but the line is cut by bytes. -/

namespace FilterAssist.Editor

open Query

structure Piece where
  style : String
  text : String
  deriving DecidableEq, Repr

def gap? (line : List Char) (start stop : Nat) : Option (List Piece) :=
  if start < stop then
    (Text.sliceBytes? start stop line).map fun cs => [⟨"", String.ofList cs⟩]
  else some []

def pieces? (line : List Char) (offsets : List Nat) (last : Nat) :
    List Token → Option (List Piece)
  | [] => gap? line last (Text.byteLength line)
  | t :: ts => do
    let start ← offsets[t.start]?
    let stop ← offsets[t.stop]?
    let before ← gap? line last start
    let own ← Text.sliceBytes? start stop line
    let later ← pieces? line offsets stop ts
    return before ++ ⟨Report.style t.kind, String.ofList own⟩ :: later

/-- The pieces of a whole line; `none` if a byte is looked for that is not there, or a cut
would go through a character. -/
def cut? (line : String) : Option (List Piece) :=
  pieces? line.toList (Text.byteOffsets 0 line.toList) 0 (tokenize line)

/-- A line that is not coloured is one piece, even an empty one. -/
def highlight (enabled : Bool) (line : String) : List Piece :=
  if enabled then (cut? line).getD [] else [⟨"", line⟩]

end FilterAssist.Editor
