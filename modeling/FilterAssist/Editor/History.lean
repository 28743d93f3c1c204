import FilterAssist.Text.Pieces

/-! The lines that were submitted before, oldest first, as many as are kept. -/

namespace FilterAssist.Editor

structure History where
  room : Nat
  lines : List String := []
  deriving DecidableEq, Repr

namespace History

def fit (h : History) : History := { h with lines := h.lines.drop (h.lines.length - h.room) }

/-- A line that repeats the last one is not kept again. -/
def push (h : History) (line : String) : History :=
  if h.lines.getLast? = some line then h else { h with lines := h.lines ++ [line] }.fit

/-- What stands in a file for the end of a row inside a line. -/
def rowEnd : List Char := "<\\n>".toList

def row (line : String) : String :=
  String.ofList (line.toList.flatMap fun c => if c == '\n' then rowEnd else [c])

def unrow : List Char → List Char
  | '<' :: '\\' :: 'n' :: '>' :: rest => '\n' :: unrow rest
  | c :: rest => c :: unrow rest
  | [] => []

def text (h : History) : String := String.join (h.lines.map fun line => row line ++ "\n")

def ofText (room : Nat) (text : String) : History :=
  let rows := (Text.pieces '\n' text.toList).filter (· != [])
  fit ⟨room, rows.map fun row => String.ofList (unrow row)⟩

end History

end FilterAssist.Editor
