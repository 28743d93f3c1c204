import FilterAssist.Text.Hex
import FilterAssist.Text.Pieces

/-! Log lines and the levels that hold them back. -/

namespace FilterAssist

/-- From the least to the most talkative. -/
inductive Level where
  | error
  | warn
  | info
  | debug
  | trace
  deriving DecidableEq, Repr

namespace Level

def rank : Level → Nat
  | .error => 0
  | .warn => 1
  | .info => 2
  | .debug => 3
  | .trace => 4

def shownAt (level limit : Level) : Bool := level.rank ≤ limit.rank

def word : Level → String
  | .error => "error"
  | .warn => "warn"
  | .info => "info"
  | .debug => "debug"
  | .trace => "trace"

def label : Level → String
  | .error => "ERROR"
  | .warn => "WARN"
  | .info => "INFO"
  | .debug => "DEBUG"
  | .trace => "TRACE"

def all : List Level := [.error, .warn, .info, .debug, .trace]

def ofWord? (word : String) : Option Level := all.find? fun level => level.word = word

end Level

structure LogLine where
  level : Level
  message : String
  deriving DecidableEq, Repr

/-- Characters that could steer a terminal are shown by number. -/
def inertChar (c : Char) : List Char :=
  if c == '\x07' || c == '\x08' || c == '\x0c' || c == '\x1b' || c == '\x7f' then
    '\\' :: 'x' :: Text.toHexPadded 2 c.toNat
  else if 0x80 ≤ c.toNat && c.toNat < 0xa0 then
    ['\\', 'u', '\x7b'] ++ Text.toHex c.toNat ++ ['\x7d']
  else [c]

def LogLine.render (line : LogLine) : String :=
  let label := line.level.label.toList
  String.ofList (List.replicate (5 - label.length) ' ' ++ label ++ ' ' ::
    line.message.toList.flatMap inertChar)

/-- The rows that a text takes up. A carriage return at the end of a row belongs to the
line break. -/
def rowsOf (text : String) : List String :=
  (Text.pieces '\n' text.toList).map fun row =>
    String.ofList (if row.getLast? = some '\r' then row.dropLast else row)

def logRows (lines : List LogLine) : List String :=
  lines.flatMap fun line => rowsOf line.render

end FilterAssist
