import FilterAssist.Text.Hex

/-! Writing TOML: sections of plain entries. A string is written in the plainest form
that can hold it. -/

namespace FilterAssist.Toml

inductive Scalar where
  | string (s : String)
  | integer (n : Nat)
  | bool (b : Bool)
  deriving DecidableEq, Repr

def longestRun (c : Char) (cs : List Char) : Nat :=
  (cs.foldl (fun (longest, run) d =>
    let run := if d == c then run + 1 else 0
    (max longest run, run)) (0, 0)).1

/-- Controls that can only be written as an escape. -/
def needsEscape (c : Char) : Bool := c != '\t' && c != '\n' && (c < ' ' || c == '\x7f')

inductive StringForm where
  | basic
  | literal
  | basicLines
  | literalLines
  deriving DecidableEq, Repr

/-- Prefer a form in which nothing has to be escaped, short forms first. -/
def formFor (cs : List Char) : StringForm :=
  let control := cs.any needsEscape
  let backslash := cs.contains '\\'
  let newline := cs.contains '\n'
  if !control && !backslash && !newline && !cs.contains '"' then .basic
  else if !control && !newline && !cs.contains '\'' then .literal
  else if !control && !backslash && longestRun '"' cs ≤ 2 then .basicLines
  else if !control && longestRun '\'' cs ≤ 2 then .literalLines
  else if newline then .basicLines
  else .basic

def escapeChar (multiline : Bool) (c : Char) : List Char :=
  if c == '\\' then ['\\', '\\']
  else if c == '\x08' then ['\\', 'b']
  else if c == '\t' then ['\\', 't']
  else if c == '\n' && !multiline then ['\\', 'n']
  else if c == '\x0c' then ['\\', 'f']
  else if c == '\r' then ['\\', 'r']
  else if needsEscape c then '\\' :: 'u' :: (Text.toHexPadded 4 c.toNat).map Char.toUpper
  else [c]

/-- The inside of a basic string. On several lines two quotes in a row may stay as
they are; `run` counts those just written. -/
def escapeText (multiline : Bool) (run : Nat) : List Char → List Char
  | [] => []
  | c :: cs =>
    if c == '"' then
      if run < (if multiline then 2 else 0) then c :: escapeText multiline (run + 1) cs
      else '\\' :: c :: escapeText multiline 0 cs
    else escapeChar multiline c ++ escapeText multiline 0 cs

/-- Text of several lines starts on a line of its own. -/
def opening (cs : List Char) : List Char := if cs.contains '\n' then ['\n'] else []

def writeString (cs : List Char) : List Char :=
  match formFor cs with
  | .basic => '"' :: escapeText false 0 cs ++ ['"']
  | .literal => '\'' :: cs ++ ['\'']
  | .basicLines => "\"\"\"".toList ++ opening cs ++ escapeText true 0 cs ++ "\"\"\"".toList
  | .literalLines => "'''".toList ++ opening cs ++ cs ++ "'''".toList

def Scalar.text : Scalar → String
  | .string s => String.ofList (writeString s.toList)
  | .integer n => Nat.repr n
  | .bool true => "true"
  | .bool false => "false"

structure Section where
  name : String
  entries : List (String × Scalar)
  deriving DecidableEq, Repr

def Section.text (s : Section) : String :=
  "[" ++ s.name ++ "]\n"
    ++ String.join (s.entries.map fun (key, value) => key ++ " = " ++ value.text ++ "\n")

def write (sections : List Section) : String :=
  String.intercalate "\n" (sections.map Section.text)

end FilterAssist.Toml
