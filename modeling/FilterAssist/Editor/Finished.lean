import FilterAssist.Text.Space

/-! Whether a line is finished or goes on: it goes on while a string or a parenthesis
is open. -/

namespace FilterAssist.Editor

inductive Mode where
  | code
  | string
  | escaped
  deriving DecidableEq, Repr

structure Scan where
  mode : Mode
  /-- Parentheses opened less those closed, in a counter of 32 bits; below zero when more
  were closed. -/
  depth : Int32
  deriving DecidableEq, Repr

namespace Scan

def start : Scan := ⟨.code, 0⟩

def step (s : Scan) (c : Char) : Scan :=
  match s.mode with
  | .escaped => { s with mode := .string }
  | .string =>
    if c == '\\' then { s with mode := .escaped }
    else if c == '"' then { s with mode := .code }
    else s
  | .code =>
    if c == '"' then { s with mode := .string }
    else if c == '(' then { s with depth := s.depth + 1 }
    else if c == ')' then { s with depth := s.depth - 1 }
    else s

end Scan

def isBalanced (line : String) : Bool :=
  let s := line.toList.foldl Scan.step Scan.start
  s.mode == .code && s.depth ≤ 0

/-- A line of blanks is always finished. -/
def isFinished (line : String) : Bool := line.toList.all Text.isSpace || isBalanced line

end FilterAssist.Editor
