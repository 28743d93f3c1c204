import FilterAssist.Query.Token
import FilterAssist.Text.Space

/-! What stands before the cursor. A token that reaches the cursor may still grow, so
it does not count as complete; it is part of the trailing text, which is kept raw
because the lexer may not recognise it yet. -/

namespace FilterAssist.Cursor

open Query

structure View where
  completed : List Token
  trailing : List Char
  deriving DecidableEq, Repr

namespace View

/-- The tokens of a text without the last one, if that reaches the end. -/
def completedOf (head : List Char) : List Token :=
  let tokens := tokenize (String.ofList head)
  match tokens.getLast? with
  | some t => if t.stop ≥ head.length then tokens.dropLast else tokens
  | none => tokens

def ofHead (head : List Char) : View :=
  let completed := completedOf head
  let start := match completed.getLast? with
    | some t => t.stop
    | none => 0
  ⟨completed, head.drop start⟩

/-- The view from the cursor. What stands behind the cursor has no say, and a cursor
past the end stands at the end. -/
def before (text : String) (cursor : Nat) : View := ofHead (text.toList.take cursor)

def last? (v : View) : Option Token := v.completed.getLast?

def beforeLast? (v : View) : Option Token := v.completed.dropLast.getLast?

def lastKind? (v : View) : Option Kind := v.last?.map Token.kind

def beforeLastKind? (v : View) : Option Kind := v.beforeLast?.map Token.kind

def spaced (v : View) : Bool := v.trailing.head?.any Text.isSpace

/-- What is being typed. An opening parenthesis alone is structure, not text. -/
def typed (v : View) : List Char :=
  let text := v.trailing.dropWhile Text.isSpace
  if text = ['('] then [] else text

end View

end FilterAssist.Cursor
