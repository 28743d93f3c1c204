import FilterAssist.Log
import FilterAssist.Offer
import FilterAssist.Text.Bytes
import FilterAssist.Text.Quoted

/-! The assistant of one session: a schema, perhaps another root model than the
schema's own, perhaps a source of values. -/

namespace FilterAssist

open Cursor

structure Assistant where
  schema : Schema
  rootOverride : Option String := none
  values : Option ValueSource := none

structure Replacement where
  text : String
  start : Nat
  stop : Nat
  deriving DecidableEq, Repr

namespace Assistant

def root (a : Assistant) : Option String :=
  match a.rootOverride with
  | some model => some model
  | none => a.schema.root

def withRoot (a : Assistant) (model : String) : Assistant := { a with rootOverride := some model }

def withValues (a : Assistant) (values : ValueSource) : Assistant := { a with values := some values }

def context (a : Assistant) (text : String) (cursor : Nat) : Context :=
  contextAt a.schema a.root text cursor

/-- What to offer at the cursor, which counts characters. -/
def complete (a : Assistant) (text : String) (cursor : Nat) : Offer :=
  Offer.forContext a.schema a.values (a.context text cursor)

/-- The part of a line before a position in bytes; the whole line for a position inside
a character or past the end. -/
def headOf (line : String) (pos : Nat) : List Char :=
  (Text.takeBytes? pos line.toList).getD line.toList

/-- The byte at which a candidate sets in, and the candidates. What is typed ends at
the cursor, so it is enough to go back over it. -/
def completeLine (a : Assistant) (line : String) (pos : Nat) : Nat × List String :=
  let head := headOf line pos
  let offer := a.complete line head.length
  (Text.byteLength head - Text.byteLength offer.typed.toList, offer.items)

/-- The candidates as replacements up to `pos`. There is no such range when the first
byte to replace lies behind `pos`. -/
def replacements? (a : Assistant) (line : String) (pos : Nat) : Option (List Replacement) :=
  let (start, items) := a.completeLine line pos
  if start ≤ pos || items.isEmpty then some (items.map (⟨·, start, pos⟩)) else none

def contextLog (a : Assistant) (text : String) (cursor : Nat) : List LogLine :=
  match classify a.schema a.root (View.before text cursor) with
  | .ok _ => []
  | .error silence => silence.remark?.toList.map (⟨.trace, ·⟩)

def completeLog (a : Assistant) (text : String) (cursor : Nat) : List LogLine :=
  let offer := a.complete text cursor
  a.contextLog text cursor ++
    [⟨.debug, "Completion at " ++ Nat.repr cursor ++ ": " ++ (a.context text cursor).scope.label
      ++ " prefix=" ++ Text.quoted offer.typed ++ " candidates=" ++ Nat.repr offer.items.length⟩]

def summary (a : Assistant) : String :=
  let root := match a.root with
    | some model => "Some(" ++ Text.quoted model ++ ")"
    | none => "None"
  "CompletionEngine \x7b models: " ++ Nat.repr a.schema.models.size ++ ", root_model: " ++ root
    ++ ", values: " ++ (if a.values.isSome then "true" else "false") ++ " \x7d"

end Assistant

end FilterAssist
