import FilterAssist.Cursor.View
import FilterAssist.Schema.Path

/-! What may be typed at the cursor. The decision looks at the last two completed
tokens, at the raw text behind them, and at the schema for the paths in them. Where
nothing can be said there is no context, and the reason is kept. -/

namespace FilterAssist.Cursor

open Query

structure FieldRef where
  name : String
  fieldDef : FieldDef
  deriving DecidableEq, Repr

/-- Each context carries the text that a candidate has to continue. -/
inductive Context where
  | field (typed : String) (model : Option String)
  | comparison (typed model : String) (field : Option FieldRef)
  | value (typed model : String) (field : Option FieldRef)
  | logical (typed : String)
  | nothing
  deriving DecidableEq, Repr

inductive Scope where
  | field
  | comparison
  | value
  | logical
  | nothing
  deriving DecidableEq, Repr

def Scope.label : Scope → String
  | .field => "FIELD"
  | .comparison => "COMPARISON"
  | .value => "VALUE"
  | .logical => "LOGICAL"
  | .nothing => "NONE"

namespace Context

def scope : Context → Scope
  | .field .. => .field
  | .comparison .. => .comparison
  | .value .. => .value
  | .logical _ => .logical
  | .nothing => .nothing

def typed : Context → String
  | .field typed _ | .comparison typed _ _ | .value typed _ _ | .logical typed => typed
  | .nothing => ""

def model? : Context → Option String
  | .field _ model => model
  | .comparison _ model _ | .value _ model _ => some model
  | .logical _ | .nothing => none

def field? : Context → Option FieldRef
  | .comparison _ _ ref | .value _ _ ref => ref
  | _ => none

end Context

inductive Silence where
  | afterClosingParen
  /-- The path before the last dot does not lead to a model. -/
  | deadPath (path : String)
  | noRule
  deriving DecidableEq, Repr

def Silence.remark? : Silence → Option String
  | .afterClosingParen => some "Cursor right after ')', no completion"
  | .deadPath path => some ("Path '" ++ path ++ "' does not lead to a model")
  | .noRule => none

def startsCondition : Option Kind → Bool
  | none => true
  | some (.keyword .conjunction) | some (.keyword .disjunction) | some (.keyword .negation) => true
  | some _ => false

/-- Whether a field path is being typed. After a path `not` belongs to `not in`, so it
counts only where a condition may start. -/
def View.entersField (v : View) : Bool :=
  let before := v.beforeLastKind?
  (!v.spaced && v.typed.contains '.') ||
    match v.lastKind? with
    | none => true
    | some (.keyword .conjunction) | some (.keyword .disjunction) => v.spaced
    | some (.keyword .negation) =>
      v.spaced && (startsCondition before || before == some (.punct .openParen))
    | some (.punct .openParen) => startsCondition before
    | some _ => false

/-- The path being typed. A dot right behind a name goes on with that name. -/
def View.path (v : View) : List Char :=
  match v.last? with
  | some t =>
    if t.kind = .name && v.typed.head? == some '.' && !v.spaced then t.text.toList ++ v.typed
    else v.typed
  | none => v.typed

/-- The fields of the root, or of the model that the front of a dotted path leads to. -/
def fieldContext (s : Schema) (root : Option String) (v : View) : Except Silence Context :=
  match Text.splitLastDot v.path with
  | none => .ok (.field (String.ofList v.typed) root)
  | some (front, back) =>
    match s.resolve root (String.ofList front) with
    | some (.model m) => .ok (.field (String.ofList back) (some m))
    | _ => .error (.deadPath (String.ofList front))

def target : Resolved → String × Option FieldRef
  | .model m => (m, none)
  | .field m name kind => (m, some ⟨name, .scalar kind⟩)

def pathContext (s : Schema) (root : Option String) (path : String)
    (context : String → Option FieldRef → Context) : Except Silence Context :=
  match s.resolve root path with
  | some r => .ok (context (target r).1 (target r).2)
  | none => .error .noRule

/-- The context behind a blank, by the last completed token. -/
def spacedContext (s : Schema) (root : Option String) (v : View) : Except Silence Context :=
  let typed := String.ofList v.typed
  match v.last? with
  | none => .error .noRule
  | some last =>
    match last.kind with
    | .comparison _ =>
      match v.beforeLast? with
      | some path =>
        if path.kind = .name then pathContext s root path.text (.value typed) else .error .noRule
      | none => .error .noRule
    | .name => pathContext s root last.text (.comparison typed)
    | kind => if kind.endsComparison then .ok (.logical typed) else .error .noRule

def classify (s : Schema) (root : Option String) (v : View) : Except Silence Context :=
  if v.trailing = [')'] then .error .afterClosingParen
  else if v.entersField then fieldContext s root v
  else if v.spaced then spacedContext s root v
  else .error .noRule

def contextAt (s : Schema) (root : Option String) (text : String) (cursor : Nat) : Context :=
  match classify s root (View.before text cursor) with
  | .ok context => context
  | .error _ => .nothing

end FilterAssist.Cursor
