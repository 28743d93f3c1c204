import FilterAssist.Table

/-! Schemas: models, each with its fields. A field is a scalar or points to another
model by name; the name need not exist, and cycles are allowed. Everything is kept in
the order of declaration. -/

namespace FilterAssist

inductive ScalarKind where
  | text
  | integer
  | float
  | bool
  | other (typeName : String)
  deriving DecidableEq, Repr

def ScalarKind.ofTypeName (name : String) : ScalarKind :=
  if name = "str" then .text
  else if name = "int" then .integer
  else if name = "float" then .float
  else if name = "bool" then .bool
  else .other name

def ScalarKind.typeName : ScalarKind → String
  | .text => "str"
  | .integer => "int"
  | .float => "float"
  | .bool => "bool"
  | .other name => name

def ScalarKind.isKnown : ScalarKind → Bool
  | .other _ => false
  | _ => true

inductive FieldDef where
  | scalar (kind : ScalarKind)
  | relation (target : String)
  deriving DecidableEq, Repr

abbrev Model := Table FieldDef

structure Schema where
  models : Table Model
  /-- The model in which paths start. It need not be declared. -/
  root : Option String
  deriving DecidableEq

namespace Schema

def empty : Schema := ⟨.empty, none⟩

instance : Inhabited Schema := ⟨empty⟩

/-- Add a model. One of the same name is replaced whole, in its place. -/
def insertModel (s : Schema) (name : String) (model : Model) : Schema :=
  { s with models := s.models.insert name model }

def setRoot (s : Schema) (root : Option String) : Schema :=
  { s with root := root }

def modelNames (s : Schema) : List String := s.models.keys

def hasModel (s : Schema) (name : String) : Bool := s.models.contains name

def field? (s : Schema) (model name : String) : Option FieldDef :=
  (s.models.get? model).bind (·.get? name)

def fieldNames (s : Schema) (model : String) : List String :=
  match s.models.get? model with
  | some m => m.keys
  | none => []

structure Link where
  model : String
  field : String
  target : String
  deriving DecidableEq, Repr

/-- Relations to models that are not declared. -/
def danglingLinks (s : Schema) : List Link :=
  s.models.entries.flatMap fun (model, fields) =>
    fields.entries.filterMap fun (field, fieldDef) =>
      match fieldDef with
      | .relation target => if s.hasModel target then none else some ⟨model, field, target⟩
      | .scalar _ => none

/-- Remarks worth a warning: dangling relations, then a root that is not declared. -/
def warnings (s : Schema) : List String :=
  (s.danglingLinks.map fun l =>
    "Relation '" ++ l.model ++ "." ++ l.field ++ "' points to unknown model '" ++ l.target ++ "'")
  ++ match s.root with
    | some root =>
      if s.hasModel root then [] else ["Root model '" ++ root ++ "' is not defined in the schema"]
    | none => []

end Schema

end FilterAssist
