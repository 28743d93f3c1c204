import FilterAssist.Error
import FilterAssist.Json.Decode
import FilterAssist.Json.Reader
import FilterAssist.Schema.Basic

/-! Schemas as documents declare them. A document is read in three steps: its members
are decoded into declarations, keys given twice are merged (first place, last value),
and every declaration that is left is checked and becomes a field. -/

namespace FilterAssist

structure FieldDecl where
  typeName : String
  target : Option String
  deriving DecidableEq, Repr

/-- The entries of a schema document in their order, keys possibly repeated. -/
structure SchemaEntries where
  models : List (String × List (String × FieldDecl))
  root : Option String
  deriving DecidableEq, Repr

structure Declaration where
  models : Table (Table FieldDecl)
  root : Option String
  deriving DecidableEq

def relationType : String := "relation"

/-- A relation names its target, and nothing else does. -/
def FieldDecl.toFieldDef (d : FieldDecl) : Except String FieldDef :=
  if d.typeName = relationType then
    match d.target with
    | some target =>
      if target = "" then .error "relation field has no target model" else .ok (.relation target)
    | none => .error "relation field has no target model"
  else
    match d.target with
    | some _ => .error "only relation fields may name a target model"
    | none => .ok (.scalar (.ofTypeName d.typeName))

namespace Declaration

def ofEntries (e : SchemaEntries) : Declaration :=
  ⟨Table.ofList (e.models.map fun (name, fields) => (name, Table.ofList fields)), e.root⟩

def buildModel (model : String) (fields : Table FieldDecl) : Except SchemaError Model :=
  fields.entries.foldlM
    (fun built (field, decl) =>
      match decl.toFieldDef with
      | .ok fieldDef => .ok (built.insert field fieldDef)
      | .error reason => .error (.inconsistentField model field reason))
    Table.empty

def toSchema (d : Declaration) : Except SchemaError Schema :=
  d.models.entries.foldlM
    (fun schema (name, fields) => (buildModel name fields).map (schema.insertModel name))
    (Schema.empty.setRoot d.root)

end Declaration

namespace SchemaEntries

/-- A field is an object with a type and perhaps a relation, or a list of the two. -/
def fieldDecl? : Json → Option FieldDecl
  | .object members =>
    match Json.valuesAt ["type"] members, Json.optionalString? ["relation"] members with
    | [.string typeName], some target => some ⟨typeName, target⟩
    | _, _ => none
  | .array [.string typeName] => some ⟨typeName, none⟩
  | .array [.string typeName, target] => target.stringOrNull?.map (⟨typeName, ·⟩)
  | _ => none

def models? (v : Json) : Option (List (String × List (String × FieldDecl))) :=
  v.entries? fun model => model.entries? fieldDecl?

/-- Decode the members of a document; other keys than these are ignored. -/
def ofMembers? (members : List (String × Json)) : Option SchemaEntries :=
  match Json.valuesAt ["models"] members,
      Json.optionalString? ["currentModel", "rootModel"] members with
  | [v], some root => (models? v).map (⟨·, root⟩)
  | _, _ => none

/-- Decode a document. The first thing wrong with its outline is what is reported. -/
def ofText (text : String) : Except SchemaError SchemaEntries :=
  match Json.parse? text with
  | none => .error (.malformed "not a JSON document")
  | some (.object members) =>
    if (Json.valuesAt ["models"] members).isEmpty then .error .missingModels
    else match ofMembers? members with
      | none => .error (.malformed "unexpected shape")
      | some entries => .ok entries
  | some _ => .error .notAnObject

end SchemaEntries

def Schema.ofText (text : String) : Except SchemaError Schema := do
  let entries ← SchemaEntries.ofText text
  (Declaration.ofEntries entries).toSchema

end FilterAssist
