import FilterAssist.Error
import FilterAssist.Json.Decode
import FilterAssist.Json.Reader
import FilterAssist.Table

/-! Values to offer, listed per model and field. A table of them is one source of
values; the assistant takes any. -/

namespace FilterAssist

abbrev ValueTable := Table (Table (List String))

namespace ValueTable

def withValues (t : ValueTable) (model field : String) (values : List String) : ValueTable :=
  t.insert model (((t.get? model).getD .empty).insert field values)

/-- A path that ends on a model has no field, and so no values. -/
def valuesOf (t : ValueTable) (model : String) (field : Option String) : List String :=
  (field.bind fun name => (t.get? model).bind (·.get? name)).getD []

def strings? : Json → Option (List String)
  | .array items => items.mapM Json.string?
  | _ => none

def fieldValues? (v : Json) : Option (Table (List String)) :=
  (v.entries? strings?).map Table.ofList

def ofJson? (v : Json) : Option ValueTable :=
  (v.entries? fieldValues?).map Table.ofList

def ofText (text : String) : Except SettingsError ValueTable :=
  match (Json.parse? text).bind ofJson? with
  | some t => .ok t
  | none => .error (.malformed "value table: not an object of objects of string lists")

end ValueTable

/-- Anything that lists values of a field. It is told what is typed and may narrow the
list by it; a path that ends on a model has no field. -/
structure ValueSource where
  list : String → Option String → String → List String

def ValueSource.empty : ValueSource := ⟨fun _ _ _ => []⟩

def ValueTable.source (t : ValueTable) : ValueSource :=
  ⟨fun model field _ => t.valuesOf model field⟩

instance : Coe ValueTable ValueSource := ⟨ValueTable.source⟩

end FilterAssist
