import FilterAssist.Cursor.Context
import FilterAssist.ValueTable

/-! Candidates for a context: everything that may stand there and continues what is
typed. -/

namespace FilterAssist

open Cursor Query

structure Offer where
  typed : String
  items : List String
  deriving DecidableEq, Repr

def equalityOperators : List String := [Comparison.equal, .notEqual].map Comparison.sign

def containsOperators : List String := [Comparison.contains, .notContains].map Comparison.sign

def orderingOperators : List String :=
  [Comparison.greater, .greaterEqual, .less, .lessEqual].map Comparison.sign
    ++ [Keyword.membership.word, Keyword.negation.word ++ " " ++ Keyword.membership.word]

/-- The operators a field takes. A path to a model can only be compared for equality,
and so can a truth value. -/
def operatorsFor : Option FieldDef → List String
  | some (.scalar .bool) => equalityOperators
  | some (.scalar .text) => equalityOperators ++ containsOperators ++ orderingOperators
  | some (.scalar _) => equalityOperators ++ orderingOperators
  | some (.relation _) | none => equalityOperators

def connectors : List String := [Keyword.conjunction.word, Keyword.disjunction.word]

/-- The items that begin with the typed text, in their order. -/
def continuing (typed : String) (items : List String) : List String :=
  items.filter fun item => typed.toList.isPrefixOf item.toList

def candidates (s : Schema) (values : Option ValueSource) : Context → List String
  | .field _ (some model) => s.fieldNames model
  | .field _ none => []
  | .comparison _ _ field => operatorsFor (field.map (·.fieldDef))
  | .value typed model field =>
    match values with
    | some source => source.list model (field.map (·.name)) typed
    | none => []
  | .logical _ => connectors
  | .nothing => []

def Offer.forContext (s : Schema) (values : Option ValueSource) (c : Context) : Offer :=
  ⟨c.typed, continuing c.typed (candidates s values c)⟩

end FilterAssist
