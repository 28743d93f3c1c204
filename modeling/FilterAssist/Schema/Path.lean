import FilterAssist.Schema.Basic
import FilterAssist.Text.Dotted

/-! Walking a dotted path through a schema. A relation moves the walk to its target,
a scalar ends it; whatever cannot be followed to its end resolves to nothing. -/

namespace FilterAssist

inductive Resolved where
  | model (name : String)
  | field (model name : String) (kind : ScalarKind)
  deriving DecidableEq, Repr

namespace Schema

/-- Follow the segments from `model`. Only the last model reached has to be looked
for by name; the ones on the way are looked for by their fields. -/
def walk (s : Schema) (model : String) : List String → Option Resolved
  | [] => if s.hasModel model then some (.model model) else none
  | segment :: rest =>
    match s.field? model segment with
    | none => none
    | some (.relation target) => s.walk target rest
    | some (.scalar kind) => if rest.isEmpty then some (.field model segment kind) else none

def resolve (s : Schema) (root : Option String) (path : String) : Option Resolved :=
  root.bind fun r => s.walk r ((Text.segments path.toList).map String.ofList)

end Schema

end FilterAssist
