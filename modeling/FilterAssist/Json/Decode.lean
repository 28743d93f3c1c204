import FilterAssist.Json.Basic

/-! Taking JSON values apart. Each function answers `none` for a value of another shape. -/

namespace FilterAssist

namespace Json

def entries? {α : Type} (decode : Json → Option α) : Json → Option (List (String × α))
  | .object members => members.mapM fun (key, value) => (decode value).map (key, ·)
  | _ => none

def string? : Json → Option String
  | .string s => some s
  | _ => none

def stringOrNull? : Json → Option (Option String)
  | .string s => some (some s)
  | .null => some none
  | _ => none

def valuesAt (keys : List String) (members : List (String × Json)) : List Json :=
  (members.filter fun (key, _) => keys.contains key).map Prod.snd

/-- An optional string member; it may go by several keys, but may come only once. -/
def optionalString? (keys : List String) (members : List (String × Json)) :
    Option (Option String) :=
  match valuesAt keys members with
  | [] => some none
  | [v] => v.stringOrNull?
  | _ => none

end Json

end FilterAssist
