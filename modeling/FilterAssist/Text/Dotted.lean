import FilterAssist.Text.Pieces

/-! Dotted paths as character lists: cutting at every dot, and cutting at the last. -/

namespace FilterAssist.Text

def segments (cs : List Char) : List (List Char) := pieces '.' cs

/-- What stands before and after the last dot. -/
def splitLastDot : List Char → Option (List Char × List Char)
  | [] => none
  | c :: cs =>
    match splitLastDot cs with
    | some (front, back) => some (c :: front, back)
    | none => if c == '.' then some ([], cs) else none

end FilterAssist.Text
