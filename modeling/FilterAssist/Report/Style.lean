import FilterAssist.Query.Kind

/-! Terminal styles of the token kinds. -/

namespace FilterAssist.Report

open Query

def escape (parameters : String) : String := "\x1b[" ++ parameters ++ "m"

def reset : String := escape "0"

/-- What switches the style of a kind on. -/
def style : Kind → String
  | .keyword .trueLiteral | .keyword .falseLiteral | .keyword .noneLiteral => escape "93"
  | .keyword _ => escape "1;35"
  | .name => escape "36"
  | .string => escape "32"
  | .int | .float => escape "33"
  | .comparison _ => escape "91"
  | .punct _ => escape "90"

end FilterAssist.Report
