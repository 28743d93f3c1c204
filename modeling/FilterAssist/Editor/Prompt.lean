/-! The prompt of the interactive editor, which shows the model that paths start from. -/

namespace FilterAssist.Editor.Prompt

def left : Option String → String
  | some model => model ++ "> "
  | none => "filterq> "

def right : String := ""

def indicator : String := ""

/-- In front of each further row of a line that goes on. -/
def multiline : String := "... "

def search (term : String) (failing : Bool) : String :=
  "(" ++ (if failing then "failing " else "") ++ "reverse-search: " ++ term ++ ") "

end FilterAssist.Editor.Prompt
