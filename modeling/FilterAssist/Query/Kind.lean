/-! The kinds of token a filter query is made of, with the words and signs that
spell them. Every fixed spelling stands here once; the scanner looks it up. -/

namespace FilterAssist.Query

inductive Punct where
  | dot
  | comma
  | openParen
  | closeParen
  deriving DecidableEq, Repr

/-- Reserved words. They are case-sensitive. -/
inductive Keyword where
  | disjunction
  | conjunction
  | negation
  | membership
  | trueLiteral
  | falseLiteral
  | noneLiteral
  deriving DecidableEq, Repr

inductive Comparison where
  | equal
  | notEqual
  | greater
  | greaterEqual
  | less
  | lessEqual
  | contains
  | notContains
  deriving DecidableEq, Repr

inductive Kind where
  | punct (p : Punct)
  | keyword (k : Keyword)
  | name
  | string
  | int
  | float
  | comparison (op : Comparison)
  deriving DecidableEq, Repr

def Keyword.all : List Keyword :=
  [.disjunction, .conjunction, .negation, .membership, .trueLiteral, .falseLiteral, .noneLiteral]

def Keyword.word : Keyword → String
  | .disjunction => "or"
  | .conjunction => "and"
  | .negation => "not"
  | .membership => "in"
  | .trueLiteral => "True"
  | .falseLiteral => "False"
  | .noneLiteral => "None"

def Keyword.ofWord? (word : List Char) : Option Keyword :=
  Keyword.all.find? fun k => k.word.toList == word

def Comparison.sign : Comparison → String
  | .equal => "="
  | .notEqual => "!="
  | .greater => ">"
  | .greaterEqual => ">="
  | .less => "<"
  | .lessEqual => "<="
  | .contains => "~"
  | .notContains => "!~"

def Punct.label : Punct → String
  | .dot => "DOT"
  | .comma => "COMMA"
  | .openParen => "PAREN_L"
  | .closeParen => "PAREN_R"

def Keyword.label : Keyword → String
  | .disjunction => "OR"
  | .conjunction => "AND"
  | .negation => "NOT"
  | .membership => "IN"
  | .trueLiteral => "TRUE"
  | .falseLiteral => "FALSE"
  | .noneLiteral => "NONE"

def Comparison.label : Comparison → String
  | .equal => "EQUALS"
  | .notEqual => "NOT_EQUALS"
  | .greater => "GREATER"
  | .greaterEqual => "GREATER_EQUAL"
  | .less => "LESS"
  | .lessEqual => "LESS_EQUAL"
  | .contains => "CONTAINS"
  | .notContains => "NOT_CONTAINS"

/-- The name under which a kind is listed. -/
def Kind.label : Kind → String
  | .punct p => p.label
  | .keyword k => k.label
  | .name => "NAME"
  | .string => "STRING_VALUE"
  | .int => "INT_VALUE"
  | .float => "FLOAT_VALUE"
  | .comparison op => op.label

def Kind.isComparison : Kind → Bool
  | .comparison _ => true
  | _ => false

/-- Words that join two conditions. -/
def Kind.isConnector : Kind → Bool
  | .keyword .conjunction | .keyword .disjunction => true
  | _ => false

/-- Tokens after which a condition may be complete. -/
def Kind.endsComparison : Kind → Bool
  | .punct .closeParen | .int | .float | .string => true
  | _ => false

end FilterAssist.Query
