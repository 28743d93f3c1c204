/-! JSON values and the lexemes their texts are made of. -/

namespace FilterAssist

/-- Members stay in the order of the text, and a key may come more than once. A number
is kept as it is written. -/
inductive Json where
  | null
  | bool (b : Bool)
  | number (literal : String)
  | string (s : String)
  | array (items : List Json)
  | object (members : List (String × Json))
  deriving Repr

/-- The smallest pieces of a JSON text, strings already decoded. -/
inductive Json.Lexeme where
  | openBrace
  | closeBrace
  | openBracket
  | closeBracket
  | colon
  | comma
  | null
  | bool (b : Bool)
  | number (literal : String)
  | string (s : String)
  deriving DecidableEq, Repr

namespace Json

mutual

def lexemes : Json → List Lexeme
  | .null => [.null]
  | .bool b => [.bool b]
  | .number literal => [.number literal]
  | .string s => [.string s]
  | .array items => .openBracket :: itemLexemes items ++ [.closeBracket]
  | .object members => .openBrace :: memberLexemes members ++ [.closeBrace]

def itemLexemes : List Json → List Lexeme
  | [] => []
  | item :: rest => lexemes item ++ moreItems rest

def moreItems : List Json → List Lexeme
  | [] => []
  | item :: rest => .comma :: lexemes item ++ moreItems rest

def memberLexemes : List (String × Json) → List Lexeme
  | [] => []
  | (key, value) :: rest => .string key :: .colon :: lexemes value ++ moreMembers rest

def moreMembers : List (String × Json) → List Lexeme
  | [] => []
  | (key, value) :: rest =>
    .comma :: .string key :: .colon :: lexemes value ++ moreMembers rest

end

end Json

end FilterAssist
