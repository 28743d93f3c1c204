import FilterAssist.Toml.Quoted
import FilterAssist.Toml.Scalar

/-! Reading TOML documents. Each reader answers with what it found and what follows it,
or with nothing. Loops carry a budget of steps, taken from the length of their input,
which they cannot use up: every round takes at least one character. -/

namespace FilterAssist.Toml

/-- How deep arrays and inline tables may be nested, and how many parts a key may have. -/
def maxDepth : Nat := 80

def isBareKeyChar (c : Char) : Bool := c.isAlphanum || c == '_' || c == '-'

def isWordChar (c : Char) : Bool := c.isAlphanum || c == '_' || c == '+' || c == '-' || c == '.' || c == ':'

def keyPart? (cs : List Char) : Option (String × List Char) :=
  match lineString? cs with
  | some (s, rest) => some (String.ofList s, rest)
  | none =>
    let bare := cs.takeWhile isBareKeyChar
    if bare.isEmpty then none else some (String.ofList bare, cs.dropWhile isBareKeyChar)

def keyParts? : Nat → List Char → Option (List String × List Char)
  | 0, _ => none
  | fuel + 1, cs =>
    match keyPart? (skipWs cs) with
    | none => none
    | some (part, rest) =>
      match skipWs rest with
      | '.' :: rest => (keyParts? fuel rest).map fun (parts, r) => (part :: parts, r)
      | rest => some ([part], rest)

def key? (cs : List Char) : Option (List String × List Char) :=
  (keyParts? (cs.length + 1) cs).filter fun (parts, _) => parts.length ≤ maxDepth

def skipComment : List Char → List Char
  | '#' :: rest => rest.dropWhile isTextChar
  | cs => cs

def lineEnd? (cs : List Char) : Option (List Char) :=
  match skipComment (skipWs cs) with
  | [] => some []
  | rest => newline? rest

/-- Drop blanks, line breaks and comments. A carriage return counts only together with
the line feed behind it. -/
def skipBlanks (inComment : Bool) : List Char → List Char
  | [] => []
  | c :: cs =>
    if c == '\n' then skipBlanks false cs
    else if inComment && isTextChar c then skipBlanks true cs
    else if !inComment && isWs c then skipBlanks false cs
    else if !inComment && c == '#' then skipBlanks true cs
    else match c, cs with
      | '\r', '\n' :: rest => skipBlanks false rest
      | _, _ => c :: cs

/-- Items up to the closing mark, with commas between them and perhaps one at the end. -/
def itemsUntil {α : Type} (close : Char) (item? : List Char → Option (α × List Char)) :
    Nat → List Char → Option (List α × List Char)
  | 0, _ => none
  | fuel + 1, cs =>
    match skipBlanks false cs with
    | [] => none
    | c :: rest =>
      if c == close then some ([], rest)
      else match item? (c :: rest) with
        | none => none
        | some (item, after) =>
          match skipBlanks false after with
          | [] => none
          | d :: after =>
            if d == close then some ([item], after)
            else if d == ',' then
              (itemsUntil close item? fuel after).map fun (items, r) => (item :: items, r)
            else none

/-- A bare word. A date takes a time behind one blank along. -/
def word (cs : List Char) : List Char × List Char :=
  let first := cs.takeWhile isWordChar
  let rest := cs.dropWhile isWordChar
  match date? first, rest with
  | some [], ' ' :: d :: _ =>
    if d.isDigit then
      let second := rest.tail.takeWhile isWordChar
      (first ++ ' ' :: second, rest.tail.dropWhile isWordChar)
    else (first, rest)
  | _, _ => (first, rest)

def keyValue? (skip : List Char → List Char) (value? : List Char → Option (Value × List Char))
    (cs : List Char) : Option ((List String × Value) × List Char) :=
  match key? cs with
  | none => none
  | some (path, rest) =>
    match skip rest with
    | '=' :: rest => (value? (skip rest)).map fun (v, r) => ((path, v), r)
    | _ => none

/-- A value that holds containers up to the given depth. Within an inline table lines may
end anywhere but inside a key. -/
def value? : Nat → List Char → Option (Value × List Char)
  | depth, cs =>
    match string? cs with
    | some (s, rest) => some (.string (String.ofList s), rest)
    | none =>
      match depth, cs with
      | depth + 1, '[' :: rest =>
        (itemsUntil ']' (value? depth) (rest.length + 1) rest).map fun (items, r) => (.array items, r)
      | depth + 1, '\x7b' :: rest =>
        (itemsUntil '\x7d' (keyValue? (skipBlanks false) (value? depth)) (rest.length + 1) rest).bind
          fun (pairs, r) =>
            (pairs.foldlM (fun entries (path, v) => assign path v entries) []).map fun entries =>
              (.table .inline entries, r)
      | _, _ => (scalar? (word cs).1).map (·, (word cs).2)

/-- One statement, up to but without the end of its line. -/
def statement? (cs : List Char) : Option (Statement × List Char) :=
  match skipWs cs with
  | '[' :: '[' :: rest =>
    match key? rest with
    | some (path, ']' :: ']' :: rest) => some (.item path, rest)
    | _ => none
  | '[' :: rest =>
    match key? rest with
    | some (path, ']' :: rest) => some (.table path, rest)
    | _ => none
  | rest => (keyValue? skipWs (value? maxDepth) rest).map fun ((path, v), r) => (.assign path v, r)

def statements? : Nat → List Char → Option (List Statement)
  | 0, cs => if cs.isEmpty then some [] else none
  | fuel + 1, cs =>
    match lineEnd? cs with
    | some [] => some []
    | some rest => statements? fuel rest
    | none =>
      match statement? cs with
      | none => none
      | some (statement, after) =>
        match lineEnd? after with
        | none => none
        | some rest => (statements? fuel rest).map (statement :: ·)

def dropByteOrderMark : List Char → List Char
  | '\ufeff' :: rest => rest
  | cs => cs

def parse? (text : String) : Option Entries :=
  let cs := dropByteOrderMark text.toList
  (statements? cs.length cs).bind build?

end FilterAssist.Toml
