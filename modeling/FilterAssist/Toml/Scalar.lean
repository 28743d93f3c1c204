import FilterAssist.Text.Hex
import FilterAssist.Text.Number
import FilterAssist.Toml.Basic

/-! Values written as one bare word: truth values, numbers, dates and times. -/

namespace FilterAssist.Toml

/-- Digits with single underscores between them, the underscores left out. -/
def ungroup? (isDigit : Char → Bool) : List Char → Option (List Char)
  | [] => none
  | c :: cs =>
    if isDigit c then
      match cs with
      | [] => some [c]
      | d :: ds =>
        if d == '_' then (ungroup? isDigit ds).map (c :: ·) else (ungroup? isDigit (d :: ds)).map (c :: ·)
    else none

def wholeDigits? (cs : List Char) : Option (List Char) :=
  (ungroup? Char.isDigit cs).bind fun ds =>
    if ds.head? == some '0' && ds.length > 1 then none else some ds

def dropSign : List Char → List Char
  | [] => []
  | c :: cs => if c == '+' || c == '-' then cs else c :: cs

def isNegative (cs : List Char) : Bool := cs.head? == some '-'

def ofBase (base : Nat) (ds : List Char) : Nat :=
  ds.foldl (fun n d => base * n + (Text.hexValue? d).getD 0) 0

/-- Whole numbers: decimal with a sign, or hexadecimal, octal, binary without one. -/
def integer? (cs : List Char) : Option Int :=
  match cs with
  | '0' :: 'x' :: ds => (ungroup? Text.isHexDigit ds).map fun ds => ofBase 16 ds
  | '0' :: 'o' :: ds => (ungroup? (fun c => '0' ≤ c && c ≤ '7') ds).map fun ds => ofBase 8 ds
  | '0' :: 'b' :: ds => (ungroup? (fun c => c == '0' || c == '1') ds).map fun ds => ofBase 2 ds
  | _ =>
    (wholeDigits? (dropSign cs)).map fun ds =>
      if isNegative cs then -(Text.ofDigits ds : Int) else Text.ofDigits ds

def isDigitOrUnderscore (c : Char) : Bool := c.isDigit || c == '_'

/-- A dot and digits; nothing at all is fine too. -/
def fraction? (cs : List Char) : Option (List Char) :=
  match cs with
  | [] => some []
  | c :: ds => if c == '.' then (ungroup? Char.isDigit ds).map (c :: ·) else none

def exponent? (cs : List Char) : Option (List Char) :=
  match cs with
  | [] => some []
  | c :: ds =>
    if c == 'e' || c == 'E' then
      (ungroup? Char.isDigit (dropSign ds)).map fun digits => c :: Text.signPart ds ++ digits
    else none

def decimal? (cs : List Char) : Option Text.Number :=
  let body := dropSign cs
  let isExponent := fun (c : Char) => c == 'e' || c == 'E'
  let mantissa := body.takeWhile fun c => !isExponent c
  match wholeDigits? (mantissa.takeWhile isDigitOrUnderscore),
      fraction? (mantissa.dropWhile isDigitOrUnderscore),
      exponent? (body.dropWhile fun c => !isExponent c) with
  | some whole, some fraction, some exponent =>
    let n : Text.Number := ⟨Text.signPart cs, whole, fraction, exponent⟩
    if n.isInteger then none else some n
  | _, _, _ => none

def isFloat (cs : List Char) : Bool :=
  dropSign cs == "inf".toList || dropSign cs == "nan".toList || (decimal? cs).isSome

def twoDigits? : List Char → Option (Nat × List Char)
  | a :: b :: rest => if a.isDigit && b.isDigit then some (Text.ofDigits [a, b], rest) else none
  | _ => none

def isLeapYear (year : Nat) : Bool := year % 4 == 0 && (year % 100 != 0 || year % 400 == 0)

def daysInMonth (year month : Nat) : Nat :=
  if month == 2 then (if isLeapYear year then 29 else 28)
  else if month == 4 || month == 6 || month == 9 || month == 11 then 30
  else 31

def date? : List Char → Option (List Char)
  | y₁ :: y₂ :: y₃ :: y₄ :: '-' :: rest =>
    if [y₁, y₂, y₃, y₄].all Char.isDigit then
      match twoDigits? rest with
      | some (month, '-' :: rest) =>
        match twoDigits? rest with
        | some (day, rest) =>
          let year := Text.ofDigits [y₁, y₂, y₃, y₄]
          if 1 ≤ month && month ≤ 12 && 1 ≤ day && day ≤ daysInMonth year month then some rest
          else none
        | none => none
      | _ => none
    else none
  | _ => none

def secondFraction? : List Char → Option (List Char)
  | [] => some []
  | c :: cs =>
    if c == '.' then (if (Text.digits cs).isEmpty then none else some (cs.dropWhile Char.isDigit))
    else some (c :: cs)

/-- A time of day, and what follows it. Seconds may be left out. -/
def time? (cs : List Char) : Option (List Char) :=
  match twoDigits? cs with
  | some (hour, ':' :: rest) =>
    match twoDigits? rest with
    | some (minute, rest) =>
      if hour ≤ 23 && minute ≤ 59 then
        match rest with
        | ':' :: rest =>
          match twoDigits? rest with
          | some (second, rest) => if second ≤ 60 then secondFraction? rest else none
          | none => none
        | _ => some rest
      else none
    | none => none
  | _ => none

def isOffset (cs : List Char) : Bool :=
  match cs with
  | [] => true
  | [c] => c == 'Z' || c == 'z'
  | c :: rest =>
    (c == '+' || c == '-') &&
      match twoDigits? rest with
      | some (hour, ':' :: rest) =>
        match twoDigits? rest with
        | some (minute, []) => hour ≤ 23 && minute ≤ 59
        | _ => false
      | _ => false

/-- A date, a time, or a date and a time with or without an offset. -/
def isDatetime (cs : List Char) : Bool :=
  match date? cs with
  | some [] => true
  | some (c :: rest) =>
    (c == 'T' || c == 't' || c == ' ') && (time? rest).any isOffset
  | none => time? cs == some []

def scalar? (word : List Char) : Option Value :=
  if word == "true".toList then some (.bool true)
  else if word == "false".toList then some (.bool false)
  else match integer? word with
    | some n => some (.integer n)
    | none =>
      if isFloat word then some (.float (String.ofList word))
      else if isDatetime word then some (.datetime (String.ofList word))
      else none

/-- The range of whole numbers that can be held at all. -/
def isHeld (n : Int) : Bool := -Int.pow 2 127 ≤ n && n < Int.pow 2 128

mutual

/-- Whether every number in a value can be held. A document may write larger ones, as
long as nobody looks at them. -/
def Value.isHeld : Value → Bool
  | .integer n => Toml.isHeld n
  | .float literal => (decimal? literal.toList).all fun n => !n.exceedsDouble
  | .array items => areHeld items
  | .table _ entries => areEntriesHeld entries
  | .tables items => areTablesHeld items
  | .string _ | .bool _ | .datetime _ => true

def areHeld : List Value → Bool
  | [] => true
  | v :: vs => v.isHeld && areHeld vs

def areEntriesHeld : List (String × Value) → Bool
  | [] => true
  | (_, v) :: rest => v.isHeld && areEntriesHeld rest

def areTablesHeld : List (List (String × Value)) → Bool
  | [] => true
  | entries :: rest => areEntriesHeld entries && areTablesHeld rest

end

end FilterAssist.Toml
