import FilterAssist.Json.Basic
import FilterAssist.Json.Magnitude
import FilterAssist.Text.Escaping
import FilterAssist.Text.Hex
import FilterAssist.Text.Number

/-! Reading JSON texts. The text is cut into lexemes, and a machine with a stack of
open containers turns the lexemes into a value. Anything outside the standard is
refused, and so are numbers no double can hold and containers nested too deep. -/

namespace FilterAssist.Json

/-- How many containers may be open at once. -/
def maxDepth : Nat := 127

def isBlank (c : Char) : Bool := c == ' ' || c == '\t' || c == '\n' || c == '\r'

def unescape? (c : Char) : Option Char :=
  if c == '"' || c == '\\' || c == '/' then some c
  else if c == 'b' then some '\x08'
  else if c == 'f' then some '\x0c'
  else if c == 'n' then some '\n'
  else if c == 'r' then some '\r'
  else if c == 't' then some '\t'
  else none

def isHighSurrogate (n : Nat) : Bool := 0xd800 ≤ n && n < 0xdc00

def isLowSurrogate (n : Nat) : Bool := 0xdc00 ≤ n && n < 0xe000

def joinSurrogates (high low : Nat) : Nat := 0x10000 + (high - 0xd800) * 0x400 + (low - 0xdc00)

def fourHex? : List Char → Option (Nat × List Char)
  | h₁ :: h₂ :: h₃ :: h₄ :: rest => (Text.ofHex? [h₁, h₂, h₃, h₄]).map (·, rest)
  | _ => none

theorem length_of_fourHex? {cs rest : List Char} {n : Nat} (h : fourHex? cs = some (n, rest)) :
    rest.length < cs.length := by
  unfold fourHex? at h
  split at h
  · obtain ⟨m, -, he⟩ := Option.map_eq_some_iff.1 h
    cases he
    simp only [List.length_cons]
    omega
  · cases h

/-- The character of a numeric escape. Two escapes may stand for one character beyond
the basic plane; one half alone is refused. -/
def numericEscape? (cs : List Char) : Option (Char × List Char) :=
  match fourHex? cs with
  | none => none
  | some (n, rest) =>
    if isHighSurrogate n then
      match rest with
      | '\\' :: 'u' :: rest =>
        match fourHex? rest with
        | none => none
        | some (m, rest) =>
          if isLowSurrogate m then some (Char.ofNat (joinSurrogates n m), rest) else none
      | _ => none
    else if isLowSurrogate n then none
    else some (Char.ofNat n, rest)

def escape? : List Char → Option (Char × List Char)
  | [] => none
  | c :: cs => if c == 'u' then numericEscape? cs else (unescape? c).map (·, cs)

theorem length_of_escape? {cs rest : List Char} {c : Char} (h : escape? cs = some (c, rest)) :
    rest.length < cs.length := by
  cases cs with
  | nil => simp [escape?] at h
  | cons e cs =>
    rw [escape?] at h
    split at h
    · unfold numericEscape? at h
      split at h
      · cases h
      next n r hn =>
      have hr := length_of_fourHex? hn
      split at h
      · split at h
        · next r₂ =>
          split at h
          · cases h
          next m r₃ hm =>
          have hr₃ := length_of_fourHex? hm
          split at h
          · simp only [Option.some.injEq, Prod.mk.injEq] at h
            simp only [List.length_cons, ← h.2] at hr ⊢
            omega
          · cases h
        · cases h
      split at h
      · cases h
      · cases h; simp only [List.length_cons]; omega
    · obtain ⟨d, -, he⟩ := Option.map_eq_some_iff.1 h
      cases he
      simp

/-- Controls have to be escaped; all else may stand as it is. -/
def escaping : Text.Escaping where
  escape? := escape?
  isPlain c := !(c < ' ')
  shorter := length_of_escape?

def word? (cs : List Char) : Option (Lexeme × List Char) :=
  if "null".toList.isPrefixOf cs then some (.null, cs.drop 4)
  else if "true".toList.isPrefixOf cs then some (.bool true, cs.drop 4)
  else if "false".toList.isPrefixOf cs then some (.bool false, cs.drop 5)
  else none

def mark? (c : Char) : Option Lexeme :=
  if c == '\x7b' then some .openBrace
  else if c == '\x7d' then some .closeBrace
  else if c == '[' then some .openBracket
  else if c == ']' then some .closeBracket
  else if c == ':' then some .colon
  else if c == ',' then some .comma
  else none

def lexeme? : List Char → Option (Lexeme × List Char)
  | [] => none
  | c :: cs =>
    match mark? c with
    | some mark => some (mark, cs)
    | none =>
      if c == '"' then
        (escaping.body cs).map fun (s, rest) => (.string (String.ofList s), rest)
      else if c == '-' || c.isDigit then
        (Text.Number.scan? (c :: cs)).bind fun n =>
          if (Magnitude.ofNumber n).isTooLarge then none
          else some (.number (String.ofList n.source), (c :: cs).drop n.source.length)
      else word? (c :: cs)

theorem length_of_word? {cs rest : List Char} {l : Lexeme} (h : word? cs = some (l, rest)) :
    rest.length < cs.length := by
  have shorter {w : String} (hw : w.toList.isPrefixOf cs = true) : w.toList.length ≤ cs.length :=
    (List.isPrefixOf_iff_prefix.1 hw).length_le
  unfold word? at h
  split at h
  · next hw => have := shorter hw; cases h; simp at this ⊢; omega
  split at h
  · next hw => have := shorter hw; cases h; simp at this ⊢; omega
  split at h
  · next hw => have := shorter hw; cases h; simp at this ⊢; omega
  · cases h

theorem length_of_lexeme? {cs rest : List Char} {l : Lexeme} (h : lexeme? cs = some (l, rest)) :
    rest.length < cs.length := by
  cases cs with
  | nil => simp [lexeme?] at h
  | cons c cs =>
    rw [lexeme?] at h
    split at h
    · cases h; simp
    split at h
    · obtain ⟨⟨s, r⟩, hs, he⟩ := Option.map_eq_some_iff.1 h
      cases he
      exact Nat.lt_succ_of_lt (Text.Escaping.length_of_body hs)
    split at h
    · obtain ⟨n, hn, he⟩ := Option.bind_eq_some_iff.1 h
      split at he
      · cases he
      · cases he
        have : n.source.length ≠ 0 := by simpa using Text.Number.source_ne_nil_of_scan? hn
        simp only [List.length_drop, List.length_cons]
        omega
    · exact length_of_word? h

/-- All lexemes of a text, blanks between them left out. -/
def readLexemes (cs : List Char) : Option (List Lexeme) :=
  match cs with
  | [] => some []
  | c :: rest =>
    if isBlank c then readLexemes rest
    else match _h : lexeme? (c :: rest) with
      | none => none
      | some (l, after) => (readLexemes after).map (l :: ·)
termination_by cs.length
decreasing_by
  · simp
  · exact length_of_lexeme? _h

/-- A container whose end has not come yet, with what it holds so far, newest first;
an object also with the key whose value is being read. -/
inductive Frame where
  | inArray (items : List Json)
  | inObject (members : List (String × Json)) (key : String)

/-- What may come next, inside the containers of `outer`. -/
inductive State where
  | value (outer : List Frame)
  | firstItem (outer : List Frame)
  | firstKey (outer : List Frame)
  | nextKey (members : List (String × Json)) (outer : List Frame)
  | colon (members : List (String × Json)) (key : String) (outer : List Frame)
  | afterItem (items : List Json) (outer : List Frame)
  | afterMember (members : List (String × Json)) (outer : List Frame)
  | done (value : Json)

/-- A finished value goes to the innermost open container. -/
def deliver (v : Json) : List Frame → State
  | [] => .done v
  | .inArray items :: outer => .afterItem (v :: items) outer
  | .inObject members key :: outer => .afterMember ((key, v) :: members) outer

def beginValue (l : Lexeme) (outer : List Frame) : Option State :=
  match l with
  | .null => some (deliver .null outer)
  | .bool b => some (deliver (.bool b) outer)
  | .number literal => some (deliver (.number literal) outer)
  | .string s => some (deliver (.string s) outer)
  | .openBracket => if outer.length < maxDepth then some (.firstItem outer) else none
  | .openBrace => if outer.length < maxDepth then some (.firstKey outer) else none
  | _ => none

def step (state : State) (l : Lexeme) : Option State :=
  match state with
  | .value outer => beginValue l outer
  | .firstItem outer =>
    if l = .closeBracket then some (deliver (.array []) outer)
    else beginValue l (.inArray [] :: outer)
  | .firstKey outer =>
    match l with
    | .closeBrace => some (deliver (.object []) outer)
    | .string key => some (.colon [] key outer)
    | _ => none
  | .nextKey members outer =>
    match l with
    | .string key => some (.colon members key outer)
    | _ => none
  | .colon members key outer =>
    match l with
    | .colon => some (.value (.inObject members key :: outer))
    | _ => none
  | .afterItem items outer =>
    match l with
    | .comma => some (.value (.inArray items :: outer))
    | .closeBracket => some (deliver (.array items.reverse) outer)
    | _ => none
  | .afterMember members outer =>
    match l with
    | .comma => some (.nextKey members outer)
    | .closeBrace => some (deliver (.object members.reverse) outer)
    | _ => none
  | .done _ => none

def ofLexemes? (ls : List Lexeme) : Option Json :=
  match ls.foldlM step (.value []) with
  | some (.done v) => some v
  | _ => none

def parse? (text : String) : Option Json :=
  (readLexemes text.toList).bind ofLexemes?

end FilterAssist.Json
