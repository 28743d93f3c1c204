import FilterAssist.Proofs.ColouredLines
import FilterAssist.Proofs.FreshStarts

/-!
# Scanning by positions

A text may also be read with a position in it: the whole text stays where it is, every look
is at a position, and a token takes its text as a range of the whole. Then much can go wrong
that a list of characters left to read does not allow. A scanner may take a range that is not
in the text, look for a character behind its end, or move and then fail. Here are scanners of
this kind, in which taking what is not there is a fault, and looking ahead is not. Main
statement: an attempt at a position of the text is without fault, finds the lexeme that starts
there and ends behind it, and stays where it finds nothing, blanks apart. Everything is said
of the text from a position on, which the lemmas call `here`.
-/

namespace FilterAssist.Query

open Text (digits wholePart fractionPart signPart exponentPart)

namespace Indexed

/-- A character, or a range of characters, that the text does not have. -/
inductive Fault where
  | index (i : Nat)
  | range (i j : Nat)
  deriving DecidableEq, Repr

/-- What was read, if anything, and the position behind it. -/
abbrev Outcome := Except Fault (Option Token × Nat)

/-- The operator that starts with a character before another one, and how long it is. -/
def operator? : Char → Option Char → Option (Comparison × Nat)
  | '!', some '=' => some (.notEqual, 2)
  | '!', some '~' => some (.notContains, 2)
  | '>', some '=' => some (.greaterEqual, 2)
  | '<', some '=' => some (.lessEqual, 2)
  | '=', _ => some (.equal, 1)
  | '>', _ => some (.greater, 1)
  | '<', _ => some (.less, 1)
  | '~', _ => some (.contains, 1)
  | _, _ => none

section Definitions

variable (cs : List Char)

def charAt (i : Nat) : Except Fault Char :=
  match cs[i]? with
  | some c => .ok c
  | none => .error (.index i)

def slice (i j : Nat) : Except Fault String :=
  if i ≤ j ∧ j ≤ cs.length then .ok (String.ofList (cs.extract i j)) else .error (.range i j)

/-- Looking ahead may go past the end. -/
def has (i : Nat) (test : Char → Bool) : Bool := cs[i]?.any test

variable {cs} in
lemma lt_of_has {i : Nat} {test : Char → Bool} (h : has cs i test = true) : i < cs.length := by
  by_contra outside
  rw [has, List.getElem?_eq_none (Nat.le_of_not_lt outside)] at h
  cases h

/-- Where a run of characters that pass the test ends. -/
def runEnd (test : Char → Bool) (i : Nat) : Nat :=
  if _h : has cs i test then runEnd test (i + 1) else i
termination_by cs.length - i
decreasing_by
  have := lt_of_has _h
  omega

lemma le_runEnd (test : Char → Bool) (i : Nat) : i ≤ runEnd cs test i := by
  fun_induction runEnd with
  | case1 i _ ih => omega
  | case2 i _ => exact Nat.le_refl i

/-- Where a name ends whose first segment ends at `i`. -/
def nameEnd (i : Nat) : Nat :=
  if _h : has cs i (· == '.') && has cs (i + 1) isNameStart then
    nameEnd (runEnd cs isNameChar (i + 2))
  else i
termination_by cs.length - i
decreasing_by
  have := lt_of_has (Bool.and_eq_true_iff.1 _h).1
  have := le_runEnd cs isNameChar (i + 2)
  omega

/-- The position of the quote that ends a string which has got as far as `i`. -/
def quoteAt? (i : Nat) : Option Nat :=
  if _h : i < cs.length then
    if cs[i] == '"' then some i
    else if cs[i] == '\\' then
      match cs[i + 1]? with
      | none => none
      | some e =>
        if isEscapable e then quoteAt? (i + 2)
        else if e == 'u' && has cs (i + 2) Text.isHexDigit && has cs (i + 3) Text.isHexDigit
            && has cs (i + 4) Text.isHexDigit && has cs (i + 5) Text.isHexDigit then
          quoteAt? (i + 6)
        else none
    else if isLineBreak cs[i] then none
    else quoteAt? (i + 1)
  else none
termination_by cs.length - i

def wholeEnd? (i : Nat) : Option Nat :=
  if has cs i (· == '0') then some (i + 1)
  else if has cs i Char.isDigit then some (runEnd cs Char.isDigit (i + 1))
  else none

def fractionEnd? (i : Nat) : Option Nat :=
  if has cs i (· == '.') && has cs (i + 1) Char.isDigit then
    some (runEnd cs Char.isDigit (i + 1))
  else none

def exponentEnd? (i : Nat) : Option Nat :=
  if has cs i fun c => c == 'e' || c == 'E' then
    let j := if has cs (i + 1) fun c => c == '+' || c == '-' then i + 2 else i + 1
    if has cs j Char.isDigit then some (runEnd cs Char.isDigit j) else none
  else none

/-- A token with all the characters of its range. -/
def emit (kind : Kind) (start stop : Nat) : Outcome := do
  let text ← slice cs start stop
  return (some ⟨kind, text, start, stop⟩, stop)

def wordAt (start : Nat) : Outcome := do
  let wordEnd := runEnd cs isNameChar (start + 1)
  let word ← slice cs start wordEnd
  match Keyword.ofWord? word.toList with
  | some k => return (some ⟨.keyword k, word, start, wordEnd⟩, wordEnd)
  | none => emit cs .name start (nameEnd cs wordEnd)

def stringAt (start : Nat) : Outcome :=
  match quoteAt? cs (start + 1) with
  | none => return (none, start)
  | some i => do
    let text ← slice cs (start + 1) i
    return (some ⟨.string, text, start, i + 1⟩, i + 1)

def numberAt (start : Nat) : Outcome :=
  match wholeEnd? cs (if has cs start (· == '-') then start + 1 else start) with
  | none => return (none, start)
  | some whole =>
    let fraction := fractionEnd? cs whole
    let exponent := exponentEnd? cs (fraction.getD whole)
    emit cs (if fraction.isNone && exponent.isNone then .int else .float) start
      (exponent.getD (fraction.getD whole))

def operatorAt (start : Nat) : Outcome := do
  let c ← charAt cs start
  match operator? c cs[start + 1]? with
  | some (op, length) => emit cs (.comparison op) start (start + length)
  | none => return (none, start)

/-- One attempt at a position. Blanks are passed at once; where nothing is found the position
stays. -/
def attempt (start : Nat) : Outcome := do
  let c ← charAt cs start
  if isBlank c then return (none, runEnd cs isBlank start)
  else match scanPunct c with
    | some p => emit cs (.punct p) start (start + 1)
    | none =>
      if isNameStart c then wordAt cs start
      else if c == '"' then stringAt cs start
      else if c == '-' || c.isDigit then numberAt cs start
      else operatorAt cs start

end Definitions

section Ahead

variable {cs v : List Char} {i : Nat} (here : cs.drop i = v)

include here

lemma getElem?_ahead (k : Nat) : cs[i + k]? = v[k]? := by rw [← here, List.getElem?_drop]

lemma has_ahead (k : Nat) (test : Char → Bool) : has cs (i + k) test = v[k]?.any test := by
  rw [has, getElem?_ahead here]

lemma has_here (test : Char → Bool) : has cs i test = v.head?.any test := by
  have same := has_ahead here 0 test
  rwa [Nat.add_zero, ← List.head?_eq_getElem?] at same

lemma drop_ahead {u w : List Char} (split : v = u ++ w) : cs.drop (i + u.length) = w := by
  rw [← List.drop_drop, here, split, List.drop_left]

lemma runEnd_of_pos {test : Char → Bool} (pass : v.head?.any test = true) :
    runEnd cs test i = runEnd cs test (i + 1) := by
  rw [runEnd, dif_pos (by rwa [has_here here])]

lemma runEnd_of_neg {test : Char → Bool} (stop : v.head?.any test = false) :
    runEnd cs test i = i := by
  rw [runEnd, dif_neg (by simp [has_here here, stop])]

lemma runEnd_eq (test : Char → Bool) : runEnd cs test i = i + (v.takeWhile test).length := by
  induction v generalizing i with
  | nil => exact runEnd_of_neg here rfl
  | cons c v ih =>
    by_cases pass : test c = true
    · rw [runEnd_of_pos here pass, ih (i := i + 1) (drop_ahead here (u := [c]) rfl),
        List.takeWhile_cons_of_pos pass, List.length_cons]
      omega
    · rw [runEnd_of_neg here (by simpa using pass), List.takeWhile_cons_of_neg pass]
      rfl

lemma nameEnd_of_neg (stop : (v.head?.any (· == '.') && v[1]?.any isNameStart) = false) :
    nameEnd cs i = i := by
  rw [nameEnd, dif_neg (by simpa [has_here here, has_ahead here] using stop)]

/-- By segments a name ends where it ends by characters. -/
lemma nameEnd_eq : nameEnd cs (runEnd cs isNameChar i) = i + (nameTail v).length := by
  fun_induction nameTail v generalizing i with
  | case1 =>
    rw [runEnd_of_neg here rfl, nameEnd_of_neg here rfl]
    rfl
  | case2 c v hc ih =>
    rw [runEnd_of_pos here (by simpa using hc),
      ih (i := i + 1) (drop_ahead here (u := [c]) rfl), List.length_cons]
    omega
  | case3 c hc hdot =>
    rw [runEnd_of_neg here (by simpa using hc), nameEnd_of_neg here (by simp)]
    rfl
  | case4 c hc hdot d v hd ih =>
    have segment : (has cs i (· == '.') && has cs (i + 1) isNameStart) = true := by
      simp [has_here here, has_ahead here, hdot, hd]
    rw [runEnd_of_neg here (by simpa using hc), nameEnd, dif_pos segment,
      ih (i := i + 2) (drop_ahead here (u := [c, d]) rfl), List.length_cons, List.length_cons]
    omega
  | case5 c hc hdot d v hd =>
    rw [runEnd_of_neg here (by simpa using hc), nameEnd_of_neg here (by simp [hd])]
    rfl
  | case6 c v hc hdot =>
    rw [runEnd_of_neg here (by simpa using hc), nameEnd_of_neg here (by simp [hdot])]
    rfl

omit here in
lemma getElem_of_drop {c : Char} (here : cs.drop i = c :: v) :
    ∃ inside : i < cs.length, cs[i] = c := by
  have first : cs[i]? = some c := getElem?_ahead here 0
  obtain ⟨inside, same⟩ := List.getElem?_eq_some_iff.1 first
  exact ⟨inside, same⟩

omit here in
/-- Characters in front of a string move its end. -/
lemma map_grown (k : Nat) {grow : List Char → List Char}
    (grows : ∀ t, (grow t).length = t.length + k) (tail : Option (List Char)) :
    (tail.map fun t => i + k + t.length - 1) = (tail.map grow).map fun t => i + t.length - 1 := by
  rw [Option.map_map]
  refine Option.map_congr fun t _ => ?_
  rw [Function.comp_apply, grows]
  omega

omit here in
lemma quoteAt?_cons {c : Char} (here : cs.drop i = c :: v) :
    quoteAt? cs i = if c == '"' then some i
      else if c == '\\' then
        match v.head? with
        | none => none
        | some e =>
          if isEscapable e then quoteAt? cs (i + 2)
          else if e == 'u' && v[1]?.any Text.isHexDigit && v[2]?.any Text.isHexDigit
              && v[3]?.any Text.isHexDigit && v[4]?.any Text.isHexDigit then
            quoteAt? cs (i + 6)
          else none
      else if isLineBreak c then none
      else quoteAt? cs (i + 1) := by
  obtain ⟨inside, first⟩ := getElem_of_drop here
  rw [quoteAt?, dif_pos inside, first, getElem?_ahead here 1, List.head?_eq_getElem?]
  simp only [has_ahead here, List.getElem?_cons_succ]

/-- The string ends at the last of its characters. -/
lemma quoteAt?_eq : quoteAt? cs i = (stringTail v).map fun t => i + t.length - 1 := by
  fun_induction stringTail v generalizing i with
  | case1 =>
    have outside : ¬ i < cs.length := by
      rw [List.drop_eq_nil_iff] at here
      omega
    rw [quoteAt?, dif_neg outside]
    rfl
  | case2 c v hc =>
    rw [quoteAt?_cons here, if_pos hc]
    rfl
  | case3 c hc hb =>
    rw [quoteAt?_cons here, if_neg hc, if_pos hb]
    rfl
  | case4 c hc hb e v he ih =>
    rw [quoteAt?_cons here, if_neg hc, if_pos hb, ← map_grown 2 (fun _ => rfl),
      ← ih (i := i + 2) (drop_ahead here (u := [c, e]) rfl)]
    exact if_pos he
  | case5 c hc hb e he hu h₁ h₂ h₃ h₄ v digits ih =>
    rw [quoteAt?_cons here, if_neg hc, if_pos hb, ← map_grown 6 (fun _ => rfl),
      ← ih (i := i + 6) (drop_ahead here (u := [c, e, h₁, h₂, h₃, h₄]) rfl)]
    simp only [Bool.and_eq_true] at digits
    simp [he, hu, digits]
  | case6 c hc hb e he hu h₁ h₂ h₃ h₄ v digits =>
    have refused : ¬ (e == 'u' && Text.isHexDigit h₁ && Text.isHexDigit h₂
        && Text.isHexDigit h₃ && Text.isHexDigit h₄) = true := by
      simpa [hu] using digits
    rw [quoteAt?_cons here, if_neg hc, if_pos hb]
    exact (if_neg he).trans (if_neg refused)
  | case7 c hc hb e v he hu short =>
    have few : v[3]? = none := by
      rcases v with - | ⟨h₁, - | ⟨h₂, - | ⟨h₃, - | ⟨h₄, v⟩⟩⟩⟩
      · rfl
      · rfl
      · rfl
      · rfl
      · exact absurd rfl (short h₁ h₂ h₃ h₄ v)
    rw [quoteAt?_cons here, if_neg hc, if_pos hb]
    simp [he, few]
  | case8 c hc hb e v he hu =>
    rw [quoteAt?_cons here, if_neg hc, if_pos hb]
    simp [he, hu]
  | case9 c v hc hb hl =>
    rw [quoteAt?_cons here, if_neg hc, if_neg hb, if_pos hl]
    rfl
  | case10 c v hc hb hl ih =>
    rw [quoteAt?_cons here, if_neg hc, if_neg hb, if_neg hl, ← map_grown 1 (fun _ => rfl),
      ← ih (i := i + 1) (drop_ahead here (u := [c]) rfl)]

lemma wholeEnd?_eq : wholeEnd? cs i = (wholePart v).map fun whole => i + whole.length := by
  cases v with
  | nil => simp [wholeEnd?, has_here here, wholePart]
  | cons c v =>
    have next : cs.drop (i + 1) = v := drop_ahead here (u := [c]) rfl
    rw [wholeEnd?, has_here here, has_here here, runEnd_eq next, wholePart]
    by_cases zero : (c == '0') = true
    · simp [zero]
    by_cases digit : c.isDigit = true
    · simp [zero, digit, digits, Nat.add_assoc, Nat.add_comm 1]
    · simp [zero, digit]

/-- Where a part ends that may be missing. -/
def partEnd? (i : Nat) (part : List Char) : Option Nat :=
  if part.isEmpty then none else some (i + part.length)

omit here in
lemma partEnd?_getD (i : Nat) (part : List Char) :
    (partEnd? i part).getD i = i + part.length := by
  cases part <;> rfl

omit here in
lemma partEnd?_isNone (i : Nat) (part : List Char) :
    (partEnd? i part).isNone = part.isEmpty := by
  cases part <;> rfl

omit here in
lemma digits_isEmpty (v : List Char) : (digits v).isEmpty = !v.head?.any Char.isDigit := by
  cases v with
  | nil => rfl
  | cons c v => by_cases digit : c.isDigit = true <;> simp [digits, digit]

lemma fractionEnd?_eq : fractionEnd? cs i = partEnd? i (fractionPart v) := by
  cases v with
  | nil => simp [fractionEnd?, has_here here, fractionPart, partEnd?]
  | cons c v =>
    have next : cs.drop (i + 1) = v := drop_ahead here (u := [c]) rfl
    rw [fractionEnd?, has_here here, has_here next, runEnd_eq next, fractionPart, digits_isEmpty]
    by_cases dot : (c == '.') = true
    · by_cases digit : v.head?.any Char.isDigit = true
      · simp [dot, digit, partEnd?, digits, Nat.add_assoc, Nat.add_comm 1]
      · simp [dot, digit, partEnd?]
    · simp [dot, partEnd?]

lemma exponentEnd?_eq : exponentEnd? cs i = partEnd? i (exponentPart v) := by
  cases v with
  | nil => simp [exponentEnd?, has_here here, exponentPart, partEnd?]
  | cons c v =>
    have next : cs.drop (i + 1) = v := drop_ahead here (u := [c]) rfl
    have sign : (if has cs (i + 1) fun c => c == '+' || c == '-' then i + 2 else i + 1)
        = i + 1 + (signPart v).length := by
      rw [has_here next]
      cases v with
      | nil => rfl
      | cons d v =>
        by_cases signed : (d == '+' || d == '-') = true
        · simp [signPart, signed]
        · simp [signPart, signed]
    have behind : cs.drop (i + 1 + (signPart v).length) = v.drop (signPart v).length := by
      rw [← List.drop_drop, next]
    have first : (has cs i fun c => c == 'e' || c == 'E') = (c == 'e' || c == 'E') :=
      has_here here _
    rw [exponentEnd?, exponentPart]
    simp only [first, sign, has_here behind, runEnd_eq behind, digits_isEmpty]
    by_cases letter : (c == 'e' || c == 'E') = true
    · cases digit : (v.drop (signPart v).length).head?.any Char.isDigit with
      | true =>
        have length : ∀ ds : List Char, i + 1 + (signPart v).length + ds.length
            = i + (c :: (signPart v ++ ds)).length := by
          intro ds
          rw [List.length_cons, List.length_append]
          omega
        simp [letter, partEnd?, digits, length]
      | false => simp [letter, partEnd?]
    · simp [letter, partEnd?]

lemma charAt_eq {c : Char} (first : v.head? = some c) : charAt cs i = .ok c := by
  have same := getElem?_ahead here 0
  rw [Nat.add_zero, ← List.head?_eq_getElem?, first] at same
  rw [charAt, same]

lemma slice_eq {u w : List Char} (split : v = u ++ w) (inside : i ≤ cs.length) :
    slice cs i (i + u.length) = .ok (String.ofList u) := by
  have length := congrArg List.length here
  rw [List.length_drop, split, List.length_append] at length
  rw [slice, if_pos (by omega), List.extract_eq_take_drop, Nat.add_sub_cancel_left, here, split,
    List.take_left]

end Ahead

section Attempts

variable {cs v : List Char} {c : Char} {start : Nat} (here : cs.drop start = c :: v)

include here

lemma start_lt : start < cs.length := (getElem_of_drop here).1

lemma emit_eq {l : Lexeme} {rest : List Char} (split : c :: v = l.source ++ rest)
    (plain : l.kind ≠ .string) : emit cs l.kind start (start + l.source.length)
      = .ok (some (l.toToken start), start + l.source.length) := by
  rw [emit, slice_eq here split (start_lt here).le, Lexeme.toToken, text_of_ne_string plain]
  rfl

lemma wordAt_eq : wordAt cs start
    = .ok (some ((scanWord c v).toToken start), start + (scanWord c v).source.length) := by
  have next : cs.drop (start + 1) = v := drop_ahead here (u := [c]) rfl
  have segment : runEnd cs isNameChar (start + 1)
      = start + (c :: v.takeWhile isNameChar).length := by
    rw [runEnd_eq next, List.length_cons]
    omega
  have whole : nameEnd cs (start + (c :: v.takeWhile isNameChar).length)
      = start + (c :: nameTail v).length := by
    rw [← segment, nameEnd_eq next, List.length_cons]
    omega
  have word : slice cs start (start + (c :: v.takeWhile isNameChar).length)
      = .ok (String.ofList (c :: v.takeWhile isNameChar)) :=
    slice_eq here (w := v.dropWhile isNameChar) (by simp) (start_lt here).le
  obtain ⟨rest, name⟩ := Pattern.nameTail_isPrefix v
  rw [wordAt, segment, word]
  change (match Keyword.ofWord? (String.ofList (c :: v.takeWhile isNameChar)).toList with
    | some k => _
    | none => _) = _
  rw [String.toList_ofList, scanWord]
  cases found : Keyword.ofWord? (c :: v.takeWhile isNameChar) with
  | some k => rfl
  | none =>
    rw [whole]
    exact emit_eq here (l := ⟨.name, c :: nameTail v⟩) (by rw [List.cons_append, name]) (by simp)

lemma stringAt_eq : stringAt cs start = match stringTail v with
    | some t => .ok (some ((Lexeme.mk .string (c :: t)).toToken start), start + (c :: t).length)
    | none => .ok (none, start) := by
  have next : cs.drop (start + 1) = v := drop_ahead here (u := [c]) rfl
  rw [stringAt, quoteAt?_eq next]
  cases string : stringTail v with
  | none => rfl
  | some t =>
    obtain ⟨body, rfl⟩ := stringTail_ends string
    obtain ⟨rest, split⟩ := (Pattern.stringTail_sound string).2
    rw [List.append_assoc] at split
    have stop : start + 1 + (body ++ ['"']).length - 1 = start + 1 + body.length := by simp
    have text := slice_eq next split.symm (start_lt here)
    rw [Option.map_some, stop]
    change (slice cs (start + 1) (start + 1 + body.length) >>= fun text => _) = _
    rw [text]
    have behind : start + 1 + body.length + 1 = start + (c :: (body ++ ['"'])).length := by
      simp only [List.length_cons, List.length_append, List.length_nil]
      omega
    rw [behind]
    simp [Lexeme.toToken, Lexeme.text, bind, Except.bind, pure, Except.pure]

lemma numberAt_eq : numberAt cs start = match scanNumber (c :: v) with
    | some l => .ok (some (l.toToken start), start + l.source.length)
    | none => .ok (none, start) := by
  set sign := if (c :: v).head? == some '-' then ['-'] else [] with signEq
  have behind : (if has cs start (· == '-') then start + 1 else start) = start + sign.length := by
    rw [has_here here, signEq]
    by_cases minus : c = '-' <;> simp [minus]
  have unsigned : cs.drop (start + sign.length) = (c :: v).drop sign.length := by
    rw [← List.drop_drop, here]
  rw [numberAt, behind, wholeEnd?_eq unsigned]
  cases read : wholePart ((c :: v).drop sign.length) with
  | none =>
    have unread : scanNumber (c :: v) = none := by
      rw [scanNumber, Text.Number.scan?, ← signEq, read]
      rfl
    rw [unread]
    rfl
  | some whole =>
    set afterWhole := ((c :: v).drop sign.length).drop whole.length
    set fraction := fractionPart afterWhole
    set exponent := exponentPart (afterWhole.drop fraction.length)
    set n : Text.Number := ⟨sign, whole, fraction, exponent⟩
    have first : cs.drop (start + sign.length + whole.length) = afterWhole := by
      rw [← List.drop_drop, unsigned]
    have second : cs.drop (start + sign.length + whole.length + fraction.length)
        = afterWhole.drop fraction.length := by
      rw [← List.drop_drop, first]
    have fractionEnd : fractionEnd? cs _ = partEnd? _ fraction := fractionEnd?_eq first
    have exponentEnd : exponentEnd? cs _ = partEnd? _ exponent := exponentEnd?_eq second
    have length : start + sign.length + whole.length + fraction.length + exponent.length
        = start + n.source.length := by
      simp only [n, Text.Number.source, List.length_append]
      omega
    have scanned : Text.Number.scan? (c :: v) = some n := by
      rw [Text.Number.scan?, ← signEq, read]
      rfl
    have number : scanNumber (c :: v) = some ⟨if n.isInteger then .int else .float, n.source⟩ := by
      rw [scanNumber, scanned, Option.map_some]
    have other : (if n.isInteger then Kind.int else .float) ≠ .string := by
      split <;> simp
    obtain ⟨rest, split⟩ := Pattern.number_source_isPrefix scanned
    simp only [Option.map_some, number, fractionEnd, exponentEnd, partEnd?_getD, partEnd?_isNone,
      length]
    exact emit_eq here (l := ⟨if n.isInteger then .int else .float, n.source⟩) split.symm other

omit here in
lemma operator?_eq : operator? c v.head?
    = (scanComparison (c :: v)).map fun op => (op, op.sign.toList.length) := by
  generalize ahead : v.head? = d
  fun_cases operator? c d with
  | case1 | case2 | case3 | case4 =>
    obtain ⟨w, rfl⟩ := List.head?_eq_some_iff.1 ahead
    rfl
  | case5 => rfl
  | case6 d other | case7 d other =>
    have apart : ∀ w, v = '=' :: w → False := by
      rintro w rfl
      exact other ahead.symm
    simp only [scanComparison]
    rfl
  | case8 => rfl
  | case9 c d ne nc _ _ eq gt lt con =>
    have unsigned : scanComparison (c :: v) = none := by
      rw [Rule.scanComparison_eq_find?, List.find?_eq_none]
      intro op _ starts
      obtain ⟨rest, split⟩ := List.isPrefixOf_iff_prefix.1 starts
      cases op with
      | equal => exact eq (List.cons.inj split).1.symm
      | greater | greaterEqual => exact gt (List.cons.inj split).1.symm
      | less | lessEqual => exact lt (List.cons.inj split).1.symm
      | contains => exact con (List.cons.inj split).1.symm
      | notEqual =>
        obtain ⟨rfl, rfl⟩ := List.cons.inj split
        exact ne rfl ahead.symm
      | notContains =>
        obtain ⟨rfl, rfl⟩ := List.cons.inj split
        exact nc rfl ahead.symm
    rw [unsigned]
    rfl

lemma operatorAt_eq : operatorAt cs start = match scanComparison (c :: v) with
    | some op => .ok (some ((Lexeme.mk (.comparison op) op.sign.toList).toToken start),
        start + op.sign.toList.length)
    | none => .ok (none, start) := by
  have ahead : cs[start + 1]? = v.head? := by
    rw [getElem?_ahead here 1, List.getElem?_cons_succ, ← List.head?_eq_getElem?]
  rw [operatorAt, charAt_eq here rfl, ahead]
  change (match operator? c v.head? with
    | some (op, length) => emit cs (.comparison op) start (start + length)
    | none => Except.ok (none, start)) = _
  rw [operator?_eq]
  cases found : scanComparison (c :: v) with
  | none => rfl
  | some op =>
    have starts : op.sign.toList <+: c :: v := by
      rw [Rule.scanComparison_eq_find?] at found
      exact List.isPrefixOf_iff_prefix.1 (List.find?_some
        (p := fun op : Comparison => op.sign.toList.isPrefixOf (c :: v)) found)
    obtain ⟨rest, split⟩ := starts
    exact emit_eq here (l := ⟨.comparison op, op.sign.toList⟩) split.symm (by simp)

/-- An attempt finds the lexeme that starts there, and stands behind it; where there is none
it passes blanks, or stays. -/
theorem attempt_eq : attempt cs start = match scan (c :: v) with
    | some l => .ok (some (l.toToken start), start + l.source.length)
    | none => .ok (none, if isBlank c then start + ((c :: v).takeWhile isBlank).length
        else start) := by
  rw [attempt, charAt_eq here rfl]
  change (if isBlank c = true then _ else _) = _
  rw [scan]
  by_cases blank : isBlank c = true
  · rw [if_pos blank, if_pos blank, runEnd_eq here]
    simp only [blank, if_true]
    rfl
  rw [if_neg blank, if_neg blank]
  cases punct : scanPunct c with
  | some p => exact emit_eq here (l := ⟨.punct p, [c]⟩) rfl (by simp)
  | none =>
    simp only [blank, Bool.false_eq_true, if_false]
    by_cases begins : isNameStart c = true
    · rw [if_pos begins, if_pos begins, wordAt_eq here]
    rw [if_neg begins, if_neg begins]
    by_cases quote : (c == '"') = true
    · rw [if_pos quote, if_pos quote, stringAt_eq here]
      cases stringTail v <;> rfl
    rw [if_neg quote, if_neg quote]
    by_cases number : (c == '-' || c.isDigit) = true
    · rw [if_pos number, if_pos number, numberAt_eq here]
    · rw [if_neg number, if_neg number, operatorAt_eq here]
      cases scanComparison (c :: v) <;> rfl

end Attempts

end Indexed

end FilterAssist.Query
