import FilterAssist.Json.Reader
import FilterAssist.Json.Writer
import FilterAssist.Proofs.NumberLexemes
import FilterAssist.Proofs.WrittenDocuments

/-!
# JSON texts, written and read back

The compact text of a value is JSON by the rules of the standard, which are written out here
without the reader, and the reader gives the value back. Numbers have to be counts of 64 bits,
the only ones that are ever written, and containers may be nested as deep as the reader goes.
Strings are free: no character of a string can be taken for its end.
-/

namespace FilterAssist.Json

open Text

variable {room : Nat} {v : Json} {cs rest : List Char} {ls ms : List Lexeme}

/-- One character of a string: itself, or a backslash and what names it. -/
inductive IsStringChar : List Char → Prop
  | plain {c : Char} (visible : 0x20 ≤ c.toNat) (other : c ∉ ['"', '\\']) : IsStringChar [c]
  | letter {c : Char} (named : c ∈ ['"', '\\', '/', 'b', 'f', 'n', 'r', 't']) :
      IsStringChar ['\\', c]
  | code {h₁ h₂ h₃ h₄ : Char} (digits : ∀ h ∈ [h₁, h₂, h₃, h₄], isHexDigit h = true) :
      IsStringChar ['\\', 'u', h₁, h₂, h₃, h₄]

def IsString (w : List Char) : Prop :=
  ∃ parts : List (List Char), (∀ p ∈ parts, IsStringChar p) ∧ w = '"' :: parts.flatten ++ ['"']

/-- The texts of JSON values that have no blanks between their parts. -/
inductive IsText : List Char → Prop
  | null : IsText ['n', 'u', 'l', 'l']
  | true : IsText ['t', 'r', 'u', 'e']
  | false : IsText ['f', 'a', 'l', 's', 'e']
  | int {w : List Char} (h : w ∈ Query.Pattern.int.language) : IsText w
  | float {w : List Char} (h : w ∈ Query.Pattern.float.language) : IsText w
  | string {w : List Char} (h : IsString w) : IsText w
  | array {items : List (List Char)} (h : ∀ w ∈ items, IsText w) :
      IsText ('[' :: [','].intercalate items ++ [']'])
  | object {members : List (List Char × List Char)}
      (keys : ∀ m ∈ members, IsString m.1) (values : ∀ m ∈ members, IsText m.2) :
      IsText ('\x7b' :: [','].intercalate (members.map fun m => m.1 ++ ':' :: m.2) ++ ['\x7d'])

/-- The values that are written, where `room` more containers may be opened. -/
inductive Printed : Nat → Json → Prop
  | null {room : Nat} : Printed room .null
  | bool {room : Nat} (b : Bool) : Printed room (.bool b)
  | count {room n : Nat} (small : n < 2 ^ 64) : Printed room (.ofNat n)
  | string {room : Nat} (s : String) : Printed room (.string s)
  | array {room : Nat} {items : List Json} (h : ∀ v ∈ items, Printed room v) :
      Printed (room + 1) (.array items)
  | object {room : Nat} {members : List (String × Json)} (h : ∀ m ∈ members, Printed room m.2) :
      Printed (room + 1) (.object members)

/-- An escape that stands for the character, without its backslash. -/
def Escapes (c : Char) (e : List Char) : Prop :=
  (∀ rest, escape? (e ++ rest) = some (c, rest)) ∧ IsStringChar ('\\' :: e)

lemma escapes_letter {c d : Char} (stands : unescape? d = some c ∧ d ≠ 'u')
    (named : d ∈ ['"', '\\', '/', 'b', 'f', 'n', 'r', 't']) : Escapes c [d] := by
  refine ⟨fun rest => ?_, .letter named⟩
  rw [List.singleton_append, escape?, if_neg (by simpa using stands.2), stands.1, Option.map_some]

/-- The controls, which no letter names, are far below the surrogates. -/
lemma hex_of_control {n : Nat} (h : n < 32) : ∃ h₁ h₂ h₃ h₄,
    toHexPadded 4 n = [h₁, h₂, h₃, h₄] ∧ ofHex? [h₁, h₂, h₃, h₄] = some n ∧
      ∀ d ∈ [h₁, h₂, h₃, h₄], isHexDigit d = true := by
  have digits : ∀ n < 32, (toHexPadded 4 n).length = 4 ∧ ofHex? (toHexPadded 4 n) = some n ∧
      (toHexPadded 4 n).all isHexDigit = true := by decide +kernel
  obtain ⟨four, spell, hex⟩ := digits n h
  rw [List.all_eq_true] at hex
  obtain ⟨h₁, h₂, h₃, h₄, same⟩ := List.length_eq_four.1 four
  rw [same] at spell hex
  exact ⟨h₁, h₂, h₃, h₄, same, spell, hex⟩

lemma escapes_control {c : Char} (control : c.toNat < 32) :
    Escapes c ('u' :: toHexPadded 4 c.toNat) := by
  obtain ⟨h₁, h₂, h₃, h₄, same, spell, hex⟩ := hex_of_control control
  have high : isHighSurrogate c.toNat = false := by
    simp only [isHighSurrogate, Bool.and_eq_false_iff, decide_eq_false_iff_not]
    omega
  have low : isLowSurrogate c.toNat = false := by
    simp only [isLowSurrogate, Bool.and_eq_false_iff, decide_eq_false_iff_not]
    omega
  rw [same]
  refine ⟨fun rest => ?_, .code hex⟩
  have read : fourHex? (h₁ :: h₂ :: h₃ :: h₄ :: rest) = some (c.toNat, rest) := by
    rw [fourHex?, spell, Option.map_some]
  simp [escape?, numericEscape?, read, high, low, Char.ofNat_toNat]

/-- A character stands for itself or is escaped. -/
lemma escapeChar_cases (c : Char) :
    (escapeChar c = [c] ∧ c ≠ '"' ∧ c ≠ '\\' ∧ 32 ≤ c.toNat) ∨
      ∃ e, escapeChar c = '\\' :: e ∧ Escapes c e := by
  by_cases named : c ∈ ['"', '\\', '\x08', '\t', '\n', '\x0c', '\r']
  · simp only [List.mem_cons, List.not_mem_nil, or_false] at named
    rcases named with rfl | rfl | rfl | rfl | rfl | rfl | rfl <;>
      exact Or.inr ⟨_, rfl, escapes_letter (by decide) (by decide)⟩
  · simp only [List.mem_cons, List.not_mem_nil, or_false, not_or] at named
    obtain ⟨quote, backslash, backspace, tab, newline, feed, carriage⟩ := named
    have unnamed : escapeChar c
        = if c < ' ' then '\\' :: 'u' :: toHexPadded 4 c.toNat else [c] := by
      simp only [escapeChar, beq_iff_eq, quote, backslash, backspace, tab, newline, feed, carriage,
        if_false]
    rw [unnamed]
    by_cases control : c < ' '
    · rw [if_pos control]
      exact Or.inr ⟨_, rfl, escapes_control control⟩
    · rw [if_neg control]
      exact Or.inl ⟨rfl, quote, backslash, Nat.le_of_not_lt control⟩

lemma body_escapeChar (c : Char) (rest : List Char) :
    escaping.body (escapeChar c ++ rest) =
      (escaping.body rest).map fun (s, r) => (c :: s, r) := by
  rcases escapeChar_cases c with ⟨self, quote, backslash, visible⟩ | ⟨e, escaped, stands, -⟩
  · have plain : escaping.isPlain c = true := by
      have : ¬ c < ' ' := Nat.not_lt_of_le visible
      simp [escaping, this]
    rw [self, List.singleton_append, Escaping.body]
    simp [quote, backslash, plain]
  · rw [escaped, List.cons_append]
    exact Escaping.body_escape (stands rest)

/-- A string in quotes is read back up to its quote, whatever follows. -/
theorem body_quote (s rest : List Char) :
    escaping.body (s.flatMap escapeChar ++ '"' :: rest) = some (s, rest) := by
  induction s with
  | nil => rw [List.flatMap_nil, List.nil_append, Escaping.body]; rfl
  | cons c s ih =>
    rw [List.flatMap_cons, List.append_assoc, body_escapeChar, ih, Option.map_some]

lemma isString_quote (s : List Char) : IsString (quote s) := by
  refine ⟨s.map escapeChar, ?_, by rw [quote, List.flatMap_def]⟩
  intro p mem
  obtain ⟨c, -, rfl⟩ := List.mem_map.1 mem
  rcases escapeChar_cases c with ⟨self, quote, backslash, visible⟩ | ⟨e, escaped, -, part⟩
  · rw [self]
    exact .plain visible (by simp [quote, backslash])
  · rw [escaped]
    exact part

/-- What may follow a number: the end of the text or a mark. -/
def Ends (rest : List Char) : Prop := ∀ c ∈ rest.head?, (mark? c).isSome = true

lemma mem_of_mark? {c : Char} (h : (mark? c).isSome = true) :
    c ∈ ['\x7b', '\x7d', '[', ']', ':', ','] := by
  by_contra other
  simp only [List.mem_cons, List.not_mem_nil, or_false, not_or] at other
  simp [mark?, other] at h

/-- A mark is neither a digit nor any other part of a number. -/
lemma Ends.parts (ends : Ends rest) :
    digits rest = [] ∧ fractionPart rest = [] ∧ exponentPart rest = [] := by
  cases rest with
  | nil => exact ⟨rfl, rfl, rfl⟩
  | cons c rest =>
    have mark := mem_of_mark? (ends c rfl)
    simp only [List.mem_cons, List.not_mem_nil, or_false] at mark
    rcases mark with rfl | rfl | rfl | rfl | rfl | rfl <;> exact ⟨rfl, rfl, rfl⟩

/-- The digits of a count make up a whole number of the standard. -/
lemma whole_toDigits (n : Nat) : Nat.toDigits 10 n ∈ Query.Pattern.whole.language := by
  rw [Query.Pattern.mem_whole_iff]
  rcases Nat.eq_zero_or_pos n with rfl | pos
  · exact Or.inl rfl
  · have head := Toml.head?_toDigits_ne pos
    have digits : ∀ c ∈ Nat.toDigits 10 n, c.isDigit = true := fun c => Toml.isDigit_of_mem
    cases same : Nat.toDigits 10 n with
    | nil => exact absurd same Nat.toDigits_ne_nil
    | cons c ds =>
      rw [same] at head digits
      obtain ⟨first, others⟩ := List.forall_mem_cons.1 digits
      exact Or.inr ⟨c, ds, rfl, first, by simpa using head, others⟩

lemma wholePart_append {w : List Char} (whole : w ∈ Query.Pattern.whole.language)
    (ends : digits rest = []) : wholePart (w ++ rest) = some w := by
  rcases Query.Pattern.mem_whole_iff.1 whole with rfl | ⟨c, ds, rfl, digit, zero, others⟩
  · rfl
  · rw [List.cons_append, wholePart, if_neg (by simpa using zero), if_pos digit,
      Query.digits_append_of_all others ends]

lemma scan?_toDigits (n : Nat) (ends : Ends rest) :
    Number.scan? (Nat.toDigits 10 n ++ rest) = some ⟨[], Nat.toDigits 10 n, [], []⟩ := by
  obtain ⟨stop, fraction, exponent⟩ := ends.parts
  have unsigned : ((Nat.toDigits 10 n ++ rest).head? == some '-') = false := by
    rw [List.head?_append_of_ne_nil _ Nat.toDigits_ne_nil]
    cases same : Nat.toDigits 10 n with
    | nil => rfl
    | cons c ds =>
      have digit : c.isDigit = true := Toml.isDigit_of_mem (same ▸ List.mem_cons_self)
      have : c ≠ '-' := by
        rintro rfl
        cases digit
      simpa using this
  simp only [Number.scan?, unsigned, Bool.false_eq_true, if_false, List.length_nil, List.drop_zero,
    wholePart_append (whole_toDigits n) stop, Option.map_some, List.drop_left, fraction, exponent]

lemma le_ofDigitChars (ds : List Char) (n : Nat) : n ≤ Nat.ofDigitChars 10 ds n := by
  induction ds generalizing n with
  | nil => exact Nat.le_refl n
  | cons d ds ih =>
    rw [Nat.ofDigitChars_cons]
    have := ih (10 * n + (d.toNat - '0'.toNat))
    omega

/-- Where there is room for all digits, there is room for each. -/
lemma addWhole_eq (ds : List Char) (n : Nat) (e : Int)
    (small : Nat.ofDigitChars 10 ds n < 2 ^ 64) :
    (Magnitude.mk n e).addWhole ds = ⟨Nat.ofDigitChars 10 ds n, e⟩ := by
  induction ds generalizing n with
  | nil => rfl
  | cons d ds ih =>
    rw [Nat.ofDigitChars_cons] at small ⊢
    have limit : Nat.pow 2 64 = 2 ^ 64 := rfl
    have next := Nat.lt_of_le_of_lt (le_ofDigitChars ds _) small
    have room : (Magnitude.mk n e).push? d = some (10 * n + (d.toNat - '0'.toNat)) := by
      simp only [Magnitude.push?, limit, if_pos next]
    rw [Magnitude.addWhole_of_push? room]
    exact ih _ small

lemma nearestDouble_le {n : Nat} (small : n < 2 ^ 64) : nearestDouble n ≤ 2 ^ 65 := by
  have round (n unit : Nat) : roundHalfEven n unit * unit ≤ n + unit := by
    have less : roundHalfEven n unit ≤ n / unit + 1 := by
      simp only [roundHalfEven]
      split
      · omega
      split
      · omega
      · omega
    calc roundHalfEven n unit * unit ≤ (n / unit + 1) * unit := Nat.mul_le_mul_right unit less
      _ = n / unit * unit + unit := Nat.succ_mul _ _
      _ ≤ n + unit := Nat.add_le_add_right (Nat.div_mul_le_self n unit) unit
  have unit : Nat.pow 2 (n.log2 + 1 - 53) ≤ 2 ^ 64 := by
    refine Nat.pow_le_pow_right (by decide) ?_
    rcases Nat.eq_zero_or_pos n with rfl | pos
    · decide
    · have := (Nat.log2_lt (Nat.ne_of_gt pos)).2 small
      omega
  have := round n (Nat.pow 2 (n.log2 + 1 - 53))
  simp only [nearestDouble]
  omega

/-- A count of 64 bits is far from the largest double. -/
lemma not_isTooLarge {n : Nat} (small : n < 2 ^ 64) :
    (Magnitude.ofNumber ⟨[], Nat.toDigits 10 n, [], []⟩).isTooLarge = false := by
  have value : Nat.ofDigitChars 10 (Nat.toDigits 10 n) 0 = n :=
    Nat.ofDigitChars_toDigits (by decide) (by decide)
  have magnitude : Magnitude.ofNumber ⟨[], Nat.toDigits 10 n, [], []⟩ = ⟨n, 0⟩ := by
    have whole := addWhole_eq (Nat.toDigits 10 n) 0 0 (by rw [value]; exact small)
    have fraction : (Magnitude.mk n 0).addFraction [] = ⟨n, 0⟩ := rfl
    simp only [Magnitude.ofNumber, whole, value, List.tail_nil, fraction, Number.exponentValue,
      Int.add_zero]
  have one : nearestDouble (Nat.pow 10 0) = 1 := by decide
  have limit : 2 ^ 65 < doubleLimit := by decide +kernel
  have near := nearestDouble_le small
  have room : ¬ doubleLimit ≤ nearestDouble n * nearestDouble (Nat.pow 10 0) := by
    rw [one]
    omega
  have low : ¬ (308 : Int) < 0 := by decide
  simp only [magnitude, Magnitude.isTooLarge, low, if_false, Int.toNat_zero, room, decide_false,
    ite_self]

lemma readLexemes_cons {c : Char} {l : Lexeme} (visible : isBlank c = false)
    (found : lexeme? (c :: cs) = some (l, rest)) :
    readLexemes (c :: cs) = (readLexemes rest).map (l :: ·) := by
  rw [readLexemes, if_neg (by simp [visible])]
  split
  · next none =>
    rw [found] at none
    cases none
  · next some =>
    rw [found] at some
    cases some
    rfl

/-- The lexemes are read from their text, if what follows does not go on with a number. -/
def Spelled (ls : List Lexeme) : Prop :=
  ∀ rest, Ends rest →
    readLexemes (ls.flatMap Lexeme.text ++ rest) = (readLexemes rest).map (ls ++ ·)

/-- The lexemes of a sequence that begins with a mark, if it is not empty. -/
def Marked (ls : List Lexeme) : Prop := ∀ rest, Ends rest → Ends (ls.flatMap Lexeme.text ++ rest)

lemma marked_nil : Marked [] := fun _ ends => ends

lemma marked_cons {c : Char} {l : Lexeme} (text : l.text = [c]) (mark : (mark? c).isSome = true)
    (ls : List Lexeme) : Marked (l :: ls) := by
  intro rest _ d head
  simp only [List.flatMap_cons, text, List.cons_append, List.head?_cons, Option.mem_def,
    Option.some.injEq] at head
  exact head ▸ mark

lemma spelled_nil : Spelled [] := by
  intro rest _
  simp

lemma Spelled.append (first : Spelled ls) (last : Spelled ms) (marked : Marked ms) :
    Spelled (ls ++ ms) := by
  intro rest ends
  rw [List.flatMap_append, List.append_assoc, first _ (marked rest ends), last rest ends,
    Option.map_map]
  congr 1
  funext ns
  exact (List.append_assoc ls ms ns).symm

/-- A lexeme that ends by itself may stand in front of any others. -/
lemma Spelled.cons {c : Char} {w : List Char} {l : Lexeme} (text : l.text = c :: w)
    (visible : isBlank c = false)
    (found : ∀ rest, lexeme? (c :: (w ++ rest)) = some (l, rest)) (spelled : Spelled ls) :
    Spelled (l :: ls) := by
  intro rest ends
  rw [List.flatMap_cons, text, List.append_assoc, List.cons_append,
    readLexemes_cons visible (found _), spelled rest ends, Option.map_map]
  rfl

lemma Spelled.mark {c : Char} {l : Lexeme} (text : l.text = [c]) (visible : isBlank c = false)
    (mark : mark? c = some l) (spelled : Spelled ls) : Spelled (l :: ls) := by
  refine spelled.cons text visible fun rest => ?_
  rw [List.nil_append, lexeme?, mark]

lemma Spelled.string (s : String) (spelled : Spelled ls) : Spelled (.string s :: ls) := by
  have text : (Lexeme.string s).text = '"' :: (s.toList.flatMap escapeChar ++ ['"']) := rfl
  refine spelled.cons text rfl fun rest => ?_
  have mark : mark? '"' = none := rfl
  rw [lexeme?, mark]
  simp only [beq_self_eq_true, if_true, List.append_assoc, List.singleton_append, body_quote,
    Option.map_some, String.ofList_toList]

lemma Spelled.word {c : Char} {w : List Char} {l : Lexeme} (text : l.text = c :: w)
    (letter : isBlank c = false ∧ mark? c = none ∧ c ≠ '"' ∧ c ≠ '-' ∧ c.isDigit = false)
    (word : ∀ rest, word? (c :: (w ++ rest)) = some (l, rest)) : Spelled [l] := by
  obtain ⟨visible, mark, quote, minus, digit⟩ := letter
  refine spelled_nil.cons text visible fun rest => ?_
  rw [lexeme?, mark]
  simp only [beq_iff_eq, quote, minus, digit, Bool.or_false, if_false, word]

lemma text_ofNat (n : Nat) : (ofNat n).lexemes.flatMap Lexeme.text = Nat.toDigits 10 n := by
  rw [ofNat, lexemes, List.flatMap_singleton]
  exact Nat.toList_repr

lemma spelled_ofNat {n : Nat} (small : n < 2 ^ 64) : Spelled (ofNat n).lexemes := by
  intro rest ends
  have scanned := scan?_toDigits n ends
  have source : (Number.mk [] (Nat.toDigits 10 n) [] []).source = Nat.toDigits 10 n := by
    simp [Number.source]
  rw [text_ofNat]
  cases same : Nat.toDigits 10 n with
  | nil => exact absurd same Nat.toDigits_ne_nil
  | cons c ds =>
    have digit : c.isDigit = true := Toml.isDigit_of_mem (same ▸ List.mem_cons_self)
    have other (d : Char) (h : d.isDigit = false) : c ≠ d := by
      rintro rfl
      rw [digit] at h
      cases h
    have mark : mark? c = none := by
      simp [mark?, other _ (by decide : '\x7b'.isDigit = false), other ']' (by decide),
        other '[' (by decide), other '\x7d' (by decide), other ':' (by decide),
        other ',' (by decide)]
    have visible : isBlank c = false := by
      simp [isBlank, other ' ' (by decide), other '\t' (by decide), other '\n' (by decide),
        other '\r' (by decide)]
    rw [same] at scanned source
    rw [List.cons_append] at scanned ⊢
    refine readLexemes_cons visible ?_
    rw [lexeme?, mark]
    simp only [beq_iff_eq, other '"' (by decide), if_false, digit, Bool.or_true, if_true]
    rw [scanned, Option.bind_some, source, ← same, not_isTooLarge small, same,
      ← List.cons_append, List.drop_left, Nat.repr_eq_ofList_toDigits, same]
    rfl

lemma marked_moreItems (items : List Json) : Marked (moreItems items) := by
  cases items with
  | nil => exact marked_nil
  | cons v items => exact marked_cons rfl rfl _

lemma marked_moreMembers (members : List (String × Json)) : Marked (moreMembers members) := by
  cases members with
  | nil => exact marked_nil
  | cons m members => exact marked_cons rfl rfl _

lemma spelled_moreItems {items : List Json} (each : ∀ v ∈ items, Spelled v.lexemes) :
    Spelled (moreItems items) := by
  induction items with
  | nil => exact spelled_nil
  | cons v items ih =>
    obtain ⟨here, later⟩ := List.forall_mem_cons.1 each
    exact (here.append (ih later) (marked_moreItems items)).mark rfl rfl rfl

lemma spelled_moreMembers {members : List (String × Json)}
    (each : ∀ m ∈ members, Spelled m.2.lexemes) : Spelled (moreMembers members) := by
  induction members with
  | nil => exact spelled_nil
  | cons m members ih =>
    obtain ⟨here, later⟩ := List.forall_mem_cons.1 each
    have value := here.append (ih later) (marked_moreMembers members)
    exact ((value.mark rfl rfl rfl).string m.1).mark rfl rfl rfl

lemma spelled_items {items : List Json} (each : ∀ v ∈ items, Spelled v.lexemes) :
    Spelled (itemLexemes items) := by
  cases items with
  | nil => exact spelled_nil
  | cons v items =>
    obtain ⟨here, later⟩ := List.forall_mem_cons.1 each
    exact here.append (spelled_moreItems later) (marked_moreItems items)

lemma spelled_members {members : List (String × Json)}
    (each : ∀ m ∈ members, Spelled m.2.lexemes) : Spelled (memberLexemes members) := by
  cases members with
  | nil => exact spelled_nil
  | cons m members =>
    obtain ⟨here, later⟩ := List.forall_mem_cons.1 each
    have value := here.append (spelled_moreMembers later) (marked_moreMembers members)
    exact (value.mark rfl rfl rfl).string m.1

/-- The text of a value is cut into its lexemes. -/
theorem Printed.spelled (printed : Printed room v) : Spelled v.lexemes := by
  induction printed with
  | null => exact Spelled.word rfl (by decide) fun rest => rfl
  | bool b => cases b <;> exact Spelled.word rfl (by decide) fun rest => rfl
  | count small => exact spelled_ofNat small
  | string s => exact spelled_nil.string s
  | array _ ih =>
    have close : Spelled [.closeBracket] := spelled_nil.mark rfl rfl rfl
    exact ((spelled_items ih).append close (marked_cons rfl rfl [])).mark rfl rfl rfl
  | object _ ih =>
    have close : Spelled [.closeBrace] := spelled_nil.mark rfl rfl rfl
    exact ((spelled_members ih).append close (marked_cons rfl rfl [])).mark rfl rfl rfl

/-- The lexemes of a value take the machine from where the value may come to where it has
been delivered, inside at most so many containers. -/
def Delivers (room : Nat) (v : Json) : Prop :=
  ∀ outer : List Frame, outer.length + room ≤ maxDepth →
    v.lexemes.foldlM step (.value outer) = some (deliver v outer)

lemma Delivers.inside (h : Delivers room v) (frame : Frame) {outer : List Frame}
    (fits : outer.length + 1 + room ≤ maxDepth) :
    v.lexemes.foldlM step (.value (frame :: outer)) = some (deliver v (frame :: outer)) :=
  h (frame :: outer) fits

lemma foldlM_append_of_eq_some {s t : State} (first : ls.foldlM step s = some t)
    (ms : List Lexeme) : (ls ++ ms).foldlM step s = ms.foldlM step t := by
  rw [List.foldlM_append, first]
  rfl

lemma foldlM_moreItems {items : List Json} (each : ∀ v ∈ items, Delivers room v)
    (before : List Json) {outer : List Frame} (fits : outer.length + 1 + room ≤ maxDepth) :
    (moreItems items).foldlM step (.afterItem before outer)
      = some (.afterItem (items.reverse ++ before) outer) := by
  induction items generalizing before with
  | nil => rfl
  | cons v items ih =>
    obtain ⟨here, later⟩ := List.forall_mem_cons.1 each
    have comma : [Lexeme.comma].foldlM step (.afterItem before outer)
        = some (.value (.inArray before :: outer)) := rfl
    have parts : moreItems (v :: items) = [.comma] ++ (v.lexemes ++ moreItems items) := rfl
    rw [parts, foldlM_append_of_eq_some comma, foldlM_append_of_eq_some (here.inside _ fits),
      deliver, ih later, List.reverse_cons, List.append_assoc, List.singleton_append]

lemma foldlM_moreMembers {members : List (String × Json)}
    (each : ∀ m ∈ members, Delivers room m.2) (before : List (String × Json))
    {outer : List Frame} (fits : outer.length + 1 + room ≤ maxDepth) :
    (moreMembers members).foldlM step (.afterMember before outer)
      = some (.afterMember (members.reverse ++ before) outer) := by
  induction members generalizing before with
  | nil => rfl
  | cons m members ih =>
    obtain ⟨here, later⟩ := List.forall_mem_cons.1 each
    have key : [Lexeme.comma, .string m.1, .colon].foldlM step (.afterMember before outer)
        = some (.value (.inObject before m.1 :: outer)) := rfl
    have parts : moreMembers (m :: members)
        = [.comma, .string m.1, .colon] ++ (m.2.lexemes ++ moreMembers members) := rfl
    rw [parts, foldlM_append_of_eq_some key, foldlM_append_of_eq_some (here.inside _ fits),
      deliver, ih later, List.reverse_cons, List.append_assoc, List.singleton_append]

/-- A value does not begin with the mark that would end an empty array. -/
lemma foldlM_firstItem (v : Json) (outer : List Frame) :
    v.lexemes.foldlM step (.firstItem outer)
      = v.lexemes.foldlM step (.value (.inArray [] :: outer)) := by
  cases v <;> rfl

lemma foldlM_items {items : List Json} (each : ∀ v ∈ items, Delivers room v)
    {outer : List Frame} (fits : outer.length + 1 + room ≤ maxDepth) :
    (itemLexemes items ++ [Lexeme.closeBracket]).foldlM step (.firstItem outer)
      = some (deliver (.array items) outer) := by
  cases items with
  | nil => rfl
  | cons v items =>
    obtain ⟨here, later⟩ := List.forall_mem_cons.1 each
    have first : v.lexemes.foldlM step (.firstItem outer) = some (.afterItem [v] outer) :=
      (foldlM_firstItem v outer).trans (here.inside _ fits)
    rw [itemLexemes, List.append_assoc, foldlM_append_of_eq_some first,
      foldlM_append_of_eq_some (foldlM_moreItems later [v] fits)]
    change some (deliver (.array (items.reverse ++ [v]).reverse) outer) = _
    rw [List.reverse_append, List.reverse_reverse]
    rfl

lemma foldlM_members {members : List (String × Json)} (each : ∀ m ∈ members, Delivers room m.2)
    {outer : List Frame} (fits : outer.length + 1 + room ≤ maxDepth) :
    (memberLexemes members ++ [Lexeme.closeBrace]).foldlM step (.firstKey outer)
      = some (deliver (.object members) outer) := by
  cases members with
  | nil => rfl
  | cons m members =>
    obtain ⟨here, later⟩ := List.forall_mem_cons.1 each
    have key : [Lexeme.string m.1, .colon].foldlM step (.firstKey outer)
        = some (.value (.inObject [] m.1 :: outer)) := rfl
    have parts : memberLexemes (m :: members)
        = [.string m.1, .colon] ++ (m.2.lexemes ++ moreMembers members) := rfl
    rw [parts, List.append_assoc, List.append_assoc, foldlM_append_of_eq_some key,
      foldlM_append_of_eq_some (here.inside _ fits), deliver,
      foldlM_append_of_eq_some (foldlM_moreMembers later [m] fits)]
    change some (deliver (.object (members.reverse ++ [m]).reverse) outer) = _
    rw [List.reverse_append, List.reverse_reverse]
    rfl

/-- The machine builds a value from its lexemes. -/
theorem Printed.delivers (printed : Printed room v) : Delivers room v := by
  induction printed with
  | null | bool | count | string => intro outer _; rfl
  | @array room items _ ih =>
    intro outer fits
    have opened : step (.value outer) .openBracket = some (.firstItem outer) := by
      have inside : outer.length < maxDepth := by omega
      simp only [step, beginValue, if_pos inside]
    rw [lexemes, List.cons_append, List.foldlM_cons, opened, Option.bind_eq_bind, Option.bind_some]
    exact foldlM_items ih (by omega)
  | @object room members _ ih =>
    intro outer fits
    have opened : step (.value outer) .openBrace = some (.firstKey outer) := by
      have inside : outer.length < maxDepth := by omega
      simp only [step, beginValue, if_pos inside]
    rw [lexemes, List.cons_append, List.foldlM_cons, opened, Option.bind_eq_bind, Option.bind_some]
    exact foldlM_members ih (by omega)

/-- What is written is read back. -/
theorem parse?_compact (printed : Printed maxDepth v) : parse? v.compact = some v := by
  have ends : Ends [] := by
    intro c head
    cases head
  have lexemes : readLexemes (v.lexemes.flatMap Lexeme.text) = some v.lexemes := by
    have read := printed.spelled [] ends
    rwa [List.append_nil, readLexemes, Option.map_some, List.append_nil] at read
  have built : v.lexemes.foldlM step (.value []) = some (.done v) :=
    printed.delivers [] (by simp)
  rw [parse?, compact, String.toList_ofList, lexemes, Option.bind_some, ofLexemes?, built]

@[simp] lemma text_comma : Lexeme.comma.text = [','] := rfl

@[simp] lemma text_colon : Lexeme.colon.text = [':'] := rfl

@[simp] lemma text_openBracket : Lexeme.openBracket.text = ['['] := rfl

@[simp] lemma text_closeBracket : Lexeme.closeBracket.text = [']'] := rfl

@[simp] lemma text_openBrace : Lexeme.openBrace.text = ['\x7b'] := rfl

@[simp] lemma text_closeBrace : Lexeme.closeBrace.text = ['\x7d'] := rfl

@[simp] lemma text_string (s : String) : (Lexeme.string s).text = quote s.toList := rfl

lemma intercalate_comma {α : Type} (text : α → List Char) (x : α) (xs : List α) :
    [','].intercalate ((x :: xs).map text) = text x ++ xs.flatMap fun y => ',' :: text y := by
  induction xs generalizing x with
  | nil => simp
  | cons y ys ih =>
    have later := ih y
    rw [List.map_cons] at later
    rw [List.map_cons, List.map_cons, List.intercalate_cons_cons, later]
    simp

lemma flatMap_items (items : List Json) :
    (itemLexemes items).flatMap Lexeme.text
      = [','].intercalate (items.map fun v => v.lexemes.flatMap Lexeme.text) := by
  have more (items : List Json) : (moreItems items).flatMap Lexeme.text
      = items.flatMap fun v => ',' :: v.lexemes.flatMap Lexeme.text := by
    induction items with
    | nil => rfl
    | cons v items ih => simp [moreItems, ih]
  cases items with
  | nil => rfl
  | cons v items => rw [itemLexemes, List.flatMap_append, more, intercalate_comma]

lemma flatMap_members (members : List (String × Json)) :
    (memberLexemes members).flatMap Lexeme.text
      = [','].intercalate (members.map fun m =>
          quote m.1.toList ++ ':' :: m.2.lexemes.flatMap Lexeme.text) := by
  have more (members : List (String × Json)) : (moreMembers members).flatMap Lexeme.text
      = members.flatMap fun m =>
          ',' :: (quote m.1.toList ++ ':' :: m.2.lexemes.flatMap Lexeme.text) := by
    induction members with
    | nil => rfl
    | cons m members ih => simp [moreMembers, ih]
  cases members with
  | nil => rfl
  | cons m members =>
    rw [memberLexemes, List.flatMap_append, more, intercalate_comma]
    simp

/-- What is written is JSON. -/
theorem isText_compact (printed : Printed room v) : IsText v.compact.toList := by
  rw [compact, String.toList_ofList]
  induction printed with
  | null => exact .null
  | bool b =>
    cases b with
    | true => exact .true
    | false => exact .false
  | @count room n _ =>
    rw [text_ofNat]
    exact .int (Query.Pattern.mem_int_iff.2 ⟨[], _, rfl, Or.inl rfl, whole_toDigits n⟩)
  | string s =>
    have text : (Json.string s).lexemes.flatMap Lexeme.text = quote s.toList := by
      simp [lexemes]
    rw [text]
    exact .string (isString_quote s.toList)
  | @array room items _ ih =>
    have text : (Json.array items).lexemes.flatMap Lexeme.text
        = '[' :: [','].intercalate (items.map fun v => v.lexemes.flatMap Lexeme.text) ++ [']'] := by
      rw [← flatMap_items]
      simp [lexemes]
    rw [text]
    refine .array fun w mem => ?_
    obtain ⟨v, inside, rfl⟩ := List.mem_map.1 mem
    exact ih v inside
  | @object room members _ ih =>
    have text : (Json.object members).lexemes.flatMap Lexeme.text
        = '\x7b' :: [','].intercalate ((members.map fun m =>
            (quote m.1.toList, m.2.lexemes.flatMap Lexeme.text)).map fun m =>
              m.1 ++ ':' :: m.2) ++ ['\x7d'] := by
      rw [List.map_map]
      change _ = '\x7b' :: [','].intercalate (members.map fun m =>
        quote m.1.toList ++ ':' :: m.2.lexemes.flatMap Lexeme.text) ++ ['\x7d']
      rw [← flatMap_members]
      simp [lexemes]
    rw [text]
    refine .object (fun m mem => ?_) (fun m mem => ?_)
    · obtain ⟨n, -, rfl⟩ := List.mem_map.1 mem
      exact isString_quote n.1.toList
    · obtain ⟨n, inside, rfl⟩ := List.mem_map.1 mem
      exact ih n inside

end FilterAssist.Json
