import FilterAssist.Proofs.OpenSeams
import FilterAssist.Report.Basic

/-!
# The plain listing of tokens

A listing has one line for each token, and the tokens can be read off it again. The columns
need no fixed width for this: a label ends at the first blank, a number where its digits end,
and the text takes up what is left of the line. All that could go wrong is a line break in the
text of a token, and the lexer never lets one into a token.
-/

namespace FilterAssist

namespace Query

def Kind.all : List Kind :=
  [Punct.dot, .comma, .openParen, .closeParen].map .punct ++ Keyword.all.map .keyword
    ++ [.name, .string, .int, .float]
    ++ [Comparison.equal, .notEqual, .greater, .greaterEqual, .less, .lessEqual, .contains,
        .notContains].map .comparison

def Kind.ofLabel? (label : String) : Option Kind := Kind.all.find? fun k => k.label = label

lemma Kind.mem_all (k : Kind) : k ∈ Kind.all := by
  cases k with
  | punct p => cases p <;> decide
  | keyword w => cases w <;> decide
  | name | string | int | float => decide
  | comparison op => cases op <;> decide

/-- No two kinds have the same label. -/
lemma Kind.ofLabel?_label (k : Kind) : Kind.ofLabel? k.label = some k := by
  have found : ∀ k ∈ Kind.all, Kind.ofLabel? k.label = some k := by decide +kernel
  exact found k k.mem_all

lemma Kind.label_chars (k : Kind) : ∀ c ∈ k.label.toList, c ≠ ' ' ∧ c ≠ '\n' := by
  have unbroken : ∀ k ∈ Kind.all, k.label.toList.all (fun c => c != ' ' && c != '\n') = true := by
    decide +kernel
  simpa using unbroken k k.mem_all

lemma break_not_mem_stringTail {cs t : List Char} (h : stringTail cs = some t) : '\n' ∉ t := by
  fun_induction stringTail cs generalizing t with
  | case1 | case3 | case6 | case7 | case8 | case9 => cases h
  | case2 c cs hc =>
    cases h
    rw [beq_iff_eq] at hc
    simp [hc]
  | case4 c _ hc e rest he ih =>
    obtain ⟨u, hu, rfl⟩ := Option.map_eq_some_iff.1 h
    rw [beq_iff_eq] at hc
    have other : e ≠ '\n' := by
      rintro rfl
      cases he
    simp [hc, other.symm, ih hu]
  | case5 c _ hc e _ he h₁ h₂ h₃ h₄ rest hex ih =>
    obtain ⟨u, hu, rfl⟩ := Option.map_eq_some_iff.1 h
    simp only [Bool.and_eq_true] at hex
    rw [beq_iff_eq] at hc he
    have other {d : Char} (digit : Text.isHexDigit d = true) : '\n' ≠ d := by
      rintro rfl
      cases digit
    simp [hc, he, other hex.1.1.1, other hex.1.1.2, other hex.1.2, other hex.2, ih hu]
  | case10 c cs _ _ plain ih =>
    obtain ⟨u, hu, rfl⟩ := Option.map_eq_some_iff.1 h
    have other : '\n' ≠ c := by
      rintro rfl
      exact plain rfl
    simp [other, ih hu]

lemma break_not_mem_source {cs : List Char} {l : Lexeme} (found : scan cs = some l) :
    '\n' ∉ l.source := by
  cases cs with
  | nil => cases found
  | cons c cs =>
    rcases scan_cases found with ⟨p, punct, rfl⟩ | ⟨start, rfl⟩ | ⟨rfl, t, string, rfl⟩ |
      ⟨-, number, scanned, rfl⟩ | ⟨op, -, rfl⟩
    · intro mem
      obtain rfl := List.mem_singleton.1 mem
      cases punct
    · intro mem
      rcases scanWord_chars start cs _ mem with name | dot
      · cases name
      · cases dot
    · intro mem
      rcases List.mem_cons.1 mem with quote | mem
      · cases quote
      · exact break_not_mem_stringTail string mem
    · obtain ⟨early, late⟩ := number_chars scanned
      intro mem
      rcases List.mem_append.1 mem with mem | mem
      · rcases early _ mem with digit | minus | dot
        · cases digit
        · cases minus
        · cases dot
      · rcases late _ mem with name | plus | minus
        · cases name
        · cases plus
        · cases minus
    · cases op <;> decide

lemma Lexeme.mem_source_of_mem_text {l : Lexeme} {c : Char} (h : c ∈ l.text) : c ∈ l.source := by
  rw [Lexeme.text] at h
  split at h
  · exact List.mem_of_mem_tail (List.mem_of_mem_dropLast h)
  · exact h

/-- No token holds a line break. -/
theorem break_not_mem_text {text : String} {t : Token} (mem : t ∈ tokenize text) :
    '\n' ∉ t.text.toList := by
  obtain ⟨l, found, whole⟩ := (passes_to_end 0 text.toList).scan_at mem
  rw [whole, Lexeme.toToken, String.toList_ofList]
  exact fun inside => break_not_mem_source found (Lexeme.mem_source_of_mem_text inside)

end Query

namespace Report

open Query Text

/-- The token that a line of a listing shows: the label up to the first blank, two numbers with
two dots between them, and behind the second one, which takes three places at least and a blank,
the text. -/
def readLine? (line : List Char) : Option Token :=
  let label := line.takeWhile (· != ' ')
  let range := (line.dropWhile (· != ' ')).dropWhile (· == ' ')
  let start := digits range
  let behind := range.drop (start.length + 2)
  let stop := digits behind
  (Kind.ofLabel? (String.ofList label)).map fun kind =>
    ⟨kind, String.ofList (behind.drop (max 3 stop.length + 1)), Nat.ofDigitChars 10 start 0,
      Nat.ofDigitChars 10 stop 0⟩

/-- The lines of a listing; an empty one has none. -/
def listingLines (listing : String) : List (List Char) :=
  if listing = "" then [] else listing.toList.splitOn '\n'

def readListing? (listing : String) : Option (List Token) := (listingLines listing).mapM readLine?

/-- The characters of a line. -/
lemma toList_tokenLine (t : Token) : ∃ before behind,
    (tokenLine false t).toList = t.kind.label.toList ++ (List.replicate (before + 1) ' '
      ++ (Nat.toDigits 10 t.start ++ ('.' :: '.' :: (Nat.toDigits 10 t.stop
      ++ (List.replicate behind ' ' ++ t.text.toList))))) ∧
    (Nat.toDigits 10 t.stop).length + behind = max 3 (Nat.toDigits 10 t.stop).length + 1 := by
  refine ⟨14 - t.kind.label.toList.length + (3 - (Nat.toDigits 10 t.start).length),
    3 - (Nat.toDigits 10 t.stop).length + 1, ?_, by omega⟩
  have blanks (m n : Nat) (rest : List Char) : List.replicate m ' '
      ++ ' ' :: (List.replicate n ' ' ++ rest) = List.replicate (m + n + 1) ' ' ++ rest := by
    rw [Nat.add_assoc, ← List.replicate_append_replicate, List.replicate_succ]
    simp
  simp [tokenLine, padRight, padLeft, Nat.toList_repr, blanks, List.replicate_succ']

lemma dropWhile_blanks_append (m : Nat) {rest : List Char} (visible : rest.head? ≠ some ' ') :
    (List.replicate m ' ' ++ rest).dropWhile (· == ' ') = rest := by
  induction m with
  | zero =>
    cases rest with
    | nil => rfl
    | cons c rest => simpa using visible
  | succ m ih => simpa [List.replicate_succ] using ih

/-- A line shows its token, whatever the text and however large the offsets. -/
theorem readLine?_tokenLine (t : Token) : readLine? (tokenLine false t).toList = some t := by
  obtain ⟨before, behind, line, width⟩ := toList_tokenLine t
  set rest := List.replicate behind ' ' ++ t.text.toList
  set second := Nat.toDigits 10 t.stop ++ rest
  set first := Nat.toDigits 10 t.start ++ '.' :: '.' :: second
  have unbroken : ∀ c ∈ t.kind.label.toList, (c != ' ') = true := by
    intro c mem
    simpa using (t.kind.label_chars c mem).1
  have label : (tokenLine false t).toList.takeWhile (· != ' ') = t.kind.label.toList := by
    rw [line, List.takeWhile_append_of_pos unbroken]
    simp [List.replicate_succ]
  have range : ((tokenLine false t).toList.dropWhile (· != ' ')).dropWhile (· == ' ') = first := by
    have blanks : (List.replicate (before + 1) ' ' ++ first).dropWhile (· != ' ')
        = List.replicate (before + 1) ' ' ++ first := rfl
    rw [line, List.dropWhile_append_of_pos unbroken, blanks]
    refine dropWhile_blanks_append _ fun head => ?_
    rw [List.head?_append_of_ne_nil _ Nat.toDigits_ne_nil] at head
    have digit : ' '.isDigit = true :=
      Nat.isDigit_of_mem_toDigits (by decide) (by decide) (List.mem_of_head? head)
    cases digit
  have digit (n : Nat) : ∀ c ∈ Nat.toDigits 10 n, c.isDigit = true := fun c mem =>
    Nat.isDigit_of_mem_toDigits (by decide) (by decide) mem
  have start : digits first = Nat.toDigits 10 t.start := digits_append_of_all (digit t.start) rfl
  have stop : digits second = Nat.toDigits 10 t.stop := by
    obtain ⟨blanks, rfl⟩ : ∃ m, behind = m + 1 := ⟨behind - 1, by omega⟩
    exact digits_append_of_all (digit t.stop) rfl
  have behindDots : first.drop ((Nat.toDigits 10 t.start).length + 2) = second := by
    rw [← List.drop_drop, List.drop_left]
    rfl
  have text : second.drop (max 3 (Nat.toDigits 10 t.stop).length + 1) = t.text.toList := by
    rw [← width, ← List.drop_drop, List.drop_left]
    exact List.drop_left' List.length_replicate
  have value (n : Nat) : Nat.ofDigitChars 10 (Nat.toDigits 10 n) 0 = n :=
    Nat.ofDigitChars_toDigits (by decide) (by decide)
  simp only [readLine?, label, range, start, behindDots, stop, text, String.ofList_toList,
    Kind.ofLabel?_label, value, Option.map_some]

lemma break_not_mem_tokenLine {t : Token} (unbroken : '\n' ∉ t.text.toList) :
    '\n' ∉ (tokenLine false t).toList := by
  obtain ⟨before, behind, line, -⟩ := toList_tokenLine t
  have label : '\n' ∉ t.kind.label.toList := fun mem => (t.kind.label_chars _ mem).2 rfl
  have number (n : Nat) : '\n' ∉ Nat.toDigits 10 n := by
    intro mem
    have digit : '\n'.isDigit = true :=
      Nat.isDigit_of_mem_toDigits (by decide) (by decide) mem
    cases digit
  rw [line]
  simp [label, number, unbroken]

lemma tokenLine_ne_nil (t : Token) : (tokenLine false t).toList ≠ [] := by
  obtain ⟨before, behind, line, -⟩ := toList_tokenLine t
  rw [line]
  simp

lemma toList_listing (ts : List Token) : (tokens .plain false ts).toList
    = ['\n'].intercalate (ts.map fun t => (tokenLine false t).toList) := by
  rw [tokens, lines, String.toList_intercalate, List.map_map]
  rfl

lemma listing_eq_empty_iff (ts : List Token) : tokens .plain false ts = "" ↔ ts = [] := by
  constructor
  · intro empty
    have nothing : ['\n'].intercalate (ts.map fun t => (tokenLine false t).toList) = [] := by
      rw [← toList_listing, empty, String.toList_empty]
    cases ts with
    | nil => rfl
    | cons t ts =>
      exfalso
      apply tokenLine_ne_nil t
      cases ts with
      | nil => rwa [List.map_cons, List.map_nil, List.intercalate_singleton] at nothing
      | cons u ts =>
        rw [List.map_cons, List.map_cons, List.intercalate_cons_cons, List.append_assoc] at nothing
        exact (List.append_eq_nil_iff.1 nothing).1
  · rintro rfl
    rfl

/-- There is a line for each token, as long as no text breaks one in two. -/
lemma listingLines_eq {ts : List Token} (unbroken : ∀ t ∈ ts, '\n' ∉ t.text.toList) :
    listingLines (tokens .plain false ts) = ts.map fun t => (tokenLine false t).toList := by
  rw [listingLines]
  split
  · next empty =>
    obtain rfl := (listing_eq_empty_iff ts).1 empty
    rfl
  · next listed =>
    have some : ts ≠ [] := fun none => listed ((listing_eq_empty_iff ts).2 none)
    rw [toList_listing]
    refine List.splitOn_intercalate '\n' (fun line mem => ?_) (by simpa using some)
    obtain ⟨t, inside, rfl⟩ := List.mem_map.1 mem
    exact break_not_mem_tokenLine (unbroken t inside)

/-- If each entry can be read, so can a list of them. -/
lemma mapM_map_eq_some {α β : Type} {write : α → β} {read? : β → Option α}
    (inverse : ∀ a, read? (write a) = some a) (xs : List α) :
    (xs.map write).mapM read? = some xs := by
  have each : read? ∘ write = fun a => pure (id a) := funext inverse
  rw [List.mapM_map, each, List.mapM_pure, List.map_id]
  rfl

lemma readListing?_eq {ts : List Token} (unbroken : ∀ t ∈ ts, '\n' ∉ t.text.toList) :
    readListing? (tokens .plain false ts) = some ts := by
  rw [readListing?, listingLines_eq unbroken]
  exact mapM_map_eq_some readLine?_tokenLine ts

/-- The listing of a text has a line for each of its tokens and shows all of them, so that
different tokens never look the same. -/
theorem listing_lossless (text : String) :
    let listing := tokens .plain false (tokenize text)
    (listing = "" ↔ tokenize text = []) ∧
    (listingLines listing).length = (tokenize text).length ∧
    readListing? listing = some (tokenize text) ∧
    ∀ other, tokenize other ≠ tokenize text → tokens .plain false (tokenize other) ≠ listing := by
  intro listing
  have unbroken (text : String) : ∀ t ∈ tokenize text, '\n' ∉ t.text.toList :=
    fun t mem => break_not_mem_text mem
  refine ⟨listing_eq_empty_iff _, ?_, readListing?_eq (unbroken text), ?_⟩
  · rw [listingLines_eq (unbroken text), List.length_map]
  · intro other differ same
    have read := readListing?_eq (unbroken other)
    rw [same, readListing?_eq (unbroken text)] at read
    exact differ (Option.some.inj read).symm

/-- The text of a string may look like a line of its own. -/
def lookalike : String := "\"NAME  0..4  x\" 1..2"

theorem listing_lossless_lookalike :
    listingLines (tokens .plain false (tokenize lookalike)) ≠ [] ∧
      readListing? (tokens .plain false (tokenize lookalike)) = some (tokenize lookalike) ∧
      tokenize "1 2" ≠ tokenize lookalike ∧
      tokens .plain false (tokenize "1 2") ≠ tokens .plain false (tokenize lookalike) := by
  obtain ⟨-, lines, read, apart⟩ := listing_lossless lookalike
  have several : (tokenize lookalike).length = 5 := by decide +kernel
  have differ : tokenize "1 2" ≠ tokenize lookalike := by decide +kernel
  refine ⟨?_, read, differ, apart "1 2" differ⟩
  rw [← List.length_pos_iff, lines, several]
  decide

end Report

end FilterAssist
