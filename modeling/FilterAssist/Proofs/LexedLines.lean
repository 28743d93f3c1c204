import FilterAssist.Proofs.OpenLines
import FilterAssist.Proofs.OpenSeams

/-!
# The lexer and the end of a line

Whether a line is finished is decided without the lexer, by a scan of its own that knows
strings and parentheses. Where every quote belongs to a string of the lexer, the two go
through the line together: the scan is inside a string where the lexer has a string token,
and counts the parentheses that are tokens. Nothing is asked of the rest of the line. A quote
outside of strings would part them, since the lexer passes over it and the scan does not.
-/

namespace FilterAssist

namespace Query

/-- Every quote of the text lies in a string. -/
def QuotesInStrings (text : String) : Prop :=
  ∀ i < text.length, text.toList[i]? = some '"' →
    ∃ t ∈ tokenize text, t.kind = .string ∧ t.start ≤ i ∧ i < t.stop

instance (text : String) : Decidable (QuotesInStrings text) :=
  inferInstanceAs (Decidable (∀ i < text.length, _))

end Query

namespace Editor

open Query

variable {s : Scan} {n : Int} {cs : List Char} {l : Lexeme}

/-- Opening parentheses less closing ones, among tokens. -/
def netTokens (ts : List Token) : Int :=
  ts.countP (·.kind = .punct .openParen) - ts.countP (·.kind = .punct .closeParen)

@[simp] lemma netTokens_nil : netTokens [] = 0 := rfl

lemma netTokens_append (ts us : List Token) :
    netTokens (ts ++ us) = netTokens ts + netTokens us := by
  simp only [netTokens, List.countP_append]
  omega

lemma natAbs_netTokens_le (t : Token) : (netTokens [t]).natAbs ≤ 1 := by
  by_cases opening : t.kind = .punct .openParen
  · simp [netTokens, opening]
  · by_cases closing : t.kind = .punct .closeParen
    · simp [netTokens, closing]
    · simp [netTokens, opening, closing]

/-- No mark that the scan of a line looks for. -/
def Bare (c : Char) : Prop := c ≠ '"' ∧ c ≠ '(' ∧ c ≠ ')'

instance (c : Char) : Decidable (Bare c) := inferInstanceAs (Decidable (_ ∧ _))

lemma bare_of_isNameChar {c : Char} (h : isNameChar c = true) : Bare c := by
  refine ⟨?_, ?_, ?_⟩ <;> rintro rfl <;> cases h

lemma Scan.At.foldl_bare (here : s.At n) (bare : ∀ c ∈ cs, Bare c) : cs.foldl Scan.step s = s := by
  induction cs with
  | nil => rfl
  | cons c cs ih =>
    obtain ⟨⟨quote, opening, closing⟩, rest⟩ := List.forall_mem_cons.1 bare
    have stays : s.step c = s := by
      simp [Scan.step, here.1, quote, opening, closing]
    rw [List.foldl_cons, stays]
    exact ih rest

lemma Quoted.hex {body : List Char} {h : Char} (digit : Text.isHexDigit h = true)
    (rest : Quoted body) : Quoted (h :: body) := by
  refine .plain ?_ ?_ rest <;> rintro rfl <;> cases digit

/-- What the lexer takes for a string is one for the scan as well. -/
lemma quoted_of_stringTail {t : List Char} (h : stringTail cs = some t) :
    ∃ body, t = body ++ ['"'] ∧ Quoted body := by
  fun_induction stringTail cs generalizing t with
  | case1 | case3 | case6 | case7 | case8 | case9 => cases h
  | case2 c cs quote =>
    cases h
    exact ⟨[], by rw [beq_iff_eq.1 quote, List.nil_append], .nil⟩
  | case4 c _ backslash e cs _ ih =>
    obtain ⟨t, rest, rfl⟩ := Option.map_eq_some_iff.1 h
    obtain ⟨body, rfl, inside⟩ := ih rest
    obtain rfl := beq_iff_eq.1 backslash
    exact ⟨_, rfl, .escape inside⟩
  | case5 c _ backslash e _ _ h₁ h₂ h₃ h₄ cs digits ih =>
    obtain ⟨t, rest, rfl⟩ := Option.map_eq_some_iff.1 h
    obtain ⟨body, rfl, inside⟩ := ih rest
    obtain rfl := beq_iff_eq.1 backslash
    simp only [Bool.and_eq_true] at digits
    obtain ⟨⟨⟨first, second⟩, third⟩, fourth⟩ := digits
    exact ⟨_, rfl, .escape (.hex first (.hex second (.hex third (.hex fourth inside))))⟩
  | case10 c cs quote backslash _ ih =>
    obtain ⟨t, rest, rfl⟩ := Option.map_eq_some_iff.1 h
    obtain ⟨body, rfl, inside⟩ := ih rest
    exact ⟨_, rfl, .plain (by simpa using quote) (by simpa using backslash) inside⟩

/-- A lexeme is a single mark, a string, or free of all that the scan looks for. -/
lemma lexeme_cases (found : scan cs = some l) :
    (∃ p c, scanPunct c = some p ∧ l = ⟨.punct p, [c]⟩) ∨
    (l.kind = .string ∧ ∃ body, l.source = '"' :: (body ++ ['"']) ∧ Quoted body) ∨
    (l.kind ≠ .string ∧ (∀ p, l.kind ≠ .punct p) ∧ ∀ c ∈ l.source, Bare c) := by
  cases cs with
  | nil => cases found
  | cons c cs =>
    rcases scan_cases found with ⟨p, punct, rfl⟩ | ⟨start, rfl⟩ | ⟨rfl, t, string, rfl⟩ |
      ⟨-, number, scanned, rfl⟩ | ⟨op, -, rfl⟩
    · exact Or.inl ⟨p, c, punct, rfl⟩
    · refine Or.inr (Or.inr ?_)
      have kind : (∃ k, (scanWord c cs).kind = .keyword k) ∨ (scanWord c cs).kind = .name := by
        rw [scanWord]
        split
        · next k _ => exact Or.inl ⟨k, rfl⟩
        · exact Or.inr rfl
      refine ⟨?_, ?_, ?_⟩
      · rcases kind with ⟨k, kind⟩ | kind <;> simp [kind]
      · rcases kind with ⟨k, kind⟩ | kind <;> simp [kind]
      · intro d mem
        rcases scanWord_chars start cs d mem with name | rfl
        · exact bare_of_isNameChar name
        · decide
    · obtain ⟨body, rfl, inside⟩ := quoted_of_stringTail string
      exact Or.inr (Or.inl ⟨rfl, body, rfl, inside⟩)
    · refine Or.inr (Or.inr ⟨?_, ?_, ?_⟩)
      · dsimp only
        split <;> simp
      · intro p
        dsimp only
        split <;> simp
      · intro d mem
        obtain ⟨early, late⟩ := number_chars scanned
        rcases List.mem_append.1 mem with mem | mem
        · rcases early d mem with digit | rfl | rfl
          · exact bare_of_isNameChar (isNameChar_iff.2 (Or.inr digit))
          · decide
          · decide
        · rcases late d mem with name | rfl | rfl
          · exact bare_of_isNameChar name
          · decide
          · decide
    · have plain : '"' ∉ op.sign.toList ∧ '(' ∉ op.sign.toList ∧ ')' ∉ op.sign.toList := by
        cases op <;> decide
      refine Or.inr (Or.inr ⟨by simp, by simp, ?_⟩)
      intro d mem
      refine ⟨?_, ?_, ?_⟩ <;> rintro rfl
      · exact plain.1 mem
      · exact plain.2.1 mem
      · exact plain.2.2 mem

lemma net_of_scanPunct {p : Punct} {c : Char} (punct : scanPunct c = some p) (offset : Nat) :
    c ≠ '"' ∧ net [c] = netTokens [(Lexeme.mk (.punct p) [c]).toToken offset] := by
  rw [scanPunct] at punct
  repeat' split at punct
  all_goals cases punct
  all_goals
    next mark =>
    obtain rfl := beq_iff_eq.1 mark
    exact ⟨by decide, rfl⟩

/-- A lexeme is passed whole, and moves the counter if it is a parenthesis. -/
lemma Scan.At.lexeme (here : s.At n) (found : scan cs = some l) (offset : Nat)
    (room : n.natAbs + l.source.length < 2 ^ 31) :
    (l.source.foldl Scan.step s).At (n + netTokens [l.toToken offset]) := by
  rcases lexeme_cases found with ⟨p, c, punct, rfl⟩ | ⟨kind, body, source, inside⟩ |
    ⟨-, unmarked, bare⟩
  · obtain ⟨quote, same⟩ := net_of_scanPunct punct offset
    rw [← same]
    exact here.step quote room
  · have none : netTokens [l.toToken offset] = 0 := by simp [netTokens, Lexeme.toToken, kind]
    rw [none, Int.add_zero, source]
    exact here.string inside
  · have none : netTokens [l.toToken offset] = 0 := by
      simp [netTokens, Lexeme.toToken, unmarked]
    rw [none, Int.add_zero, here.foldl_bare bare]
    exact here

/-- Inside a string the scan stays inside. -/
lemma Quoted.foldl_take {body : List Char} (h : Quoted body) (depth : Int32) (k : Nat) :
    ((body.take k).foldl Scan.step ⟨.string, depth⟩).mode ≠ .code ∧
      ((body.take k).foldl Scan.step ⟨.string, depth⟩).depth = depth := by
  induction h generalizing k with
  | nil => simp
  | plain quote backslash _ ih =>
    cases k with
    | zero => simp
    | succ k => simpa [Scan.step, quote, backslash] using ih k
  | escape _ ih =>
    cases k with
    | zero => simp
    | succ k =>
      cases k with
      | zero => simp [Scan.step]
      | succ k => simpa [Scan.step] using ih k

/-- Half way through a lexeme the scan is inside a string if that is what the lexeme is, and
the counter stands where it was. -/
lemma Scan.At.crossing (here : s.At n) (found : scan cs = some l) {j : Nat} (before : 0 < j)
    (behind : j < l.source.length) :
    (((l.source.take j).foldl Scan.step s).mode ≠ .code ↔ l.kind = .string) ∧
      ((l.source.take j).foldl Scan.step s).depth.toInt = n := by
  rcases lexeme_cases found with ⟨p, c, -, rfl⟩ | ⟨kind, body, source, inside⟩ |
    ⟨other, -, bare⟩
  · simp only [List.length_singleton] at behind
    omega
  · obtain ⟨j, rfl⟩ := Nat.exists_eq_succ_of_ne_zero before.ne'
    have within : j ≤ body.length := by
      rw [source] at behind
      simp only [List.length_cons, List.length_append, List.length_nil] at behind
      omega
    obtain ⟨mode, depth⟩ := inside.foldl_take s.depth j
    rw [source, List.take_succ_cons, List.take_append_of_le_length within, List.foldl_cons,
      here.step_quote, depth]
    exact ⟨iff_of_true mode kind, here.2⟩
  · have part : ∀ c ∈ l.source.take j, Bare c := fun c mem => bare c (List.mem_of_mem_take mem)
    rw [here.foldl_bare part]
    exact ⟨iff_of_false (by simp [here.1]) other, here.2⟩

/-- Every quote between the two ends of a run lies in a string that was read on the way. -/
def Covered (x : Lexer) (ts : List Token) (y : Lexer) : Prop :=
  ∀ i, x.rest[i]? = some '"' → x.offset + i < y.offset →
    ∃ t ∈ ts, t.kind = .string ∧ t.start ≤ x.offset + i ∧ x.offset + i < t.stop

namespace Covered

variable {m : Nat} {c : Char} {ts : List Token} {y : Lexer}

/-- A character that starts no lexeme is no quote: a string that covers it would have been
read from further on. -/
lemma ne_quote (covered : Covered ⟨m, c :: cs⟩ ts y) (later : Passes ⟨m + 1, cs⟩ ts y) :
    c ≠ '"' := by
  rintro rfl
  obtain ⟨t, mem, -, start, -⟩ := covered 0 rfl later.offset_le
  have := (later.bounds mem).1
  simp only at start this
  omega

lemma skip (covered : Covered ⟨m, c :: cs⟩ ts y) : Covered ⟨m + 1, cs⟩ ts y := by
  intro i quote inside
  have := covered (i + 1) (by simpa using quote) (by simp only at inside ⊢; omega)
  simpa only [Nat.add_assoc, Nat.add_comm 1] using this

lemma read (covered : Covered ⟨m, cs⟩ (l.toToken m :: ts) y) :
    Covered ⟨m + l.source.length, cs.drop l.source.length⟩ ts y := by
  intro i quote inside
  rw [List.getElem?_drop] at quote
  simp only at inside ⊢
  obtain ⟨t, mem, string, start, stop⟩ :=
    covered (l.source.length + i) quote (by simp only; omega)
  simp only at start stop
  rcases List.mem_cons.1 mem with rfl | mem
  · simp only [Lexeme.toToken] at stop
    omega
  · exact ⟨t, mem, string, by omega, by omega⟩

end Covered

/-- Where all quotes of a text lie in strings, so do those that a run passes. -/
lemma covered_of_quotesInStrings {text : String} {ts : List Token} {y : Lexer}
    (quoted : QuotesInStrings text) (run : Passes ⟨0, text.toList⟩ ts y) :
    Covered ⟨0, text.toList⟩ ts y := by
  intro i quote inside
  simp only [Nat.zero_add] at inside ⊢
  have within : i < text.length := by
    rw [← String.length_toList]
    exact (List.getElem?_eq_some_iff.1 quote).1
  obtain ⟨t, mem, string, start, stop⟩ := quoted i within quote
  have all : tokenize text = ts ++ y.tokens := run.tokens
  rw [all] at mem
  rcases List.mem_append.1 mem with mem | mem
  · exact ⟨t, mem, string, start, stop⟩
  · have := le_start_of_mem_tokens mem
    omega

/-- A run of the lexer is passed whole, and the counter counts its parentheses. -/
theorem Scan.At.passes {x y : Lexer} {ts : List Token} (run : Passes x ts y)
    (covered : Covered x ts y) (here : s.At n) (room : n.natAbs + x.rest.length < 2 ^ 31) :
    ((x.rest.take (y.offset - x.offset)).foldl Scan.step s).At (n + netTokens ts) := by
  induction run generalizing s n with
  | here => simpa using here
  | @skip m c cs ts y unread later ih =>
    have behind : m + 1 ≤ y.offset := later.offset_le
    have bare : Bare c := by
      refine ⟨covered.ne_quote later, ?_, ?_⟩
      · rintro rfl
        rw [scan_openParen] at unread
        cases unread
      · rintro rfl
        rw [scan_closeParen] at unread
        cases unread
    have length : y.offset - m = (y.offset - (m + 1)) + 1 := by omega
    have stays : [c].foldl Scan.step s = s := here.foldl_bare (by simpa using bare)
    rw [List.foldl_cons, List.foldl_nil] at stays
    simp only [length, List.take_succ_cons, List.foldl_cons, stays]
    exact ih covered.skip here (by simp only [List.length_cons] at room ⊢; omega)
  | @read m cs l ts y found later ih =>
    have rest := covered.read
    obtain ⟨tail, rfl⟩ := scan_source_isPrefix found
    have behind : m + l.source.length ≤ y.offset := later.offset_le
    simp only [List.length_append] at room
    have passed := here.lexeme found m (by omega)
    have small := natAbs_netTokens_le (l.toToken m)
    have nonempty := List.length_pos_iff.2 (scan_source_ne_nil found)
    have last := ih rest passed (by simp only [List.drop_left]; omega)
    have cut : (l.source ++ tail).take (y.offset - m)
        = l.source ++ tail.take (y.offset - (m + l.source.length)) := by
      rw [List.take_append, List.take_of_length_le (by omega), Nat.sub_sub]
    have sum : netTokens (l.toToken m :: ts) = netTokens [l.toToken m] + netTokens ts :=
      netTokens_append [l.toToken m] ts
    rw [sum, ← Int.add_assoc]
    simp only [cut, List.foldl_append]
    simpa only [List.drop_left] using last

/-- From the beginning of a line to where the lexer arrives. -/
lemma at_of_passes {line : String} {j : Nat} {ts : List Token} (short : line.length < 2 ^ 31)
    (quoted : QuotesInStrings line)
    (run : Passes ⟨0, line.toList⟩ ts ⟨j, line.toList.drop j⟩) :
    ((line.toList.take j).foldl Scan.step Scan.start).At (netTokens ts) := by
  have passed := Scan.start_at.passes run (covered_of_quotesInStrings quoted run)
    (by simpa [String.length_toList] using short)
  simpa using passed

/-- On a line whose quotes all lie in strings, the scan and the lexer agree at every place:
the scan is inside a string exactly where a string token is, and its counter is the number of
opening parentheses among the tokens read so far less that of the closing ones. So no string
is open at the end, and the line is balanced exactly when no more tokens open than close. -/
theorem isBalanced_iff_tokens (line : String) (short : line.length < 2 ^ 31)
    (quoted : QuotesInStrings line) :
    let ts := tokenize line
    let scanned (k : Nat) := (line.toList.take k).foldl Scan.step Scan.start
    (∀ k ≤ line.length,
      ((scanned k).mode ≠ .code ↔ ∃ t ∈ ts, t.kind = .string ∧ t.Straddles k) ∧
        (scanned k).depth.toInt = netTokens (ts.filter (·.stop ≤ k))) ∧
    (scanned line.length).mode = .code ∧
    (scanned line.length).depth.toInt
      = ts.countP (·.kind = .punct .openParen) - ts.countP (·.kind = .punct .closeParen) ∧
    (isBalanced line = true ↔
      ts.countP (·.kind = .punct .openParen) ≤ ts.countP (·.kind = .punct .closeParen)) := by
  intro ts scanned
  have all : ts = (Lexer.mk 0 line.toList).tokens := rfl
  have inside (k : Nat) (within : k ≤ line.length) : k ≤ line.toList.length := by
    rwa [String.length_toList]
  refine ⟨?_, ?_⟩
  · intro k within
    rcases passes_or_crosses 0 (inside k within) with
      ⟨us, run⟩ | ⟨us, j, l, run, found, before, behind⟩
    · rw [Nat.zero_add] at run
      obtain ⟨mode, depth⟩ := at_of_passes short quoted run
      obtain ⟨untouched, kept, -⟩ := tokens_take_of_arrives (inside k within) run
      rw [all, kept]
      refine ⟨iff_of_false (by simp [scanned, mode]) ?_, depth⟩
      rintro ⟨t, mem, -, straddles⟩
      exact untouched t mem straddles
    · rw [Nat.zero_add] at run
      obtain ⟨read, kept, only⟩ := tokens_of_crosses run found before behind
      have cut : line.toList.take k = line.toList.take j ++ l.source.take (k - j) := by
        obtain ⟨tail, source⟩ := scan_source_isPrefix found
        have split : k = j + (k - j) := by omega
        rw [split, List.take_add, ← source, List.take_append_of_le_length (by omega), ← split]
      obtain ⟨mode, depth⟩ := (at_of_passes short quoted run).crossing found
        (j := k - j) (by omega) (by omega)
      rw [all, kept]
      simp only [scanned, cut, List.foldl_append]
      refine ⟨?_, depth⟩
      rw [mode]
      constructor
      · intro string
        exact ⟨_, read, string, before, behind⟩
      · rintro ⟨t, mem, string, straddles⟩
        rwa [only t mem straddles] at string
  · have run := passes_to_end 0 line.toList
    rw [Nat.zero_add, ← List.drop_length (l := line.toList), String.length_toList] at run
    obtain ⟨mode, depth⟩ := at_of_passes short quoted run
    have whole : line.toList.take line.length = line.toList := by
      rw [← String.length_toList, List.take_length]
    refine ⟨mode, depth, ?_⟩
    rw [whole] at mode depth
    rw [isBalanced_iff, mode, depth, ← all, netTokens]
    simp only [true_and]
    omega

/-- A parenthesis in a string counts for neither, a backslash outside of strings for
nothing, and a surplus parenthesis for both. -/
theorem isBalanced_iff_tokens_escaped :
    let line := "\\) or (a ~ \"(\\\"\\u0028\" and (b"
    line.length < 2 ^ 31 ∧ QuotesInStrings line ∧
      (isBalanced line = true ↔
        (tokenize line).countP (·.kind = .punct .openParen)
          ≤ (tokenize line).countP (·.kind = .punct .closeParen)) ∧
      (tokenize line).countP (·.kind = .punct .openParen) = 2 ∧
      (tokenize line).countP (·.kind = .punct .closeParen) = 1 := by
  intro line
  have short : line.length < 2 ^ 31 := by decide +kernel
  have quoted : QuotesInStrings line := by decide +kernel
  exact ⟨short, quoted, (isBalanced_iff_tokens line short quoted).2.2.2, by decide +kernel,
    by decide +kernel⟩

end Editor

end FilterAssist
