import FilterAssist.Proofs.FieldPlaces

/-!
# Typing a value that is on offer

A value behind a path and an operator stays on offer while it is typed, as long as the lexer
completes no token inside what is typed so far. For a number this is the case whenever the
last character is a digit; right behind a dot, an exponent mark or the sign of an exponent
the number in front is a token of its own. A string without its closing quote is no lexeme
at all, so every word, number or sign in it that is followed by something else ends the
offer.
-/

namespace FilterAssist

namespace Query

open Text

/-- The lexer completes no token before the end of the text. -/
def Pending (typed : List Char) : Prop :=
  ∀ t ∈ tokenize (String.ofList typed), typed.length ≤ t.stop

instance (typed : List Char) : Decidable (Pending typed) :=
  inferInstanceAs (Decidable (∀ t ∈ tokenize (String.ofList typed), _))

lemma pending_nil : Pending [] := by
  intro t ht
  rw [tokenize_ofList, tokens_nil] at ht
  cases ht

lemma pending_of_lexeme {k : Kind} {w : List Char} (lexeme : scan w = some ⟨k, w⟩) :
    Pending w := by
  intro t ht
  rw [tokenize_ofList, tokens_lexeme lexeme, List.mem_singleton] at ht
  subst ht
  simp [Lexeme.toToken]

/-- A lexeme at the head of a pending text is all of it. -/
lemma Pending.source_eq {typed : List Char} {l : Lexeme} (h : Pending typed)
    (found : scan typed = some l) : l.source = typed := by
  have first : l.toToken 0 ∈ tokenize (String.ofList typed) := by
    rw [tokenize_ofList, tokens_of_scan found]
    exact List.mem_cons_self
  have long := h _ first
  simp only [Lexeme.toToken, Nat.zero_add] at long
  exact (scan_source_isPrefix found).eq_of_length_le long

namespace Pattern

/-- The last character is a digit. -/
def EndsInDigit (w : List Char) : Prop := ∃ d, w.getLast? = some d ∧ d.isDigit = true

lemma endsInDigit_append {u v : List Char} (nonempty : v ≠ []) :
    EndsInDigit (u ++ v) ↔ EndsInDigit v := by
  rw [EndsInDigit, EndsInDigit, List.getLast?_append_of_ne_nil u nonempty]

lemma endsInDigit_of_forall {v : List Char} (nonempty : v ≠ []) (h : ∀ d ∈ v, d.isDigit = true) :
    EndsInDigit v :=
  ⟨v.getLast nonempty, List.getLast?_eq_some_getLast nonempty, h _ (List.getLast_mem nonempty)⟩

/-- What ends in a digit ends in the front of a text, or with it, or behind it. -/
lemma isPrefix_append_cases {p u v : List Char} (starts : p <+: u ++ v) (digit : EndsInDigit p) :
    p <+: u ∨ ∃ q, p = u ++ q ∧ q ≠ [] ∧ q <+: v ∧ EndsInDigit q := by
  rcases List.prefix_or_prefix_of_prefix starts (List.prefix_append u v) with inside | ⟨q, rfl⟩
  · exact Or.inl inside
  · by_cases none : q = []
    · subst none
      exact Or.inl (by simp)
    · exact Or.inr ⟨q, rfl, none, (List.prefix_append_right_inj u).1 starts,
        (endsInDigit_append none).1 digit⟩

/-- It reaches over a front without digits. -/
lemma exists_behind_of_digit {p u v : List Char} (starts : p <+: u ++ v) (digit : EndsInDigit p)
    (digitless : ∀ c ∈ u, c.isDigit = false) : ∃ q, p = u ++ q ∧ q ≠ [] ∧ q <+: v := by
  rcases isPrefix_append_cases starts digit with inside | ⟨q, whole, nonempty, behind, -⟩
  · obtain ⟨d, last, hd⟩ := digit
    rw [digitless d (inside.subset (List.mem_of_getLast? last))] at hd
    cases hd
  · exact ⟨q, whole, nonempty, behind⟩

lemma sign_digitless {sign : List Char} (h : sign = [] ∨ sign = ['+'] ∨ sign = ['-']) :
    ∀ c ∈ sign, c.isDigit = false := by
  rcases h with rfl | rfl | rfl
  · exact List.forall_mem_nil _
  · exact List.forall_mem_singleton.2 rfl
  · exact List.forall_mem_singleton.2 rfl

section Beginnings

variable {p w : List Char} (starts : p <+: w) (digit : EndsInDigit p)

include starts digit

lemma mem_int_of_isPrefix (mem : w ∈ int.language) : p ∈ int.language := by
  obtain ⟨sign, u, rfl, hsign, hu⟩ := mem_int_iff.1 mem
  have digitless := sign_digitless (hsign.imp_right Or.inr)
  obtain ⟨q, rfl, nonempty, inside⟩ := exists_behind_of_digit starts digit digitless
  refine mem_int_iff.2 ⟨sign, q, rfl, hsign, mem_whole_iff.2 ?_⟩
  obtain ⟨c, q, rfl⟩ := List.exists_cons_of_ne_nil nonempty
  rcases mem_whole_iff.1 hu with rfl | ⟨b, v, rfl, hb, hzero, hv⟩
  · obtain ⟨rfl, none⟩ := List.cons_prefix_cons.1 inside
    obtain rfl := List.prefix_nil.1 none
    exact Or.inl rfl
  · obtain ⟨rfl, behind⟩ := List.cons_prefix_cons.1 inside
    exact Or.inr ⟨c, q, rfl, hb, hzero, fun d hd => hv d (behind.subset hd)⟩

lemma mem_fraction_of_isPrefix (mem : w ∈ fraction.language) : p ∈ fraction.language := by
  obtain ⟨ds, rfl, -, hds⟩ := mem_fraction_iff.1 mem
  have digitless : ∀ c ∈ ['.'], c.isDigit = false := List.forall_mem_singleton.2 rfl
  obtain ⟨q, rfl, nonempty, inside⟩ := exists_behind_of_digit starts digit digitless
  exact mem_fraction_iff.2 ⟨q, rfl, nonempty, fun d hd => hds d (inside.subset hd)⟩

lemma mem_exponent_of_isPrefix (mem : w ∈ exponent.language) : p ∈ exponent.language := by
  obtain ⟨e, sign, ds, rfl, he, hsign, -, hds⟩ := mem_exponent_iff.1 mem
  have digitless : ∀ c ∈ e :: sign, c.isDigit = false := by
    refine List.forall_mem_cons.2 ⟨?_, sign_digitless hsign⟩
    rcases he with rfl | rfl <;> decide
  rw [← List.cons_append] at starts
  obtain ⟨q, rfl, nonempty, inside⟩ := exists_behind_of_digit starts digit digitless
  exact mem_exponent_iff.2
    ⟨e, sign, q, rfl, he, hsign, nonempty, fun d hd => hds d (inside.subset hd)⟩

lemma mem_float_of_isPrefix (mem : w ∈ float.language) :
    p ∈ int.language ∨ p ∈ float.language := by
  obtain ⟨u, hu, v, hv, rfl⟩ := mem_seq.1 mem
  rcases isPrefix_append_cases starts digit with inside | ⟨q, rfl, -, inside, qdigit⟩
  · exact Or.inl (mem_int_of_isPrefix inside digit hu)
  refine Or.inr (mem_seq.2 ⟨u, hu, q, ?_, rfl⟩)
  rcases hv with hv | hv
  · obtain ⟨f, hf, x, hx, rfl⟩ := mem_seq.1 hv
    refine Or.inl (mem_seq.2 ?_)
    rcases isPrefix_append_cases inside qdigit with inside | ⟨y, rfl, nonempty, inside, ydigit⟩
    · exact ⟨q, mem_fraction_of_isPrefix inside qdigit hf, [], mem_optional.2 (Or.inl rfl), by simp⟩
    · refine ⟨f, hf, y, mem_optional.2 (Or.inr ?_), rfl⟩
      rcases mem_optional.1 hx with rfl | hx
      · exact absurd (List.prefix_nil.1 inside) nonempty
      · exact mem_exponent_of_isPrefix inside ydigit hx
  · exact Or.inr (mem_exponent_of_isPrefix inside qdigit hv)

end Beginnings

lemma endsInDigit_of_mem_int {w : List Char} (mem : w ∈ int.language) : EndsInDigit w := by
  obtain ⟨sign, u, rfl, -, hu⟩ := mem_int_iff.1 mem
  rcases mem_whole_iff.1 hu with rfl | ⟨c, v, rfl, hc, -, hv⟩
  · exact (endsInDigit_append (by simp)).2 ⟨'0', rfl, by decide⟩
  · refine (endsInDigit_append (by simp)).2 (endsInDigit_of_forall (by simp) ?_)
    exact List.forall_mem_cons.2 ⟨hc, hv⟩

lemma endsInDigit_of_mem_exponent {w : List Char} (mem : w ∈ exponent.language) :
    EndsInDigit w := by
  obtain ⟨e, sign, ds, rfl, -, -, nonempty, hds⟩ := mem_exponent_iff.1 mem
  rw [← List.cons_append]
  exact (endsInDigit_append nonempty).2 (endsInDigit_of_forall nonempty hds)

lemma endsInDigit_of_mem_float {w : List Char} (mem : w ∈ float.language) : EndsInDigit w := by
  have behind {u v : List Char} (h : EndsInDigit v) : EndsInDigit (u ++ v) := by
    refine (endsInDigit_append ?_).2 h
    rintro rfl
    obtain ⟨d, last, -⟩ := h
    cases last
  obtain ⟨u, -, v, hv, rfl⟩ := mem_seq.1 mem
  rcases hv with hv | hv
  · obtain ⟨f, hf, x, hx, rfl⟩ := mem_seq.1 hv
    rcases mem_optional.1 hx with rfl | hx
    · obtain ⟨ds, rfl, nonempty, hds⟩ := mem_fraction_iff.1 hf
      rw [List.append_nil]
      exact behind (behind (u := ['.']) (endsInDigit_of_forall nonempty hds))
    · exact behind (behind (endsInDigit_of_mem_exponent hx))
  · exact behind (endsInDigit_of_mem_exponent hv)

end Pattern

open Pattern

/-- Behind a minus or a digit only a number can start. -/
lemma scan_of_minus_or_digit {c : Char} (h : c = '-' ∨ c.isDigit = true) (cs : List Char) :
    scan (c :: cs) = scanNumber (c :: cs) := by
  rcases h with rfl | digit
  · rfl
  have bounds := isDigit_iff.1 digit
  have unblank : isBlank c = false := by
    by_contra blank
    have := isSpace_outside (isSpace_of_isBlank (by simpa using blank))
    omega
  have unmarked : scanPunct c = none := by
    refine scanPunct_eq_none ⟨?_, ?_, ?_, ?_⟩ <;> rintro rfl <;> cases digit
  have unnamed : isNameStart c = false := by
    by_contra start
    exact not_isDigit_of_isNameStart (by simpa using start) digit
  have unquoted : (c == '"') = false := by
    rw [beq_eq_false_iff_ne]
    rintro rfl
    cases digit
  rw [scan, unblank, unmarked, unnamed, unquoted, digit]
  simp

lemma scan_of_int_isPrefix {u w : List Char} (mem : u ∈ int.language) (starts : u <+: w) :
    scan w = scanNumber w := by
  obtain ⟨rest, rfl⟩ := starts
  obtain ⟨sign, v, rfl, rfl | rfl, hv⟩ := mem_int_iff.1 mem
  · rcases mem_whole_iff.1 hv with rfl | ⟨c, v, rfl, hc, -⟩
    · exact scan_of_minus_or_digit (Or.inr rfl) _
    · exact scan_of_minus_or_digit (Or.inr hc) _
  · exact scan_of_minus_or_digit (Or.inl rfl) _

lemma exists_int_isPrefix {w : List Char} (mem : w ∈ int.language ∨ w ∈ float.language) :
    ∃ u ∈ int.language, u <+: w := by
  rcases mem with mem | mem
  · exact ⟨w, mem, List.prefix_rfl⟩
  · obtain ⟨u, hu, v, -, rfl⟩ := mem_seq.1 mem
    exact ⟨u, hu, List.prefix_append u v⟩

/-- A number is one lexeme. -/
lemma scan_of_mem_number {w : List Char} (mem : w ∈ int.language ∨ w ∈ float.language) :
    ∃ k, scan w = some ⟨k, w⟩ := by
  obtain ⟨u, hu, starts⟩ := exists_int_isPrefix mem
  obtain ⟨n, found, long⟩ : ∃ n, Number.scan? w = some n ∧ w.length ≤ n.source.length := by
    rcases mem with mem | mem
    · obtain ⟨n, found, reach, -⟩ := number_of_isPrefix_int mem List.prefix_rfl
      refine ⟨n, found, reach.length_le.trans ?_⟩
      simp only [Number.source, List.length_append]
      omega
    · obtain ⟨n, found, -, long⟩ := number_of_isPrefix_float mem List.prefix_rfl
      exact ⟨n, found, long⟩
  have whole : n.source = w := (number_source_isPrefix found).eq_of_length_le long
  refine ⟨if n.isInteger then .int else .float, ?_⟩
  rw [scan_of_int_isPrefix hu starts, scanNumber, found, Option.map_some, whole]

lemma mem_of_scanNumber {cs : List Char} {l : Lexeme} (h : scanNumber cs = some l) :
    l.kind = .int ∧ l.source ∈ int.language ∨ l.kind = .float ∧ l.source ∈ float.language := by
  obtain ⟨n, found, rfl⟩ := Option.map_eq_some_iff.1 h
  cases whole : n.isInteger with
  | true =>
    left
    simp only [source_of_isInteger whole]
    exact ⟨rfl, (number_sound found).1⟩
  | false => exact Or.inr ⟨rfl, number_mem_float found whole⟩

lemma mem_number_of_scan {k : Kind} {w : List Char} (lexeme : scan w = some ⟨k, w⟩)
    (number : k = .int ∨ k = .float) :
    k = .int ∧ w ∈ int.language ∨ k = .float ∧ w ∈ float.language := by
  cases w with
  | nil => cases lexeme
  | cons c cs =>
    rcases scan_cases lexeme with ⟨p, -, other⟩ | ⟨-, other⟩ | ⟨-, t, -, other⟩ |
      ⟨digit, -⟩ | ⟨op, -, other⟩
    · cases other
      rcases number with number | number <;> cases number
    · have kind := congrArg Lexeme.kind other
      rw [scanWord] at kind
      split at kind <;> subst kind <;> rcases number with number | number <;> cases number
    · cases other
      rcases number with number | number <;> cases number
    · rw [scan_of_minus_or_digit digit] at lexeme
      exact mem_of_scanNumber lexeme
    · have kind : k = .comparison op := congrArg Lexeme.kind other
      subst kind
      rcases number with number | number <;> cases number

lemma beginning_of_int {u typed : List Char} (mem : u ∈ int.language) (starts : typed <+: u) :
    typed = [] ∨ typed = ['-'] ∨ EndsInDigit typed := by
  obtain ⟨sign, v, rfl, hsign, hv⟩ := mem_int_iff.1 mem
  have digits : ∀ c ∈ v, c.isDigit = true := by
    rcases mem_whole_iff.1 hv with rfl | ⟨c, v, rfl, hc, -, hv⟩
    · exact List.forall_mem_singleton.2 rfl
    · exact List.forall_mem_cons.2 ⟨hc, hv⟩
  rcases List.prefix_or_prefix_of_prefix starts (List.prefix_append sign v) with inside | ⟨q, rfl⟩
  · rcases hsign with rfl | rfl
    · exact Or.inl (List.prefix_nil.1 inside)
    · rcases List.prefix_cons_iff.1 inside with rfl | ⟨rest, rfl, none⟩
      · exact Or.inl rfl
      · obtain rfl := List.prefix_nil.1 none
        exact Or.inr (Or.inl rfl)
  · by_cases none : q = []
    · subst none
      rcases hsign with rfl | rfl
      · exact Or.inl rfl
      · exact Or.inr (Or.inl rfl)
    · have behind := (List.prefix_append_right_inj sign).1 starts
      exact Or.inr (Or.inr ((endsInDigit_append none).2
        (endsInDigit_of_forall none fun d hd => digits d (behind.subset hd))))

/-- What is typed of a number is pending exactly when it ends in a digit, or is the sign
alone, or is nothing. -/
theorem pending_number_iff {k : Kind} {w typed : List Char} (lexeme : scan w = some ⟨k, w⟩)
    (number : k = .int ∨ k = .float) (starts : typed <+: w) :
    Pending typed ↔ typed = [] ∨ typed = ['-'] ∨ EndsInDigit typed := by
  have mem : w ∈ int.language ∨ w ∈ float.language :=
    (mem_number_of_scan lexeme number).imp And.right And.right
  constructor
  · intro pending
    obtain ⟨u, hu, front⟩ := exists_int_isPrefix mem
    rcases List.prefix_or_prefix_of_prefix starts front with inside | across
    · exact beginning_of_int hu inside
    · obtain ⟨n, found, -⟩ := number_of_isPrefix_int hu across
      have lexeme : scan typed = some ⟨if n.isInteger then .int else .float, n.source⟩ := by
        rw [scan_of_int_isPrefix hu across, scanNumber, found, Option.map_some]
      have whole : n.source = typed := pending.source_eq lexeme
      rw [scan_of_int_isPrefix hu across] at lexeme
      have digit := (mem_of_scanNumber lexeme).imp And.right And.right
      simp only [whole] at digit
      exact Or.inr (Or.inr (digit.elim endsInDigit_of_mem_int endsInDigit_of_mem_float))
  · rintro (rfl | rfl | digit)
    · exact pending_nil
    · decide +kernel
    · have part : typed ∈ int.language ∨ typed ∈ float.language := by
        rcases mem with mem | mem
        · exact Or.inl (mem_int_of_isPrefix starts digit mem)
        · exact mem_float_of_isPrefix starts digit mem
      obtain ⟨k, lexeme⟩ := scan_of_mem_number part
      exact pending_of_lexeme lexeme

/-- An integer is pending all along. -/
lemma pending_int {w typed : List Char} (lexeme : scan w = some ⟨.int, w⟩)
    (starts : typed <+: w) : Pending typed := by
  rcases mem_number_of_scan lexeme (Or.inl rfl) with ⟨-, mem⟩ | ⟨⟨⟩, -⟩
  exact (pending_number_iff lexeme (Or.inl rfl) starts).2 (beginning_of_int mem starts)

end Query

namespace Cursor

open Query Text Pattern

variable {s : Schema} {root : Option String}
variable {head typed : List Char} {init : List Token} {t : Token}

lemma pending_iff : Pending typed ↔ View.completedOf typed = [] := by
  rw [completedOf_eq_filter, List.filter_eq_nil_iff, ← tokenize_ofList]
  simp only [Pending, decide_eq_true_eq, not_lt]

/-- Behind a token and a space, what is completed is what would be completed without them. -/
lemma completedOf_spaced (h : Typing.EndsIn head init t) (typed : List Char) :
    View.completedOf (head ++ [' '] ++ typed)
      = init ++ [t] ++ (View.completedOf typed).map (Token.shift (head ++ [' ']).length) := by
  have early : ∀ u ∈ init ++ [t], u.stop < (head ++ [' '] ++ typed).length := by
    intro u hu
    rw [← h.1.tokenize, tokenize_ofList] at hu
    have inside : u.stop ≤ 0 + head.length := ((passes_to_end 0 head).bounds hu).2.2
    simp only [List.length_append, List.length_singleton]
    omega
  have late (u : Token) : (u.shift (head ++ [' ']).length).stop < (head ++ [' '] ++ typed).length ↔
      u.stop < typed.length := by
    simp only [Token.shift_stop, List.length_append]
    omega
  rw [completedOf_eq_filter, completedOf_eq_filter, h.1.space typed, List.filter_append,
    List.filter_eq_self.2 (by simpa using early)]
  congr 1
  rw [← Nat.add_zero (head ++ [' ']).length, tokens_shift, List.filter_map]
  simp only [Function.comp_def, Nat.add_zero, late]

/-- As long as nothing is completed behind the space, all of it is being typed. -/
lemma ofHead_pending (h : Typing.EndsIn head init t) (pending : Pending typed) :
    View.ofHead (head ++ [' '] ++ typed) = ⟨init ++ [t], ' ' :: typed⟩ := by
  have completed : View.completedOf (head ++ [' '] ++ typed) = init ++ [t] := by
    rw [completedOf_spaced h, pending_iff.1 pending, List.map_nil, List.append_nil]
  have behind : (head ++ [' '] ++ typed).drop t.stop = ' ' :: typed := by
    rw [h.2, List.append_assoc, List.drop_left]
    rfl
  simp only [View.ofHead, completed, List.getLast?_concat, behind]

/-- Once something is completed behind the space, less than all of it is being typed. -/
lemma trailing_of_not_pending (h : Typing.EndsIn head init t) (complete : ¬ Pending typed) :
    (View.ofHead (head ++ [' '] ++ typed)).trailing.length < typed.length := by
  rw [pending_iff] at complete
  obtain ⟨late, u, split⟩ := (List.eq_nil_or_concat _).resolve_left complete
  rw [List.concat_eq_append] at split
  have mem : u ∈ View.completedOf typed := by simp [split]
  rw [completedOf_eq_filter, List.mem_filter, decide_eq_true_eq] at mem
  have moves := start_lt_stop_of_mem_tokens mem.1
  have stop : endOf (View.completedOf (head ++ [' '] ++ typed))
      = (head ++ [' ']).length + u.stop := by
    rw [completedOf_spaced h, split, List.map_append, List.map_singleton, ← List.append_assoc,
      endOf_concat, Token.shift_stop]
  have trailing : (View.ofHead (head ++ [' '] ++ typed)).trailing
      = (head ++ [' '] ++ typed).drop ((head ++ [' ']).length + u.stop) := by
    rw [← stop]
    rfl
  rw [trailing]
  simp only [List.length_drop, List.length_append]
  omega

/-- A literal starts with a quote, a minus or a digit. -/
lemma visible_of_literal (literal : Typing.Literal) {c : Char} {cs : List Char}
    (text : literal.text = c :: cs) : isSpace c = false ∧ c ≠ '(' := by
  obtain ⟨text', kind, lexeme, literal⟩ := literal
  subst text
  constructor
  · by_contra space
    rw [scan_of_isSpace (by simpa using space)] at lexeme
    cases lexeme
  · rintro rfl
    cases lexeme
    rcases literal with other | other | other <;> cases other

lemma typed_of_literal (literal : Typing.Literal) (k : Nat) (ts : List Token) :
    View.typed ⟨ts, ' ' :: literal.text.take k⟩ = literal.text.take k := by
  have head (c : Char) (h : (literal.text.take k).head? = some c) :
      isSpace c = false ∧ c ≠ '(' := by
    obtain ⟨rest, taken⟩ := List.head?_eq_some_iff.1 h
    have whole : literal.text = c :: (rest ++ literal.text.drop k) := by
      rw [← List.cons_append, ← taken, List.take_append_drop]
    exact visible_of_literal literal whole
  have space : ∀ c ∈ [' '], isSpace c = true := List.forall_mem_singleton.2 rfl
  refine typed_of_space ts space (fun c hc => (head c hc).1) ?_
  intro paren
  exact (head '(' (by rw [paren]; rfl)).2 rfl

/-- Behind a path, its operator and a space, the values of the field are due for as long as
nothing is completed. -/
lemma classify_pending {op : Comparison} {name : Token} {r : Resolved} (literal : Typing.Literal)
    (k : Nat) (h : Typing.EndsIn head (init ++ [name]) t) (kind : t.kind = .comparison op)
    (named : name.kind = .name) (leads : s.resolve root name.text = some r)
    (pending : Pending (literal.text.take k)) :
    classify s root (View.ofHead (head ++ [' '] ++ literal.text.take k))
      = .ok (.value (String.ofList (literal.text.take k)) (target r).1 (target r).2) := by
  have last := Typing.last?_concat (init ++ [name]) t (' ' :: literal.text.take k)
  rw [ofHead_pending h pending, Typing.classify_of_spaced rfl last (Or.inr (Or.inl ⟨op, kind⟩)),
    spacedContext, last, View.beforeLast?, List.dropLast_concat, List.getLast?_concat,
    typed_of_literal]
  simp only [kind, named, pathContext, leads, if_true]

/-- Once something is completed, no context takes all of it for what is being typed. -/
lemma typed_ne_of_not_pending (h : Typing.EndsIn head init t) (complete : ¬ Pending typed) :
    (contextOf (classify s root (View.ofHead (head ++ [' '] ++ typed)))).typed
      ≠ String.ofList typed := by
  have short := trailing_of_not_pending h complete
  intro same
  have all : typed.length ≤ (View.ofHead (head ++ [' '] ++ typed)).trailing.length := by
    cases found : classify s root (View.ofHead (head ++ [' '] ++ typed)) with
    | ok c =>
      rw [found] at same
      change c.typed = String.ofList typed at same
      have ends := (classify_typed_suffix found).trans (View.typed_suffix_trailing _)
      rw [same, String.toList_ofList] at ends
      exact ends.length_le
    | error silence =>
      rw [found] at same
      change "" = String.ofList typed at same
      obtain rfl : typed = [] := by simpa using (congrArg String.toList same).symm
      exact Nat.zero_le _
  omega

/-- A value that is configured for a field is on offer while it is typed, exactly as long as
nothing is completed in what is typed of it. An integer never completes anything early, and a
number with a fraction or an exponent only right behind a character that is not a digit. -/
theorem value_mem_items_iff (path : Typing.Path s root) {m f : String} {kind : ScalarKind}
    (goal : path.goal = .field m f kind) (op : Comparison) (literal : Typing.Literal)
    (table : ValueTable) (configured : String.ofList literal.text ∈ table.valuesOf m (some f))
    (k : Nat) :
    let typed := literal.text.take k
    let text := path.text ++ [' '] ++ op.sign.toList ++ [' '] ++ typed
    let c := contextAt s root (String.ofList text) text.length
    (c = .value (String.ofList typed) m (some ⟨f, .scalar kind⟩) ∧
        String.ofList literal.text ∈ (Offer.forContext s (some table.source) c).items ↔
      Pending typed) ∧
    (literal.kind = .int → Pending typed) ∧
    (literal.kind = .float →
      (Pending typed ↔ typed = [] ∨ typed = ['-'] ∨ EndsInDigit typed)) ∧
    (k = 0 ∨ literal.text.length ≤ k → Pending typed) := by
  intro typed text c
  have starts : typed <+: literal.text := List.take_prefix k literal.text
  have lexeme := literal.lexeme
  have named := Typing.endsIn_lexeme settled_nil path.lexeme
  rw [List.nil_append] at named
  have compared := Typing.endsIn_lexeme named.1.space (Typing.scan_sign op)
  have found : c = contextOf (classify s root (View.ofHead text)) := by
    change contextAt s root (String.ofList text) text.length = _
    rw [← String.length_ofList, contextAt_end, String.toList_ofList]
  refine ⟨⟨?_, ?_⟩, ?_, ?_, ?_⟩
  · rintro ⟨value, -⟩
    by_contra complete
    have other : c.typed ≠ String.ofList typed := by
      rw [found]
      exact typed_ne_of_not_pending compared complete
    rw [value] at other
    exact other rfl
  · intro pending
    have due := classify_pending literal k compared rfl rfl path.resolves pending
    have value : c = .value (String.ofList typed) m (some ⟨f, .scalar kind⟩) := by
      rw [found, due, goal]
      rfl
    rw [value]
    refine ⟨rfl, mem_continuing_iff.2 ⟨configured, ?_⟩⟩
    rw [Context.typed, String.toList_ofList, String.toList_ofList]
    exact starts
  · intro whole
    rw [whole] at lexeme
    exact pending_int lexeme starts
  · intro number
    exact pending_number_iff lexeme (Or.inr number) starts
  · rintro (rfl | long)
    · exact pending_nil
    · simp only [typed, List.take_of_length_le long]
      exact pending_of_lexeme lexeme

/-- A name of a customer and a total of an order, to choose from. -/
def register : ValueTable :=
  (ValueTable.withValues .empty "Customer" "name" ["\"Al B\""]).withValues
    "Order" "total" ["-1.5e3"]

/-- A quoted name up to its first word, and a number up to a digit of its fraction. -/
theorem value_mem_items_iff_halfway :
    let context (text : String) := contextAt Typing.trade (some "Order") text text.length
    let items (text : String) :=
      (Offer.forContext Typing.trade (some register.source) (context text)).items
    ("\"Al B\"" ∈ register.valuesOf "Customer" (some "name") ∧ Pending "\"Al".toList ∧
      context "customer.name !~ \"Al" = .value "\"Al" "Customer" (some ⟨"name", .scalar .text⟩) ∧
      "\"Al B\"" ∈ items "customer.name !~ \"Al") ∧
    ("-1.5e3" ∈ register.valuesOf "Order" (some "total") ∧ Pending "-1.5".toList ∧
      context "total >= -1.5" = .value "-1.5" "Order" (some ⟨"total", .scalar .float⟩) ∧
      "-1.5e3" ∈ items "total >= -1.5") := by
  intro context items
  constructor
  · let path : Typing.Path Typing.trade (some "Order") :=
      ⟨"customer.name".toList, by decide +kernel, .field "Customer" "name" .text, by decide +kernel⟩
    let literal : Typing.Literal := ⟨"\"Al B\"".toList, .string, by decide +kernel, by decide⟩
    have configured : "\"Al B\"" ∈ register.valuesOf "Customer" (some "name") := by decide +kernel
    have pending : Pending "\"Al".toList := by decide +kernel
    obtain ⟨value, offered⟩ :=
      (value_mem_items_iff path rfl .notContains literal register configured 3).1.2 pending
    exact ⟨configured, pending, value, offered⟩
  · let path : Typing.Path Typing.trade (some "Order") :=
      ⟨"total".toList, by decide +kernel, .field "Order" "total" .float, by decide +kernel⟩
    let literal : Typing.Literal := ⟨"-1.5e3".toList, .float, by decide +kernel, by decide⟩
    have configured : "-1.5e3" ∈ register.valuesOf "Order" (some "total") := by decide +kernel
    obtain ⟨offered, -, number, -⟩ :=
      value_mem_items_iff path rfl .greaterEqual literal register configured 4
    have pending : Pending "-1.5".toList := (number rfl).2 (Or.inr (Or.inr ⟨'5', rfl, rfl⟩))
    obtain ⟨value, offered⟩ := offered.2 pending
    exact ⟨configured, pending, value, offered⟩

/-- Values that are lost on the way: a quoted name behind the space in it, and a number right
behind its dot. -/
theorem value_offer_lost :
    let context (text : String) := contextAt Typing.trade (some "Order") text text.length
    let items (text : String) :=
      (Offer.forContext Typing.trade (some register.source) (context text)).items
    (scan "customer.name".toList = some ⟨.name, "customer.name".toList⟩ ∧
      Typing.trade.resolve (some "Order") "customer.name" = some (.field "Customer" "name" .text) ∧
      scan "\"Al B\"".toList = some ⟨.string, "\"Al B\"".toList⟩ ∧
      "\"Al B\"" ∈ register.valuesOf "Customer" (some "name") ∧
      "\"Al B\"".toList.take 4 = "\"Al ".toList ∧
      context "customer.name = \"Al " = .nothing ∧ items "customer.name = \"Al " = []) ∧
    (scan "total".toList = some ⟨.name, "total".toList⟩ ∧
      Typing.trade.resolve (some "Order") "total" = some (.field "Order" "total" .float) ∧
      scan "-1.5e3".toList = some ⟨.float, "-1.5e3".toList⟩ ∧
      "-1.5e3" ∈ register.valuesOf "Order" (some "total") ∧
      "-1.5e3".toList.take 3 = "-1.".toList ∧
      context "total >= -1." = .nothing ∧ items "total >= -1." = []) := by
  decide +kernel

end Cursor

end FilterAssist
