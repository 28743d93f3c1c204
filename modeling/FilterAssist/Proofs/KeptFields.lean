import FilterAssist.Proofs.FieldPlaces

/-!
# Offered fields while they are typed

Typing one more character of an offered field keeps the field on offer, with two exceptions,
and both come with the first character of a segment. Behind two opening parentheses in a row
a field is offered, but no condition starts there. And right behind the dot of a path the
fields of its model are offered wherever the path stands; with the next character it is one
name, and it is a field only where a field may stand.
-/

namespace FilterAssist.Cursor

open Query Text

variable {s : Schema} {root : Option String} {m : String}
variable {T U lead p : List Char} {ts : List Token}

/-- The text ends in two opening parentheses, with white space between them at most. -/
def DoublyOpened (text : String) : Prop :=
  ∃ front space, text.toList = front ++ '(' :: (space ++ ['(']) ∧ ∀ c ∈ space, isSpace c = true

/-- The text ends in a name and a dot. What stands in front of the name goes on behind its
last token, and the fields of the root are not due there. -/
def StandsApart (s : Schema) (root : Option String) (text : String) : Prop :=
  text.toList.getLast? = some '.' ∧ ∃ t ∈ tokenize text, t.kind = .name ∧ t.stop + 1 = text.length ∧
    let front := String.ofList (text.toList.take t.start)
    endOf (tokenize front) < front.length ∧
      contextAt s root front front.length ≠ .field "" root

namespace FieldPlace

/-- A word typed at the place is due exactly where its path may be entered. -/
lemma classify_iff (place : FieldPlace s root m T U lead p ts) (named : s.WellNamed)
    {w : List Char} (word : isSegment w = true) :
    classify s root (View.ofHead (U ++ (lead ++ w))) = .ok (.field (String.ofList w) (some m)) ↔
      Enterable ts (U.drop (endOf ts)) lead := by
  have run := place.runs w (quote_not_mem (isNameChar_of_isSegment word))
  obtain ⟨k, lexeme, -⟩ := place.leads.scan word
  rw [ofHead_lexeme run lexeme]
  exact classify_lead_iff named place.leads word (unread_gap run)

/-- The tokens in front of the path are those of the text in front of it. -/
lemma run_front (place : FieldPlace s root m T U lead p ts) :
    Passes ⟨0, U⟩ ts ⟨U.length, []⟩ := by
  have run : Passes ⟨0, U ++ (lead ++ [])⟩ ts ⟨0 + U.length, lead ++ []⟩ := by
    rw [Nat.zero_add]
    exact place.runs [] List.not_mem_nil
  have cut := run.exchange (standsFor_of_isPrefix List.nil_prefix)
  rwa [List.append_nil, Nat.zero_add] at cut

/-- Where the fields of the root are due in front of the path. -/
lemma front_iff (place : FieldPlace s root m T U lead p ts) (short : endOf ts < U.length) :
    classify s root (View.ofHead U) = .ok (.field "" root) ↔
      Enterable ts (U.drop (endOf ts)) [] := by
  rw [ofHead_gap place.run_front short]
  apply classify_gap_iff
  apply unread_gap (v := [])
  rw [List.append_nil]
  exact place.run_front

end FieldPlace

lemma DoublyOpened.getLast? {text : String} (h : DoublyOpened text) :
    text.toList.getLast? = some '(' := by
  obtain ⟨front, space, whole, -⟩ := h
  rw [whole, ← List.cons_append, ← List.append_assoc, List.getLast?_concat]

/-- Behind a letter or a digit there is no exception. -/
lemma not_exception_of_word (word : isSegment p = true) :
    ¬ DoublyOpened (String.ofList (U ++ p)) ∧ ¬ StandsApart s root (String.ofList (U ++ p)) := by
  have nonempty : p ≠ [] := by
    rintro rfl
    cases word
  have name {c : Char} (last : (String.ofList (U ++ p)).toList.getLast? = some c) :
      isNameChar c = true := by
    rw [String.toList_ofList, List.getLast?_append_of_ne_nil _ nonempty] at last
    exact isNameChar_of_isSegment word c (List.mem_of_getLast? last)
  constructor
  · intro opened
    cases name opened.getLast?
  · intro apart
    cases name apart.1

section Dotted

variable {front : List Char} (lexeme : scan front = some ⟨.name, front⟩)
  (run : Passes ⟨0, U ++ (front ++ ['.'])⟩ ts ⟨U.length, front ++ ['.']⟩)

include lexeme run

lemma tokenize_dotted : tokenize (String.ofList (U ++ (front ++ ['.'])))
    = ts ++ [(Lexeme.mk .name front).toToken U.length,
      (Lexeme.mk (.punct .dot) ['.']).toToken (U.length + front.length)] := by
  have dot : scan ['.'] = some ⟨.punct .dot, ['.']⟩ := rfl
  rw [tokenize_ofList, run.tokens, tokens_of_scan (scan_trailing_dot lexeme), List.drop_left,
    tokens_lexeme dot]

/-- Only the name ends right in front of the dot. -/
lemma eq_name_of_stop {t : Token} (mem : t ∈ tokenize (String.ofList (U ++ (front ++ ['.']))))
    (stop : t.stop = U.length + front.length) : t = (Lexeme.mk .name front).toToken U.length := by
  have nonempty : 0 < front.length := List.length_pos_iff.2 (scan_source_ne_nil lexeme)
  rw [tokenize_dotted lexeme run] at mem
  rcases List.mem_append.1 mem with early | late
  · have := (run.bounds early).2.2
    simp only at this
    omega
  · rcases List.mem_cons.1 late with rfl | late
    · rfl
    · obtain rfl := List.mem_singleton.1 late
      simp only [Lexeme.toToken, List.length_singleton] at stop
      omega

/-- Whether the name in front of the dot stands apart is a matter of the text in front of
the name. -/
lemma standsApart_iff (tokens : tokenize (String.ofList U) = ts) :
    StandsApart s root (String.ofList (U ++ (front ++ ['.']))) ↔ endOf ts < U.length ∧
      contextAt s root (String.ofList U) (String.ofList U).length ≠ .field "" root := by
  have length : (String.ofList (U ++ (front ++ ['.']))).length = U.length + front.length + 1 := by
    rw [String.length_ofList, List.length_append, List.length_append, Nat.add_assoc]
    rfl
  have whole : (U ++ (front ++ ['.'])).take ((Lexeme.mk .name front).toToken U.length).start = U :=
    List.take_left
  constructor
  · rintro ⟨-, t, mem, -, reaches, short, context⟩
    rw [length, Nat.add_right_cancel_iff] at reaches
    obtain rfl := eq_name_of_stop lexeme run mem reaches
    rw [String.toList_ofList, whole] at short context
    rw [tokens, String.length_ofList] at short
    exact ⟨short, context⟩
  · rintro ⟨short, context⟩
    refine ⟨by simp, (Lexeme.mk .name front).toToken U.length, ?_, rfl, by rw [length]; rfl, ?_⟩
    · rw [tokenize_dotted lexeme run]
      simp
    · rw [String.toList_ofList, whole]
      refine ⟨?_, context⟩
      rw [tokens, String.length_ofList]
      exact short

end Dotted

lemma FieldPlace.enterable_of_dot {front : List Char}
    (place : FieldPlace s root m T U (front ++ ['.']) [] ts)
    (lexeme : scan front = some ⟨.name, front⟩) :
    Enterable ts (U.drop (endOf ts)) (front ++ ['.']) ↔
      ¬ DoublyOpened (String.ofList T) ∧ ¬ StandsApart s root (String.ofList T) := by
  have run := place.runs [] List.not_mem_nil
  have whole := place.whole
  rw [List.append_nil] at run whole
  have unopened : ¬ DoublyOpened (String.ofList T) := by
    intro opened
    have last := opened.getLast?
    rw [String.toList_ofList, whole, ← List.append_assoc, List.getLast?_concat] at last
    cases last
  have tokens : tokenize (String.ofList U) = ts := by
    rw [tokenize_ofList, place.run_front.tokens_eq]
  rw [whole, standsApart_iff lexeme run tokens, ← whole]
  by_cases short : endOf ts < U.length
  · have gap : U.drop (endOf ts) ≠ [] := by
      rwa [ne_eq, List.drop_eq_nil_iff, Nat.not_le]
    have undotted : Enterable ts (U.drop (endOf ts)) (front ++ ['.']) ↔
        Enterable ts (U.drop (endOf ts)) [] := by
      simp [Enterable, gap]
    have context : contextAt s root (String.ofList U) (String.ofList U).length = .field "" root ↔
        Enterable ts (U.drop (endOf ts)) [] := by
      rw [contextAt_field_iff, String.toList_ofList, place.front_iff short]
    rw [undotted, ← context]
    constructor
    · intro due
      exact ⟨unopened, fun apart => apart.2 due⟩
    · rintro ⟨-, near⟩
      by_contra other
      exact near ⟨short, other⟩
  · have gap : U.drop (endOf ts) = [] := by
      rwa [List.drop_eq_nil_iff, ← Nat.not_lt]
    simp [Enterable, gap, unopened, short]

/-- Behind a parenthesis that opens where a condition may start, none starts only if another
parenthesis is right in front. -/
lemma startsCondition_iff_of_opens {init : List Token} {spaced : Bool}
    (h : opens init spaced = true) :
    startsCondition (init.getLast?.map Token.kind) = true ↔
      init.getLast?.map Token.kind ≠ some (.punct .openParen) := by
  rw [opens] at h
  generalize init.getLast?.map Token.kind = last at h ⊢
  split at h
  · simp [startsCondition]
  · simp [startsCondition]
  · simp [startsCondition]
  · simp [startsCondition]
  · simp [startsCondition]
  · cases h

/-- A second parenthesis is seen by the token in front of it. -/
lemma doublyOpened_iff {u : List Char} (tokens : (Lexer.mk 0 u).tokens = ts)
    (space : ∀ c ∈ u.drop (endOf ts), isSpace c = true) :
    DoublyOpened (String.ofList (u ++ ['('])) ↔
      ts.getLast?.map Token.kind = some (.punct .openParen) := by
  constructor
  · rintro ⟨front, blank, whole, blanks⟩
    obtain rfl : u = front ++ '(' :: blank := by
      rw [String.toList_ofList, ← List.cons_append, ← List.append_assoc] at whole
      exact List.append_cancel_right whole
    have plain : '"' ∉ blank := fun quote => by cases blanks '"' quote
    have first := passes_to_fence (b := '(') rfl plain 0 front
    have none (n : Nat) : (Lexer.mk n blank).tokens = [] := by
      have all := (passes_space blanks n []).tokens
      rwa [List.append_nil, tokens_nil] at all
    have last : (Lexer.mk (0 + front.length) ('(' :: blank)).tokens
        = [(Lexeme.mk (.punct .openParen) ['(']).toToken (0 + front.length)] := by
      rw [tokens_of_scan (scan_openParen blank)]
      exact congrArg _ (none _)
    rw [← tokens, first.tokens, last, List.getLast?_concat]
    rfl
  · intro kind
    obtain ⟨t, last, openParen⟩ := Option.map_eq_some_iff.1 kind
    obtain ⟨init, rfl⟩ := List.getLast?_eq_some_iff.1 last
    obtain ⟨⟨n, rest⟩, run, -, offset⟩ := passes_of_tokens_eq (tokens.trans (List.append_nil _).symm)
    change n = endOf (init ++ [t]) at offset
    obtain ⟨covered, whole, length⟩ := run.passed
    simp only [Nat.zero_add] at whole length
    subst whole length
    rw [endOf_concat] at offset
    obtain ⟨x, l, rfl, found, rfl, -⟩ := last_lexeme run offset.symm
    rw [endOf_concat, ← offset, List.drop_left] at space
    refine ⟨x, rest, ?_, space⟩
    rw [source_of_openParen found openParen]
    simp

/-- A parenthesis alone is typed where a condition may start. -/
lemma opens_of_openParen {init : List Token} {gap : List Char} (unread : ∀ c ∈ gap, Unread c)
    (field : classify s root ⟨init, gap ++ ['(']⟩ = .ok (.field "" root)) :
    (∀ c ∈ gap, isSpace c = true) ∧ ∃ spaced, opens init spaced = true := by
  obtain ⟨enters, ⟨-, untyped, -⟩ | ⟨front, back, goal, path, -⟩⟩ := field_of_classify field
  · have none : View.typed ⟨init, gap ++ ['(']⟩ = [] := String.ofList_inj.1 untyped.symm
    constructor
    · obtain ⟨space, rest, trailing, blank, -, shape⟩ := typed_iff.1 none.symm
      change gap ++ ['('] = space ++ rest at trailing
      rcases shape with ⟨rfl, -⟩ | ⟨-, rfl⟩
      · rw [List.append_cancel_right trailing]
        exact blank
      · rw [List.append_nil] at trailing
        cases blank '(' (by simp [← trailing])
    · rw [entersField_eq, none] at enters
      exact ⟨_, by simpa using enters⟩
  · have dot : '.' ∈ View.path ⟨init, gap ++ ['(']⟩ := by simp [path]
    have inside := (View.typed_suffix_trailing _).mem (dot_mem_path_iff.1 dot)
    rcases List.mem_append.1 inside with inside | paren
    · exact absurd rfl (unread '.' inside).not_mark.1
    · cases List.mem_singleton.1 paren

namespace FieldPlace

/-- Behind white space nothing changes with the first character. -/
lemma enterable_of_space {u : List Char} {b : Char}
    (place : FieldPlace s root m (u ++ [b]) (u ++ [b]) [] [] ts) (space : isSpace b = true)
    (field : classify s root (View.ofHead (u ++ [b])) = .ok (.field "" root)) :
    Enterable ts ((u ++ [b]).drop (endOf ts)) [] ∧ ¬ DoublyOpened (String.ofList (u ++ [b])) := by
  have short : endOf ts < (u ++ [b]).length := by
    have cut := (passes_to_fence (isFence_of_isSpace space) List.not_mem_nil 0 u).tokens
    rw [tokens_of_scan_eq_none (scan_of_isSpace space []), tokens_nil, List.append_nil,
      place.run_front.tokens_eq] at cut
    have inside := endOf_le (passes_to_end 0 u)
    rw [← cut] at inside
    simp only [List.length_append, List.length_singleton] at inside ⊢
    omega
  refine ⟨(place.front_iff short).1 field, fun opened => ?_⟩
  have last := opened.getLast?
  rw [String.toList_ofList, List.getLast?_concat] at last
  cases last
  cases space

/-- A parenthesis at the end is a completed token with the first character, and a condition
starts behind it unless it is the second one. -/
lemma enterable_of_openParen {u : List Char}
    (place : FieldPlace s root m (u ++ ['(']) (u ++ ['(']) [] [] ts)
    (field : classify s root (View.ofHead (u ++ ['('])) = .ok (.field "" root)) :
    Enterable ts ((u ++ ['(']).drop (endOf ts)) [] ↔
      ¬ DoublyOpened (String.ofList (u ++ ['('])) := by
  set init := (Lexer.mk 0 u).tokens with hinit
  have run : Passes ⟨0, u ++ ['(']⟩ init ⟨u.length, ['(']⟩ := by
    have first := passes_to_fence (b := '(') rfl List.not_mem_nil 0 u
    rwa [Nat.zero_add] at first
  have all : ts = init ++ [(Lexeme.mk (.punct .openParen) ['(']).toToken u.length] := by
    rw [← place.run_front.tokens_eq, run.tokens, tokens_lexeme (scan_openParen [])]
  rw [ofHead_lexeme run (scan_openParen [])] at field
  obtain ⟨space, spaced, due⟩ := opens_of_openParen (unread_gap run) field
  have reaches : (u ++ ['(']).drop (endOf ts) = [] := by
    rw [all, endOf_concat, List.drop_eq_nil_iff, List.length_append]
    exact le_rfl
  have decides : opens ts false = startsCondition (init.getLast?.map Token.kind) := by
    rw [all, opens, List.getLast?_concat, List.dropLast_concat]
    rfl
  have enterable : Enterable ts [] [] ↔ opens ts false = true := by simp [Enterable]
  rw [reaches, enterable, decides, doublyOpened_iff hinit.symm space, ← ne_eq,
    ← startsCondition_iff_of_opens due]

/-- In front of a path the white space or the parenthesis at the end decides. -/
lemma enterable_of_start (place : FieldPlace s root m T U [] [] ts) (begins : root = some m)
    (field : classify s root (View.ofHead T) = .ok (.field "" (some m))) :
    Enterable ts (U.drop (endOf ts)) [] ↔
      ¬ DoublyOpened (String.ofList T) ∧ ¬ StandsApart s root (String.ofList T) := by
  obtain rfl : T = U := by simpa using place.whole
  have near : ¬ StandsApart s root (String.ofList T) := by
    intro apart
    have last := apart.1
    rw [String.toList_ofList] at last
    exact not_dot_of_parted (place.fresh rfl) last
  rw [← begins] at field
  rw [and_iff_left near]
  cases place.fresh rfl with
  | nil =>
    have none := place.run_front.tokens_eq
    rw [tokens_nil] at none
    subst none
    refine iff_of_true (by simp [Enterable, opens]) fun opened => ?_
    cases opened.getLast?
  | @behind u b fence =>
    rw [isFence, Bool.or_eq_true, beq_iff_eq] at fence
    rcases fence with space | rfl
    · obtain ⟨enterable, unopened⟩ := place.enterable_of_space space field
      exact iff_of_true enterable unopened
    · exact place.enterable_of_openParen field

end FieldPlace

lemma FieldPlace.kept_iff (place : FieldPlace s root m T U lead p ts) (named : s.WellNamed)
    (field : classify s root (View.ofHead T) = .ok (.field (String.ofList p) (some m)))
    {c : Char} (word : isSegment (p ++ [c]) = true) :
    classify s root (View.ofHead (T ++ [c]))
        = .ok (.field (String.ofList (p ++ [c])) (some m)) ↔
      ¬ DoublyOpened (String.ofList T) ∧ ¬ StandsApart s root (String.ofList T) := by
  have next : T ++ [c] = U ++ (lead ++ (p ++ [c])) := by rw [place.whole]; simp
  rw [next, place.classify_iff named word]
  by_cases begun : p = []
  · subst begun
    have leads := place.leads
    cases leads with
    | start begins => exact place.enterable_of_start begins field
    | path lexeme => exact place.enterable_of_dot lexeme
  · have part : isSegment p = true := isSegment_of_isPrefix word (List.prefix_append p [c]) begun
    have whole : T = (U ++ lead) ++ p := by rw [place.whole, List.append_assoc]
    have enterable : Enterable ts (U.drop (endOf ts)) lead := by
      rw [place.whole] at field
      exact (place.classify_iff named part).1 field
    rw [whole]
    exact iff_of_true enterable (not_exception_of_word part)

/-- An offered field stays on offer with its next character, exactly where the text ends
neither in two opening parentheses nor in a path that stands apart. -/
theorem contextAt_push_iff (named : s.WellNamed) (values : Option ValueSource)
    {text typed item : String} {model : Option String} {c : Char} {more : List Char}
    (field : contextAt s root text text.length = .field typed model)
    (offered : item ∈ (Offer.forContext s values (contextAt s root text text.length)).items)
    (begins : item.toList = typed.toList ++ c :: more) :
    (contextAt s root (text.push c) (text.push c).length = .field (typed.push c) model ∧
        item ∈ (Offer.forContext s values
          (contextAt s root (text.push c) (text.push c).length)).items) ↔
      ¬ DoublyOpened text ∧ ¬ StandsApart s root text := by
  rw [field] at offered
  obtain ⟨m, rfl, mem, -⟩ := mem_offer_iff.1 offered
  have classified := contextAt_field_iff.1 field
  obtain ⟨U, lead, ts, place⟩ := fieldPlace_of_classify named classified
  have word : isSegment (typed.toList ++ [c]) = true := by
    have all := named.isSegment mem
    rw [begins] at all
    exact isSegment_of_isPrefix all ⟨more, by simp⟩ (by simp)
  have kept := place.kept_iff named (by rwa [String.ofList_toList]) word
  rw [String.ofList_toList] at kept
  have next : contextAt s root (text.push c) (text.push c).length = .field (typed.push c) (some m) ↔
      classify s root (View.ofHead (text.toList ++ [c]))
        = .ok (.field (String.ofList (typed.toList ++ [c])) (some m)) := by
    have push : String.ofList (typed.toList ++ [c]) = typed.push c :=
      String.toList_inj.1 (by simp)
    rw [contextAt_field_iff, String.toList_push, push]
  rw [← kept, ← next]
  refine and_iff_left_of_imp fun context => ?_
  rw [context]
  exact mem_offer_iff.2 ⟨m, rfl, mem, ⟨more, by simp [begins]⟩⟩

/-- Behind a connector a path does not stand apart, whatever quote comes before. -/
theorem contextAt_push_iff_connected :
    let root := some "Order"
    let text := "\"x and customer."
    Typing.trade.WellNamed ∧
      contextAt Typing.trade root text text.length = .field "" (some "Customer") ∧
      "name" ∈ (Offer.forContext Typing.trade none
        (contextAt Typing.trade root text text.length)).items ∧
      "name".toList = "".toList ++ 'n' :: "ame".toList ∧
      contextAt Typing.trade root (text.push 'n') (text.push 'n').length
        = .field "n" (some "Customer") ∧
      ¬ DoublyOpened text ∧ ¬ StandsApart Typing.trade root text := by
  intro root text
  have named : Typing.trade.WellNamed := by decide +kernel
  have field : contextAt Typing.trade root text text.length = .field "" (some "Customer") := by
    decide +kernel
  have offered : "name" ∈ (Offer.forContext Typing.trade none
      (contextAt Typing.trade root text text.length)).items := by decide +kernel
  have begins : "name".toList = "".toList ++ 'n' :: "ame".toList := by decide +kernel
  have kept : contextAt Typing.trade root (text.push 'n') (text.push 'n').length
      = .field "n" (some "Customer") := by decide +kernel
  have neither := (contextAt_push_iff named none field offered begins).1
    ⟨by decide +kernel, by decide +kernel⟩
  exact ⟨named, field, offered, begins, kept, neither⟩

/-- Fields that vanish with their first character: behind two opening parentheses, and in a
path where a value is due. -/
theorem contextAt_push_vanishes :
    let root := some "Order"
    Typing.trade.WellNamed ∧
      (contextAt Typing.trade root "((" 2 = .field "" root ∧
        "total" ∈ (Offer.forContext Typing.trade none
          (contextAt Typing.trade root "((" 2)).items ∧
        contextAt Typing.trade root "((t" 3 = .nothing) ∧
      contextAt Typing.trade root "total = customer." 17 = .field "" (some "Customer") ∧
        "name" ∈ (Offer.forContext Typing.trade none
          (contextAt Typing.trade root "total = customer." 17)).items ∧
        contextAt Typing.trade root "total = customer.n" 18
          = .value "customer.n" "Order" (some ⟨"total", .scalar .float⟩) := by
  decide +kernel

end FilterAssist.Cursor
