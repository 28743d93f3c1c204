import FilterAssist.Proofs.FieldPlaces

/-!
# Accepting an operator or a connector

What is typed behind white space can be exchanged for an operator or a connector: the lexer
reads the text in front of it as before, and then the new lexeme. So behind a path an
accepted operator calls for a value, and behind a value an accepted connector calls for a
field. An opening parenthesis alone is no typed text and stays where it is; it comes between
the path and the operator, and then there is nothing to say.
-/

namespace FilterAssist.Cursor

open Query Text

variable {s : Schema} {root : Option String}
variable {T U space rest front w : List Char}

namespace Ending

lemma tokens_front (e : Ending T U space rest) :
    (Lexer.mk 0 (U ++ space)).tokens = (View.ofHead T).completed := by
  have run : Passes ⟨0, (U ++ space) ++ rest⟩ (View.ofHead T).completed
      ⟨0 + (U ++ space).length, rest⟩ := by
    rw [Nat.zero_add]
    exact e.run
  have cut := run.exchange (standsFor_of_isPrefix List.nil_prefix)
  rw [List.append_nil] at cut
  exact cut.tokens_eq

lemma parted_of_spaced (e : Ending T U space rest) (spaced : (View.ofHead T).spaced = true) :
    Parted (U ++ space) := by
  rcases List.eq_nil_or_concat space with rfl | ⟨init, b, rfl⟩
  · rw [e.spaced] at spaced
    cases spaced
  · rw [List.concat_eq_append, ← List.append_assoc]
    exact .behind _ (isFence_of_isSpace (e.blank b (by simp)))

/-- White space does not look like a parenthesis. -/
lemma not_openParen (e : Ending T U space rest) (spaced : (View.ofHead T).spaced = true)
    (unopened : '(' ∉ rest) : T.getLast? ≠ some '(' := by
  intro last
  rw [e.whole] at last
  by_cases untyped : rest = []
  · subst untyped
    rcases List.eq_nil_or_concat space with rfl | ⟨init, b, rfl⟩
    · rw [e.spaced] at spaced
      cases spaced
    · rw [List.append_nil, List.concat_eq_append, ← List.append_assoc, List.getLast?_concat] at last
      cases last
      cases e.blank '(' (by simp)
  · rw [List.getLast?_append_of_ne_nil _ untyped] at last
    exact unopened (List.mem_of_getLast? last)

end Ending

/-- Where text is typed behind white space, the text in front of it starts something new.
It has the completed tokens, and a parenthesis that stands alone at the end. -/
lemma exists_tokens_front (spaced : (View.ofHead T).spaced = true)
    (whole : T = front ++ (View.ofHead T).typed) (unopened : '(' ∉ (View.ofHead T).typed) :
    Parted front ∧ ∃ opened, (Lexer.mk 0 front).tokens = (View.ofHead T).completed ++ opened ∧
      (T.getLast? ≠ some '(' ∧ opened = [] ∨
        T.getLast? = some '(' ∧ ∃ t, opened = [t] ∧ t.kind = .punct .openParen) := by
  obtain ⟨U, space, rest, e⟩ := exists_ending T
  have tokens := e.tokens_front
  rcases e.typed with ⟨rfl, untyped⟩ | ⟨-, same⟩
  · obtain rfl : front = (U ++ space) ++ ['('] := by
      rw [untyped, List.append_nil] at whole
      exact whole.symm.trans e.whole
    refine ⟨.behind _ rfl, [(Lexeme.mk (.punct .openParen) ['(']).toToken (U ++ space).length],
      ?_, Or.inr ⟨?_, _, rfl, rfl⟩⟩
    · rw [e.run.tokens, tokens_lexeme (scan_openParen [])]
    · rw [e.whole, List.getLast?_concat]
  · obtain rfl : front = U ++ space := by
      have cut := whole.symm.trans e.whole
      rw [same] at cut
      exact List.append_cancel_right cut
    rw [same] at unopened
    refine ⟨e.parted_of_spaced spaced, [], ?_, Or.inl ⟨e.not_openParen spaced unopened, rfl⟩⟩
    rw [tokens, List.append_nil]

/-- A lexeme and a space, seen from behind them. -/
lemma ofHead_lexeme_space {k : Kind} (parted : Parted front) (lexeme : scan w = some ⟨k, w⟩)
    (plain : '"' ∉ w) : View.ofHead (front ++ (w ++ [' '])) =
      ⟨(Lexer.mk 0 front).tokens ++ [(Lexeme.mk k w).toToken front.length], [' ']⟩ := by
  have run := parted.passes (v := w ++ [' ']) (by simpa using plain) 0
  rw [Nat.zero_add] at run
  exact ofHead_char run (scan_append (.space []) lexeme)

/-- Behind an operator and a space a value is due, if the operator follows a path. -/
lemma classify_compared {init : List Token} {t op : Token} {k : Comparison}
    (kind : op.kind = .comparison k) :
    classify s root ⟨init ++ [t] ++ [op], [' ']⟩ =
      if t.kind = .name then pathContext s root t.text (.value "") else .error .noRule := by
  have last := Typing.last?_concat (init ++ [t]) op [' ']
  rw [Typing.classify_of_spaced rfl last (Or.inr (Or.inl ⟨k, kind⟩)), spacedContext, last,
    View.beforeLast?, List.dropLast_concat, List.getLast?_concat]
  simp only [kind]
  rfl

/-- Behind a connector and a space a field is due. -/
lemma classify_connected {init : List Token} {t : Token} {connector : Typing.Connector}
    (kind : t.kind = .keyword connector.keyword) :
    classify s root ⟨init ++ [t], [' ']⟩ = .ok (.field "" root) := by
  have leads : Typing.Leads (init.getLast?.map Token.kind) t.kind := by
    rw [kind]
    cases connector with
    | conjunction => exact Or.inl rfl
    | disjunction => exact Or.inr (Or.inl rfl)
  exact Typing.classify_untyped (Typing.entersField_of_leads leads []) (by simp) rfl

lemma exists_comparison_of_mem {d : Option FieldDef} {item : String} (mem : item ∈ operatorsFor d)
    (single : item ≠ "in") (double : item ≠ "not in") :
    ∃ op : Comparison, item = op.sign := by
  have signs : item ∈ equalityOperators ++ containsOperators ++ orderingOperators := by
    rw [operatorsFor.eq_def] at mem
    split at mem
    · exact List.mem_append_left _ (List.mem_append_left _ mem)
    · exact mem
    · rcases List.mem_append.1 mem with mem | mem
      · exact List.mem_append_left _ (List.mem_append_left _ mem)
      · exact List.mem_append_right _ mem
    · exact List.mem_append_left _ (List.mem_append_left _ mem)
    · exact List.mem_append_left _ (List.mem_append_left _ mem)
  simp only [equalityOperators, containsOperators, orderingOperators, List.mem_append,
    List.mem_map, List.mem_cons, List.not_mem_nil, or_false] at signs
  rcases signs with (⟨op, -, rfl⟩ | ⟨op, -, rfl⟩) | ⟨op, -, rfl⟩ | rfl | rfl
  · exact ⟨op, rfl⟩
  · exact ⟨op, rfl⟩
  · exact ⟨op, rfl⟩
  · exact absurd rfl single
  · exact absurd rfl double

lemma exists_connector_of_mem {item : String} (mem : item ∈ connectors) :
    ∃ connector : Typing.Connector, item = connector.keyword.word := by
  simp only [connectors, List.mem_cons, List.not_mem_nil, or_false] at mem
  rcases mem with rfl | rfl
  · exact ⟨.conjunction, rfl⟩
  · exact ⟨.disjunction, rfl⟩

lemma plain_sign (op : Comparison) : '"' ∉ op.sign.toList ∧ '(' ∉ op.sign.toList := by
  cases op <;> decide

lemma plain_word (k : Keyword) : '"' ∉ k.word.toList ∧ '(' ∉ k.word.toList := by
  cases k <;> decide

/-- An accepted candidate is the last completed token. -/
lemma ofHead_accepted {text front typed item : String} {k : Kind}
    (spaced : (View.ofHead text.toList).spaced = true)
    (same : typed = String.ofList (View.ofHead text.toList).typed) (whole : text = front ++ typed)
    (starts : typed.toList <+: item.toList)
    (lexeme : scan item.toList = some ⟨k, item.toList⟩)
    (plain : '"' ∉ item.toList ∧ '(' ∉ item.toList) :
    ∃ opened t, View.ofHead (front ++ item ++ " ").toList
        = ⟨(View.ofHead text.toList).completed ++ opened ++ [t], [' ']⟩ ∧ t.kind = k ∧
      (text.toList.getLast? ≠ some '(' ∧ opened = [] ∨
        text.toList.getLast? = some '(' ∧ ∃ t, opened = [t] ∧ t.kind = .punct .openParen) := by
  have cut : text.toList = front.toList ++ (View.ofHead text.toList).typed := by
    have := congrArg String.toList whole
    rwa [String.toList_append, same, String.toList_ofList] at this
  have unopened : '(' ∉ (View.ofHead text.toList).typed := by
    rw [same, String.toList_ofList] at starts
    exact fun paren => plain.2 (starts.subset paren)
  obtain ⟨parted, opened, tokens, shape⟩ := exists_tokens_front spaced cut unopened
  have view := ofHead_lexeme_space parted lexeme plain.1
  have text' : (front ++ item ++ " ").toList = front.toList ++ (item.toList ++ [' ']) := by simp
  refine ⟨opened, (Lexeme.mk k item.toList).toToken front.toList.length, ?_, rfl, shape⟩
  rw [text', view, tokens]

/-- Behind a path every offered operator calls for a value of the same field. -/
lemma contextAt_compared {values : Option ValueSource} {text front typed item m : String}
    {ref : Option FieldRef} (context : contextAt s root text text.length = .comparison typed m ref)
    (whole : text = front ++ typed)
    (offered : item ∈ (Offer.forContext s values (.comparison typed m ref)).items)
    (single : item ≠ "in") (double : item ≠ "not in") :
    contextAt s root (front ++ item ++ " ") (front ++ item ++ " ").length =
      if text.toList.getLast? = some '(' then .nothing else .value "" m ref := by
  obtain ⟨mem, starts⟩ := mem_continuing_iff.1 offered
  obtain ⟨op, rfl⟩ := exists_comparison_of_mem mem single double
  rcases classify_cases (classify_of_contextAt (by simp) context) with ⟨_, _, ⟨⟩⟩ | ⟨spaced, found⟩
  rcases spacedContext_cases found with ⟨t, r, last, named, leads, same⟩ |
    ⟨_, _, _, _, _, _, _, _, _, ⟨⟩⟩ | ⟨_, _, _, ⟨⟩⟩
  cases same
  obtain ⟨init, completed⟩ := List.getLast?_eq_some_iff.1 last
  obtain ⟨opened, sign, view, kind, shape⟩ :=
    ofHead_accepted spaced rfl whole starts (Typing.scan_sign op) (plain_sign op)
  rw [contextAt_end, view, completed]
  rcases shape with ⟨closed, rfl⟩ | ⟨paren, p, rfl, openParen⟩
  · rw [if_neg closed, List.append_nil, classify_compared kind, if_pos named, pathContext, leads]
    rfl
  · rw [if_pos paren, classify_compared kind, openParen]
    rfl

/-- Behind a value every offered connector calls for a field of the root. -/
lemma contextAt_connected {values : Option ValueSource} {text front typed item : String}
    (context : contextAt s root text text.length = .logical typed) (whole : text = front ++ typed)
    (offered : item ∈ (Offer.forContext s values (.logical typed)).items) :
    contextAt s root (front ++ item ++ " ") (front ++ item ++ " ").length = .field "" root := by
  obtain ⟨mem, starts⟩ := mem_continuing_iff.1 offered
  obtain ⟨connector, rfl⟩ := exists_connector_of_mem mem
  rcases classify_cases (classify_of_contextAt (by simp) context) with ⟨_, _, ⟨⟩⟩ | ⟨spaced, found⟩
  rcases spacedContext_cases found with ⟨_, _, _, _, _, ⟨⟩⟩ | ⟨_, _, _, _, _, _, _, _, _, ⟨⟩⟩ |
    ⟨t, -, -, same⟩
  cases same
  obtain ⟨opened, word, view, kind, -⟩ :=
    ofHead_accepted spaced rfl whole starts (Typing.scan_word _) (plain_word _)
  rw [contextAt_end, view, classify_connected kind]
  rfl

/-- Accepting a comparison operator leads to the values of the path in front of it, unless a
parenthesis has been opened behind the path; accepting a connector leads to the fields of
the root. -/
theorem contextAt_advanced (s : Schema) (root : Option String) (values : Option ValueSource)
    (text : String) :
    (∀ typed m ref, contextAt s root text text.length = .comparison typed m ref →
      ∃ front, text = front ++ typed ∧
        ∀ item ∈ (Offer.forContext s values (contextAt s root text text.length)).items,
          item ≠ "in" → item ≠ "not in" →
          contextAt s root (front ++ item ++ " ") (front ++ item ++ " ").length =
            if text.toList.getLast? = some '(' then .nothing else .value "" m ref) ∧
    (∀ typed, contextAt s root text text.length = .logical typed →
      ∃ front, text = front ++ typed ∧
        ∀ item ∈ (Offer.forContext s values (contextAt s root text text.length)).items,
          contextAt s root (front ++ item ++ " ") (front ++ item ++ " ").length
            = .field "" root) := by
  have cut {c : Context} (h : contextAt s root text text.length = c) :
      ∃ front, text = front ++ c.typed := by
    obtain ⟨front, whole⟩ := contextAt_typed_suffix s root text text.length
    rw [h, ← String.length_toList, List.take_length] at whole
    exact ⟨String.ofList front, String.toList_inj.1 (by simp [whole])⟩
  constructor
  · intro typed m ref context
    obtain ⟨front, whole⟩ := cut context
    rw [context]
    exact ⟨front, whole, fun item offered => contextAt_compared context whole offered⟩
  · intro typed context
    obtain ⟨front, whole⟩ := cut context
    rw [context]
    exact ⟨front, whole, fun item offered => contextAt_connected context whole offered⟩

/-- Behind a quote that never closes and a wide space, with the operator half typed; behind a
parenthesis in the wrong place; and behind a group. -/
theorem contextAt_advanced_halfway :
    let total : Option FieldRef := some ⟨"total", .scalar .float⟩
    let context (text : String) := contextAt Typing.trade (some "Order") text text.length
    let offered (text : String) := (Offer.forContext Typing.trade none (context text)).items
    (context "\"x total\u2003!" = .comparison "!" "Order" total ∧
      "!=" ∈ offered "\"x total\u2003!" ∧
      context ("\"x total\u2003" ++ "!=" ++ " ") = .value "" "Order" total) ∧
    (context "total (" = .comparison "" "Order" total ∧ ">" ∈ offered "total (" ∧
      context ("total (" ++ ">" ++ " ") = .nothing) ∧
    (context "(total = 1) o" = .logical "o" ∧ "or" ∈ offered "(total = 1) o" ∧
      context ("(total = 1) " ++ "or" ++ " ") = .field "" (some "Order")) := by
  intro total context offered
  have advanced := contextAt_advanced Typing.trade (some "Order") none
  have front_eq {text front front' typed : String} (whole : text = front' ++ typed)
      (cut : text = front ++ typed) : front' = front := by
    have same := congrArg String.toList (whole.symm.trans cut)
    rw [String.toList_append, String.toList_append] at same
    exact String.toList_inj.1 (List.append_cancel_right same)
  refine ⟨?_, ?_, ?_⟩
  · have half : context "\"x total\u2003!" = .comparison "!" "Order" total := by decide +kernel
    obtain ⟨front, whole, next⟩ := (advanced _).1 _ _ _ half
    obtain rfl : front = "\"x total\u2003" := front_eq whole (by decide)
    have listed : "!=" ∈ offered "\"x total\u2003!" := by decide +kernel
    exact ⟨half, listed, next "!=" listed (by decide) (by decide)⟩
  · have opened : context "total (" = .comparison "" "Order" total := by decide +kernel
    obtain ⟨front, whole, next⟩ := (advanced _).1 _ _ _ opened
    obtain rfl : front = "total (" := front_eq whole (by decide)
    have listed : ">" ∈ offered "total (" := by decide +kernel
    exact ⟨opened, listed, next ">" listed (by decide) (by decide)⟩
  · have group : context "(total = 1) o" = .logical "o" := by decide +kernel
    obtain ⟨front, whole, next⟩ := (advanced _).2 _ group
    obtain rfl : front = "(total = 1) " := front_eq whole (by decide)
    have listed : "or" ∈ offered "(total = 1) o" := by decide +kernel
    exact ⟨group, listed, next "or" listed⟩

end FilterAssist.Cursor
