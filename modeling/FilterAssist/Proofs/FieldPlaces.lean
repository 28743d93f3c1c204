import FilterAssist.Proofs.EndViews

/-!
# Places where fields are offered

Wherever the fields of a model are due, the text can be cut in front of the path that is
being typed, and the lexer arrives at the cut however the path goes on. So an accepted
field is read as one name together with the path in front of it, and the name resolves.
Field names have to be words here; nothing is asked of the text.
-/

namespace FilterAssist.Cursor

open Query Text

variable {s : Schema} {root : Option String} {m : String}
variable {T U : List Char} {ts : List Token}

/-- The text up to the last completed token, the white space behind it, and the rest. -/
structure Ending (T U space rest : List Char) : Prop where
  whole : T = (U ++ space) ++ rest
  covered : endOf (View.ofHead T).completed = U.length
  trailing : (View.ofHead T).trailing = space ++ rest
  blank : ∀ c ∈ space, isSpace c = true
  visible : ∀ c, rest.head? = some c → isSpace c = false
  typed : rest = ['('] ∧ (View.ofHead T).typed = [] ∨ rest ≠ ['('] ∧ (View.ofHead T).typed = rest
  run : Passes ⟨0, (U ++ space) ++ rest⟩ (View.ofHead T).completed ⟨(U ++ space).length, rest⟩
  /-- A lexeme that starts the rest is all of it. -/
  lexeme : ∀ l, scan rest = some l → l.source = rest

theorem exists_ending (T : List Char) : ∃ U space rest, Ending T U space rest := by
  obtain ⟨run, alone⟩ := ofHead_run T
  obtain ⟨U, whole, covered⟩ := run.passed
  simp only [Nat.zero_add] at whole covered
  obtain ⟨space, rest, trailing, blank, visible, typed⟩ :=
    typed_iff.1 (rfl : (View.ofHead T).typed = _)
  rw [trailing, ← List.append_assoc] at whole
  have behind : Passes ⟨U.length, space ++ rest⟩ [] ⟨(U ++ space).length, rest⟩ := by
    rw [List.length_append]
    exact passes_space blank U.length rest
  have all : Passes ⟨0, (U ++ space) ++ rest⟩ (View.ofHead T).completed
      ⟨(U ++ space).length, rest⟩ := by
    rw [← whole]
    rw [covered, trailing] at run
    have all := run.trans behind
    rwa [List.append_nil] at all
  refine ⟨U, space, rest, whole, covered, trailing, blank, visible, typed, all, fun l found => ?_⟩
  rw [covered, trailing, behind.tokens, List.nil_append, tokens_of_scan found] at alone
  obtain ⟨reaches, -⟩ := alone _ _ rfl
  have length := congrArg List.length whole
  simp only [List.length_append, Lexeme.toToken] at length reaches
  exact (scan_source_isPrefix found).eq_of_length_le (by omega)

/-- The last token of a run that ends with it, cut off. -/
lemma last_lexeme {v : List Char} {init : List Token} {t : Token}
    (run : Passes ⟨0, U ++ v⟩ (init ++ [t]) ⟨U.length, v⟩) (reaches : t.stop = U.length) :
    ∃ u l, U = u ++ l.source ∧ scan (l.source ++ v) = some l ∧ t = l.toToken u.length ∧
      Passes ⟨0, U ++ v⟩ init ⟨u.length, l.source ++ v⟩ := by
  obtain ⟨⟨n, cs⟩, l, first, found, rfl, -⟩ := run.last
  obtain ⟨u, whole, offset⟩ := first.passed
  simp only [Nat.zero_add] at whole offset found first ⊢
  subst offset
  obtain ⟨rest, rfl⟩ := scan_source_isPrefix found
  simp only [Lexeme.toToken] at reaches
  rw [← List.append_assoc] at whole
  obtain ⟨rfl, rfl⟩ := List.append_inj whole (by rw [List.length_append, reaches])
  exact ⟨u, l, rfl, found, rfl, first⟩

lemma source_of_openParen {cs : List Char} {l : Lexeme} (found : scan cs = some l)
    (kind : l.kind = .punct .openParen) : l.source = ['('] := by
  cases cs with
  | nil => cases found
  | cons c cs =>
    rcases scan_cases found with ⟨p, punct, rfl⟩ | ⟨-, rfl⟩ | ⟨-, t, -, rfl⟩ | ⟨-, n, -, rfl⟩ |
      ⟨op, -, rfl⟩
    · cases kind
      rw [scanPunct] at punct
      split at punct
      · cases punct
      split at punct
      · cases punct
      split at punct
      · next paren => rw [beq_iff_eq.1 paren]
      · split at punct <;> cases punct
    · rw [scanWord] at kind
      split at kind <;> cases kind
    · cases kind
    · split at kind <;> cases kind
    · cases kind

lemma openParen_of_opens {init : List Token} {t : Token} (h : opens (init ++ [t]) false = true) :
    t.kind = .punct .openParen := by
  rw [opens, List.getLast?_concat, Option.map_some] at h
  split at h
  · next none => cases none
  · cases h
  · cases h
  · cases h
  · next kind => exact Option.some.inj kind
  · cases h

namespace Ending

variable {space rest : List Char}

lemma spaced (e : Ending T U space rest) : (View.ofHead T).spaced = !space.isEmpty := by
  rw [View.spaced, e.trailing]
  exact spaced_of_space [] e.blank e.visible

/-- Where a condition may start, what is typed starts afresh. -/
lemma parted (e : Ending T U space rest)
    (due : opens (View.ofHead T).completed (View.ofHead T).spaced = true) :
    Parted (U ++ space) := by
  rcases List.eq_nil_or_concat space with rfl | ⟨init, b, rfl⟩
  · rw [e.spaced] at due
    have covered := e.covered
    have run := e.run
    generalize (View.ofHead T).completed = ts at due covered run
    rw [List.append_nil] at run ⊢
    rcases List.eq_nil_or_concat ts with rfl | ⟨init, t, rfl⟩
    · obtain rfl := List.length_eq_zero_iff.1 covered.symm
      exact .nil
    · rw [List.concat_eq_append] at due covered run
      rw [endOf_concat] at covered
      obtain ⟨u, l, rfl, found, rfl, -⟩ := last_lexeme run covered
      rw [source_of_openParen found (openParen_of_opens due)]
      exact .behind u rfl
  · rw [List.concat_eq_append, ← List.append_assoc]
    exact .behind (U ++ init) (isFence_of_isSpace (e.blank b (by simp)))

end Ending

/-- A text `T`, cut in front of the path `lead ++ p` that is being typed at its end. The
lexer reads `ts` up to there, however the path goes on behind `lead`. -/
structure FieldPlace (s : Schema) (root : Option String) (m : String) (T U lead p : List Char)
    (ts : List Token) : Prop where
  whole : T = U ++ (lead ++ p)
  leads : Lead s root lead m
  fresh : lead = [] → Parted U
  runs : ∀ x, '"' ∉ x → Passes ⟨0, U ++ (lead ++ x)⟩ ts ⟨U.length, lead ++ x⟩

lemma fieldPlace_of_parted (begins : root = some m) (parted : Parted U) (p : List Char) :
    FieldPlace s root m (U ++ p) U [] p (Lexer.mk 0 U).tokens where
  whole := rfl
  leads := .start begins
  fresh _ := parted
  runs x plain := by simpa using parted.passes plain 0

/-- A name at the head of the rest of a text, with a dot in it or behind it. -/
lemma fieldPlace_of_dotted {front p : List Char}
    (lexeme : scan front = some ⟨.name, front⟩)
    (leads : s.resolve root (String.ofList front) = some (.model m))
    (run : Passes ⟨0, U ++ (front ++ '.' :: p)⟩ ts ⟨U.length, front ++ '.' :: p⟩) :
    FieldPlace s root m (U ++ (front ++ '.' :: p)) U (front ++ ['.']) p ts := by
  refine ⟨by simp, .path lexeme leads, by simp, fun x plain => ?_⟩
  cases front with
  | nil => cases lexeme
  | cons c front =>
    have start := (scanWord_of_scan lexeme).1
    have run' : Passes ⟨0, U ++ (c :: front ++ '.' :: p)⟩ ts
        ⟨0 + U.length, c :: front ++ '.' :: p⟩ := by rwa [Nat.zero_add]
    have := run'.dotted start plain
    simpa using this

/-- Of the words only a name has dots. -/
lemma name_of_dot {c : Char} {cs : List Char} {l : Lexeme} (start : isNameStart c = true)
    (found : scan (c :: cs) = some l) (dot : '.' ∈ l.source) : l.kind = .name := by
  rw [scan_of_isNameStart start, scanWord] at found
  cases reserved : Keyword.ofWord? (c :: cs.takeWhile isNameChar) with
  | none =>
    rw [reserved] at found
    cases found
    rfl
  | some k =>
    rw [reserved] at found
    cases found
    refine absurd dot (dot_not_mem ?_)
    refine List.forall_mem_cons.2 ⟨Rule.isNameChar_of_isNameStart start, fun d hd => ?_⟩
    exact List.mem_takeWhile_imp hd

namespace Ending

variable {space rest front back : List Char}

/-- The path is typed in one piece. -/
lemma fieldPlace_of_typed (e : Ending T U space rest) (named : s.WellNamed)
    (typed : (View.ofHead T).typed = front ++ '.' :: back)
    (leads : s.resolve root (String.ofList front) = some (.model m)) :
    FieldPlace s root m T (U ++ space) (front ++ ['.']) back (View.ofHead T).completed := by
  obtain rfl : rest = front ++ '.' :: back := by
    rcases e.typed with ⟨-, none⟩ | ⟨-, same⟩
    · rw [none] at typed
      simp at typed
    · exact same.symm.trans typed
  obtain ⟨c, cs, rfl, start⟩ := named.begins leads
  have found := scan_of_isNameStart start (cs ++ '.' :: back)
  have source := e.lexeme _ found
  have kind := name_of_dot start found (by simp [source])
  have lexeme : scan (c :: cs ++ '.' :: back) = some ⟨.name, c :: cs ++ '.' :: back⟩ := by
    rw [List.cons_append, found, ← kind, ← List.cons_append, ← source]
  have place := fieldPlace_of_dotted (scan_front lexeme) leads e.run
  rwa [← e.whole] at place

/-- A dot that goes on with a name is all that is typed, right behind the name. -/
lemma rest_of_continues (e : Ending T U space rest) {t : Token}
    (glued : (View.ofHead T).sight.Continues t) :
    space = [] ∧ rest = ['.'] ∧ (View.ofHead T).typed = ['.'] := by
  obtain ⟨-, -, dot, unspaced⟩ := glued
  change (View.ofHead T).typed.head? = some '.' at dot
  have same : (View.ofHead T).typed = rest := by
    rcases e.typed with ⟨-, none⟩ | ⟨-, same⟩
    · rw [none] at dot
      cases dot
    · exact same
  have alone : rest = ['.'] := by
    rw [same] at dot
    obtain ⟨tail, rfl⟩ := List.head?_eq_some_iff.1 dot
    exact (e.lexeme ⟨.punct .dot, ['.']⟩ rfl).symm
  refine ⟨?_, alone, same.trans alone⟩
  rw [spaced_iff, e.spaced] at unspaced
  simpa using unspaced

/-- The path goes on behind a dot with a name that is completed already. -/
lemma fieldPlace_of_continues (e : Ending T U space rest) {t : Token}
    (glued : (View.ofHead T).sight.Continues t)
    (path : t.text.toList ++ (View.ofHead T).typed = front ++ '.' :: back) (plain : '.' ∉ back)
    (leads : s.resolve root (String.ofList front) = some (.model m)) :
    ∃ u init, FieldPlace s root m T u (front ++ ['.']) back init := by
  obtain ⟨rfl, rfl, typed⟩ := e.rest_of_continues glued
  obtain ⟨last, kind, -⟩ := glued
  obtain ⟨init, completed⟩ := List.getLast?_eq_some_iff.1 last
  change (View.ofHead T).completed = init ++ [t] at completed
  have run := e.run
  have covered := e.covered
  rw [completed] at run covered
  rw [List.append_nil] at run
  rw [endOf_concat] at covered
  obtain ⟨u, l, rfl, found, rfl, first⟩ := last_lexeme run covered
  change l.kind = .name at kind
  have text : (l.toToken u.length).text.toList = l.source := by
    simp [Lexeme.toToken, Lexeme.text, kind]
  obtain ⟨rfl, rfl⟩ : l.source = front ∧ back = [] := by
    rw [text, typed] at path
    have cut := splitLastDot_eq_some_iff.2 ⟨path, plain⟩
    rw [splitLastDot_eq_some_iff.2 ⟨rfl, List.not_mem_nil⟩] at cut
    cases cut
    exact ⟨rfl, rfl⟩
  have lexeme : scan l.source = some ⟨.name, l.source⟩ := by
    rw [scan_of_append found le_rfl, ← kind]
  rw [List.append_assoc] at first
  have place := fieldPlace_of_dotted lexeme leads first
  have whole : T = u ++ (l.source ++ ['.']) := by simpa using e.whole
  rw [← whole] at place
  exact ⟨u, init, place⟩

end Ending

/-- Wherever fields are due there is such a place. -/
theorem fieldPlace_of_classify (named : s.WellNamed) {typed : String}
    (field : classify s root (View.ofHead T) = .ok (.field typed (some m))) :
    ∃ U lead ts, FieldPlace s root m T U lead typed.toList ts := by
  obtain ⟨U, space, rest, e⟩ := exists_ending T
  obtain ⟨enters, ⟨plain, rfl, model⟩ | ⟨front, back, goal, path, plain, leads, rfl, model⟩⟩ :=
    field_of_classify field
  · have due : opens (View.ofHead T).completed (View.ofHead T).spaced = true := by
      have undotted : (View.ofHead T).typed.contains '.' = false := by simpa using plain
      rw [entersField_eq, undotted] at enters
      simpa using enters
    rw [String.toList_ofList]
    rcases e.typed with ⟨paren, typed⟩ | ⟨-, typed⟩
    · have parted : Parted T := by
        rw [e.whole, paren]
        exact .behind (U ++ space) rfl
      have place := fieldPlace_of_parted (s := s) model.symm parted []
      rw [typed]
      rw [List.append_nil] at place
      exact ⟨T, [], _, place⟩
    · have place := fieldPlace_of_parted (s := s) model.symm (e.parted due) rest
      rw [← e.whole] at place
      rw [typed]
      exact ⟨U ++ space, [], _, place⟩
  · cases model
    rw [String.toList_ofList]
    have shape : (View.ofHead T).sight.Path (View.ofHead T).path := path_iff.2 rfl
    rw [path] at shape
    generalize hpath : front ++ '.' :: back = whole at shape
    cases shape with
    | extended glued =>
      obtain ⟨u, init, place⟩ := e.fieldPlace_of_continues glued hpath.symm plain leads
      exact ⟨u, _, init, place⟩
    | alone => exact ⟨_, _, _, e.fieldPlace_of_typed named hpath.symm leads⟩

lemma contextAt_end (text : String) :
    contextAt s root text text.length = contextOf (classify s root (View.ofHead text.toList)) := by
  rw [contextAt_eq_contextOf, View.before, ← String.length_toList, List.take_length]

lemma classify_of_contextAt {text : String} {c : Context} (some : c ≠ .nothing)
    (h : contextAt s root text text.length = c) :
    classify s root (View.ofHead text.toList) = .ok c := by
  rw [contextAt_end] at h
  cases found : classify s root (View.ofHead text.toList) with
  | ok context =>
    rw [found] at h
    exact congrArg _ h
  | error silence =>
    rw [found] at h
    exact absurd h.symm some

lemma contextAt_field_iff {text typed : String} {model : Option String} :
    contextAt s root text text.length = .field typed model ↔
      classify s root (View.ofHead text.toList) = .ok (.field typed model) := by
  constructor
  · exact classify_of_contextAt (by simp)
  · intro h
    rw [contextAt_end, h]
    rfl

/-- What is offered where fields are due. -/
lemma mem_offer_iff {values : Option ValueSource} {typed item : String} {model : Option String} :
    item ∈ (Offer.forContext s values (.field typed model)).items ↔
      ∃ m, model = some m ∧ item ∈ s.fieldNames m ∧ typed.toList <+: item.toList := by
  rw [Offer.forContext, mem_continuing_iff]
  cases model with
  | none => simp [candidates]
  | some m => simp [candidates, Context.typed]

/-- Behind a name and a space its operators are due, if it resolves. -/
lemma classify_named {init : List Token} {t : Token} {r : Resolved} (kind : t.kind = .name)
    (leads : s.resolve root t.text = some r) :
    classify s root ⟨init ++ [t], [' ']⟩ = .ok (.comparison "" (target r).1 (target r).2) := by
  have last := Typing.last?_concat init t [' ']
  rw [Typing.classify_of_spaced rfl last (Or.inl kind), spacedContext, last]
  simp only [kind, pathContext, leads]
  rfl

/-- A field typed to its end, and a space. -/
lemma FieldPlace.accepted {lead p item : List Char} {r : Resolved}
    (place : FieldPlace s root m T U lead p ts) (word : isSegment item = true)
    (free : lead = [] → Keyword.ofWord? item = none)
    (leads : s.walk m [String.ofList item] = some r) :
    classify s root (View.ofHead (U ++ (lead ++ item ++ [' '])))
      = .ok (.comparison "" (target r).1 (target r).2) := by
  obtain ⟨k, lexeme, name⟩ := place.leads.scan word
  obtain rfl := name free
  have chars := isNameChar_of_isSegment word
  have run : Passes ⟨0, U ++ (lead ++ item ++ [' '])⟩ ts ⟨U.length, lead ++ item ++ [' ']⟩ := by
    rw [List.append_assoc lead]
    refine place.runs (item ++ [' ']) ?_
    simpa using quote_not_mem chars
  rw [ofHead_char run (scan_append (.space []) lexeme)]
  apply classify_named
  · rfl
  · simp only [Lexeme.toToken, Lexeme.text]
    rw [place.leads.resolve (dot_not_mem chars), leads]

lemma ofWord?_eq_none {word : String} (h : ∀ k : Keyword, word ≠ k.word) :
    Keyword.ofWord? word.toList = none := by
  rw [Keyword.ofWord?, List.find?_eq_none]
  intro k _ same
  exact h k (String.toList_inj.1 (beq_iff_eq.1 same)).symm

lemma not_dot_of_parted (h : Parted U) : U.getLast? ≠ some '.' := by
  cases h with
  | nil => simp
  | behind u fence =>
    rw [List.getLast?_concat]
    rintro ⟨⟩
    cases fence

/-- Accepting an offered field always leads to its operators. A field that is a reserved
word has to stand behind a dot, and a relation has to lead to a model. -/
theorem contextAt_accepted (named : s.WellNamed) (values : Option ValueSource)
    {text typed : String} {model : Option String}
    (field : contextAt s root text text.length = .field typed model) :
    ∃ front, text = front ++ typed ∧
      ∀ item ∈ (Offer.forContext s values (contextAt s root text text.length)).items,
        (∀ l ∈ s.danglingLinks, ¬ (model = some l.model ∧ l.field = item)) →
        (front.toList.getLast? ≠ some '.' → ∀ k : Keyword, item ≠ k.word) →
        ∃ m d, model = some m ∧ s.field? m item = some d ∧
          contextAt s root (front ++ item ++ " ") (front ++ item ++ " ").length =
            match d with
            | .scalar kind => .comparison "" m (some ⟨item, .scalar kind⟩)
            | .relation goal => .comparison "" goal none := by
  obtain ⟨front, cut⟩ : typed.toList <:+ text.toList := by
    have ends := contextAt_typed_suffix s root text text.length
    rwa [field, ← String.length_toList, List.take_length] at ends
  refine ⟨String.ofList front, String.toList_inj.1 (by simp [cut]), ?_⟩
  rw [String.toList_ofList, field]
  intro item offered sound unreserved
  obtain ⟨m, rfl, mem, -⟩ := mem_offer_iff.1 offered
  obtain ⟨d, found⟩ := Schema.mem_fieldNames_iff.1 mem
  refine ⟨m, d, rfl, found, ?_⟩
  obtain ⟨U, lead, ts, place⟩ := fieldPlace_of_classify named (contextAt_field_iff.1 field)
  obtain rfl : front = U ++ lead := by
    have whole := cut.trans place.whole
    rw [← List.append_assoc] at whole
    exact List.append_cancel_right whole
  have free : lead = [] → Keyword.ofWord? item.toList = none := by
    rintro rfl
    rw [List.append_nil] at unreserved
    exact ofWord?_eq_none (unreserved (not_dot_of_parted (place.fresh rfl)))
  have leads := Schema.walk_field found fun l hl same => sound l hl ⟨by rw [same.1], same.2⟩
  have reached := place.accepted (named.isSegment mem) free (by rwa [String.ofList_toList])
  have text' : (String.ofList (U ++ lead) ++ item ++ " ").toList
      = U ++ (lead ++ item.toList ++ [' ']) := by simp
  rw [contextAt_end, text', reached]
  cases d with
  | scalar kind => rfl
  | relation goal => rfl

/-- Behind a quote that never closes, in a group, at the end of a dotted path. -/
theorem contextAt_accepted_quoted :
    let front := "\"x and not (customer."
    Typing.trade.WellNamed ∧
      contextAt Typing.trade (some "Order") (front ++ "na") (front ++ "na").length
        = .field "na" (some "Customer") ∧
      "name" ∈ (Offer.forContext Typing.trade none (.field "na" (some "Customer"))).items ∧
      contextAt Typing.trade (some "Order") (front ++ "name" ++ " ") (front ++ "name" ++ " ").length
        = .comparison "" "Customer" (some ⟨"name", .scalar .text⟩) := by
  intro front
  have named : Typing.trade.WellNamed := by decide +kernel
  have field : contextAt Typing.trade (some "Order") (front ++ "na") (front ++ "na").length
      = .field "na" (some "Customer") := by decide +kernel
  obtain ⟨front', whole, operators⟩ := contextAt_accepted named none field
  obtain rfl : front = front' := by
    have cut := congrArg String.toList whole
    rw [String.toList_append, String.toList_append] at cut
    exact String.toList_inj.1 (List.append_cancel_right cut)
  rw [field] at operators
  have dotted : front.toList.getLast? = some '.' := by decide +kernel
  have offered : "name"
      ∈ (Offer.forContext Typing.trade none (.field "na" (some "Customer"))).items := by
    decide +kernel
  obtain ⟨m, d, ⟨⟩, found, context⟩ := operators "name" offered (by decide +kernel) (absurd dotted)
  have scalar : Typing.trade.field? "Customer" "name" = some (.scalar .text) := by decide +kernel
  rw [scalar] at found
  cases found
  exact ⟨named, field, offered, context⟩

end FilterAssist.Cursor
