import FilterAssist.Proofs.FieldPlaces

/-!
# Typing a path that resolves

A path that leads somewhere can be typed from its candidates: after each of its characters
the segment that is under way is among the fields on offer. The path stands at the beginning
or behind a connector with white space around it; what comes before may be any text, and
the schema any schema.
-/

namespace FilterAssist.Cursor

open Query Text

variable {s : Schema} {root : Option String} {m : String}
variable {pre lead w : List Char}

/-- Nothing, or any text that ends in a connector between two white space characters. -/
inductive Joined : List Char → Prop
  | start : Joined []
  | behind (front : List Char) (connector : Typing.Connector) {b c : Char}
      (before : isSpace b = true) (after : isSpace c = true) :
      Joined (front ++ b :: (connector.keyword.word.toList ++ [c]))

lemma Joined.parted (h : Joined pre) : Parted pre := by
  cases h with
  | start => exact .nil
  | behind front connector before after =>
    rw [← List.cons_append, ← List.append_assoc]
    exact .behind _ (isFence_of_isSpace after)

/-- A reserved word is read up to any white space behind it. -/
lemma scan_word_space (k : Keyword) {c : Char} (space : isSpace c = true) :
    scan (k.word.toList ++ [c]) = some ⟨.keyword k, k.word.toList⟩ := by
  have lexeme := Typing.scan_word k
  have fence := standsFor_fence (isFence_of_isSpace space) List.not_mem_nil
  refine (fence k.word.toList (scan_source_ne_nil lexeme)).1 _ ?_ le_rfl
  rw [List.append_nil]
  exact lexeme

lemma quote_not_mem_word (k : Keyword) {c : Char} (space : isSpace c = true) :
    '"' ∉ k.word.toList ++ [c] := by
  intro quote
  rcases List.mem_append.1 quote with quote | quote
  · cases k <;> revert quote <;> decide
  · obtain rfl := List.mem_singleton.1 quote
    cases space

/-- The connector is the last token, and a condition may start behind it. -/
lemma Joined.enterable (h : Joined pre) (lead : List Char) :
    let ts := (Lexer.mk 0 pre).tokens
    Enterable ts (pre.drop (endOf ts)) lead ∧ (pre = [] ∨ endOf ts < pre.length) := by
  cases h with
  | start => simp [Enterable, opens]
  | @behind front connector b c before after =>
    intro ts
    set word := connector.keyword.word.toList with hword
    set t := (Lexeme.mk (.keyword connector.keyword) word).toToken (front.length + 1) with ht
    have run : Passes ⟨0, front ++ b :: (word ++ [c])⟩ ((Lexer.mk 0 front).tokens ++ [t])
        ⟨front.length + 1 + word.length + 1, []⟩ := by
      have plain := quote_not_mem_word connector.keyword after
      have first := passes_to_fence (isFence_of_isSpace before) plain 0 front
      rw [Nat.zero_add] at first
      refine first.trans (.skip (scan_of_isSpace before _) (.read (scan_word_space _ after) ?_))
      rw [List.drop_left]
      exact .skip (scan_of_isSpace after []) .here
    have tokens : ts = (Lexer.mk 0 front).tokens ++ [t] := run.tokens_eq
    have cut : front ++ b :: (word ++ [c]) = (front ++ b :: word) ++ [c] := by simp
    have stop : endOf ts = (front ++ b :: word).length := by
      rw [tokens, endOf_concat, List.length_append, List.length_cons]
      simp only [ht, Lexeme.toToken]
      omega
    rw [cut, stop, List.drop_left, tokens]
    refine ⟨⟨by simpa using after, Or.inl ?_⟩, Or.inr (by simp)⟩
    rw [opens, List.getLast?_concat]
    cases connector <;> rfl

/-- Wherever a path is broken off, its last segment so far is a beginning of one that leads
on from the model reached there. -/
lemma exists_lead (path : Typing.Path s root) (k : Nat) :
    ∃ lead w seg m, path.text.take k = lead ++ w ∧ Lead s root lead m ∧ w <+: seg ∧
      (segments path.text)[(path.text.take k).count '.']? = some seg ∧
      isSegment seg = true ∧ String.ofList seg ∈ s.fieldNames m := by
  obtain ⟨words, -⟩ := scan_eq_name_iff.1 path.lexeme
  obtain ⟨r, begins, walks⟩ := Schema.resolve_eq_some_iff.1 path.resolves
  cases cut : splitLastDot (path.text.take k) with
  | none =>
    have plain := splitLastDot_eq_none_iff.1 cut
    obtain ⟨first, rest, -, all⟩ := segments_append plain (path.text.drop k)
    rw [List.take_append_drop] at all
    rw [all, List.map_cons, ← List.nil_append (_ :: _)] at walks
    obtain ⟨goal, leads, mem⟩ := Schema.walk_of_append walks
    obtain rfl : r = goal := by
      rw [Schema.walk] at leads
      split at leads <;> cases leads
      rfl
    refine ⟨[], _, _, r, rfl, .start begins, List.prefix_append _ first, ?_, ?_, mem⟩
    · rw [List.count_eq_zero.2 plain, all, List.getElem?_cons_zero]
    · exact words _ (by simp [all])
  | some parts =>
    obtain ⟨front, w⟩ := parts
    obtain ⟨taken, plain⟩ := splitLastDot_eq_some_iff.1 cut
    obtain ⟨first, rest, -, later⟩ := segments_append plain (path.text.drop k)
    have whole : path.text = front ++ '.' :: (w ++ path.text.drop k) := by
      rw [← List.cons_append, ← List.append_assoc, ← taken, List.take_append_drop]
    have all : segments path.text = segments front ++ (w ++ first) :: rest := by
      rw [whole, segments_dot, later]
    rw [all, List.map_append, List.map_cons] at walks
    obtain ⟨goal, leads, mem⟩ := Schema.walk_of_append walks
    have name : scan front = some ⟨.name, front⟩ := by
      have lexeme := path.lexeme
      rw [whole] at lexeme
      exact scan_front lexeme
    refine ⟨front ++ ['.'], w, _, goal, by simp [taken],
      .path name (Schema.resolve_eq_some_iff.2 ⟨r, begins, leads⟩), List.prefix_append _ first,
      ?_, ?_, mem⟩
    · have dots : (front ++ '.' :: w).count '.' = (segments front).length := by
        rw [length_segments, List.count_append, List.count_cons_self, List.count_eq_zero.2 plain]
      rw [taken, dots, all, List.getElem?_append_right le_rfl, Nat.sub_self,
        List.getElem?_cons_zero]
    · exact words _ (by simp [all])

/-- Behind the dot of a path nothing is typed yet. -/
lemma classify_dot {init : List Token} {t : Token} {front : List Char}
    (h : Lead s root (front ++ ['.']) m) (kind : t.kind = .name)
    (text : t.text = String.ofList front) :
    classify s root ⟨init ++ [t], ['.']⟩ = .ok (.field "" (some m)) := by
  have typed : View.typed ⟨init ++ [t], ['.']⟩ = ['.'] := rfl
  have spaced : View.spaced ⟨init ++ [t], ['.']⟩ = false := rfl
  have enters : View.entersField ⟨init ++ [t], ['.']⟩ = true := by
    rw [entersField_eq, spaced, typed]
    rfl
  have path : View.path ⟨init ++ [t], ['.']⟩ = front ++ ['.'] ++ [] := by
    rw [View.path, View.last?, List.getLast?_concat, typed, spaced]
    simp [kind, text]
  rw [classify, if_neg (by simp), if_pos enters]
  exact h.fieldContext List.not_mem_nil path (by simp)

lemma quote_not_mem_path (path : Typing.Path s root) : '"' ∉ path.text := by
  obtain ⟨text, lexeme, goal, resolves⟩ := path
  cases text with
  | nil => exact List.not_mem_nil
  | cons c cs =>
    obtain ⟨start, word⟩ := scanWord_of_scan lexeme
    have chars := scanWord_chars start cs
    rw [word] at chars
    intro quote
    rcases chars '"' quote with name | dot
    · cases name
    · cases dot

/-- So the fields of that model are due. -/
lemma classify_path_taken (joined : Joined pre) (plain : '"' ∉ lead ++ w) (h : Lead s root lead m)
    (word : w = [] ∨ isSegment w = true) :
    classify s root (View.ofHead (pre ++ (lead ++ w))) = .ok (.field (String.ofList w) (some m)) := by
  obtain ⟨enterable, short⟩ := joined.enterable lead
  have run := joined.parted.passes plain 0
  rw [Nat.zero_add] at run
  rcases word with rfl | word
  · cases h with
    | start begins =>
      have unread := unread_gap run
      rw [List.nil_append, List.append_nil] at run ⊢
      have view : View.ofHead pre
          = ⟨(Lexer.mk 0 pre).tokens, pre.drop (endOf (Lexer.mk 0 pre).tokens)⟩ := by
        rcases short with rfl | short
        · decide +kernel
        · exact ofHead_gap run short
      rw [view, ← begins]
      exact (classify_gap_iff unread).2 enterable
    | @path front _ lexeme leads =>
      rw [List.append_nil] at run ⊢
      rw [ofHead_char run (scan_trailing_dot lexeme)]
      exact classify_dot (.path lexeme leads) rfl rfl
  · obtain ⟨kind, lexeme, -⟩ := h.scan word
    rw [ofHead_lexeme run lexeme]
    exact h.classify word enterable

/-- While a path that resolves is typed, the segment under way is always on offer: the one
behind as many dots as are typed. -/
theorem segment_mem_items (path : Typing.Path s root) (values : Option ValueSource)
    (joined : Joined pre) (k : Nat) :
    let typed := pre ++ path.text.take k
    ∃ seg, (segments path.text)[(path.text.take k).count '.']? = some seg ∧
      String.ofList seg ∈ (Offer.forContext s values
        (contextAt s root (String.ofList typed) typed.length)).items := by
  intro typed
  obtain ⟨lead, w, seg, m, taken, h, starts, current, word, mem⟩ := exists_lead path k
  refine ⟨seg, current, ?_⟩
  have plain : '"' ∉ lead ++ w := by
    rw [← taken]
    exact fun quote => quote_not_mem_path path (List.mem_of_mem_take quote)
  have part : w = [] ∨ isSegment w = true := by
    by_cases nonempty : w = []
    · exact Or.inl nonempty
    · exact Or.inr (isSegment_of_isPrefix word starts nonempty)
  have field := classify_path_taken joined plain h part
  rw [← String.length_ofList, contextAt_end, String.toList_ofList]
  simp only [typed, taken, field]
  exact mem_offer_iff.2 ⟨m, rfl, mem, by simpa using starts⟩

/-- Behind a quote that never closes and a number that breaks off, right behind the dot. -/
theorem segment_mem_items_dotted :
    let pre := "\"x = 1e\tand ".toList
    let typed := pre ++ "customer.name".toList.take 9
    Joined pre ∧ String.ofList typed = "\"x = 1e\tand customer." ∧
      "name" ∈ (Offer.forContext Typing.trade none
        (contextAt Typing.trade (some "Order") (String.ofList typed) typed.length)).items := by
  intro pre typed
  have joined : Joined pre := .behind "\"x = 1e".toList .conjunction (b := '\t') (c := ' ') rfl rfl
  let path : Typing.Path Typing.trade (some "Order") :=
    ⟨"customer.name".toList, by decide +kernel, .field "Customer" "name" .text, by decide +kernel⟩
  obtain ⟨seg, current, offered⟩ := segment_mem_items path none joined 9
  obtain rfl : "name".toList = seg := Option.some.inj (Eq.trans (by decide +kernel) current)
  exact ⟨joined, by decide +kernel, offered⟩

end FilterAssist.Cursor
