import FilterAssist.Proofs.LexerSteps
import FilterAssist.Proofs.ScannedLexemes

/-!
# Tokens are what the grammar demands

At every position the scanner claims the demanded match of the grammar, and where it
claims nothing there is a run of blanks or no match at all. Over a whole text the lexer
passes blanks one by one where the grammar takes the run; the tokens are the same.
-/

namespace FilterAssist.Query

open Rule

lemma scan_demanded {cs : List Char} {l : Lexeme} (h : scan cs = some l) :
    ∃ r, Demands cs r l.source ∧ r.kind = some l.kind := by
  cases cs with
  | nil => cases h
  | cons c cs =>
    rw [scan] at h
    split at h
    · cases h
    next blank =>
    rw [Bool.not_eq_true] at blank
    split at h
    · next p hp =>
      cases h
      exact punct_demanded cs hp
    next punct =>
    split at h
    · next start =>
      cases h
      exact word_demanded blank punct start
    next start =>
    rw [Bool.not_eq_true] at start
    split at h
    · next quote =>
      obtain rfl := beq_iff_eq.1 quote
      obtain ⟨t, ht, rfl⟩ := Option.map_eq_some_iff.1 h
      exact ⟨_, string_demanded ht, rfl⟩
    next quote =>
    rw [Bool.not_eq_true] at quote
    have silent := front_silent blank punct start quote
    split at h
    · obtain ⟨n, hn, rfl⟩ := Option.map_eq_some_iff.1 h
      exact number_demanded silent hn
    · next number =>
      rw [Bool.not_eq_true] at number
      obtain ⟨op, hop, rfl⟩ := Option.map_eq_some_iff.1 h
      refine ⟨_, comparison_demanded (fun q hq => ?_) hop, rfl⟩
      have hq : q ∈ blanks :: puncts ++ keywords ++ classes.take 2 ∨
          q ∈ [free .float .float, free .int .int] := by
        rw [← List.mem_append, List.append_assoc _ (classes.take 2)]
        exact hq
      rcases hq with hq | hq
      · exact silent q hq
      · exact numbers_silent number q hq

lemma scan_source_isPrefix {cs : List Char} {l : Lexeme} (h : scan cs = some l) :
    l.source <+: cs := by
  obtain ⟨r, demanded, -⟩ := scan_demanded h
  exact demanded.longest.1.2.1

lemma scanComparison_eq_none {c : Char} (cs : List Char)
    (h : (c == '"' || c == '-' || c.isDigit) = true) : scanComparison (c :: cs) = none := by
  cases hop : scanComparison (c :: cs) with
  | none => rfl
  | some op =>
    rw [scanComparison_eq_find?] at hop
    have starts : op.sign.toList.isPrefixOf (c :: cs) = true :=
      List.find?_some (p := fun op : Comparison => op.sign.toList.isPrefixOf (c :: cs)) hop
    obtain ⟨rest, hrest⟩ := List.isPrefixOf_iff_prefix.1 starts
    cases op <;> (obtain ⟨rfl, -⟩ := List.cons.inj hrest; cases h)

/-- Rule by rule: each of them cannot start here, or its scanner has failed. -/
lemma unmatched_of_scan_eq_none {c : Char} {cs : List Char} (blank : isBlank c = false)
    (h : scan (c :: cs) = none) : ∀ q ∈ Rule.all, ∀ w, ¬ q.MatchesAt (c :: cs) w := by
  rw [scan, if_neg (by simp [blank])] at h
  split at h
  · cases h
  next punct =>
  split at h
  · cases h
  next start =>
  rw [Bool.not_eq_true] at start
  intro q hall w
  have quiet (silent : q.pattern.starts c = false) : ¬ q.MatchesAt (c :: cs) w :=
    not_matchesAt_of_starts_eq_false hall silent cs w
  rcases mem_all_iff.1 hall with rfl | hq | hq | rfl | hq | hq
  · exact quiet (blanks_silent blank)
  · exact quiet (puncts_silent punct q hq)
  · exact quiet (words_silent start q hq)
  · split at h
    · next quote =>
      obtain rfl := beq_iff_eq.1 quote
      rw [string_matchesAt_iff, Option.map_eq_none_iff.1 h]
      rintro ⟨t, ht, -⟩
      cases ht
    · next quote => exact quiet (string_silent (by simpa using quote))
  · split at h
    · next quote =>
      obtain rfl := beq_iff_eq.1 quote
      exact quiet (numbers_silent rfl q hq)
    split at h
    · have none := Option.map_eq_none_iff.1 h
      rcases List.mem_pair.1 hq with rfl | rfl
      · exact not_float_matchesAt (fun n hn => by rw [none] at hn; cases hn) w
      · exact not_int_matchesAt none w
    · next number => exact quiet (numbers_silent (by simpa using number) q hq)
  · have none : scanComparison (c :: cs) = none := by
      split at h
      · next quote => exact scanComparison_eq_none cs (by rw [quote]; rfl)
      split at h
      · next number => exact scanComparison_eq_none cs (by rw [Bool.or_assoc, number, Bool.or_true])
      · exact Option.map_eq_none_iff.1 h
    exact operators_unmatched none q hq w

lemma blanks_demanded {c : Char} (cs : List Char) (h : isBlank c = true) :
    Demands (c :: cs) blanks ((c :: cs).takeWhile isBlank) :=
  ⟨[], puncts ++ keywords ++ classes ++ operators, rfl, fun _ hq => absurd hq List.not_mem_nil,
    blanks_longest cs h⟩

/-- One position: the scanner finds exactly the lexeme that the grammar demands. -/
theorem scan_eq_some_iff {cs : List Char} {l : Lexeme} :
    scan cs = some l ↔ ∃ r, Demands cs r l.source ∧ r.kind = some l.kind := by
  refine ⟨scan_demanded, ?_⟩
  rintro ⟨r, demanded, kind⟩
  have hall : r ∈ Rule.all := demanded.mem_all
  cases cs with
  | nil => exact absurd demanded.longest.1 (not_matchesAt_nil hall l.source)
  | cons c cs =>
    cases h : scan (c :: cs) with
    | some l' =>
      obtain ⟨r', demanded', kind'⟩ := scan_demanded h
      obtain ⟨rfl, source⟩ := demanded.unique demanded'
      rw [kind, Option.some.injEq] at kind'
      cases l
      cases l'
      simp_all
    | none =>
      cases blank : isBlank c with
      | true =>
        obtain ⟨rfl, -⟩ := demanded.unique (blanks_demanded cs blank)
        cases kind
      | false => exact absurd demanded.longest.1 (unmatched_of_scan_eq_none blank h r hall l.source)

lemma eq_blanks_of_kind {r : Rule} (h : r ∈ Rule.all) (kind : r.kind = none) : r = blanks := by
  have others : ∀ q ∈ puncts ++ keywords ++ classes ++ operators, q.kind ≠ none := by decide
  rcases List.mem_cons.1 h with rfl | h
  · rfl
  · exact absurd kind (others r h)

lemma scan_of_unmatched {cs : List Char}
    (h : ∀ r ∈ Rule.all, ∀ w, ¬ r.MatchesAt cs w) : scan cs = none := by
  cases hscan : scan cs with
  | none => rfl
  | some l =>
    obtain ⟨r, demanded, -⟩ := scan_demanded hscan
    exact absurd demanded.longest.1 (h r demanded.mem_all l.source)

/-- A demanded match of the blank rule may be passed at once. -/
lemma tokens_of_blanks {n : Nat} {cs w : List Char} {r : Rule} (demanded : Demands cs r w)
    (kind : r.kind = none) :
    (Lexer.mk n cs).tokens = (Lexer.mk (n + w.length) (cs.drop w.length)).tokens := by
  obtain rfl := eq_blanks_of_kind demanded.mem_all kind
  obtain ⟨mem, ⟨rest, rfl⟩, -⟩ := demanded.longest.1
  simp only [blanks, Pattern.mem_several_one, Pattern.blank_eq] at mem
  rw [List.drop_left]
  exact tokens_blanks_append n rest mem.2

lemma tokens_of_demanded {n : Nat} {cs w : List Char} {r : Rule} {k : Kind}
    (demanded : Demands cs r w) (kind : r.kind = some k) :
    (Lexer.mk n cs).tokens = ⟨k, carried k w, n, n + w.length⟩ ::
      (Lexer.mk (n + w.length) (cs.drop w.length)).tokens := by
  have found : scan cs = some ⟨k, w⟩ := scan_eq_some_iff.2 ⟨r, demanded, kind⟩
  rw [tokens_of_scan found]
  cases k <;> simp [Lexeme.toToken, Lexeme.text, carried]

lemma tokens_of_unmatched {n : Nat} {c : Char} {cs : List Char}
    (h : ∀ r ∈ Rule.all, ∀ w, ¬ r.MatchesAt (c :: cs) w) :
    (Lexer.mk n (c :: cs)).tokens = (Lexer.mk (n + 1) cs).tokens :=
  tokens_of_scan_eq_none (scan_of_unmatched h)

lemma reads_sound {n : Nat} {cs : List Char} {ts : List Token} (h : Reads n cs ts) :
    ts = (Lexer.mk n cs).tokens := by
  induction h with
  | done => exact (tokens_nil _).symm
  | emit demanded kind _ ih => rw [tokens_of_demanded demanded kind, ih]
  | blank demanded kind _ ih => rw [tokens_of_blanks demanded kind, ih]
  | skip unmatched _ ih => rw [tokens_of_unmatched unmatched, ih]

lemma reads_complete (n : Nat) (cs : List Char) : Reads n cs (Lexer.mk n cs).tokens := by
  induction hlen : cs.length using Nat.strongRecOn generalizing n cs with
  | ind length ih =>
    subst hlen
    cases cs with
    | nil => exact tokens_nil n ▸ .done
    | cons c cs =>
      have shorter {w : List Char} (hw : w ≠ []) :
          ((c :: cs).drop w.length).length < (c :: cs).length := by
        have := List.length_pos_iff.2 hw
        simp only [List.length_drop, List.length_cons]
        omega
      cases hscan : scan (c :: cs) with
      | some l =>
        obtain ⟨r, demanded, kind⟩ := scan_demanded hscan
        rw [tokens_of_demanded demanded kind]
        exact .emit demanded kind (ih _ (shorter (scan_source_ne_nil hscan)) _ _ rfl)
      | none =>
        cases blank : isBlank c with
        | true =>
          have demanded := blanks_demanded cs blank
          rw [tokens_of_blanks demanded rfl]
          exact .blank demanded rfl (ih _ (shorter (by simp [blank])) _ _ rfl)
        | false =>
          have unmatched := unmatched_of_scan_eq_none blank hscan
          rw [tokens_of_unmatched unmatched]
          exact .skip unmatched (ih cs.length (Nat.lt_succ_self _) _ _ rfl)

/-- The tokens up to a scanned position are behind it, and the lexer goes on from there. -/
lemma tokens_of_scanned {cs : List Char} {n : Nat} (h : Scanned cs n) :
    ∃ front, (Lexer.mk 0 cs).tokens = front ++ (Lexer.mk n (cs.drop n)).tokens ∧
      ∀ t ∈ front, t.start < n := by
  induction h with
  | start => exact ⟨[], rfl, fun _ ht => absurd ht List.not_mem_nil⟩
  | @past n r w _ demanded ih =>
    obtain ⟨front, hfront, before⟩ := ih
    rw [← List.drop_drop]
    cases kind : r.kind with
    | none =>
      rw [tokens_of_blanks demanded kind] at hfront
      exact ⟨front, hfront, fun t ht => Nat.lt_of_lt_of_le (before t ht) (Nat.le_add_right _ _)⟩
    | some k =>
      rw [tokens_of_demanded demanded kind] at hfront
      have nonempty := List.length_pos_iff.2 (demanded.longest.1.ne_nil demanded.mem_all)
      refine ⟨front ++ [⟨k, carried k w, n, n + w.length⟩], by simp [hfront], fun t ht => ?_⟩
      rcases List.mem_append.1 ht with ht | ht
      · exact Nat.lt_of_lt_of_le (before t ht) (Nat.le_add_right _ _)
      · rw [List.mem_singleton.1 ht]
        exact Nat.lt_add_of_pos_right nonempty
  | @skip n _ inside unmatched ih =>
    obtain ⟨front, hfront, before⟩ := ih
    obtain ⟨c, rest, hrest⟩ := List.exists_cons_of_ne_nil (l := cs.drop n) (by simpa using inside)
    rw [hrest] at hfront unmatched
    rw [← List.drop_drop, hrest, List.drop_one, List.tail_cons]
    rw [tokens_of_unmatched unmatched] at hfront
    exact ⟨front, hfront, fun t ht => Nat.lt_succ_of_lt (before t ht)⟩

/-- Only a lexeme at the very head gives a token that starts there. -/
lemma demanded_of_mem_tokens {n : Nat} {cs : List Char} {t : Token}
    (h : t ∈ (Lexer.mk n cs).tokens) (start : t.start = n) :
    ∃ r w, Demands cs r w ∧ r.kind = some t.kind ∧ t.stop = n + w.length := by
  cases cs with
  | nil => simp at h
  | cons c cs =>
    cases hscan : scan (c :: cs) with
    | none =>
      rw [tokens_of_scan_eq_none hscan] at h
      have := le_start_of_mem_tokens h
      omega
    | some l =>
      have nonempty := List.length_pos_iff.2 (scan_source_ne_nil hscan)
      rw [tokens_of_scan hscan] at h
      rcases List.mem_cons.1 h with rfl | h
      · obtain ⟨r, demanded, kind⟩ := scan_demanded hscan
        exact ⟨r, l.source, demanded, kind, rfl⟩
      · have := le_start_of_mem_tokens h
        omega

/-- The tokens of a text are those of the grammar, as a whole and position by position:
where the grammar is consulted, a token of a kind and a span is produced exactly when the
grammar demands it. -/
theorem tokenize_reads (text : String) :
    (∀ ts, Reads 0 text.toList ts ↔ ts = tokenize text) ∧
    ∀ n, Scanned text.toList n → ∀ k stop,
      (∃ t ∈ tokenize text, t.kind = k ∧ t.start = n ∧ t.stop = stop) ↔
        ∃ r w, Demands (text.toList.drop n) r w ∧ r.kind = some k ∧ stop = n + w.length := by
  refine ⟨fun ts => ⟨reads_sound, ?_⟩, fun n scanned k stop => ?_⟩
  · rintro rfl
    exact reads_complete 0 text.toList
  obtain ⟨front, hfront, before⟩ := tokens_of_scanned scanned
  change tokenize text = _ at hfront
  constructor
  · rintro ⟨t, ht, rfl, hstart, rfl⟩
    rw [hfront] at ht
    rcases List.mem_append.1 ht with ht | ht
    · have := before t ht
      omega
    · exact demanded_of_mem_tokens ht hstart
  · rintro ⟨r, w, demanded, kind, rfl⟩
    refine ⟨⟨k, carried k w, n, n + w.length⟩, ?_, rfl, rfl, rfl⟩
    rw [hfront, tokens_of_demanded demanded kind]
    exact List.mem_append_right _ List.mem_cons_self

/-- The start of a text is always consulted; two characters make one sign there. -/
theorem tokenize_reads_sign :
    Scanned ">= 1".toList 0 ∧
      ∃ r w, Demands (">= 1".toList.drop 0) r w ∧
        r.kind = some (.comparison .greaterEqual) ∧ 2 = 0 + w.length := by
  have produced : ∃ t ∈ tokenize ">= 1", t.kind = .comparison .greaterEqual ∧ t.start = 0 ∧
      t.stop = 2 := by decide +kernel
  exact ⟨.start, ((tokenize_reads ">= 1").2 0 .start _ 2).1 produced⟩

end FilterAssist.Query
