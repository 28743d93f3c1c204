import FilterAssist.Proofs.ContextRules
import FilterAssist.Proofs.LexerRuns

/-!
# Cutting a text at the cursor

What stands behind the cursor has no say in what lies before it. The lexer looks ahead,
so a cut can change the lexeme that it goes through; but a lexeme that ends in front of
the cut is found again, and where none was found none appears: each scanner takes the
longest lexeme of its kind, in the shorter text nothing runs longer than before, and what
fits into it is still there. The damage begins at the start of the token that is cut, and
without such a token there is none.
-/

namespace FilterAssist.Query

open Pattern

section Scanners

variable {u v : List Char}

lemma prefix_of_append_of_length_le {w : List Char} (h : w <+: u ++ v)
    (within : w.length ≤ u.length) : w <+: u :=
  List.prefix_of_prefix_length_le h (List.prefix_append u v) within

lemma nameTail_of_append (within : (nameTail (u ++ v)).length ≤ u.length) :
    nameTail u = nameTail (u ++ v) := by
  have long : nameTail u <+: nameTail (u ++ v) :=
    prefix_nameTail (nameTail_mem u) ((nameTail_isPrefix u).trans (List.prefix_append u v))
  have short : nameTail (u ++ v) <+: nameTail u :=
    prefix_nameTail (nameTail_mem _) (prefix_of_append_of_length_le (nameTail_isPrefix _) within)
  exact long.eq_of_length_le short.length_le

lemma takeWhile_of_append {test : Char → Bool}
    (within : ((u ++ v).takeWhile test).length ≤ u.length) :
    u.takeWhile test = (u ++ v).takeWhile test := by
  have long : u.takeWhile test <+: (u ++ v).takeWhile test :=
    prefix_takeWhile (fun _ h => List.mem_takeWhile_imp h)
      ((List.takeWhile_prefix test).trans (List.prefix_append u v))
  have short : (u ++ v).takeWhile test <+: u.takeWhile test :=
    prefix_takeWhile (fun _ h => List.mem_takeWhile_imp h)
      (prefix_of_append_of_length_le (List.takeWhile_prefix test) within)
  exact long.eq_of_length_le short.length_le

lemma mem_nameRest_of_forall {w : List Char} (h : ∀ c ∈ w, isNameChar c = true) :
    w ∈ nameRest.language := by
  induction w with
  | nil => exact mem_nameRest_iff.2 (Or.inl rfl)
  | cons c w ih =>
    obtain ⟨hc, hw⟩ := List.forall_mem_cons.1 h
    exact mem_nameRest_iff.2 (Or.inr (Or.inl ⟨c, w, rfl, hc, ih hw⟩))

/-- The first segment of a name is a part of it. -/
lemma takeWhile_prefix_nameTail (cs : List Char) :
    cs.takeWhile isNameChar <+: nameTail cs :=
  prefix_nameTail (mem_nameRest_of_forall fun _ h => List.mem_takeWhile_imp h)
    (List.takeWhile_prefix _)

lemma scanWord_of_append {c : Char}
    (within : (scanWord c (u ++ v)).source.length ≤ (c :: u).length) :
    scanWord c u = scanWord c (u ++ v) := by
  cases hword : Keyword.ofWord? (c :: (u ++ v).takeWhile isNameChar) with
  | some k =>
    have whole : scanWord c (u ++ v) = ⟨.keyword k, c :: (u ++ v).takeWhile isNameChar⟩ := by
      simp only [scanWord, hword]
    rw [whole] at within ⊢
    have same : u.takeWhile isNameChar = (u ++ v).takeWhile isNameChar :=
      takeWhile_of_append (Nat.le_of_succ_le_succ within)
    simp only [scanWord, same, hword]
  | none =>
    have whole : scanWord c (u ++ v) = ⟨.name, c :: nameTail (u ++ v)⟩ := by
      simp only [scanWord, hword]
    rw [whole] at within ⊢
    have tail := nameTail_of_append (Nat.le_of_succ_le_succ within)
    have short : ((u ++ v).takeWhile isNameChar).length ≤ u.length :=
      (takeWhile_prefix_nameTail _).length_le.trans (Nat.le_of_succ_le_succ within)
    have same := takeWhile_of_append short
    simp only [scanWord, same, hword, tail]

lemma stringTail_of_append {t : List Char} (h : stringTail (u ++ v) = some t)
    (within : t.length ≤ u.length) : stringTail u = some t := by
  obtain ⟨mem, starts⟩ := stringTail_eq_some_iff.1 h
  exact stringTail_eq_some_iff.2 ⟨mem, prefix_of_append_of_length_le starts within⟩

lemma stringTail_none_of_append (h : stringTail (u ++ v) = none) : stringTail u = none := by
  cases hu : stringTail u with
  | none => rfl
  | some t =>
    obtain ⟨mem, starts⟩ := stringTail_eq_some_iff.1 hu
    have found := stringTail_eq_some_iff.2 ⟨mem, starts.trans (List.prefix_append u v)⟩
    rw [h] at found
    cases found

/-- A number with a fraction or an exponent goes on being one when text is added. -/
lemma number_float_append {m : Text.Number} (h : Text.Number.scan? u = some m)
    (fractional : m.isInteger = false) :
    ∃ n, Text.Number.scan? (u ++ v) = some n ∧ n.isInteger = false ∧
      m.source.length ≤ n.source.length :=
  number_of_isPrefix_float (number_mem_float h fractional)
    ((number_source_isPrefix h).trans (List.prefix_append u v))

lemma source_of_isInteger {n : Text.Number} (h : n.isInteger = true) :
    n.source = n.sign ++ n.whole := by
  rw [Text.Number.isInteger, Bool.and_eq_true, List.isEmpty_iff, List.isEmpty_iff] at h
  rw [Text.Number.source, h.1, h.2, List.append_nil, List.append_nil]

lemma number_of_append {n : Text.Number} (h : Text.Number.scan? (u ++ v) = some n)
    (within : n.source.length ≤ u.length) :
    ∃ m, Text.Number.scan? u = some m ∧ m.isInteger = n.isInteger ∧ m.source = n.source := by
  have starts : n.source <+: u :=
    prefix_of_append_of_length_le (number_source_isPrefix h) within
  cases whole : n.isInteger with
  | false =>
    obtain ⟨m, hm, fractional, long⟩ :=
      number_of_isPrefix_float (number_mem_float h whole) starts
    obtain ⟨n', hn', -, short⟩ := number_float_append (v := v) hm fractional
    obtain rfl : n = n' := Option.some.inj (h.symm.trans hn')
    exact ⟨m, hm, fractional, (List.prefix_of_prefix_length_le (number_source_isPrefix hm) starts
      short).eq_of_length (Nat.le_antisymm short long)⟩
  | true =>
    have source := source_of_isInteger whole
    obtain ⟨m, hm, long, -⟩ := number_of_isPrefix_int (number_sound h).1 (source ▸ starts)
    have integer : m.isInteger = true := by
      by_contra fractional
      obtain ⟨n', hn', other, -⟩ := number_float_append (v := v) hm (by simpa using fractional)
      obtain rfl : n = n' := Option.some.inj (h.symm.trans hn')
      rw [whole] at other
      cases other
    have inside : m.sign ++ m.whole <+: u ++ v := by
      rw [← source_of_isInteger integer]
      exact (number_source_isPrefix hm).trans (List.prefix_append u v)
    obtain ⟨n', hn', short, -⟩ := number_of_isPrefix_int (number_sound hm).1 inside
    obtain rfl : n = n' := Option.some.inj (h.symm.trans hn')
    refine ⟨m, hm, integer, ?_⟩
    rw [source, source_of_isInteger integer]
    exact short.eq_of_length_le long.length_le

lemma number_none_of_append (h : Text.Number.scan? (u ++ v) = none) :
    Text.Number.scan? u = none := by
  cases hu : Text.Number.scan? u with
  | none => rfl
  | some m =>
    obtain ⟨mem, rest, heq, -⟩ := number_sound hu
    have inside : m.sign ++ m.whole <+: u ++ v :=
      (heq ▸ List.prefix_append _ rest : m.sign ++ m.whole <+: u).trans (List.prefix_append u v)
    obtain ⟨n, hn, -⟩ := number_of_isPrefix_int mem inside
    rw [h] at hn
    cases hn

lemma scanComparison_of_append {op : Comparison} (h : scanComparison (u ++ v) = some op)
    (within : op.sign.toList.length ≤ u.length) : scanComparison u = some op := by
  rw [Rule.scanComparison_eq_find?] at h ⊢
  obtain ⟨hop, first, last, signs, before⟩ := List.find?_eq_some_iff_append.1 h
  refine List.find?_eq_some_iff_append.2 ⟨?_, first, last, signs, ?_⟩
  · rw [List.isPrefixOf_iff_prefix] at hop ⊢
    exact prefix_of_append_of_length_le hop within
  · intro other hother
    have absent := before other hother
    simp only [Bool.not_eq_true', ← Bool.not_eq_true, List.isPrefixOf_iff_prefix] at absent ⊢
    exact fun starts => absent (starts.trans (List.prefix_append u v))

lemma scanComparison_none_of_append (h : scanComparison (u ++ v) = none) :
    scanComparison u = none := by
  rw [Rule.scanComparison_eq_find?, List.find?_eq_none] at h ⊢
  intro op hop starts
  refine h op hop ?_
  rw [List.isPrefixOf_iff_prefix] at starts ⊢
  exact starts.trans (List.prefix_append u v)

/-- A lexeme that ends in front of the cut is found in the cut text. -/
theorem scan_of_append {l : Lexeme} (h : scan (u ++ v) = some l)
    (within : l.source.length ≤ u.length) : scan u = some l := by
  cases u with
  | nil =>
    have := List.length_pos_iff.2 (scan_source_ne_nil h)
    simp only [List.length_nil] at within
    omega
  | cons c u =>
    rw [List.cons_append, scan] at h
    rw [scan]
    by_cases blank : isBlank c = true
    · simp [blank] at h
    rw [if_neg blank] at h ⊢
    cases punct : scanPunct c with
    | some p => simpa [punct] using h
    | none =>
      simp only [punct] at h ⊢
      by_cases start : isNameStart c = true
      · rw [if_pos start, Option.some.injEq] at h ⊢
        subst h
        exact scanWord_of_append within
      rw [if_neg start] at h ⊢
      by_cases quote : (c == '"') = true
      · rw [if_pos quote] at h ⊢
        obtain ⟨t, ht, rfl⟩ := Option.map_eq_some_iff.1 h
        rw [stringTail_of_append ht (Nat.le_of_succ_le_succ within), Option.map_some]
      rw [if_neg quote] at h ⊢
      by_cases digit : (c == '-' || c.isDigit) = true
      · rw [if_pos digit] at h ⊢
        obtain ⟨n, hn, rfl⟩ := Option.map_eq_some_iff.1 h
        rw [← List.cons_append] at hn
        obtain ⟨m, hm, kind, source⟩ := number_of_append hn within
        rw [scanNumber, hm, Option.map_some, kind, source]
      · rw [if_neg digit] at h ⊢
        obtain ⟨op, hop, rfl⟩ := Option.map_eq_some_iff.1 h
        rw [← List.cons_append] at hop
        rw [scanComparison_of_append hop within, Option.map_some]

/-- Where no lexeme starts, none starts when the text is cut. -/
theorem scan_none_of_append (h : scan (u ++ v) = none) : scan u = none := by
  cases u with
  | nil => rfl
  | cons c u =>
    rw [List.cons_append, scan] at h
    rw [scan]
    by_cases blank : isBlank c = true
    · rw [if_pos blank]
    rw [if_neg blank] at h ⊢
    cases punct : scanPunct c with
    | some p => simp [punct] at h
    | none =>
      simp only [punct] at h ⊢
      by_cases start : isNameStart c = true
      · simp [start] at h
      rw [if_neg start] at h ⊢
      by_cases quote : (c == '"') = true
      · rw [if_pos quote, Option.map_eq_none_iff] at h ⊢
        exact stringTail_none_of_append h
      rw [if_neg quote] at h ⊢
      by_cases digit : (c == '-' || c.isDigit) = true
      · rw [if_pos digit, scanNumber, Option.map_eq_none_iff] at h ⊢
        exact number_none_of_append h
      · rw [if_neg digit, Option.map_eq_none_iff] at h ⊢
        exact scanComparison_none_of_append h

end Scanners

/-- A text may be cut anywhere behind a run. -/
lemma standsFor_of_isPrefix {v v' : List Char} (h : v' <+: v) : StandsFor v' v := by
  obtain ⟨back, rfl⟩ := h
  intro u _
  rw [← List.append_assoc]
  refine ⟨fun l found within => scan_of_append found ?_, scan_none_of_append⟩
  rw [List.length_append]
  omega

/-- The cursor stands inside the token. -/
def Token.Straddles (t : Token) (cursor : Nat) : Prop := t.start < cursor ∧ cursor < t.stop

instance (t : Token) (cursor : Nat) : Decidable (t.Straddles cursor) :=
  inferInstanceAs (Decidable (_ ∧ _))

lemma start_lt_stop_of_mem_tokens {n : Nat} {cs : List Char} {t : Token}
    (h : t ∈ (Lexer.mk n cs).tokens) : t.start < t.stop :=
  ((passes_to_end n cs).bounds h).2.1

/-- The lexer arrives at every position of a text, or passes it inside a lexeme. -/
theorem passes_or_crosses {k : Nat} {cs : List Char} (n : Nat) (inside : k ≤ cs.length) :
    (∃ ts, Passes ⟨n, cs⟩ ts ⟨n + k, cs.drop k⟩) ∨
    ∃ ts j l, Passes ⟨n, cs⟩ ts ⟨n + j, cs.drop j⟩ ∧ scan (cs.drop j) = some l ∧
      j < k ∧ k < j + l.source.length := by
  induction hlen : cs.length using Nat.strongRecOn generalizing n cs k with
  | ind length ih =>
    subst hlen
    by_cases zero : k = 0
    · subst zero
      exact Or.inl ⟨[], .here⟩
    cases cs with
    | nil =>
      simp only [List.length_nil] at inside
      omega
    | cons c cs =>
      cases hscan : scan (c :: cs) with
      | none =>
        obtain ⟨k, rfl⟩ := Nat.exists_eq_succ_of_ne_zero zero
        simp only [List.length_cons] at inside
        rcases ih cs.length (Nat.lt_succ_self _) (n + 1) (k := k) (by omega) rfl with
          ⟨ts, run⟩ | ⟨ts, j, l, run, found, before, behind⟩
        · rw [Nat.add_right_comm n 1 k] at run
          exact Or.inl ⟨ts, .skip hscan run⟩
        · rw [Nat.add_right_comm n 1 j] at run
          exact Or.inr ⟨ts, j + 1, l, .skip hscan run, found, by omega, by omega⟩
      | some l =>
        have nonempty := List.length_pos_iff.2 (scan_source_ne_nil hscan)
        by_cases crosses : k < l.source.length
        · exact Or.inr ⟨[], 0, l, .here, hscan, by omega, by omega⟩
        have shorter : ((c :: cs).drop l.source.length).length < (c :: cs).length := by
          simp only [List.length_drop, List.length_cons]
          omega
        have left : k - l.source.length ≤ ((c :: cs).drop l.source.length).length := by
          rw [List.length_drop]
          omega
        rcases ih _ shorter (n + l.source.length) left rfl with
          ⟨ts, run⟩ | ⟨ts, j, m, run, found, before, behind⟩
        · have target : n + l.source.length + (k - l.source.length) = n + k := by omega
          have rest : l.source.length + (k - l.source.length) = k := by omega
          rw [target, List.drop_drop, rest] at run
          exact Or.inl ⟨_, .read hscan run⟩
        · rw [List.drop_drop] at run found
          rw [Nat.add_assoc] at run
          exact Or.inr ⟨_, _, m, .read hscan run, found, by omega, by omega⟩

/-- The tokens of a run that stops in front of the cursor end there too. -/
lemma filter_stop_le {x y : Lexer} {ts later : List Token} {cursor : Nat}
    (run : Passes x ts y) (early : y.offset ≤ cursor) (late : ∀ t ∈ later, cursor < t.stop) :
    (ts ++ later).filter (·.stop ≤ cursor) = ts := by
  have first : ts.filter (·.stop ≤ cursor) = ts := by
    refine List.filter_eq_self.2 fun t ht => ?_
    have := (run.bounds ht).2.2
    simp only [decide_eq_true_eq]
    omega
  have second : later.filter (·.stop ≤ cursor) = [] := by
    refine List.filter_eq_nil_iff.2 fun t ht => ?_
    have := late t ht
    simp only [decide_eq_true_eq]
    omega
  rw [List.filter_append, first, second, List.append_nil]

/-- Only the last token of a run can end at the run's own end. -/
lemma filter_stop_lt {x y : Lexer} {init : List Token} {last : Token}
    (run : Passes x (init ++ [last]) y) :
    (init ++ [last]).filter (·.stop < y.offset)
      = if last.stop < y.offset then init ++ [last] else init := by
  obtain ⟨z, l, first, found, rfl, rest⟩ := run.last
  have before : init.filter (·.stop < y.offset) = init := by
    refine List.filter_eq_self.2 fun t ht => ?_
    have nonempty := List.length_pos_iff.2 (scan_source_ne_nil found)
    have behind := rest.offset_le
    have := (first.bounds ht).2.2
    simp only [decide_eq_true_eq] at behind ⊢
    omega
  rw [List.filter_append, before]
  split
  · next h => simp [h]
  · next h => simp [h]

lemma completedOf_take {text : List Char} {cursor : Nat} {ts : List Token}
    (inside : cursor ≤ text.length)
    (run : Passes ⟨0, text.take cursor⟩ ts ⟨cursor, []⟩) :
    Cursor.View.completedOf (text.take cursor) = ts.filter (·.stop < cursor) := by
  have length : (text.take cursor).length = cursor := by simpa using inside
  have all : tokenize (String.ofList (text.take cursor)) = ts := by
    rw [tokenize_ofList, run.tokens_eq]
  symm
  rw [Cursor.completedOf_iff, all, length]
  rcases List.eq_nil_or_concat ts with rfl | ⟨init, last, rfl⟩
  · exact Or.inr ⟨rfl, fun t ht => by cases ht⟩
  · rw [List.concat_eq_append] at run ⊢
    rw [filter_stop_lt run]
    by_cases reaches : last.stop < cursor
    · rw [if_pos reaches]
      refine Or.inr ⟨rfl, fun t ht => ?_⟩
      rw [List.getLast?_concat, Option.some.injEq] at ht
      exact ht ▸ reaches
    · rw [if_neg reaches]
      exact Or.inl ⟨last, rfl, Nat.not_lt.1 reaches⟩

/-- At the end of a text the completed tokens are those that end before it. -/
lemma completedOf_eq_filter (text : List Char) :
    Cursor.View.completedOf text = (Lexer.mk 0 text).tokens.filter (·.stop < text.length) := by
  have run := passes_to_end 0 text
  rw [Nat.zero_add] at run
  nth_rewrite 1 [← List.take_length (l := text)] at run
  have completed := completedOf_take le_rfl run
  rwa [List.take_length] at completed

/-- A run to a position of a text is a run to the end of the text cut there, or cut
further behind. -/
lemma Passes.take {text : List Char} {ts : List Token} {j cursor : Nat}
    (run : Passes ⟨0, text⟩ ts ⟨j, text.drop j⟩) (before : j ≤ cursor)
    (inside : cursor ≤ text.length) :
    Passes ⟨0, text.take cursor⟩ ts ⟨j, (text.take cursor).drop j⟩ := by
  have length : (text.take j).length = j := by
    rw [List.length_take]
    omega
  have cut : text.take cursor = text.take j ++ (text.take cursor).drop j := by
    have := (List.take_append_drop j (text.take cursor)).symm
    rwa [List.take_take, Nat.min_eq_left before] at this
  have stands : StandsFor ((text.take cursor).drop j) (text.drop j) := by
    apply standsFor_of_isPrefix
    rw [List.drop_take]
    exact List.take_prefix _ _
  have whole : Passes ⟨0, text.take j ++ text.drop j⟩ ts ⟨0 + (text.take j).length, text.drop j⟩ := by
    rwa [List.take_append_drop, length, Nat.zero_add]
  have moved := whole.exchange stands
  rwa [← cut, length, Nat.zero_add] at moved

/-- Behind the cut token everything ends past the cursor. -/
lemma stop_gt_of_crosses {cs : List Char} {l : Lexeme} {j cursor : Nat}
    (found : scan cs = some l) (crosses : cursor < j + l.source.length) :
    (∀ t ∈ (Lexer.mk j cs).tokens, cursor < t.stop) ∧
      ∀ t ∈ (Lexer.mk j cs).tokens, t.Straddles cursor → t = l.toToken j := by
  rw [tokens_of_scan found]
  constructor
  · intro t ht
    rcases List.mem_cons.1 ht with rfl | ht
    · exact crosses
    · have := le_start_of_mem_tokens ht
      have := start_lt_stop_of_mem_tokens ht
      omega
  · intro t ht straddles
    rcases List.mem_cons.1 ht with rfl | ht
    · rfl
    · have := le_start_of_mem_tokens ht
      have := straddles.1
      omega

/-- Where the lexer arrives at the cursor no token is cut, and the text cut there has the
tokens up to there. -/
lemma tokens_take_of_arrives {text : List Char} {ts : List Token} {cursor : Nat}
    (inside : cursor ≤ text.length) (run : Passes ⟨0, text⟩ ts ⟨cursor, text.drop cursor⟩) :
    (∀ t ∈ (Lexer.mk 0 text).tokens, ¬ t.Straddles cursor) ∧
      (Lexer.mk 0 text).tokens.filter (·.stop ≤ cursor) = ts ∧
      Passes ⟨0, text.take cursor⟩ ts ⟨cursor, []⟩ := by
  have late : ∀ t ∈ (Lexer.mk cursor (text.drop cursor)).tokens, cursor < t.stop := by
    intro t ht
    exact Nat.lt_of_le_of_lt (le_start_of_mem_tokens ht) (start_lt_stop_of_mem_tokens ht)
  refine ⟨?_, ?_, ?_⟩
  · intro t ht ⟨before, behind⟩
    rw [run.tokens] at ht
    rcases List.mem_append.1 ht with ht | ht
    · have := (run.bounds ht).2.2
      simp only at this
      omega
    · have := le_start_of_mem_tokens ht
      omega
  · rw [run.tokens]
    exact filter_stop_le run (Nat.le_refl _) late
  · have short := run.take (Nat.le_refl _) inside
    rwa [List.drop_of_length_le (by simp)] at short

/-- Where the cursor stands inside a lexeme, that lexeme alone is cut. -/
lemma tokens_of_crosses {text : List Char} {ts : List Token} {l : Lexeme} {j cursor : Nat}
    (run : Passes ⟨0, text⟩ ts ⟨j, text.drop j⟩) (found : scan (text.drop j) = some l)
    (before : j < cursor) (behind : cursor < j + l.source.length) :
    l.toToken j ∈ (Lexer.mk 0 text).tokens ∧
      (Lexer.mk 0 text).tokens.filter (·.stop ≤ cursor) = ts ∧
      ∀ t ∈ (Lexer.mk 0 text).tokens, t.Straddles cursor → t = l.toToken j := by
  obtain ⟨late, alone⟩ := stop_gt_of_crosses (j := j) found behind
  rw [run.tokens]
  refine ⟨?_, filter_stop_le run (Nat.le_of_lt before) late, ?_⟩
  · rw [tokens_of_scan found]
    exact List.mem_append_right _ List.mem_cons_self
  · intro t ht straddles
    rcases List.mem_append.1 ht with ht | ht
    · have := (run.bounds ht).2.2
      have := straddles.2
      simp only at *
      omega
    · exact alone t ht straddles

/-- The tokens in front of the cursor are those of the text cut there, up to the token
that the cursor stands in; there is one at most, and what is read in its place does not
reach further back. Without one the cut changes nothing, and the completed tokens are
those that end before the cursor. -/
theorem tokenize_take (text : String) (cursor : Nat) (inside : cursor ≤ text.length) :
    (∃ more, tokenize (String.ofList (text.toList.take cursor))
        = (tokenize text).filter (·.stop ≤ cursor) ++ more ∧
      ∀ u ∈ more, ∃ t ∈ tokenize text, t.Straddles cursor ∧ t.start ≤ u.start) ∧
    (∀ t ∈ tokenize text, ∀ u ∈ tokenize text,
      t.Straddles cursor → u.Straddles cursor → t = u) ∧
    ((∀ t ∈ tokenize text, ¬ t.Straddles cursor) →
      tokenize (String.ofList (text.toList.take cursor))
          = (tokenize text).filter (·.stop ≤ cursor) ∧
        (Cursor.View.before text cursor).completed
          = (tokenize text).filter (·.stop < cursor)) := by
  rw [← String.length_toList] at inside
  have full : tokenize text = (Lexer.mk 0 text.toList).tokens := rfl
  rw [full, tokenize_ofList]
  rcases passes_or_crosses 0 inside with ⟨ts, run⟩ | ⟨ts, j, l, run, found, before, behind⟩
  · rw [Nat.zero_add] at run
    obtain ⟨untouched, kept, short⟩ := tokens_take_of_arrives inside run
    refine ⟨⟨[], ?_, fun u hu => by cases hu⟩, ?_, fun _ => ⟨?_, ?_⟩⟩
    · rw [short.tokens_eq, kept, List.append_nil]
    · intro t ht u _ straddles
      exact absurd straddles (untouched t ht)
    · rw [short.tokens_eq, kept]
    · have completed := completedOf_take inside short
      rw [← kept, List.filter_filter] at completed
      change Cursor.View.completedOf _ = _
      rw [completed]
      refine List.filter_congr fun t _ => ?_
      simp only [Bool.and_eq_left_iff_imp, decide_eq_true_eq]
      exact Nat.le_of_lt
  · rw [Nat.zero_add] at run
    obtain ⟨here, kept, only⟩ := tokens_of_crosses run found before behind
    refine ⟨⟨(Lexer.mk j ((text.toList.take cursor).drop j)).tokens, ?_, ?_⟩, ?_, ?_⟩
    · rw [(run.take (Nat.le_of_lt before) inside).tokens, kept]
    · intro u hu
      exact ⟨_, here, ⟨before, behind⟩, le_start_of_mem_tokens hu⟩
    · intro t ht u hu ht' hu'
      rw [only t ht ht', only u hu hu']
    · intro untouched
      exact absurd ⟨before, behind⟩ (untouched _ here)

/-- A string that loses its closing quote falls apart behind its start; a cursor between
two tokens cuts none. -/
theorem tokenize_take_string :
    (6 ≤ "a = \"b c\"".length ∧ ∃ more, tokenize "a = \"b"
        = (tokenize "a = \"b c\"").filter (·.stop ≤ 6) ++ more ∧
      ∀ u ∈ more, ∃ t ∈ tokenize "a = \"b c\"", t.Straddles 6 ∧ t.start ≤ u.start) ∧
    (2 ≤ "a = \"b c\"".length ∧ (∀ t ∈ tokenize "a = \"b c\"", ¬ t.Straddles 2) ∧
      (Cursor.View.before "a = \"b c\"" 2).completed
        = (tokenize "a = \"b c\"").filter (·.stop < 2)) := by
  have inside : 6 ≤ "a = \"b c\"".length := by decide
  have between : 2 ≤ "a = \"b c\"".length := by decide
  have untouched : ∀ t ∈ tokenize "a = \"b c\"", ¬ t.Straddles 2 := by decide +kernel
  exact ⟨⟨inside, (tokenize_take "a = \"b c\"" 6 inside).1⟩, between, untouched,
    ((tokenize_take "a = \"b c\"" 2 between).2.2 untouched).2⟩

end FilterAssist.Query
