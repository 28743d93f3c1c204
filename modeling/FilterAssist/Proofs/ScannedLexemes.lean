import FilterAssist.Proofs.NumberLexemes

/-!
# The scanner follows the grammar

Each scanner is compared with the pattern of its rule: it claims a word of the pattern,
and no word of the pattern at the head of the text is longer. For names and strings the
patterns are first brought into the shape in which the scanners read, one character at a
time; the greedy parts of a number leave no other way to cut it.
-/

namespace FilterAssist.Query

namespace Pattern

/-- How a name goes on after its first character. -/
def nameRest : Pattern := .seq (.many (.one wordChar)) (.many (.seq (.one (· == '.')) segment))

lemma mem_name_iff {w : List Char} :
    w ∈ name.language ↔ ∃ c v, w = c :: v ∧ isNameStart c = true ∧ v ∈ nameRest.language := by
  rw [name, segment, mem_seq_assoc, mem_one_seq]
  simp only [wordStart_eq]
  rfl

lemma mem_nameRest_iff {w : List Char} :
    w ∈ nameRest.language ↔ w = [] ∨
      (∃ c v, w = c :: v ∧ isNameChar c = true ∧ v ∈ nameRest.language) ∨
      (∃ d v, w = '.' :: d :: v ∧ isNameStart d = true ∧ v ∈ nameRest.language) := by
  have dotted : w ∈ (many (.seq (.one (· == '.')) segment)).language ↔
      w = [] ∨ ∃ d v, w = '.' :: d :: v ∧ isNameStart d = true ∧ v ∈ nameRest.language := by
    rw [mem_many_iff, mem_seq_assoc, mem_one_seq]
    simp only [segment, mem_seq_assoc, mem_one_seq, wordStart_eq, beq_iff_eq]
    constructor
    · rintro (h | ⟨_, _, rfl, rfl, d, v, rfl, hd, hv⟩)
      · exact Or.inl h
      · exact Or.inr ⟨d, v, rfl, hd, hv⟩
    · rintro (h | ⟨d, v, rfl, hd, hv⟩)
      · exact Or.inl h
      · exact Or.inr ⟨'.', d :: v, rfl, rfl, d, v, rfl, hd, hv⟩
  have grown : w ∈ (seq (.one wordChar) nameRest).language ↔
      ∃ c v, w = c :: v ∧ isNameChar c = true ∧ v ∈ nameRest.language := by
    simp only [mem_one_seq, wordChar_eq]
  rw [nameRest, mem_many_seq_iff, dotted, ← nameRest, grown, or_assoc]
  exact or_congr_right or_comm

lemma nameTail_cons {c : Char} (hc : isNameChar c = true) (cs : List Char) :
    nameTail (c :: cs) = c :: nameTail cs := by
  rw [nameTail.eq_def]
  simp only [hc, if_true]

lemma nameTail_dot {d : Char} (hd : isNameStart d = true) (cs : List Char) :
    nameTail ('.' :: d :: cs) = '.' :: d :: nameTail cs := by
  have dot : isNameChar '.' = false := by decide
  rw [nameTail.eq_def]
  simp only [dot, Bool.false_eq_true, if_false, beq_self_eq_true, if_true, hd]

lemma nameTail_mem (cs : List Char) : nameTail cs ∈ nameRest.language := by
  fun_induction nameTail cs with
  | case1 => exact mem_nameRest_iff.2 (Or.inl rfl)
  | case2 c cs hc ih => exact mem_nameRest_iff.2 (Or.inr (Or.inl ⟨c, _, rfl, hc, ih⟩))
  | case3 => exact mem_nameRest_iff.2 (Or.inl rfl)
  | case4 c hc hdot d ds hd ih =>
    rw [beq_iff_eq] at hdot
    subst hdot
    exact mem_nameRest_iff.2 (Or.inr (Or.inr ⟨d, _, rfl, hd, ih⟩))
  | case5 => exact mem_nameRest_iff.2 (Or.inl rfl)
  | case6 => exact mem_nameRest_iff.2 (Or.inl rfl)

lemma nameTail_isPrefix (cs : List Char) : nameTail cs <+: cs := by
  fun_induction nameTail cs with
  | case1 => exact List.nil_prefix
  | case2 c cs hc ih => exact (List.prefix_cons_inj c).2 ih
  | case3 => exact List.nil_prefix
  | case4 c hc hdot d ds hd ih =>
    exact (List.prefix_cons_inj c).2 ((List.prefix_cons_inj d).2 ih)
  | case5 => exact List.nil_prefix
  | case6 => exact List.nil_prefix

lemma prefix_nameTail {w cs : List Char} (mem : w ∈ nameRest.language) (h : w <+: cs) :
    w <+: nameTail cs := by
  induction hn : w.length using Nat.strongRecOn generalizing w cs with
  | ind n ih =>
    subst hn
    rcases mem_nameRest_iff.1 mem with rfl | ⟨c, v, rfl, hc, hv⟩ | ⟨d, v, rfl, hd, hv⟩
    · exact List.nil_prefix
    · obtain ⟨rest, rfl⟩ := h
      rw [List.cons_append, nameTail_cons hc, List.prefix_cons_inj]
      exact ih v.length (Nat.lt_succ_self _) hv (List.prefix_append _ _) rfl
    · obtain ⟨rest, rfl⟩ := h
      rw [List.cons_append, List.cons_append, nameTail_dot hd, List.prefix_cons_inj,
        List.prefix_cons_inj]
      exact ih v.length (Nat.lt_add_of_pos_right Nat.two_pos) hv (List.prefix_append _ _) rfl

/-- A string behind its opening quote. -/
def stringRest : Pattern := .seq (.many (.alt (.one plain) escape)) (.one (· == '"'))

lemma mem_string_iff {w : List Char} :
    w ∈ string.language ↔ ∃ v, w = '"' :: v ∧ v ∈ stringRest.language := by
  rw [string, mem_one_seq]
  simp only [beq_iff_eq]
  constructor
  · rintro ⟨_, v, rfl, rfl, hv⟩
    exact ⟨v, rfl, hv⟩
  · rintro ⟨v, rfl, hv⟩
    exact ⟨'"', v, rfl, rfl, hv⟩

lemma mem_stringRest_iff {w : List Char} :
    w ∈ stringRest.language ↔ w = ['"'] ∨
      (∃ c v, w = c :: v ∧ plain c = true ∧ v ∈ stringRest.language) ∨
      (∃ e v, w = '\\' :: e :: v ∧ isEscapable e = true ∧ v ∈ stringRest.language) ∨
      (∃ h₁ h₂ h₃ h₄ v, w = '\\' :: 'u' :: h₁ :: h₂ :: h₃ :: h₄ :: v ∧
        (Text.isHexDigit h₁ && Text.isHexDigit h₂ && Text.isHexDigit h₃ && Text.isHexDigit h₄)
          = true ∧ v ∈ stringRest.language) := by
  have closed : w ∈ (one (· == '"')).language ↔ w = ['"'] := by simp
  have escaped : w ∈ (seq escape stringRest).language ↔
      (∃ e v, w = '\\' :: e :: v ∧ isEscapable e = true ∧ v ∈ stringRest.language) ∨
      (∃ h₁ h₂ h₃ h₄ v, w = '\\' :: 'u' :: h₁ :: h₂ :: h₃ :: h₄ :: v ∧
        (Text.isHexDigit h₁ && Text.isHexDigit h₂ && Text.isHexDigit h₃ && Text.isHexDigit h₄)
          = true ∧ v ∈ stringRest.language) := by
    rw [escape, mem_seq_assoc, mem_one_seq]
    simp only [mem_alt_seq, mem_seq_assoc, mem_one_seq, escapable_eq, hexadecimal_eq, beq_iff_eq,
      Bool.and_eq_true]
    constructor
    · rintro ⟨_, _, rfl, rfl, ⟨e, v, rfl, he, hv⟩ | ⟨_, _, rfl, rfl, h₁, _, rfl, d₁, h₂, _, rfl, d₂,
        h₃, _, rfl, d₃, h₄, v, rfl, d₄, hv⟩⟩
      · exact Or.inl ⟨e, v, rfl, he, hv⟩
      · exact Or.inr ⟨h₁, h₂, h₃, h₄, v, rfl, ⟨⟨⟨d₁, d₂⟩, d₃⟩, d₄⟩, hv⟩
    · rintro (⟨e, v, rfl, he, hv⟩ | ⟨h₁, h₂, h₃, h₄, v, rfl, ⟨⟨⟨d₁, d₂⟩, d₃⟩, d₄⟩, hv⟩)
      · exact ⟨_, _, rfl, rfl, Or.inl ⟨e, v, rfl, he, hv⟩⟩
      · exact ⟨_, _, rfl, rfl, Or.inr ⟨_, _, rfl, rfl, h₁, _, rfl, d₁, h₂, _, rfl, d₂,
          h₃, _, rfl, d₃, h₄, v, rfl, d₄, hv⟩⟩
  have unrolled : w ∈ stringRest.language ↔ w = ['"'] ∨
      (∃ c v, w = c :: v ∧ plain c = true ∧ v ∈ stringRest.language) ∨
      w ∈ (seq escape stringRest).language := by
    conv_lhs => rw [stringRest, mem_many_seq_iff, ← stringRest, closed, mem_alt_seq, mem_one_seq]
  rw [unrolled, escaped]

lemma stringTail_sound {cs t : List Char} (h : stringTail cs = some t) :
    t ∈ stringRest.language ∧ t <+: cs := by
  fun_induction stringTail cs generalizing t with
  | case1 | case3 | case6 | case7 | case8 | case9 => cases h
  | case2 c cs hc =>
    cases h
    rw [beq_iff_eq] at hc
    subst hc
    exact ⟨mem_stringRest_iff.2 (Or.inl rfl), List.prefix_append ['"'] cs⟩
  | case4 c hq hc e cs he ih =>
    obtain ⟨t, ht, rfl⟩ := Option.map_eq_some_iff.1 h
    rw [beq_iff_eq] at hc
    subst hc
    exact ⟨mem_stringRest_iff.2 (Or.inr (Or.inr (Or.inl ⟨e, t, rfl, he, (ih ht).1⟩))),
      List.prefix_append_right_inj ['\\', e] |>.2 (ih ht).2⟩
  | case5 c hq hc u he hu h₁ h₂ h₃ h₄ cs digits ih =>
    obtain ⟨t, ht, rfl⟩ := Option.map_eq_some_iff.1 h
    rw [beq_iff_eq] at hc hu
    subst hc hu
    exact ⟨mem_stringRest_iff.2
        (Or.inr (Or.inr (Or.inr ⟨h₁, h₂, h₃, h₄, t, rfl, digits, (ih ht).1⟩))),
      List.prefix_append_right_inj ['\\', 'u', h₁, h₂, h₃, h₄] |>.2 (ih ht).2⟩
  | case10 c cs hq hb hl ih =>
    obtain ⟨t, ht, rfl⟩ := Option.map_eq_some_iff.1 h
    have hplain : plain c = true := by simp [plain_eq, hq, hb, hl]
    exact ⟨mem_stringRest_iff.2 (Or.inr (Or.inl ⟨c, t, rfl, hplain, (ih ht).1⟩)),
      (List.prefix_cons_inj c).2 (ih ht).2⟩

lemma stringTail_plain {c : Char} (hc : plain c = true) (cs : List Char) :
    stringTail (c :: cs) = (stringTail cs).map (c :: ·) := by
  rw [plain_eq] at hc
  simp only [Bool.and_eq_true, Bool.not_eq_true'] at hc
  rw [stringTail.eq_def]
  simp only [hc, Bool.false_eq_true, if_false]

lemma stringTail_escape {e : Char} (he : isEscapable e = true) (cs : List Char) :
    stringTail ('\\' :: e :: cs) = (stringTail cs).map fun t => '\\' :: e :: t := by
  rw [stringTail.eq_def]
  simp [he]

lemma stringTail_unicode {h₁ h₂ h₃ h₄ : Char}
    (digits : (Text.isHexDigit h₁ && Text.isHexDigit h₂ && Text.isHexDigit h₃
      && Text.isHexDigit h₄) = true) (cs : List Char) :
    stringTail ('\\' :: 'u' :: h₁ :: h₂ :: h₃ :: h₄ :: cs)
      = (stringTail cs).map fun t => '\\' :: 'u' :: h₁ :: h₂ :: h₃ :: h₄ :: t := by
  have hu : isEscapable 'u' = false := by decide
  rw [stringTail.eq_def]
  simp only [hu, digits]
  rfl

/-- A string is read back from any text that starts with it: its end is the first quote
that no backslash hides. -/
lemma stringTail_append {t : List Char} (mem : t ∈ stringRest.language) (rest : List Char) :
    stringTail (t ++ rest) = some t := by
  induction hn : t.length using Nat.strongRecOn generalizing t with
  | ind n ih =>
    subst hn
    rcases mem_stringRest_iff.1 mem with rfl | ⟨c, v, rfl, hc, hv⟩ | ⟨e, v, rfl, he, hv⟩ |
      ⟨h₁, h₂, h₃, h₄, v, rfl, digits, hv⟩
    · rw [List.singleton_append, stringTail.eq_def]
      rfl
    · have tail := ih v.length (by simp) hv rfl
      rw [List.cons_append, stringTail_plain hc, tail, Option.map_some]
    · have tail := ih v.length (by simp only [List.length_cons]; omega) hv rfl
      rw [List.cons_append, List.cons_append, stringTail_escape he, tail, Option.map_some]
    · have tail := ih v.length (by simp only [List.length_cons]; omega) hv rfl
      simp only [List.cons_append]
      rw [stringTail_unicode digits, tail, Option.map_some]

lemma stringTail_eq_some_iff {cs t : List Char} :
    stringTail cs = some t ↔ t ∈ stringRest.language ∧ t <+: cs := by
  constructor
  · exact stringTail_sound
  · rintro ⟨mem, rest, rfl⟩
    exact stringTail_append mem rest

end Pattern

namespace Rule

open Pattern

lemma free_matchesAt_iff {k : Kind} {p : Pattern} {cs w : List Char} :
    (free k p).MatchesAt cs w ↔ w ∈ p.language ∧ w <+: cs :=
  ⟨fun h => ⟨h.1, h.2.1⟩, fun h => ⟨h.1, h.2, fun _ _ => rfl⟩⟩

lemma fixed_matchesAt_iff {k : Kind} {spelling : String} {cs w : List Char} :
    (fixed k spelling).MatchesAt cs w ↔ w = spelling.toList ∧ spelling.toList <+: cs := by
  constructor
  · rintro ⟨mem, starts, -⟩
    rw [fixed, mem_literal] at mem
    exact ⟨mem, mem ▸ starts⟩
  · rintro ⟨rfl, starts⟩
    exact ⟨mem_literal.2 rfl, starts, fun _ _ => rfl⟩

lemma fixed_longest {k : Kind} {spelling : String} {cs : List Char}
    (h : spelling.toList <+: cs) : (fixed k spelling).Longest cs spelling.toList :=
  ⟨fixed_matchesAt_iff.2 ⟨rfl, h⟩, fun _ hv => (fixed_matchesAt_iff.1 hv).1 ▸ le_rfl⟩

/-- A reserved word has a match exactly where it is the whole run of name characters. -/
lemma reserved_matchesAt_iff {k : Keyword} {spelling : String} {cs w : List Char}
    (hword : ∀ c ∈ spelling.toList, isNameChar c = true) :
    (reserved k spelling).MatchesAt cs w ↔
      w = spelling.toList ∧ cs.takeWhile isNameChar = spelling.toList := by
  constructor
  · rintro ⟨mem, ⟨rest, rfl⟩, apart⟩
    rw [reserved, mem_literal] at mem
    subst mem
    refine ⟨rfl, ?_⟩
    rw [List.takeWhile_append_of_pos hword]
    cases rest with
    | nil => simp
    | cons c rest =>
      have stop : isNameChar c = false := by
        rw [← wordChar_eq]
        exact apart c (by simp)
      simp [stop]
  · rintro ⟨rfl, hrun⟩
    refine ⟨mem_literal.2 rfl, hrun ▸ List.takeWhile_prefix _, fun c hc => ?_⟩
    have behind : cs.drop spelling.toList.length = cs.dropWhile isNameChar := by
      conv_lhs => rw [← List.takeWhile_append_dropWhile (p := isNameChar) (l := cs), hrun,
        List.drop_left]
    rw [behind] at hc
    change wordChar c = false
    rw [wordChar_eq]
    have := List.head?_dropWhile_not isNameChar cs
    rw [hc] at this
    simpa using this

lemma reserved_longest {k : Keyword} {spelling : String} {cs : List Char}
    (hword : ∀ c ∈ spelling.toList, isNameChar c = true)
    (h : cs.takeWhile isNameChar = spelling.toList) :
    (reserved k spelling).Longest cs spelling.toList :=
  ⟨(reserved_matchesAt_iff hword).2 ⟨rfl, h⟩,
    fun _ hv => ((reserved_matchesAt_iff hword).1 hv).1 ▸ le_rfl⟩

lemma blanks_longest {c : Char} (cs : List Char) (hc : isBlank c = true) :
    blanks.Longest (c :: cs) ((c :: cs).takeWhile isBlank) := by
  have mem_iff {w : List Char} : w ∈ blanks.pattern.language ↔
      w ≠ [] ∧ ∀ d ∈ w, isBlank d = true := by
    simp only [blanks, mem_several_one, blank_eq]
  refine ⟨⟨mem_iff.2 ⟨by simp [hc], fun d hd => List.mem_takeWhile_imp hd⟩,
    List.takeWhile_prefix _, fun _ _ => rfl⟩, fun v hv => ?_⟩
  exact (prefix_takeWhile (mem_iff.1 hv.1).2 hv.2.1).length_le

lemma name_longest {c : Char} (cs : List Char) (hc : isNameStart c = true) :
    (free .name .name).Longest (c :: cs) (c :: nameTail cs) := by
  refine ⟨free_matchesAt_iff.2 ⟨mem_name_iff.2 ⟨c, _, rfl, hc, nameTail_mem cs⟩,
    (List.prefix_cons_inj c).2 (nameTail_isPrefix cs)⟩, fun v hv => ?_⟩
  obtain ⟨mem, starts⟩ := free_matchesAt_iff.1 hv
  obtain ⟨d, u, rfl, -, hu⟩ := mem_name_iff.1 mem
  have tail := prefix_nameTail hu (List.cons_prefix_cons.1 starts).2
  exact Nat.succ_le_succ tail.length_le

lemma string_matchesAt_iff {cs w : List Char} :
    (free .string .string).MatchesAt ('"' :: cs) w ↔
      ∃ t, stringTail cs = some t ∧ w = '"' :: t := by
  rw [free_matchesAt_iff, mem_string_iff]
  constructor
  · rintro ⟨⟨t, rfl, ht⟩, starts⟩
    exact ⟨t, stringTail_eq_some_iff.2 ⟨ht, (List.prefix_cons_inj _).1 starts⟩, rfl⟩
  · rintro ⟨t, ht, rfl⟩
    obtain ⟨mem, starts⟩ := stringTail_eq_some_iff.1 ht
    exact ⟨⟨t, rfl, mem⟩, (List.prefix_cons_inj _).2 starts⟩

lemma string_longest {cs t : List Char} (h : stringTail cs = some t) :
    (free .string .string).Longest ('"' :: cs) ('"' :: t) := by
  refine ⟨string_matchesAt_iff.2 ⟨t, h, rfl⟩, fun v hv => ?_⟩
  obtain ⟨u, hu, rfl⟩ := string_matchesAt_iff.1 hv
  rw [h, Option.some.injEq] at hu
  rw [hu]

lemma float_longest {cs : List Char} {n : Text.Number} (h : Text.Number.scan? cs = some n)
    (hn : n.isInteger = false) : (free .float .float).Longest cs n.source := by
  refine ⟨free_matchesAt_iff.2 ⟨number_mem_float h hn, number_source_isPrefix h⟩, fun v hv => ?_⟩
  obtain ⟨mem, starts⟩ := free_matchesAt_iff.1 hv
  obtain ⟨m, hm, -, length⟩ := number_of_isPrefix_float mem starts
  rw [h, Option.some.injEq] at hm
  exact hm ▸ length

lemma int_longest {cs : List Char} {n : Text.Number} (h : Text.Number.scan? cs = some n)
    (hn : n.isInteger = true) : (free .int .int).Longest cs n.source := by
  have source : n.source = n.sign ++ n.whole := by
    rw [Text.Number.isInteger, Bool.and_eq_true, List.isEmpty_iff, List.isEmpty_iff] at hn
    rw [Text.Number.source, hn.1, hn.2, List.append_nil, List.append_nil]
  refine ⟨free_matchesAt_iff.2 ⟨source ▸ (number_sound h).1, number_source_isPrefix h⟩,
    fun v hv => ?_⟩
  obtain ⟨mem, starts⟩ := free_matchesAt_iff.1 hv
  obtain ⟨m, hm, reach, -⟩ := number_of_isPrefix_int mem starts
  rw [h, Option.some.injEq] at hm
  rw [source, hm]
  exact reach.length_le

lemma not_float_matchesAt {cs : List Char}
    (h : ∀ n, Text.Number.scan? cs = some n → n.isInteger = true) (w : List Char) :
    ¬ (free .float .float).MatchesAt cs w := by
  intro hw
  obtain ⟨mem, starts⟩ := free_matchesAt_iff.1 hw
  obtain ⟨n, hn, fractional, -⟩ := number_of_isPrefix_float mem starts
  rw [h n hn] at fractional
  cases fractional

lemma not_int_matchesAt {cs : List Char} (h : Text.Number.scan? cs = none) (w : List Char) :
    ¬ (free .int .int).MatchesAt cs w := by
  intro hw
  obtain ⟨mem, starts⟩ := free_matchesAt_iff.1 hw
  obtain ⟨n, hn, -⟩ := number_of_isPrefix_int mem starts
  rw [h] at hn
  cases hn

lemma mem_all_iff {q : Rule} : q ∈ all ↔ q = blanks ∨ q ∈ puncts ∨
    q ∈ keywords ++ [free .name .name] ∨ q = free .string .string ∨
    q ∈ [free .float .float, free .int .int] ∨ q ∈ operators := by
  simp [all, classes, or_assoc]

lemma blanks_silent {c : Char} (h : isBlank c = false) : blanks.pattern.starts c = false := by
  rw [← blank_eq] at h
  simp [blanks, several, starts, nullable, h]

lemma puncts_silent {c : Char} (h : scanPunct c = none) :
    ∀ q ∈ puncts, q.pattern.starts c = false := by
  have apart : c ≠ '.' ∧ c ≠ ',' ∧ c ≠ '(' ∧ c ≠ ')' := by
    refine ⟨?_, ?_, ?_, ?_⟩ <;> (rintro rfl; cases h)
  simp [puncts, fixed, literal, starts, nullable, apart]

lemma words_silent {c : Char} (h : isNameStart c = false) :
    ∀ q ∈ keywords ++ [free .name .name], q.pattern.starts c = false := by
  have apart : c ≠ 'o' ∧ c ≠ 'a' ∧ c ≠ 'n' ∧ c ≠ 'i' ∧ c ≠ 'T' ∧ c ≠ 'F' ∧ c ≠ 'N' := by
    refine ⟨?_, ?_, ?_, ?_, ?_, ?_, ?_⟩ <;> (rintro rfl; cases h)
  simp [keywords, reserved, free, name, Pattern.segment, literal, starts, nullable, apart,
    wordStart_eq, h]

lemma string_silent {c : Char} (h : (c == '"') = false) :
    (free .string .string).pattern.starts c = false := by
  simp [free, string, starts, nullable, h]

lemma numbers_silent {c : Char} (h : (c == '-' || c.isDigit) = false) :
    ∀ q ∈ [free .float .float, free .int .int], q.pattern.starts c = false := by
  rw [Bool.or_eq_false_iff] at h
  have zero : c ≠ '0' := by
    rintro rfl
    cases h.2
  have nonzero : ('1' ≤ c && c ≤ '9') = false := by
    rw [← Bool.not_eq_true, nonzero_iff, h.2]
    rintro ⟨digit, -⟩
    cases digit
  simp [free, float, int, Pattern.optional, whole, starts, nullable, h.1, zero, nonzero]

lemma punct_demanded {c : Char} {p : Punct} (cs : List Char) (h : scanPunct c = some p) :
    ∃ r, Demands (c :: cs) r [c] ∧ r.kind = some (.punct p) := by
  have found : (c = '.' ∧ p = .dot) ∨ (c = ',' ∧ p = .comma) ∨ (c = '(' ∧ p = .openParen) ∨
      (c = ')' ∧ p = .closeParen) := by
    simp only [scanPunct, beq_iff_eq] at h
    grind
  have head (d : Char) : [d] <+: d :: cs := List.prefix_append [d] cs
  rcases found with ⟨rfl, rfl⟩ | ⟨rfl, rfl⟩ | ⟨rfl, rfl⟩ | ⟨rfl, rfl⟩
  · exact ⟨_, demands_of_silent [blanks] _ rfl (by decide) (fixed_longest (head '.')), rfl⟩
  · exact ⟨_, demands_of_silent (blanks :: puncts.take 1) _ rfl (by decide)
      (fixed_longest (head ',')), rfl⟩
  · exact ⟨_, demands_of_silent (blanks :: puncts.take 2) _ rfl (by decide)
      (fixed_longest (head '(')), rfl⟩
  · exact ⟨_, demands_of_silent (blanks :: puncts.take 3) _ rfl (by decide)
      (fixed_longest (head ')')), rfl⟩

lemma keywords_eq : keywords = Keyword.all.map fun k => reserved k k.word := rfl

lemma keyword_word_nameChars (k : Keyword) : ∀ c ∈ k.word.toList, isNameChar c = true := by
  have all : k.word.toList.all isNameChar = true := by cases k <;> decide
  exact List.all_eq_true.1 all

lemma keyword_matchesAt_iff {k : Keyword} {cs w : List Char} :
    (reserved k k.word).MatchesAt cs w ↔
      w = k.word.toList ∧ cs.takeWhile isNameChar = k.word.toList :=
  reserved_matchesAt_iff (keyword_word_nameChars k)

lemma isNameChar_of_isNameStart {c : Char} (h : isNameStart c = true) : isNameChar c = true := by
  rw [← wordChar_eq, wordChar, wordStart_eq, h, Bool.true_or]

/-- The first run of name characters decides between a reserved word and a name. -/
lemma word_demanded {c : Char} {cs : List Char} (blank : isBlank c = false)
    (punct : scanPunct c = none) (start : isNameStart c = true) :
    ∃ r, Demands (c :: cs) r (scanWord c cs).source ∧ r.kind = some (scanWord c cs).kind := by
  have run : (c :: cs).takeWhile isNameChar = c :: cs.takeWhile isNameChar :=
    List.takeWhile_cons_of_pos (isNameChar_of_isNameStart start)
  have front : ∀ q ∈ blanks :: puncts, q.pattern.starts c = false :=
    List.forall_mem_cons.2 ⟨blanks_silent blank, puncts_silent punct⟩
  rw [scanWord, Keyword.ofWord?]
  cases hfind : Keyword.all.find? fun k => k.word.toList == c :: cs.takeWhile isNameChar with
  | some k =>
    obtain ⟨hk, first, last, hsplit, hfirst⟩ := List.find?_eq_some_iff_append.1 hfind
    rw [beq_iff_eq] at hk
    refine ⟨reserved k k.word, demands_of_split
      (blanks :: puncts ++ first.map fun k => reserved k k.word)
      ((last.map fun k => reserved k k.word) ++ classes ++ operators) ?_ ?_ ?_, rfl⟩
    · rw [all, keywords_eq, hsplit]
      simp only [List.map_append, List.map_cons, List.append_assoc, List.cons_append]
    · intro q hq hstarts v
      rcases List.mem_append.1 hq with hq | hq
      · rw [front q hq] at hstarts
        cases hstarts
      · obtain ⟨j, hj, rfl⟩ := List.mem_map.1 hq
        rw [keyword_matchesAt_iff, run]
        rintro ⟨-, heq⟩
        have := hfirst j hj
        simp [heq] at this
    · change Longest _ _ (c :: cs.takeWhile isNameChar)
      rw [← hk]
      exact reserved_longest (keyword_word_nameChars k) (run.trans hk.symm)
  | none =>
    refine ⟨free .name .name, demands_of_split (blanks :: puncts ++ keywords) _ rfl ?_
      (name_longest cs start), rfl⟩
    intro q hq hstarts v
    rcases List.mem_append.1 hq with hq | hq
    · rw [front q hq] at hstarts
      cases hstarts
    · obtain ⟨j, hj, rfl⟩ := List.mem_map.1 (keywords_eq ▸ hq)
      rw [keyword_matchesAt_iff, run]
      rintro ⟨-, heq⟩
      have := List.find?_eq_none.1 hfind j hj
      simp [heq] at this

lemma string_demanded {cs t : List Char} (h : stringTail cs = some t) :
    Demands ('"' :: cs) (free .string .string) ('"' :: t) :=
  demands_of_silent (blanks :: puncts ++ keywords ++ classes.take 1) _ rfl (by decide)
    (string_longest h)

/-- The rules that are silent on a character which starts neither a blank nor a mark, a
word or a string. -/
lemma front_silent {c : Char} (blank : isBlank c = false) (punct : scanPunct c = none)
    (start : isNameStart c = false) (quote : (c == '"') = false) :
    ∀ q ∈ blanks :: puncts ++ keywords ++ classes.take 2, q.pattern.starts c = false := by
  intro q hq
  have hq : q = blanks ∨ q ∈ puncts ∨ q ∈ keywords ++ [free .name .name] ∨
      q = free .string .string := by
    simpa [classes, or_assoc] using hq
  rcases hq with rfl | hq | hq | rfl
  · exact blanks_silent blank
  · exact puncts_silent punct q hq
  · exact words_silent start q hq
  · exact string_silent quote

lemma number_demanded {c : Char} {cs : List Char} {n : Text.Number}
    (silent : ∀ q ∈ blanks :: puncts ++ keywords ++ classes.take 2, q.pattern.starts c = false)
    (h : Text.Number.scan? (c :: cs) = some n) :
    ∃ r, Demands (c :: cs) r n.source ∧
      r.kind = some (if n.isInteger then .int else .float) := by
  cases hn : n.isInteger with
  | false =>
    exact ⟨_, demands_of_silent (blanks :: puncts ++ keywords ++ classes.take 2) _ rfl silent
      (float_longest h hn), rfl⟩
  | true =>
    refine ⟨_, demands_of_split (blanks :: puncts ++ keywords ++ classes.take 3) _ rfl
      (fun q hq hstarts v => ?_) (int_longest h hn), rfl⟩
    have hq : q ∈ blanks :: puncts ++ keywords ++ classes.take 2 ∨ q = free .float .float := by
      simpa [classes, or_assoc] using hq
    rcases hq with hq | rfl
    · rw [silent q hq] at hstarts
      cases hstarts
    · refine not_float_matchesAt (fun m hm => ?_) v
      rw [h, Option.some.injEq] at hm
      exact hm ▸ hn

/-- The comparison signs in the order of their rules. -/
def signs : List Comparison :=
  [.notEqual, .notContains, .greaterEqual, .lessEqual, .equal, .greater, .less, .contains]

lemma operators_eq : operators = signs.map fun op => fixed (.comparison op) op.sign := rfl

/-- A sign of two characters is tried before its first character alone. -/
lemma scanComparison_eq_find? (cs : List Char) :
    scanComparison cs = signs.find? fun op => op.sign.toList.isPrefixOf cs := by
  fun_cases scanComparison cs with
  | case1 | case2 | case3 | case4 | case5 | case8 => rfl
  | case6 tail single | case7 tail single =>
    cases tail with
    | nil => rfl
    | cons d tail =>
      have apart : d ≠ '=' := by
        rintro rfl
        exact single _ rfl
      simp [signs, Comparison.sign, apart.symm]
  | case9 cs ne nc ge le eq gt lt con =>
    symm
    rw [List.find?_eq_none]
    intro op _ starts
    obtain ⟨rest, rfl⟩ := List.isPrefixOf_iff_prefix.1 starts
    cases op with
    | equal => exact eq rest rfl
    | notEqual => exact ne rest rfl
    | greater => exact gt rest rfl
    | greaterEqual => exact ge rest rfl
    | less => exact lt rest rfl
    | lessEqual => exact le rest rfl
    | contains => exact con rest rfl
    | notContains => exact nc rest rfl

lemma comparison_demanded {c : Char} {cs : List Char} {op : Comparison}
    (silent : ∀ q ∈ blanks :: puncts ++ keywords ++ classes, q.pattern.starts c = false)
    (h : scanComparison (c :: cs) = some op) :
    Demands (c :: cs) (fixed (.comparison op) op.sign) op.sign.toList := by
  rw [scanComparison_eq_find?] at h
  obtain ⟨hop, first, last, hsplit, hfirst⟩ := List.find?_eq_some_iff_append.1 h
  refine demands_of_split
    (blanks :: puncts ++ keywords ++ classes ++ first.map fun op => fixed (.comparison op) op.sign)
    (last.map fun op => fixed (.comparison op) op.sign) ?_ (fun q hq hstarts v => ?_)
    (fixed_longest (List.isPrefixOf_iff_prefix.1 hop))
  · rw [all, operators_eq, hsplit, List.map_append, List.map_cons, List.append_assoc _ _ (_ :: _)]
  · rcases List.mem_append.1 hq with hq | hq
    · rw [silent q hq] at hstarts
      cases hstarts
    · obtain ⟨j, hj, rfl⟩ := List.mem_map.1 hq
      rw [fixed_matchesAt_iff]
      rintro ⟨-, starts⟩
      have := hfirst j hj
      rw [List.isPrefixOf_iff_prefix.2 starts] at this
      cases this

lemma operators_unmatched {cs : List Char} (h : scanComparison cs = none) :
    ∀ q ∈ operators, ∀ v, ¬ q.MatchesAt cs v := by
  intro q hq v
  rw [scanComparison_eq_find?, List.find?_eq_none] at h
  obtain ⟨j, hj, rfl⟩ := List.mem_map.1 (operators_eq ▸ hq)
  rw [fixed_matchesAt_iff]
  rintro ⟨-, starts⟩
  exact h j hj (List.isPrefixOf_iff_prefix.2 starts)

end Rule

end FilterAssist.Query
