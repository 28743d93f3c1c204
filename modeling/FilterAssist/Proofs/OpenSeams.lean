import FilterAssist.Proofs.CutTexts
import FilterAssist.Proofs.LexemeSeams

/-!
# Seams in any text

A text may hold stray quotes, and a quote further on could turn all that follows one into
a string. Here nothing with a quote is added. Then white space and an opening parenthesis
keep what stands in front of them apart from what follows, and so does the dot of a path
whose name has begun: whatever comes behind, the lexer reads the front as before.
-/

namespace FilterAssist.Query

open Text Pattern

lemma isDigit_iff {c : Char} : c.isDigit = true ↔ 48 ≤ c.toNat ∧ c.toNat ≤ 57 := by
  rw [← decimal_eq, decimal, Bool.and_eq_true, decide_eq_true_eq, decide_eq_true_eq]
  exact Iff.rfl

lemma isNameStart_iff {c : Char} : isNameStart c = true ↔
    (65 ≤ c.toNat ∧ c.toNat ≤ 90) ∨ (97 ≤ c.toNat ∧ c.toNat ≤ 122) ∨ c.toNat = 95 := by
  rw [← wordStart_eq, wordStart]
  simp only [Bool.or_eq_true, Bool.and_eq_true, decide_eq_true_eq, beq_iff_eq, or_assoc,
    ← Char.toNat_inj]
  exact Iff.rfl

lemma isNameChar_iff {c : Char} :
    isNameChar c = true ↔ isNameStart c = true ∨ c.isDigit = true := by
  rw [← wordChar_eq, wordChar, wordStart_eq, decimal_eq, Bool.or_eq_true]

lemma not_isDigit_of_isNameStart {c : Char} (h : isNameStart c = true) : ¬ c.isDigit = true := by
  rw [isNameStart_iff] at h
  rw [isDigit_iff]
  omega

/-- White space lies outside of the characters that lexemes are made of. -/
lemma isSpace_outside {c : Char} (h : isSpace c = true) : c.toNat ≤ 32 ∨ 133 ≤ c.toNat := by
  simp only [isSpace, Bool.or_eq_true, Bool.and_eq_true, decide_eq_true_eq, beq_iff_eq] at h
  omega

lemma isSpace_of_isBlank {c : Char} (h : isBlank c = true) : isSpace c = true := by
  simp only [isBlank, Bool.or_eq_true, beq_iff_eq] at h
  rcases h with (((rfl | rfl) | rfl) | rfl) | rfl <;> decide

/-- Characters that stand in no lexeme beside another character, strings apart. -/
def isFence (c : Char) : Bool := isSpace c || c == '('

lemma isFence_of_isSpace {c : Char} (h : isSpace c = true) : isFence c = true := by
  rw [isFence, h, Bool.true_or]

lemma isFence_eq_false {c : Char} (visible : 33 ≤ c.toNat ∧ c.toNat ≤ 126) (other : c ≠ '(') :
    isFence c = false := by
  have unspaced : isSpace c = false := by
    by_contra space
    have := isSpace_outside (by simpa using space)
    omega
  simp [isFence, unspaced, other]

lemma isFence_of_isNameChar {c : Char} (h : isNameChar c = true) : isFence c = false := by
  refine isFence_eq_false ?_ (by rintro rfl; cases h)
  rw [isNameChar_iff, isNameStart_iff, isDigit_iff] at h
  omega

/-- Everything that can be found at the head of a text. -/
lemma scan_cases {c : Char} {cs : List Char} {l : Lexeme} (h : scan (c :: cs) = some l) :
    (∃ p, scanPunct c = some p ∧ l = ⟨.punct p, [c]⟩) ∨
    (isNameStart c = true ∧ l = scanWord c cs) ∨
    (c = '"' ∧ ∃ t, stringTail cs = some t ∧ l = ⟨.string, c :: t⟩) ∨
    ((c = '-' ∨ c.isDigit = true) ∧ ∃ n, Number.scan? (c :: cs) = some n ∧
      l = ⟨if n.isInteger then .int else .float, n.source⟩) ∨
    ∃ op, scanComparison (c :: cs) = some op ∧ l = ⟨.comparison op, op.sign.toList⟩ := by
  rw [scan] at h
  split at h
  · cases h
  split at h
  · next p punct =>
    cases h
    exact Or.inl ⟨p, punct, rfl⟩
  split at h
  · next start =>
    cases h
    exact Or.inr (Or.inl ⟨start, rfl⟩)
  split at h
  · next quote =>
    obtain ⟨t, ht, rfl⟩ := Option.map_eq_some_iff.1 h
    exact Or.inr (Or.inr (Or.inl ⟨beq_iff_eq.1 quote, t, ht, rfl⟩))
  split at h
  · next digit =>
    obtain ⟨n, hn, rfl⟩ := Option.map_eq_some_iff.1 h
    rw [Bool.or_eq_true, beq_iff_eq] at digit
    exact Or.inr (Or.inr (Or.inr (Or.inl ⟨digit, n, hn, rfl⟩)))
  · obtain ⟨op, hop, rfl⟩ := Option.map_eq_some_iff.1 h
    exact Or.inr (Or.inr (Or.inr (Or.inr ⟨op, hop, rfl⟩)))

/-- Where none of the marks stands, no mark is scanned. -/
lemma scanPunct_eq_none {c : Char} (h : c ≠ '.' ∧ c ≠ ',' ∧ c ≠ '(' ∧ c ≠ ')') :
    scanPunct c = none := by
  simp [scanPunct, h]

lemma scan_of_isNameStart {c : Char} (h : isNameStart c = true) (cs : List Char) :
    scan (c :: cs) = some (scanWord c cs) := by
  have unblank : isBlank c = false := by
    by_contra blank
    have := isSpace_outside (isSpace_of_isBlank (by simpa using blank))
    rw [isNameStart_iff] at h
    omega
  have unmarked : scanPunct c = none := by
    refine scanPunct_eq_none ⟨?_, ?_, ?_, ?_⟩ <;> rintro rfl <;> cases h
  rw [scan, unblank, unmarked, h]
  rfl

/-- White space starts no lexeme. -/
lemma scan_of_isSpace {c : Char} (h : isSpace c = true) (cs : List Char) :
    scan (c :: cs) = none := by
  have outside := isSpace_outside h
  have apart {d : Char} (visible : 33 ≤ d.toNat ∧ d.toNat ≤ 126) : c ≠ d := by
    rintro rfl
    omega
  cases found : scan (c :: cs) with
  | none => rfl
  | some l =>
    exfalso
    rcases scan_cases found with ⟨p, punct, -⟩ | ⟨start, -⟩ | ⟨rfl, -⟩ | ⟨digit, -⟩ | ⟨op, hop, -⟩
    · have unmarked : scanPunct c = none := by
        refine scanPunct_eq_none ⟨apart ?_, apart ?_, apart ?_, apart ?_⟩ <;> decide
      rw [unmarked] at punct
      cases punct
    · rw [isNameStart_iff] at start
      omega
    · cases h
    · rcases digit with rfl | digit
      · cases h
      · rw [isDigit_iff] at digit
        omega
    · rw [Rule.scanComparison_eq_find?] at hop
      have starts : op.sign.toList.isPrefixOf (c :: cs) = true :=
        List.find?_some (p := fun op : Comparison => op.sign.toList.isPrefixOf (c :: cs)) hop
      obtain ⟨rest, hrest⟩ := List.isPrefixOf_iff_prefix.1 starts
      cases op <;> exact apart (by decide) (List.cons.inj hrest).1.symm

/-- A name is made of name characters and dots. -/
lemma nameTail_chars (cs : List Char) : ∀ c ∈ nameTail cs, isNameChar c = true ∨ c = '.' := by
  fun_induction nameTail cs with
  | case1 | case3 | case5 | case6 => intro c hc; cases hc
  | case2 c cs hc ih =>
    intro d hd
    rcases List.mem_cons.1 hd with rfl | hd
    · exact Or.inl hc
    · exact ih d hd
  | case4 c hc hdot e es he ih =>
    intro d hd
    rcases List.mem_cons.1 hd with rfl | hd
    · exact Or.inr (beq_iff_eq.1 hdot)
    rcases List.mem_cons.1 hd with rfl | hd
    · exact Or.inl (Rule.isNameChar_of_isNameStart he)
    · exact ih d hd

lemma scanWord_chars {c : Char} (start : isNameStart c = true) (cs : List Char) :
    ∀ d ∈ (scanWord c cs).source, isNameChar d = true ∨ d = '.' := by
  rw [scanWord]
  split
  · intro d hd
    rcases List.mem_cons.1 hd with rfl | hd
    · exact Or.inl (Rule.isNameChar_of_isNameStart start)
    · exact Or.inl (List.mem_takeWhile_imp hd)
  · intro d hd
    rcases List.mem_cons.1 hd with rfl | hd
    · exact Or.inl (Rule.isNameChar_of_isNameStart start)
    · exact nameTail_chars cs d hd

lemma whole_chars {w : List Char} (h : w ∈ int.language) :
    ∀ c ∈ w, c.isDigit = true ∨ c = '-' := by
  obtain ⟨sign, v, rfl, hsign, hv⟩ := mem_int_iff.1 h
  have digits : ∀ c ∈ v, c.isDigit = true := by
    rcases mem_whole_iff.1 hv with rfl | ⟨d, w, rfl, hd, -, hw⟩
    · exact List.forall_mem_singleton.2 rfl
    · exact List.forall_mem_cons.2 ⟨hd, hw⟩
  intro c hc
  rcases List.mem_append.1 hc with hc | hc
  · rcases hsign with rfl | rfl
    · cases hc
    · exact Or.inr (List.mem_singleton.1 hc)
  · exact Or.inl (digits c hc)

/-- In front of its exponent a number has no letter, and in the exponent no dot. -/
lemma number_chars {cs : List Char} {n : Number} (h : Number.scan? cs = some n) :
    (∀ c ∈ n.sign ++ n.whole ++ n.fraction, c.isDigit = true ∨ c = '-' ∨ c = '.') ∧
      ∀ c ∈ n.exponent, isNameChar c = true ∨ c = '+' ∨ c = '-' := by
  obtain ⟨mem, rest, -, hfraction, hexponent⟩ := number_sound h
  constructor
  · intro c hc
    rcases List.mem_append.1 hc with hc | hc
    · rcases whole_chars mem c hc with digit | minus
      · exact Or.inl digit
      · exact Or.inr (Or.inl minus)
    rw [hfraction] at hc
    rcases fractionPart_sound rest with none | some
    · rw [none] at hc
      cases hc
    · obtain ⟨ds, heq, -, hds⟩ := mem_fraction_iff.1 some
      rw [heq] at hc
      rcases List.mem_cons.1 hc with rfl | hc
      · exact Or.inr (Or.inr rfl)
      · exact Or.inl (hds c hc)
  · intro c hc
    rw [hexponent] at hc
    rcases exponentPart_sound (rest.drop n.fraction.length) with none | some
    · rw [none] at hc
      cases hc
    · obtain ⟨e, sign, ds, heq, he, hsign, -, hds⟩ := mem_exponent_iff.1 some
      rw [heq] at hc
      rcases List.mem_cons.1 hc with rfl | hc
      · rcases he with rfl | rfl <;> decide
      rcases List.mem_append.1 hc with hc | hc
      · rcases hsign with rfl | rfl | rfl
        · cases hc
        · exact Or.inr (Or.inl (List.mem_singleton.1 hc))
        · exact Or.inr (Or.inr (List.mem_singleton.1 hc))
      · exact Or.inl (isNameChar_iff.2 (Or.inr (hds c hc)))

/-- Behind a letter of a number there is no dot. -/
lemma not_dot_mem_of_letter {cs front back : List Char} {n : Number} {c : Char}
    (h : Number.scan? cs = some n) (source : n.source = front ++ c :: back)
    (letter : isNameStart c = true) : '.' ∉ back := by
  obtain ⟨early, late⟩ := number_chars h
  have absent : c ∉ n.sign ++ n.whole ++ n.fraction := by
    intro hc
    rcases early c hc with digit | rfl | rfl
    · exact not_isDigit_of_isNameStart letter digit
    · cases letter
    · cases letter
  have inside : back <:+ n.exponent := by
    rw [Number.source] at source
    rcases List.append_eq_append_iff.1 source with ⟨mid, -, rest⟩ | ⟨mid, parts, rest⟩
    · exact ⟨mid ++ [c], by simp [rest]⟩
    · cases mid with
      | nil => exact ⟨[c], by simpa using rest⟩
      | cons d mid =>
        obtain ⟨rfl, -⟩ := List.cons.inj rest
        exact absurd (by simp [parts]) absent
  intro dot
  rcases late '.' (inside.mem dot) with name | plus | minus
  · cases name
  · cases plus
  · cases minus

lemma stringTail_ends {cs t : List Char} (h : stringTail cs = some t) :
    ∃ init, t = init ++ ['"'] := by
  fun_induction stringTail cs generalizing t with
  | case1 | case3 | case6 | case7 | case8 | case9 => cases h
  | case2 c cs hc =>
    cases h
    exact ⟨[], by rw [beq_iff_eq.1 hc, List.nil_append]⟩
  | case4 c _ _ e cs _ ih =>
    obtain ⟨t, ht, rfl⟩ := Option.map_eq_some_iff.1 h
    obtain ⟨init, rfl⟩ := ih ht
    exact ⟨c :: e :: init, rfl⟩
  | case5 c _ _ e _ _ h₁ h₂ h₃ h₄ cs _ ih =>
    obtain ⟨t, ht, rfl⟩ := Option.map_eq_some_iff.1 h
    obtain ⟨init, rfl⟩ := ih ht
    exact ⟨c :: e :: h₁ :: h₂ :: h₃ :: h₄ :: init, rfl⟩
  | case10 c cs _ _ _ ih =>
    obtain ⟨t, ht, rfl⟩ := Option.map_eq_some_iff.1 h
    obtain ⟨init, rfl⟩ := ih ht
    exact ⟨c :: init, rfl⟩

/-- A lexeme ends in a quote, or is a single character, or holds no fence. -/
theorem scan_fenceless {cs : List Char} {l : Lexeme} (h : scan cs = some l) :
    (∃ init, l.source = init ++ ['"']) ∨ (∃ c, l.source = [c]) ∨
      ∀ c ∈ l.source, isFence c = false := by
  have fenceless {c : Char} (name : isNameChar c = true ∨ c = '.') : isFence c = false := by
    rcases name with name | rfl
    · exact isFence_of_isNameChar name
    · decide
  cases cs with
  | nil => cases h
  | cons c cs =>
    rcases scan_cases h with ⟨p, -, rfl⟩ | ⟨start, rfl⟩ | ⟨-, t, ht, rfl⟩ |
      ⟨-, n, hn, rfl⟩ | ⟨op, -, rfl⟩
    · exact Or.inr (Or.inl ⟨c, rfl⟩)
    · exact Or.inr (Or.inr fun d hd => fenceless (scanWord_chars start cs d hd))
    · obtain ⟨init, rfl⟩ := stringTail_ends ht
      exact Or.inl ⟨c :: init, rfl⟩
    · refine Or.inr (Or.inr fun d hd => ?_)
      obtain ⟨early, late⟩ := number_chars hn
      rcases List.mem_append.1 hd with hd | hd
      · rcases early d hd with digit | rfl | rfl
        · exact isFence_of_isNameChar (isNameChar_iff.2 (Or.inr digit))
        · decide
        · decide
      · rcases late d hd with name | rfl | rfl
        · exact isFence_of_isNameChar name
        · decide
        · decide
    · have all : op.sign.toList.all (fun d => !isFence d) = true := by cases op <;> decide
      exact Or.inr (Or.inr fun d hd => by simpa using List.all_eq_true.1 all d hd)

/-- Text may be added behind `v` when a lexeme that reaches over `v` into it reached into
`v` before. -/
lemma standsFor_append {v x : List Char}
    (reach : ∀ u l, u ≠ [] → scan (u ++ (v ++ x)) = some l → (u ++ v).length < l.source.length →
      ∃ k, scan (u ++ v) = some k ∧ u.length < k.source.length) : StandsFor (v ++ x) v := by
  intro u nonempty
  have cut {l : Lexeme} (h : scan (u ++ (v ++ x)) = some l)
      (short : l.source.length ≤ (u ++ v).length) : scan (u ++ v) = some l := by
    rw [← List.append_assoc] at h
    exact scan_of_append h short
  constructor
  · intro l found within
    cases h : scan (u ++ (v ++ x)) with
    | none =>
      rw [← List.append_assoc] at h
      rw [scan_none_of_append h] at found
      cases found
    | some l' =>
      by_cases short : l'.source.length ≤ (u ++ v).length
      · rw [← found, cut h short]
      · obtain ⟨k, hk, long⟩ := reach u l' nonempty h (Nat.lt_of_not_le short)
        obtain rfl : l = k := Option.some.inj (found.symm.trans hk)
        omega
  · intro none
    cases h : scan (u ++ (v ++ x)) with
    | none => rfl
    | some l' =>
      by_cases short : l'.source.length ≤ (u ++ v).length
      · rw [cut h short] at none
        cases none
      · obtain ⟨k, hk, -⟩ := reach u l' nonempty h (Nat.lt_of_not_le short)
        rw [hk] at none
        cases none

/-- What a long lexeme at the head of `u ++ v ++ x` holds. -/
lemma source_eq_append {u x : List Char} {l : Lexeme} (h : scan (u ++ x) = some l)
    (long : u.length < l.source.length) : ∃ y, y ≠ [] ∧ l.source = u ++ y ∧ y <+: x := by
  have starts := scan_source_isPrefix h
  obtain ⟨y, hy⟩ := List.prefix_of_prefix_length_le (List.prefix_append u x) starts long.le
  rw [← hy, List.prefix_append_right_inj] at starts
  refine ⟨y, ?_, hy.symm, starts⟩
  rintro rfl
  simp [← hy] at long

/-- The last character of a list with a nonempty end is in that end. -/
lemma last_mem_of_append_eq {u y init : List Char} {c : Char} (nonempty : y ≠ [])
    (h : u ++ y = init ++ [c]) : c ∈ y := by
  have last := congrArg List.getLast? h
  rw [List.getLast?_concat, List.getLast?_append_of_ne_nil _ nonempty] at last
  exact List.mem_of_getLast? last

/-- Behind any text a fence may follow, with anything but a quote behind it. -/
lemma standsFor_fence {b : Char} {r : List Char} (fence : isFence b = true) (plain : '"' ∉ r) :
    StandsFor (b :: r) [] := by
  refine standsFor_append (v := []) fun u l nonempty h long => ?_
  rw [List.nil_append] at h
  rw [List.append_nil] at long
  exfalso
  obtain ⟨y, hne, source, starts⟩ := source_eq_append h long
  obtain ⟨d, y, rfl⟩ := List.exists_cons_of_ne_nil hne
  obtain ⟨rfl, behind⟩ := List.cons_prefix_cons.1 starts
  rcases scan_fenceless h with ⟨init, ends⟩ | ⟨c, single⟩ | fenceless
  · rcases List.mem_cons.1 (last_mem_of_append_eq hne (source.symm.trans ends)) with rfl | quote
    · cases fence
    · exact plain (behind.subset quote)
  · rw [source] at single
    have := congrArg List.length single
    have := List.length_pos_iff.2 nonempty
    simp only [List.length_append, List.length_cons, List.length_nil] at *
    omega
  · have := fenceless d (by simp [source])
    rw [fence] at this
    cases this

lemma mem_nameRest_of_dot {w x : List Char} (h : w ++ '.' :: x ∈ nameRest.language) :
    w ∈ nameRest.language := by
  induction hlen : w.length using Nat.strongRecOn generalizing w with
  | ind length ih =>
    subst hlen
    rcases mem_nameRest_iff.1 h with none | ⟨c, v, heq, hc, hv⟩ | ⟨d, v, heq, hd, hv⟩
    · simp at none
    · cases w with
      | nil =>
        obtain ⟨rfl, -⟩ := List.cons.inj heq
        cases hc
      | cons b w =>
        obtain ⟨rfl, rfl⟩ := List.cons.inj heq
        exact mem_nameRest_iff.2 (Or.inr (Or.inl ⟨b, w, rfl, hc, ih _ (Nat.lt_succ_self _) hv rfl⟩))
    · rcases w with - | ⟨b, - | ⟨e, w⟩⟩
      · exact mem_nameRest_iff.2 (Or.inl rfl)
      · obtain ⟨-, tail⟩ := List.cons.inj heq
        obtain ⟨rfl, -⟩ := List.cons.inj tail
        cases hd
      · obtain ⟨rfl, tail⟩ := List.cons.inj heq
        obtain ⟨rfl, rfl⟩ := List.cons.inj tail
        have shorter : w.length < ('.' :: e :: w).length := by
          simp only [List.length_cons]
          omega
        exact mem_nameRest_iff.2 (Or.inr (Or.inr ⟨e, w, rfl, hd, ih _ shorter hv rfl⟩))

lemma takeWhile_dot (w x : List Char) :
    (w ++ '.' :: x).takeWhile isNameChar = w.takeWhile isNameChar := by
  have dot : isNameChar '.' = false := by decide
  rw [List.takeWhile_append]
  split
  · next whole =>
    rw [List.takeWhile_cons_of_neg (by simp [dot]), List.append_nil]
    exact ((List.takeWhile_prefix _).eq_of_length whole).symm
  · rfl

/-- A name that reaches over a dot reaches up to it without what follows. -/
lemma scanWord_dot {c : Char} {w x : List Char}
    (long : (c :: w).length < (scanWord c (w ++ '.' :: x)).source.length) :
    c :: w <+: (scanWord c (w ++ ['.'])).source := by
  simp only [scanWord, takeWhile_dot] at long ⊢
  cases hword : Keyword.ofWord? (c :: w.takeWhile isNameChar) with
  | some k =>
    have := (List.takeWhile_prefix isNameChar (l := w)).length_le
    simp only [hword, List.length_cons] at long
    omega
  | none =>
    simp only [hword, List.length_cons] at long ⊢
    refine (List.prefix_cons_inj c).2 (prefix_nameTail ?_ (List.prefix_append w ['.']))
    have starts := nameTail_isPrefix (w ++ '.' :: x)
    obtain ⟨y, hy⟩ := List.prefix_of_prefix_length_le (List.prefix_append w _) starts (by omega)
    rw [← hy, List.prefix_append_right_inj] at starts
    cases y with
    | nil => simp [← hy] at long
    | cons d y =>
      obtain ⟨rfl, -⟩ := List.cons_prefix_cons.1 starts
      exact mem_nameRest_of_dot (hy ▸ nameTail_mem (w ++ '.' :: x))

/-- Behind a name and a dot anything but a quote may follow. -/
lemma standsFor_dotted {c : Char} {rest x : List Char} (start : isNameStart c = true)
    (plain : '"' ∉ x) : StandsFor (c :: rest ++ '.' :: x) (c :: rest ++ ['.']) := by
  have split : c :: rest ++ '.' :: x = (c :: rest ++ ['.']) ++ x := by simp
  rw [split]
  refine standsFor_append fun u l nonempty h long => ?_
  rw [← List.append_assoc] at h
  obtain ⟨y, hne, source, starts⟩ := source_eq_append h long
  obtain ⟨b, u, rfl⟩ := List.exists_cons_of_ne_nil nonempty
  simp only [List.cons_append] at h
  rcases scan_cases h with ⟨p, -, rfl⟩ | ⟨begins, rfl⟩ | ⟨-, t, ht, rfl⟩ |
    ⟨-, n, hn, rfl⟩ | ⟨op, -, rfl⟩
  · simp at long
  · have glue (z : List Char) : u ++ c :: (rest ++ '.' :: z) = (u ++ c :: rest) ++ '.' :: z := by
      simp
    have front : b :: (u ++ c :: rest) <+: (scanWord b (u ++ c :: (rest ++ ['.']))).source := by
      rw [glue]
      refine scanWord_dot (x := x) ?_
      simp only [List.append_assoc, List.cons_append, List.nil_append, List.length_cons,
        List.length_append, List.length_nil] at long ⊢
      omega
    have reach := front.length_le
    simp only [List.length_append, List.length_cons] at reach
    refine ⟨_, scan_of_isNameStart begins _, ?_⟩
    change (b :: u).length < (scanWord b (u ++ c :: (rest ++ ['.']))).source.length
    rw [List.length_cons]
    omega
  · obtain ⟨init, rfl⟩ := stringTail_ends ht
    have ends : (b :: u ++ (c :: rest ++ ['.'])) ++ y = (b :: init) ++ ['"'] := source.symm
    have quote := last_mem_of_append_eq hne ends
    exact absurd (starts.subset quote) plain
  · have inside : n.source = (b :: u) ++ c :: (rest ++ '.' :: y) := by
      simpa using source
    exact absurd (by simp) (not_dot_mem_of_letter hn inside start)
  · have short : op.sign.toList.length ≤ 2 := by cases op <;> decide
    simp only [List.length_append, List.length_cons, List.length_nil] at long
    omega

lemma passes_space {space : List Char} (blank : ∀ c ∈ space, isSpace c = true) (n : Nat)
    (rest : List Char) : Passes ⟨n, space ++ rest⟩ [] ⟨n + space.length, rest⟩ := by
  induction space generalizing n with
  | nil => exact .here
  | cons c space ih =>
    obtain ⟨first, later⟩ := List.forall_mem_cons.1 blank
    have target : n + (c :: space).length = n + 1 + space.length := by
      simp only [List.length_cons]
      omega
    rw [target]
    exact .skip (scan_of_isSpace first _) (ih later (n + 1))

/-- Nothing, or text that ends in a fence. -/
inductive Parted : List Char → Prop
  | nil : Parted []
  | behind (u : List Char) {b : Char} (fence : isFence b = true) : Parted (u ++ [b])

lemma passes_to_fence {b : Char} {r : List Char} (fence : isFence b = true) (plain : '"' ∉ r)
    (n : Nat) (u : List Char) :
    Passes ⟨n, u ++ b :: r⟩ (Lexer.mk n u).tokens ⟨n + u.length, b :: r⟩ := by
  refine Passes.exchange (standsFor_fence fence plain) ?_
  rw [List.append_nil]
  exact passes_to_end n u

/-- Behind text that ends in a fence the lexer starts afresh. -/
theorem Parted.passes {u v : List Char} (h : Parted u) (plain : '"' ∉ v) (n : Nat) :
    Passes ⟨n, u ++ v⟩ (Lexer.mk n u).tokens ⟨n + u.length, v⟩ := by
  cases h with
  | nil => simpa using Passes.here
  | @behind u b fence =>
    have step (r : List Char) (m : Nat) :
        Passes ⟨m, b :: r⟩ (Lexer.mk m [b]).tokens ⟨m + 1, r⟩ := by
      rw [isFence, Bool.or_eq_true, beq_iff_eq] at fence
      rcases fence with space | rfl
      · rw [tokens_of_scan_eq_none (scan_of_isSpace space []), tokens_nil]
        exact .skip (scan_of_isSpace space r) .here
      · rw [tokens_lexeme (scan_openParen [])]
        exact .read (scan_openParen r) .here
    have first := passes_to_fence fence plain n u
    have all : (Lexer.mk n (u ++ [b])).tokens
        = (Lexer.mk n u).tokens ++ (Lexer.mk (n + u.length) [b]).tokens :=
      (passes_to_fence fence List.not_mem_nil n u).tokens
    have run := first.trans (step v (n + u.length))
    rw [← all] at run
    simpa [Nat.add_assoc] using run

/-- A run up to a dotted path stays one however the path goes on. -/
theorem Passes.dotted {n : Nat} {c : Char} {u rest p x : List Char} {ts : List Token}
    (run : Passes ⟨n, u ++ (c :: rest ++ '.' :: p)⟩ ts ⟨n + u.length, c :: rest ++ '.' :: p⟩)
    (start : isNameStart c = true) (plain : '"' ∉ x) :
    Passes ⟨n, u ++ (c :: rest ++ '.' :: x)⟩ ts ⟨n + u.length, c :: rest ++ '.' :: x⟩ := by
  have cut : c :: rest ++ ['.'] <+: c :: rest ++ '.' :: p := ⟨p, by simp⟩
  exact (run.exchange (standsFor_of_isPrefix cut)).exchange (standsFor_dotted start plain)

end FilterAssist.Query
