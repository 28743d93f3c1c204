import FilterAssist.Proofs.GrammarPatterns
import Mathlib.Data.List.TakeWhile

/-!
# Numbers follow the grammar

The parts of a number are read greedily, and the grammar leaves no other way to cut
them: a part that stopped early would be followed by one of its own digits, but what may
follow it starts with something else.
-/

namespace FilterAssist.Query

open Text

/-- The digits end where something else begins. -/
lemma digits_append_of_all {ds rest : List Char} (all : ∀ c ∈ ds, c.isDigit = true)
    (stop : digits rest = []) : digits (ds ++ rest) = ds := by
  rw [digits, List.takeWhile_append_of_pos all]
  simpa [digits] using stop

namespace Pattern

lemma prefix_takeWhile {test : Char → Bool} {w cs : List Char} (hw : ∀ c ∈ w, test c = true)
    (h : w <+: cs) : w <+: cs.takeWhile test := by
  obtain ⟨rest, rfl⟩ := h
  rw [List.takeWhile_append_of_pos hw]
  exact List.prefix_append _ _

/-- Two cuts of one text agree when the shorter first part would stop inside the longer
one, at a character that its own second part cannot start with. -/
lemma cut_unique {test : Char → Bool} {u v b rest : List Char} {c : Char} (short : u <+: b)
    (inside : ∀ d r, b = u ++ d :: r → test d = true) (h : u ++ c :: v <+: b ++ rest)
    (stops : test c = false) : u = b ∧ c :: v <+: rest := by
  obtain ⟨r, rfl⟩ := short
  rw [List.append_assoc, List.prefix_append_right_inj] at h
  cases r with
  | nil => exact ⟨(List.append_nil u).symm, h⟩
  | cons d r =>
    obtain ⟨rfl, -⟩ := List.cons_prefix_cons.1 h
    rw [inside c r rfl] at stops
    cases stops

lemma nonzero_iff (c : Char) :
    ('1' ≤ c && c ≤ '9') = true ↔ c.isDigit = true ∧ c ≠ '0' := by
  rw [← decimal_eq, decimal, ne_eq, ← Char.toNat_inj]
  simp only [Bool.and_eq_true, decide_eq_true_eq, Char.le_def, UInt32.le_iff_toNat_le]
  change 49 ≤ c.toNat ∧ c.toNat ≤ 57 ↔ (48 ≤ c.toNat ∧ c.toNat ≤ 57) ∧ ¬ c.toNat = 48
  omega

lemma mem_whole_iff {w : List Char} :
    w ∈ whole.language ↔ w = ['0'] ∨
      ∃ c v, w = c :: v ∧ c.isDigit = true ∧ c ≠ '0' ∧ ∀ d ∈ v, d.isDigit = true := by
  rw [whole, mem_alt, mem_one_seq]
  simp only [nonzero_iff, mem_many_one, decimal_eq, mem_one, beq_iff_eq, exists_eq_left, and_assoc]

lemma wholePart_sound {cs w : List Char} (h : wholePart cs = some w) :
    w ∈ whole.language ∧ w <+: cs := by
  cases cs with
  | nil => cases h
  | cons c cs =>
    rw [wholePart] at h
    split at h
    · next hc =>
      cases h
      rw [beq_iff_eq] at hc
      subst hc
      exact ⟨mem_whole_iff.2 (Or.inl rfl), List.prefix_append ['0'] cs⟩
    next hzero =>
    split at h
    · next hc =>
      cases h
      refine ⟨mem_whole_iff.2 (Or.inr ⟨c, digits cs, rfl, hc, ?_, fun d hd => ?_⟩),
        (List.prefix_cons_inj c).2 (List.takeWhile_prefix _)⟩
      · simpa using hzero
      · exact List.mem_takeWhile_imp hd
    · cases h

/-- The whole part reaches over every whole number at the head, by digits only. -/
lemma wholePart_longest {cs u : List Char} (mem : u ∈ whole.language) (h : u <+: cs) :
    ∃ w, wholePart cs = some w ∧ u <+: w ∧ ∀ d r, w = u ++ d :: r → d.isDigit = true := by
  obtain ⟨rest, rfl⟩ := h
  rcases mem_whole_iff.1 mem with rfl | ⟨c, v, rfl, hc, hzero, hv⟩
  · exact ⟨['0'], rfl, List.prefix_rfl, fun d r heq => by simp at heq⟩
  · have reach : v <+: digits (v ++ rest) := prefix_takeWhile hv (List.prefix_append v rest)
    refine ⟨c :: digits (v ++ rest), ?_, (List.prefix_cons_inj c).2 reach, fun d r heq => ?_⟩
    · rw [List.cons_append, wholePart]
      simp [hc, hzero]
    · have inside : d ∈ digits (v ++ rest) := by
        rw [List.cons_append, List.cons.injEq] at heq
        rw [heq.2]
        exact List.mem_append_right _ List.mem_cons_self
      exact List.mem_takeWhile_imp inside

lemma mem_int_iff {w : List Char} :
    w ∈ int.language ↔ ∃ sign u, w = sign ++ u ∧ (sign = [] ∨ sign = ['-']) ∧
      u ∈ whole.language := by
  rw [int, mem_seq]
  simp only [mem_optional, mem_one, beq_iff_eq, exists_eq_left]
  constructor
  · rintro ⟨sign, hsign, u, hu, rfl⟩
    exact ⟨sign, u, rfl, hsign, hu⟩
  · rintro ⟨sign, u, rfl, hsign, hu⟩
    exact ⟨sign, hsign, u, hu, rfl⟩

lemma mem_fraction_iff {w : List Char} :
    w ∈ fraction.language ↔ ∃ v, w = '.' :: v ∧ v ≠ [] ∧ ∀ d ∈ v, d.isDigit = true := by
  rw [fraction, mem_one_seq]
  simp only [mem_several_one, decimal_eq, beq_iff_eq]
  constructor
  · rintro ⟨_, v, rfl, rfl, hv⟩
    exact ⟨v, rfl, hv⟩
  · rintro ⟨v, rfl, hv⟩
    exact ⟨'.', v, rfl, rfl, hv⟩

lemma mem_exponent_iff {w : List Char} :
    w ∈ exponent.language ↔ ∃ e sign v, w = e :: (sign ++ v) ∧ (e = 'e' ∨ e = 'E') ∧
      (sign = [] ∨ sign = ['+'] ∨ sign = ['-']) ∧ v ≠ [] ∧ ∀ d ∈ v, d.isDigit = true := by
  rw [exponent, mem_one_seq]
  simp only [mem_seq, mem_optional, mem_one, mem_several_one, decimal_eq, Bool.or_eq_true,
    beq_iff_eq]
  constructor
  · rintro ⟨e, _, rfl, he, sign, hsign, v, hv, rfl⟩
    refine ⟨e, sign, v, rfl, he, ?_, hv⟩
    rcases hsign with rfl | ⟨s, rfl | rfl, rfl⟩
    · exact Or.inl rfl
    · exact Or.inr (Or.inl rfl)
    · exact Or.inr (Or.inr rfl)
  · rintro ⟨e, sign, v, rfl, he, hsign, hv⟩
    refine ⟨e, _, rfl, he, sign, ?_, v, hv, rfl⟩
    rcases hsign with rfl | rfl | rfl
    · exact Or.inl rfl
    · exact Or.inr ⟨'+', Or.inl rfl, rfl⟩
    · exact Or.inr ⟨'-', Or.inr rfl, rfl⟩

lemma fractionPart_isPrefix (cs : List Char) : fractionPart cs <+: cs := by
  cases cs with
  | nil => exact List.nil_prefix
  | cons c cs =>
    rw [fractionPart]
    split
    · split
      · exact List.nil_prefix
      · exact (List.prefix_cons_inj c).2 (List.takeWhile_prefix _)
    · exact List.nil_prefix

lemma fractionPart_sound (cs : List Char) :
    fractionPart cs = [] ∨ fractionPart cs ∈ fraction.language := by
  cases cs with
  | nil => exact Or.inl rfl
  | cons c cs =>
    rw [fractionPart]
    split
    · next hc =>
      rw [beq_iff_eq] at hc
      subst hc
      split
      · exact Or.inl rfl
      · next hne =>
        refine Or.inr (mem_fraction_iff.2 ⟨digits cs, rfl, ?_, fun d hd => ?_⟩)
        · simpa using hne
        · exact List.mem_takeWhile_imp hd
    · exact Or.inl rfl

lemma fractionPart_longest {cs u : List Char} (mem : u ∈ fraction.language) (h : u <+: cs) :
    u <+: fractionPart cs ∧ ∀ d r, fractionPart cs = u ++ d :: r → d.isDigit = true := by
  obtain ⟨rest, rfl⟩ := h
  obtain ⟨v, rfl, hne, hv⟩ := mem_fraction_iff.1 mem
  have reach : v <+: digits (v ++ rest) := prefix_takeWhile hv (List.prefix_append v rest)
  have found : digits (v ++ rest) ≠ [] := fun hnil => hne (List.prefix_nil.1 (hnil ▸ reach))
  have part : fractionPart ('.' :: v ++ rest) = '.' :: digits (v ++ rest) := by
    rw [List.cons_append, fractionPart]
    simp [found]
  rw [part]
  refine ⟨(List.prefix_cons_inj '.').2 reach, fun d r heq => ?_⟩
  have inside : d ∈ digits (v ++ rest) := by
    rw [List.cons_append, List.cons.injEq] at heq
    rw [heq.2]
    exact List.mem_append_right _ List.mem_cons_self
  exact List.mem_takeWhile_imp inside

lemma signPart_isPrefix (cs : List Char) : signPart cs <+: cs := by
  cases cs with
  | nil => exact List.nil_prefix
  | cons c cs =>
    rw [signPart]
    split
    · exact List.prefix_append [c] cs
    · exact List.nil_prefix

lemma signPart_cases (cs : List Char) :
    signPart cs = [] ∨ signPart cs = ['+'] ∨ signPart cs = ['-'] := by
  cases cs with
  | nil => exact Or.inl rfl
  | cons c cs =>
    rw [signPart]
    split
    · next hc =>
      rw [Bool.or_eq_true, beq_iff_eq, beq_iff_eq] at hc
      rcases hc with rfl | rfl
      · exact Or.inr (Or.inl rfl)
      · exact Or.inr (Or.inr rfl)
    · exact Or.inl rfl

lemma exponentPart_isPrefix (cs : List Char) : exponentPart cs <+: cs := by
  cases cs with
  | nil => exact List.nil_prefix
  | cons c cs =>
    rw [exponentPart]
    split
    · dsimp only
      split
      · exact List.nil_prefix
      · rw [List.cons_append, List.prefix_cons_inj]
        obtain ⟨rest, hrest⟩ := signPart_isPrefix cs
        generalize signPart cs = sign at hrest ⊢
        subst hrest
        rw [List.drop_left]
        exact (List.prefix_append_right_inj sign).2 (List.takeWhile_prefix _)
    · exact List.nil_prefix

lemma exponentPart_sound (cs : List Char) :
    exponentPart cs = [] ∨ exponentPart cs ∈ exponent.language := by
  cases cs with
  | nil => exact Or.inl rfl
  | cons c cs =>
    rw [exponentPart]
    split
    · next hc =>
      dsimp only
      split
      · exact Or.inl rfl
      · next hne =>
        refine Or.inr (mem_exponent_iff.2 ⟨c, signPart cs, _, rfl, ?_, signPart_cases cs, ?_,
          fun d hd => ?_⟩)
        · simpa using hc
        · simpa using hne
        · exact List.mem_takeWhile_imp hd
    · exact Or.inl rfl

/-- A digit is no sign, so the sign is found whether or not there is one. -/
lemma signPart_append {sign v : List Char} (hsign : sign = [] ∨ sign = ['+'] ∨ sign = ['-'])
    (hne : v ≠ []) (hv : ∀ d ∈ v, d.isDigit = true) (rest : List Char) :
    signPart (sign ++ v ++ rest) = sign := by
  rcases hsign with rfl | rfl | rfl
  · obtain ⟨d, v, rfl⟩ := List.exists_cons_of_ne_nil hne
    have hd : d.isDigit = true := hv d List.mem_cons_self
    have plus : d ≠ '+' := by rintro rfl; cases hd
    have minus : d ≠ '-' := by rintro rfl; cases hd
    simp [signPart, plus, minus]
  · rfl
  · rfl

lemma exponentPart_longest {cs u : List Char} (mem : u ∈ exponent.language) (h : u <+: cs) :
    u <+: exponentPart cs := by
  obtain ⟨rest, rfl⟩ := h
  obtain ⟨e, sign, v, rfl, he, hsign, hne, hv⟩ := mem_exponent_iff.1 mem
  have hsignPart := signPart_append hsign hne hv rest
  have reach : v <+: digits (v ++ rest) := prefix_takeWhile hv (List.prefix_append v rest)
  have found : digits (v ++ rest) ≠ [] := fun hnil => hne (List.prefix_nil.1 (hnil ▸ reach))
  rw [List.cons_append, exponentPart, hsignPart, List.append_assoc]
  dsimp only
  rw [List.drop_left]
  simp only [Bool.or_eq_true, beq_iff_eq, he, if_true, List.isEmpty_iff, found, if_false,
    List.cons_append]
  exact (List.prefix_cons_inj e).2 ((List.prefix_append_right_inj sign).2 reach)

/-- The parts of a number that was found, and what they were read from. -/
lemma number_sound {cs : List Char} {n : Number} (h : Number.scan? cs = some n) :
    n.sign ++ n.whole ∈ int.language ∧ ∃ rest, cs = n.sign ++ n.whole ++ rest ∧
      n.fraction = fractionPart rest ∧ n.exponent = exponentPart (rest.drop n.fraction.length) := by
  obtain ⟨whole, hwhole, rfl⟩ := Option.map_eq_some_iff.1 h
  dsimp only at hwhole ⊢
  obtain ⟨mem, rest, hrest⟩ := wholePart_sound hwhole
  refine ⟨mem_int_iff.2 ⟨_, whole, rfl, ?_, mem⟩, rest, ?_, ?_, ?_⟩
  · split
    · exact Or.inr rfl
    · exact Or.inl rfl
  · rw [List.append_assoc, hrest]
    split
    · next hhead =>
      obtain ⟨tail, rfl⟩ := List.head?_eq_some_iff.1 (beq_iff_eq.1 hhead)
      rfl
    · rfl
  · rw [← hrest, List.drop_left]
  · rw [← hrest, List.drop_left]

/-- Where the text starts with a whole number, a number is found, and its whole part
reaches over that one by digits only. -/
lemma number_of_isPrefix_int {cs u : List Char} (mem : u ∈ int.language) (h : u <+: cs) :
    ∃ n, Number.scan? cs = some n ∧ u <+: n.sign ++ n.whole ∧
      ∀ d r, n.sign ++ n.whole = u ++ d :: r → d.isDigit = true := by
  obtain ⟨rest, rfl⟩ := h
  obtain ⟨sign, v, rfl, hsign, hv⟩ := mem_int_iff.1 mem
  obtain ⟨w, hw, reach, inside⟩ := wholePart_longest hv (List.prefix_append v rest)
  have hhead : (if (sign ++ v ++ rest).head? == some '-' then ['-'] else []) = sign := by
    rcases hsign with rfl | rfl
    · rcases mem_whole_iff.1 hv with rfl | ⟨c, v, rfl, hc, -⟩
      · rfl
      · have minus : c ≠ '-' := by rintro rfl; cases hc
        simp [minus]
    · rfl
  have found : ∃ n, Number.scan? (sign ++ v ++ rest) = some n ∧ n.sign = sign ∧ n.whole = w := by
    rw [Number.scan?, hhead]
    simp only [List.append_assoc, List.drop_left, hw, Option.map_some]
    exact ⟨_, rfl, rfl, rfl⟩
  obtain ⟨n, hn, hnsign, hnwhole⟩ := found
  refine ⟨n, hn, ?_, fun d r heq => ?_⟩
  · rw [hnsign, hnwhole]
    exact (List.prefix_append_right_inj sign).2 reach
  rw [hnsign, hnwhole, List.append_assoc] at heq
  exact inside d r (List.append_cancel_left heq)

/-- A number that is found is as long as any number at the head that has a fraction or an
exponent, and then it has one too. -/
lemma number_of_isPrefix_float {cs w : List Char} (mem : w ∈ float.language) (h : w <+: cs) :
    ∃ n, Number.scan? cs = some n ∧ n.isInteger = false ∧ w.length ≤ n.source.length := by
  obtain ⟨u, hu, v, hv, rfl⟩ := mem_seq.1 mem
  obtain ⟨n, hn, reach, inside⟩ := number_of_isPrefix_int hu ((List.prefix_append u v).trans h)
  obtain ⟨-, rest, hcs, hfraction, hexponent⟩ := number_sound hn
  rw [hcs] at h
  refine ⟨n, hn, ?_⟩
  simp only [Number.isInteger, Number.source, List.length_append, Bool.and_eq_false_iff,
    List.isEmpty_eq_false_iff]
  rcases hv with hv | hv
  · obtain ⟨f, hf, x, hx, rfl⟩ := mem_seq.1 hv
    obtain ⟨ds, rfl, hds⟩ := mem_fraction_iff.1 hf
    obtain ⟨rfl, hbehind⟩ := cut_unique reach inside h (by decide)
    have hpart : '.' :: ds <+: rest := (List.prefix_append _ x).trans hbehind
    obtain ⟨freach, finside⟩ := fractionPart_longest hf hpart
    rw [← hfraction] at freach finside
    have hne : n.fraction ≠ [] := fun hnil => by simp [hnil] at freach
    refine ⟨Or.inl hne, ?_⟩
    rcases hx with rfl | hx
    · have := freach.length_le
      simp only [List.length_append, List.length_nil] at this ⊢
      omega
    · obtain ⟨e, sign, xs, rfl, he, -⟩ := mem_exponent_iff.1 hx
      have hfrac : n.fraction <+: rest := hfraction ▸ fractionPart_isPrefix rest
      obtain ⟨tail, rfl⟩ := hfrac
      have hdigit : e.isDigit = false := by rcases he with rfl | rfl <;> decide
      obtain ⟨hsame, hlast⟩ := cut_unique freach finside hbehind hdigit
      rw [List.drop_left] at hexponent
      have := (exponentPart_longest hx hlast).length_le
      rw [← hexponent] at this
      rw [← hsame]
      simp only [List.length_append] at this ⊢
      omega
  · obtain ⟨e, sign, xs, rfl, he, -⟩ := mem_exponent_iff.1 hv
    have hdigit : e.isDigit = false := by rcases he with rfl | rfl <;> decide
    obtain ⟨rfl, hbehind⟩ := cut_unique reach inside h hdigit
    have nofraction : n.fraction = [] := by
      obtain ⟨tail, rfl⟩ := hbehind
      rw [hfraction, List.cons_append, fractionPart]
      rcases he with rfl | rfl <;> rfl
    rw [nofraction, List.length_nil, List.drop_zero] at hexponent
    have long := exponentPart_longest hv hbehind
    rw [← hexponent] at long
    have hne : n.exponent ≠ [] := fun hnil => by simp [hnil] at long
    refine ⟨Or.inr hne, ?_⟩
    have := long.length_le
    simp only [List.length_append] at this ⊢
    omega

lemma number_source_isPrefix {cs : List Char} {n : Number} (h : Number.scan? cs = some n) :
    n.source <+: cs := by
  obtain ⟨-, rest, rfl, hfraction, hexponent⟩ := number_sound h
  obtain ⟨tail, htail⟩ := fractionPart_isPrefix rest
  rw [← hfraction] at htail
  subst htail
  rw [List.drop_left] at hexponent
  rw [Number.source, List.append_assoc, List.prefix_append_right_inj,
    List.prefix_append_right_inj, hexponent]
  exact exponentPart_isPrefix tail

lemma number_mem_float {cs : List Char} {n : Number} (h : Number.scan? cs = some n)
    (hn : n.isInteger = false) : n.source ∈ float.language := by
  obtain ⟨mem, rest, -, hfraction, hexponent⟩ := number_sound h
  rw [Number.source, List.append_assoc]
  refine mem_seq.2 ⟨_, mem, _, ?_, rfl⟩
  have hf := fractionPart_sound rest
  have hx := exponentPart_sound (rest.drop n.fraction.length)
  rw [← hfraction] at hf
  rw [← hexponent] at hx
  rcases hf with hf | hf
  · rcases hx with hx | hx
    · simp [Number.isInteger, hf, hx] at hn
    · rw [hf, List.nil_append]
      exact Or.inr hx
  · exact Or.inl (mem_seq.2 ⟨_, hf, _, mem_optional.2 hx, rfl⟩)

end Pattern

end FilterAssist.Query
