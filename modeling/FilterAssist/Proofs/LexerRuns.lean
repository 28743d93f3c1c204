import FilterAssist.Proofs.GrammarTokens

/-!
# Runs of the lexer

A run goes from one state of the lexer to a later one and gives the tokens read on the
way. It is stated with all the characters that are still to come, because the lexer looks
at them; the last section says when they may be exchanged for others. Nothing here says
which tokens a run gives.
-/

namespace FilterAssist.Query

lemma tokenize_ofList (cs : List Char) : tokenize (String.ofList cs) = (Lexer.mk 0 cs).tokens := by
  rw [tokenize, Lexer.ofText, String.toList_ofList]

/-- A text that is one lexeme has one token. -/
lemma tokens_lexeme {k : Kind} {w : List Char} (lexeme : scan w = some ⟨k, w⟩) (n : Nat) :
    (Lexer.mk n w).tokens = [(Lexeme.mk k w).toToken n] := by
  rw [tokens_of_scan lexeme, List.drop_length, tokens_nil]

/-- `Passes x ts y`: from `x` the lexer reads `ts` and then stands at `y`. -/
inductive Passes : Lexer → List Token → Lexer → Prop
  | here {x : Lexer} : Passes x [] x
  | skip {n : Nat} {c : Char} {cs : List Char} {ts : List Token} {y : Lexer}
      (unread : scan (c :: cs) = none) (later : Passes ⟨n + 1, cs⟩ ts y) :
      Passes ⟨n, c :: cs⟩ ts y
  | read {n : Nat} {cs : List Char} {l : Lexeme} {ts : List Token} {y : Lexer}
      (found : scan cs = some l)
      (later : Passes ⟨n + l.source.length, cs.drop l.source.length⟩ ts y) :
      Passes ⟨n, cs⟩ (l.toToken n :: ts) y

namespace Passes

theorem trans {x y z : Lexer} {ts us : List Token} (first : Passes x ts y)
    (last : Passes y us z) : Passes x (ts ++ us) z := by
  induction first with
  | here => exact last
  | skip unread _ ih => exact .skip unread (ih last)
  | read found _ ih => exact .read found (ih last)

/-- The tokens of a run come first, the later ones follow. -/
theorem tokens {x y : Lexer} {ts : List Token} (run : Passes x ts y) :
    x.tokens = ts ++ y.tokens := by
  induction run with
  | here => rfl
  | skip unread _ ih => rw [tokens_of_scan_eq_none unread, ih]
  | read found _ ih => rw [tokens_of_scan found, ih, List.cons_append]

/-- A run to the end of the text has all of them. -/
theorem tokens_eq {x : Lexer} {n : Nat} {ts : List Token} (run : Passes x ts ⟨n, []⟩) :
    x.tokens = ts := by
  rw [run.tokens, tokens_nil, List.append_nil]

/-- A run leaves the rest of the text as it is, and counts what it has passed. -/
theorem passed {x y : Lexer} {ts : List Token} (run : Passes x ts y) :
    ∃ u, x.rest = u ++ y.rest ∧ y.offset = x.offset + u.length := by
  induction run with
  | here => exact ⟨[], rfl, rfl⟩
  | @skip n c cs ts y _ _ ih =>
    obtain ⟨u, rest, offset⟩ := ih
    refine ⟨c :: u, by simp [← rest], ?_⟩
    simp only [List.length_cons] at offset ⊢
    omega
  | @read n cs l ts y found _ ih =>
    obtain ⟨u, rest, offset⟩ := ih
    obtain ⟨tail, rfl⟩ := scan_source_isPrefix found
    rw [List.drop_left] at rest
    change tail = u ++ y.rest at rest
    refine ⟨l.source ++ u, by simp [rest], ?_⟩
    simp only [List.length_append] at offset ⊢
    omega

theorem offset_le {x y : Lexer} {ts : List Token} (run : Passes x ts y) :
    x.offset ≤ y.offset := by
  obtain ⟨u, -, offset⟩ := run.passed
  omega

/-- Every token of a run has a length, and lies between its two ends. -/
theorem bounds {x y : Lexer} {ts : List Token} (run : Passes x ts y) {t : Token}
    (ht : t ∈ ts) : x.offset ≤ t.start ∧ t.start < t.stop ∧ t.stop ≤ y.offset := by
  induction run with
  | here => cases ht
  | skip _ _ ih =>
    have := ih ht
    simp only at this ⊢
    omega
  | @read n cs l ts y found later ih =>
    have nonempty := List.length_pos_iff.2 (scan_source_ne_nil found)
    have behind := later.offset_le
    rcases List.mem_cons.1 ht with rfl | ht
    · simp only [Lexeme.toToken] at behind ⊢
      omega
    · have := ih ht
      simp only at this ⊢
      omega

/-- The last token of a run was read from a state on the way. -/
theorem last {x y : Lexer} {ts : List Token} {t : Token} (run : Passes x (ts ++ [t]) y) :
    ∃ z l, Passes x ts z ∧ scan z.rest = some l ∧ t = l.toToken z.offset ∧
      Passes ⟨z.offset + l.source.length, z.rest.drop l.source.length⟩ [] y := by
  generalize hall : ts ++ [t] = all at run
  induction run generalizing ts with
  | here => simp at hall
  | skip unread _ ih =>
    obtain ⟨z, l, first, found, heq, rest⟩ := ih hall
    exact ⟨z, l, .skip unread first, found, heq, rest⟩
  | @read n cs l us y found later ih =>
    cases ts with
    | nil =>
      simp only [List.nil_append, List.cons.injEq] at hall
      obtain ⟨rfl, rfl⟩ := hall
      exact ⟨⟨n, cs⟩, l, .here, found, rfl, later⟩
    | cons u ts =>
      simp only [List.cons_append, List.cons.injEq] at hall
      obtain ⟨rfl, hall⟩ := hall
      obtain ⟨z, l', first, found', heq, rest⟩ := ih hall
      exact ⟨z, l', .read found first, found', heq, rest⟩

/-- Every token of a run is the lexeme that is found where it starts. -/
theorem scan_at {x y : Lexer} {ts : List Token} {t : Token} (run : Passes x ts y)
    (mem : t ∈ ts) :
    ∃ l, scan (x.rest.drop (t.start - x.offset)) = some l ∧ t = l.toToken t.start := by
  induction run with
  | here => cases mem
  | @skip n c cs ts y _ later ih =>
    have behind : n + 1 ≤ t.start := (later.bounds mem).1
    have step : t.start - n = t.start - (n + 1) + 1 := by omega
    simp only [step, List.drop_succ_cons]
    exact ih mem
  | @read n cs l ts y found later ih =>
    rcases List.mem_cons.1 mem with rfl | mem
    · refine ⟨l, ?_, rfl⟩
      simpa [Lexeme.toToken] using found
    · have behind : n + l.source.length ≤ t.start := (later.bounds mem).1
      have step : t.start - n = l.source.length + (t.start - (n + l.source.length)) := by omega
      simp only [step, ← List.drop_drop]
      exact ih mem

/-- A run without tokens finds no lexeme at any character that it passes. -/
theorem unread {n m : Nat} {gap v : List Char} (run : Passes ⟨n, gap ++ v⟩ [] ⟨m, v⟩) :
    ∀ c ∈ gap, ∃ cs, scan (c :: cs) = none := by
  induction gap generalizing n with
  | nil => intro c hc; cases hc
  | cons d gap ih =>
    have step : scan (d :: (gap ++ v)) = none ∧ Passes ⟨n + 1, gap ++ v⟩ [] ⟨m, v⟩ := by
      generalize hy : Lexer.mk m v = y at run
      cases run with
      | here =>
        have := congrArg (fun y => y.rest.length) hy
        simp only [List.cons_append, List.length_cons, List.length_append] at this
        omega
      | skip none later => exact ⟨none, hy ▸ later⟩
    intro c hc
    rcases List.mem_cons.1 hc with rfl | hc
    · exact ⟨_, step.1⟩
    · exact ih step.2 c hc

end Passes

/-- One read is a run with one token, which ends where the lexer stands. -/
lemma passes_of_next? {x y : Lexer} {t : Token} (h : x.next? = some (t, y)) :
    Passes x [t] y ∧ y.offset = t.stop := by
  obtain ⟨n, cs⟩ := x
  induction cs generalizing n with
  | nil => cases h
  | cons c cs ih =>
    cases found : scan (c :: cs) with
    | none =>
      rw [next?_of_scan_eq_none found] at h
      obtain ⟨later, offset⟩ := ih _ h
      exact ⟨.skip found later, offset⟩
    | some l =>
      simp only [Lexer.next?, Lexer.nextFrom?, found, Option.some.injEq, Prod.mk.injEq] at h
      obtain ⟨rfl, rfl⟩ := h
      exact ⟨.read found .here, rfl⟩

/-- The lexer runs to the end of every text. -/
theorem passes_to_end (n : Nat) (cs : List Char) :
    Passes ⟨n, cs⟩ (Lexer.mk n cs).tokens ⟨n + cs.length, []⟩ := by
  induction hlen : cs.length using Nat.strongRecOn generalizing n cs with
  | ind length ih =>
    subst hlen
    cases cs with
    | nil => simpa using Passes.here
    | cons c cs =>
      cases hscan : scan (c :: cs) with
      | none =>
        rw [tokens_of_scan_eq_none hscan]
        have later := ih cs.length (Nat.lt_succ_self _) (n + 1) cs rfl
        have same : n + 1 + cs.length = n + (c :: cs).length := by simp only [List.length_cons]; omega
        exact .skip hscan (same ▸ later)
      | some l =>
        have nonempty := List.length_pos_iff.2 (scan_source_ne_nil hscan)
        have inside := (scan_source_isPrefix hscan).length_le
        have shorter : ((c :: cs).drop l.source.length).length < (c :: cs).length := by
          simp only [List.length_drop, List.length_cons] at inside ⊢
          omega
        have later := ih _ shorter (n + l.source.length) _ rfl
        have same : n + l.source.length + ((c :: cs).drop l.source.length).length
            = n + (c :: cs).length := by
          simp only [List.length_drop] at inside ⊢
          omega
        rw [tokens_of_scan hscan]
        exact .read hscan (same ▸ later)

/-- Where the tokens of a text are cut in two, the lexer stands right behind the last one
of the first part. -/
theorem passes_of_tokens_eq {n : Nat} {cs : List Char} {ts us : List Token}
    (h : (Lexer.mk n cs).tokens = ts ++ us) :
    ∃ y, Passes ⟨n, cs⟩ ts y ∧ y.tokens = us ∧
      y.offset = match ts.getLast? with | some t => t.stop | none => n := by
  induction hlen : cs.length using Nat.strongRecOn generalizing n cs ts with
  | ind length ih =>
    subst hlen
    cases ts with
    | nil => exact ⟨_, .here, h, rfl⟩
    | cons t ts =>
      cases cs with
      | nil => simp at h
      | cons c cs =>
        cases hscan : scan (c :: cs) with
        | none =>
          rw [tokens_of_scan_eq_none hscan] at h
          obtain ⟨y, later, rest, offset⟩ := ih cs.length (Nat.lt_succ_self _) h rfl
          refine ⟨y, .skip hscan later, rest, ?_⟩
          rw [offset, List.getLast?_cons]
        | some l =>
          have nonempty := List.length_pos_iff.2 (scan_source_ne_nil hscan)
          have shorter : ((c :: cs).drop l.source.length).length < (c :: cs).length := by
            simp only [List.length_drop, List.length_cons]
            omega
          rw [tokens_of_scan hscan, List.cons_append, List.cons.injEq] at h
          obtain ⟨rfl, h⟩ := h
          obtain ⟨y, later, rest, offset⟩ := ih _ shorter h rfl
          refine ⟨y, .read hscan later, rest, ?_⟩
          rw [offset, List.getLast?_cons]
          cases ts.getLast? <;> rfl

/-- `v'` may stand in the place of `v`: whatever is in front of them, the lexemes found
there without their help stay, and none are added. -/
def StandsFor (v' v : List Char) : Prop :=
  ∀ u : List Char, u ≠ [] →
    (∀ l, scan (u ++ v) = some l → l.source.length ≤ u.length → scan (u ++ v') = some l) ∧
    (scan (u ++ v) = none → scan (u ++ v') = none)

/-- A run up to `v` is a run up to any text that may stand in its place. -/
theorem Passes.exchange {v v' : List Char} (other : StandsFor v' v) {n : Nat} {u : List Char}
    {ts : List Token} (run : Passes ⟨n, u ++ v⟩ ts ⟨n + u.length, v⟩) :
    Passes ⟨n, u ++ v'⟩ ts ⟨n + u.length, v'⟩ := by
  induction hlen : u.length using Nat.strongRecOn generalizing n u ts with
  | ind length ih =>
    subst hlen
    cases u with
    | nil =>
      generalize hy : Lexer.mk (n + ([] : List Char).length) v = y at run
      cases run with
      | here => exact .here
      | skip unread later =>
        have := later.offset_le
        subst hy
        simp only [List.length_nil] at this
        omega
      | read found later =>
        have nonempty := List.length_pos_iff.2 (scan_source_ne_nil found)
        have := later.offset_le
        subst hy
        simp only [List.length_nil] at this
        omega
    | cons c u =>
      obtain ⟨finds, skips⟩ := other (c :: u) (List.cons_ne_nil c u)
      generalize hy : Lexer.mk (n + (c :: u).length) v = y at run
      cases run with
      | here =>
        have := congrArg Lexer.offset hy
        simp only [List.length_cons] at this
        omega
      | skip unread later =>
        have target : n + (c :: u).length = n + 1 + u.length := by
          simp only [List.length_cons]; omega
        rw [target] at hy ⊢
        subst hy
        exact .skip (skips unread) (ih u.length (Nat.lt_succ_self _) later rfl)
      | @read _ _ l ts _ found later =>
        subst hy
        have nonempty := List.length_pos_iff.2 (scan_source_ne_nil found)
        have within : l.source.length ≤ (c :: u).length := by
          have := later.offset_le
          simp only at this
          omega
        have target : n + (c :: u).length
            = n + l.source.length + ((c :: u).drop l.source.length).length := by
          rw [List.length_drop]; omega
        rw [List.drop_append_of_le_length within, target] at later
        have shorter : ((c :: u).drop l.source.length).length < (c :: u).length := by
          simp only [List.length_drop, List.length_cons]; omega
        have rest := ih _ shorter later rfl
        rw [← List.drop_append_of_le_length within, ← target] at rest
        exact .read (finds l found within) rest

end FilterAssist.Query
