import FilterAssist.Proofs.IndexedScans

/-!
# Reading by positions

The scanners at positions, tried again and again, read a whole text: where an attempt neither
finds a token nor moves, one character is passed over. Main statement: no text brings this
reader to a fault or to a stop before its end. Read by read it gives the tokens of the text,
which lie in it one behind the other, and it stands behind each of them.
-/

namespace FilterAssist.Query

namespace Indexed

/-- An attempt never goes back. -/
lemma le_of_attempt {cs : List Char} {pos stop : Nat} (inside : pos < cs.length)
    (h : attempt cs pos = .ok (none, stop)) : pos ≤ stop := by
  rw [attempt_eq (List.drop_eq_getElem_cons inside)] at h
  split at h
  · cases h
  · simp only [Except.ok.injEq, Prod.mk.injEq, true_and] at h
    split at h <;> omega

/-- The next token from a position, and the position behind it. Where an attempt fails without
moving, one character is passed over. -/
def next (cs : List Char) (pos : Nat) : Outcome :=
  if _h : pos < cs.length then
    match attempted : attempt cs pos with
    | .ok (none, stop) => next cs (if stop = pos then pos + 1 else stop)
    | found => found
  else return (none, pos)
termination_by cs.length - pos
decreasing_by
  have := le_of_attempt _h attempted
  split <;> omega

/-- The results of `n` successive reads, with the position behind each. -/
def reads (cs : List Char) : Nat → Nat → Except Fault (List (Option Token × Nat))
  | 0, _ => return []
  | n + 1, pos => do
    let read ← next cs pos
    let later ← reads cs n read.2
    return read :: later

variable {cs : List Char} {pos : Nat}

lemma next_of_found {t : Token} {stop : Nat} (inside : pos < cs.length)
    (h : attempt cs pos = .ok (some t, stop)) : next cs pos = .ok (some t, stop) := by
  rw [next, dif_pos inside]
  split
  · next attempted =>
    rw [h] at attempted
    cases attempted
  · exact h

lemma next_of_none {stop : Nat} (inside : pos < cs.length)
    (h : attempt cs pos = .ok (none, stop)) :
    next cs pos = next cs (if stop = pos then pos + 1 else stop) := by
  rw [next, dif_pos inside]
  split
  · next attempted =>
    rw [h] at attempted
    cases attempted
    rfl
  · next other =>
    exact absurd h (other stop)

/-- Where nothing is found the reader goes on behind a run of blanks or one other character;
the lexer, which goes by single characters, finds nothing there either. -/
lemma next_of_scan_eq_none (inside : pos < cs.length) (unread : scan (cs.drop pos) = none) :
    ∃ w rest, cs.drop pos = w ++ rest ∧ w ≠ [] ∧ next cs pos = next cs (pos + w.length) ∧
      (Lexer.mk pos (w ++ rest)).next? = (Lexer.mk (pos + w.length) rest).next? := by
  have here := List.drop_eq_getElem_cons inside
  have tried := attempt_eq here
  rw [here] at unread
  rw [unread] at tried
  rw [next_of_none inside tried, here]
  by_cases blank : isBlank cs[pos] = true
  · have moved : ((cs[pos] :: cs.drop (pos + 1)).takeWhile isBlank) ≠ [] := by
      rw [List.takeWhile_cons_of_pos blank]
      exact List.cons_ne_nil _ _
    have length := List.length_pos_iff.2 moved
    refine ⟨_, _, List.takeWhile_append_dropWhile.symm, moved, ?_,
      next?_blanks_append pos _ fun c mem => List.mem_takeWhile_imp mem⟩
    rw [if_pos blank, if_neg (by omega)]
  · refine ⟨[cs[pos]], cs.drop (pos + 1), rfl, by simp, ?_, next?_of_scan_eq_none unread⟩
    rw [if_neg blank, if_pos rfl]
    rfl

/-- The reader finds what the lexer finds, and stands where the lexer stands. -/
theorem next_eq (inside : pos ≤ cs.length) :
    next cs pos = .ok (match (Lexer.mk pos (cs.drop pos)).next? with
      | some (t, y) => (some t, y.offset)
      | none => (none, cs.length)) := by
  -- on what is left of the text, because blanks are passed several at a time
  induction left : cs.length - pos using Nat.strongRecOn generalizing pos with
  | ind left' ih =>
    subst left
    by_cases finished : pos = cs.length
    · subst finished
      rw [next, dif_neg (Nat.lt_irrefl _), List.drop_length]
      rfl
    have inside : pos < cs.length := by omega
    cases found : scan (cs.drop pos) with
    | some l =>
      have here := List.drop_eq_getElem_cons inside
      rw [here] at found
      have tried := attempt_eq here
      rw [found] at tried
      rw [next_of_found inside tried, here]
      simp only [Lexer.next?, Lexer.nextFrom?, found]
    | none =>
      obtain ⟨w, rest, split, moved, step, same⟩ := next_of_scan_eq_none inside found
      have length := congrArg List.length split
      have positive := List.length_pos_iff.2 moved
      rw [List.length_drop, List.length_append] at length
      rw [step, ih (cs.length - (pos + w.length)) (by omega) (by omega) rfl, drop_ahead split rfl,
        split, same]

/-- Read by read, the tokens with their ends, and nothing when they are used up. -/
theorem reads_eq (n : Nat) (inside : pos ≤ cs.length) :
    let ts := (Lexer.mk pos (cs.drop pos)).tokens
    reads cs n pos = .ok ((ts.take n).map (fun t => (some t, t.stop))
      ++ List.replicate (n - ts.length) (none, cs.length)) := by
  induction n generalizing pos with
  | zero => simp [reads, pure, Except.pure]
  | succ n ih =>
    rw [reads, next_eq inside]
    cases found : (Lexer.mk pos (cs.drop pos)).next? with
    | none =>
      have later := ih (Nat.le_refl cs.length)
      rw [List.drop_length, tokens_nil] at later
      rw [tokens_of_next?_eq_none found]
      simp [later, bind, Except.bind, pure, Except.pure, List.replicate_succ]
    | some read =>
      obtain ⟨t, y⟩ := read
      obtain ⟨run, offset⟩ := passes_of_next? found
      obtain ⟨u, split, passed⟩ := run.passed
      have rest : cs.drop y.offset = y.rest := by
        rw [passed]
        exact drop_ahead split rfl
      have room : y.offset ≤ cs.length := by
        have length := congrArg List.length split
        simp only [List.length_drop, List.length_append] at length passed
        omega
      have later := ih room
      rw [rest] at later
      rw [tokens_of_next?_eq_some found]
      simp [later, bind, Except.bind, pure, Except.pure, ← offset]

end Indexed

/-- The lexer after `n` successive reads. -/
def Lexer.after : Nat → Lexer → Lexer
  | 0, x => x
  | n + 1, x =>
    match x.next? with
    | none => x
    | some (_, y) => y.after n

lemma passes_after (n : Nat) (x : Lexer) : Passes x (x.tokens.take n) (x.after n) := by
  induction n generalizing x with
  | zero => exact .here
  | succ n ih =>
    cases found : x.next? with
    | none =>
      rw [tokens_of_next?_eq_none found]
      simpa [Lexer.after, found] using Passes.here
    | some read =>
      obtain ⟨t, y⟩ := read
      have first := (passes_of_next? found).1
      rw [tokens_of_next?_eq_some found, List.take_succ_cons, Lexer.after, found]
      exact first.trans (ih y)

lemma tokens_after (n : Nat) (x : Lexer) : (x.after n).tokens = x.tokens.drop n := by
  have all := (passes_after n x).tokens
  nth_rewrite 1 [← List.take_append_drop n x.tokens] at all
  exact (List.append_cancel_left all).symm

/-- A read gives the first of the tokens to come, and leaves the lexer at its end. -/
lemma next?_eq_head? (x : Lexer) :
    x.next?.map (fun read => (read.1, read.2.offset))
      = x.tokens.head?.map fun t => (t, t.stop) := by
  cases found : x.next? with
  | none =>
    rw [tokens_of_next?_eq_none found]
    rfl
  | some read =>
    obtain ⟨t, y⟩ := read
    rw [tokens_of_next?_eq_some found, Option.map_some, (passes_of_next? found).2]
    rfl

lemma reads_eq_take (n : Nat) (x : Lexer) :
    x.reads n = (x.tokens.take n).map some ++ List.replicate (n - x.tokens.length) none := by
  induction n generalizing x with
  | zero => simp [Lexer.reads]
  | succ n ih =>
    cases found : x.next? with
    | none =>
      have later := ih x
      rw [tokens_of_next?_eq_none found] at later ⊢
      simp [Lexer.reads, found, later, List.replicate_succ]
    | some read =>
      obtain ⟨t, y⟩ := read
      simp [Lexer.reads, found, ih y, tokens_of_next?_eq_some found]

lemma Laid.isChain {i n : Nat} {ts : List Token} (laid : Laid i ts n) :
    ts.IsChain fun t u => t.stop ≤ u.start := by
  induction ts generalizing i with
  | nil => exact .nil
  | cons t ts ih =>
    refine List.isChain_cons.2 ⟨fun u first => ?_, ih laid.2.2⟩
    obtain ⟨us, rfl⟩ := List.head?_eq_some_iff.1 first
    exact laid.2.2.1

/-- The tokens of a text are not empty, lie in it one behind the other and are made of its
characters. Read by read the lexer gives them with their ends and then nothing. So does the
reader by positions, which takes no character and no range that the text does not have. -/
theorem tokenize_inRange (text : String) :
    let cs := text.toList
    let ts := tokenize text
    (∀ t ∈ ts, t.start < t.stop ∧ t.stop ≤ text.length ∧
      if t.kind = .string then cs.extract t.start t.stop = '"' :: (t.text.toList ++ ['"'])
      else cs.extract t.start t.stop = t.text.toList) ∧
    ts.IsChain (fun t u => t.stop ≤ u.start) ∧
    (∀ n, (Lexer.ofText text).reads n
      = (ts.take n).map some ++ List.replicate (n - ts.length) none) ∧
    (∀ n, let x := (Lexer.ofText text).after n
      x.offset ≤ text.length ∧ x.rest = cs.drop x.offset ∧
        x.next?.map (fun read => (read.1, read.2.offset)) = ts[n]?.map fun t => (t, t.stop)) ∧
    ∀ n, Indexed.reads cs n 0 = .ok ((ts.take n).map (fun t => (some t, t.stop))
      ++ List.replicate (n - ts.length) (none, text.length)) := by
  intro cs ts
  refine ⟨?_, (tokenize_laid text).isChain, fun n => reads_eq_take n _, ?_, ?_⟩
  · intro t mem
    obtain ⟨l, found, whole, source⟩ := lexeme_of_mem_tokenize mem
    have bounds := (passes_to_end 0 text.toList).bounds mem
    simp only [Nat.zero_add, String.length_toList] at bounds
    refine ⟨bounds.2.1, bounds.2.2, ?_⟩
    have kind : t.kind = l.kind := congrArg Token.kind whole
    have text : t.text.toList = l.text := by rw [whole, Lexeme.toToken, String.toList_ofList]
    rw [kind, text, source]
    split
    · next string => exact source_of_string found string
    · next other => exact (text_of_ne_string other).symm
  · intro n x
    have run : Passes (Lexer.ofText text) (ts.take n) x := passes_after n _
    refine ⟨?_, Cursor.rest_eq_drop run, ?_⟩
    · obtain ⟨u, split, passed⟩ := run.passed
      have length := congrArg List.length split
      have start : (Lexer.ofText text).offset = 0 := rfl
      have whole : (Lexer.ofText text).rest.length = text.length := String.length_toList
      rw [List.length_append] at length
      omega
    · rw [next?_eq_head?, tokens_after, List.head?_drop]
      rfl
  · intro n
    have read := Indexed.reads_eq n (Nat.zero_le text.toList.length)
    rw [List.drop_zero, String.length_toList] at read
    exact read

end FilterAssist.Query
