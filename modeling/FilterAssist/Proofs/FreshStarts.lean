import FilterAssist.Proofs.EndViews
import FilterAssist.Proofs.LexedLines
import Mathlib.Data.List.Chain

/-!
# Starting the lexer afresh

The lexer takes nothing along from one lexeme to the next. So it may be started afresh
behind any token, which makes the completed tokens and the trailing text a faithful summary
of what stands before the cursor. It may be started behind a blank, whatever stands around
it, unless a string is open there; a quote that belongs to no string could be closed by one
further on. And every lexeme is found again by itself: written out with single spaces
between them, the tokens of a text, however broken the text is, are read back.
-/

namespace FilterAssist

namespace Query

variable {u r : List Char} {b : Char} {l : Lexeme} {t : Token} {ts : List Token}

lemma scan_quote (cs : List Char) :
    scan ('"' :: cs) = (stringTail cs).map fun t => ⟨.string, '"' :: t⟩ := rfl

/-- A lexeme that reaches over a fence starts with a quote. -/
lemma quote_of_reaches (nonempty : u ≠ []) (fence : isFence b = true)
    (found : scan (u ++ b :: r) = some l) (long : u.length < l.source.length) :
    ∃ v, u = '"' :: v := by
  obtain ⟨c, v, rfl⟩ := List.exists_cons_of_ne_nil nonempty
  obtain ⟨y, hne, source, starts⟩ := source_eq_append found long
  obtain ⟨d, y, rfl⟩ := List.exists_cons_of_ne_nil hne
  obtain ⟨rfl, -⟩ := List.cons_prefix_cons.1 starts
  have inside : d ∈ l.source := by simp [source]
  have several : l.source.length ≠ 1 := by
    rw [List.length_cons] at long
    omega
  rcases Editor.lexeme_cases found with ⟨p, e, -, rfl⟩ | ⟨-, body, string, -⟩ | ⟨-, -, bare⟩
  · exact absurd rfl several
  · rw [source, List.cons_append, List.cons.injEq] at string
    exact ⟨v, by rw [string.1]⟩
  · rcases scan_fenceless found with ⟨init, ends⟩ | ⟨e, single⟩ | fenceless
    · exact absurd rfl (bare '"' (by simp [ends])).1
    · rw [single] at several
      exact absurd rfl several
    · rw [fenceless d inside] at fence
      cases fence

/-- In front of a fence a lexeme is found where there is one without it, unless a string is
left open. -/
theorem scan_append_fence (nonempty : u ≠ []) (fence : isFence b = true)
    (closed : scan u = none → ∀ v, u ≠ '"' :: v) : scan (u ++ b :: r) = scan u := by
  cases found : scan (u ++ b :: r) with
  | none => rw [scan_none_of_append found]
  | some l =>
    by_cases short : l.source.length ≤ u.length
    · rw [scan_of_append found short]
    obtain ⟨v, rfl⟩ := quote_of_reaches nonempty fence found (Nat.lt_of_not_le short)
    cases string : stringTail v with
    | none =>
      have open_ : scan ('"' :: v) = none := by rw [scan_quote, string, Option.map_none]
      exact absurd rfl (closed open_ v)
    | some t =>
      rw [List.cons_append, scan_quote, stringTail_append_of_some string] at found
      rw [scan_quote, string, ← found]

/-- A run to the end of a text with no string left open is the same in front of a fence. -/
theorem Passes.fenced {x y : Lexer} (run : Passes x ts y) (covered : Editor.Covered x ts y)
    (finished : y.rest = []) (fence : isFence b = true) (r : List Char) :
    Passes ⟨x.offset, x.rest ++ b :: r⟩ ts ⟨y.offset, b :: r⟩ := by
  induction run with
  | @here x =>
    rw [finished]
    exact .here
  | @skip n c cs ts y unread later ih =>
    have closed : scan (c :: cs) = none → ∀ v, c :: cs ≠ '"' :: v := by
      rintro - v heq
      exact covered.ne_quote later (List.cons.inj heq).1
    have still : scan (c :: cs ++ b :: r) = none := by
      rw [scan_append_fence (List.cons_ne_nil c cs) fence closed, unread]
    exact .skip still (ih covered.skip finished)
  | @read n cs l ts y found later ih =>
    have nonempty : cs ≠ [] := by
      rintro rfl
      cases found
    have still : scan (cs ++ b :: r) = some l := by
      rw [scan_append_fence nonempty fence (by rw [found]; rintro ⟨⟩), found]
    refine .read still ?_
    rw [List.drop_append_of_le_length (scan_source_isPrefix found).length_le]
    exact ih covered.read finished

/-- A blank parts a text without an open string from anything: the tokens of the two sides
stand in a row. -/
theorem tokenize_append_blank (a b : String) (w : Char) (blank : isBlank w = true)
    (quoted : QuotesInStrings a) :
    tokenize (a ++ String.singleton w ++ b)
      = tokenize a ++ (tokenize b).map (Token.shift (a.length + 1)) := by
  have run := passes_to_end 0 a.toList
  have parted := run.fenced (Editor.covered_of_quotesInStrings quoted run) rfl
    (isFence_of_isSpace (isSpace_of_isBlank blank)) b.toList
  have behind : (Lexer.mk (0 + a.toList.length) (w :: b.toList)).tokens
      = (tokenize b).map (Token.shift (a.length + 1)) := by
    rw [tokens_of_scan_eq_none (scan_of_isBlank _ blank), Nat.zero_add, String.length_toList]
    exact tokens_shift (a.length + 1) 0 b.toList
  have whole : (a ++ String.singleton w ++ b).toList = a.toList ++ w :: b.toList := by simp
  rw [tokenize, Lexer.ofText, whole, parted.tokens, behind]
  rfl

/-- A string with quotes of its own, a number cut at its dot, and behind the blank digits
and an open string. -/
theorem tokenize_append_blank_halfway :
    isBlank '\u00a0' = true ∧ QuotesInStrings "a ~ \"\\\"(\" or b >= 1." ∧
      tokenize ("a ~ \"\\\"(\" or b >= 1." ++ String.singleton '\u00a0' ++ "5e3 \"x")
        = tokenize "a ~ \"\\\"(\" or b >= 1."
          ++ (tokenize "5e3 \"x").map (Token.shift ("a ~ \"\\\"(\" or b >= 1.".length + 1)) := by
  have blank : isBlank '\u00a0' = true := by decide
  have quoted : QuotesInStrings "a ~ \"\\\"(\" or b >= 1." := by decide +kernel
  exact ⟨blank, quoted, tokenize_append_blank _ "5e3 \"x" _ blank quoted⟩

lemma scan_source (found : scan u = some l) : scan l.source = some l := by
  obtain ⟨tail, rfl⟩ := scan_source_isPrefix found
  exact scan_of_append found (Nat.le_refl _)

/-- A string is its text between two quotes. -/
lemma source_of_string (found : scan u = some l) (string : l.kind = .string) :
    l.source = '"' :: (l.text ++ ['"']) := by
  rcases Editor.lexeme_cases found with ⟨p, c, -, rfl⟩ | ⟨-, body, source, -⟩ | ⟨other, -⟩
  · cases string
  · rw [Lexeme.text, string, source]
    simp
  · exact absurd string other

/-- Everything else is its text. -/
lemma text_of_ne_string (other : l.kind ≠ .string) : l.text = l.source := by
  rw [Lexeme.text]
  split
  · next string => exact absurd string other
  · rfl

/-- A token lies in the text as the characters of its lexeme. -/
theorem lexeme_of_mem_tokenize {text : String} (mem : t ∈ tokenize text) :
    ∃ l, scan (text.toList.drop t.start) = some l ∧ t = l.toToken t.start ∧
      text.toList.extract t.start t.stop = l.source := by
  obtain ⟨l, found, whole⟩ := (passes_to_end 0 text.toList).scan_at mem
  refine ⟨l, found, whole, ?_⟩
  have stop : t.stop - t.start = l.source.length := by
    rw [whole]
    simp [Lexeme.toToken]
  obtain ⟨tail, source⟩ := scan_source_isPrefix found
  rw [List.extract_eq_take_drop, stop]
  simp only [Nat.sub_zero] at source
  rw [← source, List.take_left]

/-- A string is written between quotes, anything else as its text. -/
def Token.written (t : Token) : String :=
  if t.kind = .string then "\"" ++ t.text ++ "\"" else t.text

/-- The tokens written one behind the other, with a single space between any two. -/
def normalForm (ts : List Token) : String := " ".intercalate (ts.map Token.written)

def Token.lexeme (t : Token) : Lexeme := ⟨t.kind, t.written.toList⟩

lemma Token.lexeme_text (t : Token) : String.ofList t.lexeme.text = t.text := by
  rw [Lexeme.text, Token.lexeme, Token.written]
  split
  · next string =>
    rw [if_pos string]
    simp
  · next other =>
    rw [if_neg other, String.ofList_toList]

/-- A lexeme can be told from its token. -/
lemma lexeme_toToken (found : scan u = some l) (n : Nat) : (l.toToken n).lexeme = l := by
  have source : (l.toToken n).written.toList = l.source := by
    rw [Token.written]
    by_cases string : l.kind = .string
    · simp [Lexeme.toToken, string, source_of_string found string]
    · simp [Lexeme.toToken, string, text_of_ne_string string]
  rw [Token.lexeme, source]
  rfl

/-- The tokens of lexemes that stand one character apart. -/
def spaced : Nat → List Lexeme → List Token
  | _, [] => []
  | n, l :: ls => l.toToken n :: spaced (n + l.source.length + 1) ls

lemma spaced_start (n : Nat) (ls : List Lexeme) : ∀ t ∈ (spaced n ls).head?, t.start = n := by
  cases ls with
  | nil => simp [spaced]
  | cons l ls => simp [spaced, Lexeme.toToken]

lemma isChain_spaced (n : Nat) (ls : List Lexeme) :
    (spaced n ls).IsChain fun t u => u.start = t.stop + 1 := by
  induction ls generalizing n with
  | nil => exact .nil
  | cons l ls ih => exact List.isChain_cons.2 ⟨spaced_start _ ls, ih _⟩

lemma map_spaced (n : Nat) (ls : List Lexeme) :
    (spaced n ls).map (fun t => (t.kind, t.text))
      = ls.map fun l => (l.kind, String.ofList l.text) := by
  induction ls generalizing n with
  | nil => rfl
  | cons l ls ih => rw [spaced, List.map_cons, List.map_cons, ih, Lexeme.toToken]

/-- Lexemes with single spaces between them are read one by one. -/
theorem tokens_spaced {ls : List Lexeme} (alone : ∀ l ∈ ls, scan l.source = some l) (n : Nat) :
    (Lexer.mk n ([' '].intercalate (ls.map Lexeme.source))).tokens = spaced n ls := by
  induction ls generalizing n with
  | nil => exact tokens_nil n
  | cons l ls ih =>
    obtain ⟨first, later⟩ := List.forall_mem_cons.1 alone
    cases ls with
    | nil =>
      rw [List.map_cons, List.map_nil, List.intercalate_singleton]
      exact tokens_lexeme first n
    | cons m ls =>
      have blank : isBlank ' ' = true := by decide
      rw [List.map_cons, List.map_cons, List.intercalate_cons_cons, List.append_assoc,
        List.singleton_append, ← List.map_cons, tokens_of_scan (scan_append (.space _) first),
        List.drop_left, tokens_of_scan_eq_none (scan_of_isBlank _ blank), ih later]
      rfl

lemma toList_normalForm (ts : List Token) :
    (normalForm ts).toList = [' '].intercalate ((ts.map Token.lexeme).map Lexeme.source) := by
  rw [normalForm, String.toList_intercalate, List.map_map, List.map_map]
  rfl

/-- Written out, the tokens of any text are read back with their kinds and texts, one
character apart; and the characters of each of them are that token alone. -/
theorem tokenize_normalForm (text : String) :
    let again := tokenize (normalForm (tokenize text))
    again.map (fun t => (t.kind, t.text)) = (tokenize text).map (fun t => (t.kind, t.text)) ∧
    (∀ t ∈ again.head?, t.start = 0) ∧
    again.IsChain (fun t u => u.start = t.stop + 1) ∧
    ∀ t ∈ tokenize text, tokenize (String.ofList (text.toList.extract t.start t.stop))
      = [⟨t.kind, t.text, 0, t.stop - t.start⟩] := by
  intro again
  have alone : ∀ l ∈ (tokenize text).map Token.lexeme, scan l.source = some l := by
    intro l mem
    obtain ⟨t, inside, rfl⟩ := List.mem_map.1 mem
    obtain ⟨l, found, whole, -⟩ := lexeme_of_mem_tokenize inside
    rw [whole, lexeme_toToken found]
    exact scan_source found
  have read : again = spaced 0 ((tokenize text).map Token.lexeme) := by
    rw [← tokens_spaced alone 0, ← toList_normalForm]
    rfl
  rw [read]
  refine ⟨?_, spaced_start 0 _, isChain_spaced 0 _, ?_⟩
  · rw [map_spaced, List.map_map]
    refine List.map_congr_left fun t _ => ?_
    exact Prod.ext rfl t.lexeme_text
  · intro t mem
    obtain ⟨l, found, whole, source⟩ := lexeme_of_mem_tokenize mem
    rw [source, tokenize_ofList, tokens_lexeme (scan_source found) 0, whole]
    simp [Lexeme.toToken]

/-- Leading zeros, an exponent without digits, a reserved word with a dot behind it, signs in
a row and a stray quote. -/
example : normalForm (tokenize "01 1e+ in.x>==\"\\") = "0 1 1 e in . x >= =" := by
  decide +kernel

end Query

namespace Cursor

open Query

lemma stop_lt_of_mem_completed {T : List Char} {t : Token}
    (mem : t ∈ (View.ofHead T).completed) : t.stop < T.length := by
  change t ∈ View.completedOf T at mem
  rw [completedOf_eq_filter] at mem
  simpa using (List.mem_filter.1 mem).2

/-- Something trails in every text that is not empty. -/
lemma endOf_completed_lt {T : List Char} (nonempty : T ≠ []) :
    endOf (View.ofHead T).completed < T.length := by
  rcases List.eq_nil_or_concat (View.ofHead T).completed with none | ⟨init, t, some⟩
  · rw [none, endOf_nil]
    exact List.length_pos_iff.2 nonempty
  · rw [List.concat_eq_append] at some
    have mem : t ∈ (View.ofHead T).completed := by simp [some]
    rw [some, endOf_concat]
    exact stop_lt_of_mem_completed mem

lemma endOf_completed_le (T : List Char) : endOf (View.ofHead T).completed ≤ T.length := by
  obtain ⟨passed, whole, offset⟩ := (ofHead_run T).1.passed
  have length := congrArg List.length whole
  simp only [List.length_append] at length offset
  omega

lemma trailing_eq (T : List Char) :
    (View.ofHead T).trailing = T.drop (endOf (View.ofHead T).completed) := rfl

/-- The trailing text by itself is nothing to the lexer, or one token up to its end; behind
the completed tokens it is the rest of all tokens. -/
theorem tokenize_trailing (T : List Char) :
    let v := View.ofHead T
    tokenize (String.ofList v.trailing) = [] ∧ tokenize (String.ofList T) = v.completed ∨
      ∃ t, tokenize (String.ofList v.trailing) = [t] ∧ t.stop = v.trailing.length ∧
        tokenize (String.ofList T) = v.completed ++ [t.shift (endOf v.completed)] := by
  intro v
  obtain ⟨run, last⟩ := ofHead_run T
  have shifted := tokens_shift (endOf v.completed) 0 v.trailing
  rw [Nat.add_zero] at shifted
  simp only [tokenize_ofList, run.tokens]
  change Lexer.tokens ⟨_, v.trailing⟩ = [] ∧ v.completed ++ Lexer.tokens ⟨_, v.trailing⟩ = _ ∨ _
  cases alone : (Lexer.mk 0 v.trailing).tokens with
  | nil =>
    left
    rw [shifted, alone, List.map_nil, List.append_nil]
    exact ⟨rfl, rfl⟩
  | cons t later =>
    rw [alone, List.map_cons] at shifted
    obtain ⟨reaches, none⟩ := last _ _ shifted
    obtain rfl := List.map_eq_nil_iff.1 none
    refine Or.inr ⟨t, rfl, ?_, by rw [shifted]; rfl⟩
    have within : t.stop ≤ 0 + v.trailing.length :=
      ((passes_to_end 0 v.trailing).bounds (by rw [alone]; exact List.mem_cons_self)).2.2
    have inside := endOf_completed_le T
    have length : v.trailing.length = T.length - endOf v.completed := by
      rw [trailing_eq, List.length_drop]
    rw [Token.shift_stop] at reaches
    omega

/-- What stands before the cursor is summed up by the completed tokens, which all end in
front of it, and the raw text behind them. Lexed by itself, that text is nothing or the one
token that reaches the cursor. -/
theorem before_summary (text : String) (cursor : Nat) :
    let stop := min cursor text.length
    let v := View.before text cursor
    let start := endOf v.completed
    (∀ t ∈ v.completed, t.stop < stop) ∧
    start ≤ stop ∧ v.trailing = text.toList.extract start stop ∧
    (v.trailing = [] → stop = 0) ∧
    (tokenize (String.ofList v.trailing) = [] ∧
        tokenize (String.ofList (text.toList.take stop)) = v.completed ∨
      ∃ t, tokenize (String.ofList v.trailing) = [t] ∧ t.stop = v.trailing.length ∧
        tokenize (String.ofList (text.toList.take stop)) = v.completed ++ [t.shift start]) := by
  intro stop v start
  set head := text.toList.take stop with headEq
  have seen : v = View.ofHead head := by
    have cut : text.toList.take cursor = head := by
      rw [List.take_eq_take_min, String.length_toList]
    rw [← cut]
    rfl
  have length : head.length = stop := by
    rw [headEq, List.length_take, String.length_toList]
    omega
  have trailing : v.trailing = head.drop start := by
    simp only [start, seen]
    exact trailing_eq head
  refine ⟨?_, ?_, ?_, ?_, ?_⟩
  · intro t mem
    rw [seen] at mem
    exact length ▸ stop_lt_of_mem_completed mem
  · have := endOf_completed_le head
    rwa [← seen, length] at this
  · rw [trailing, headEq, List.drop_take, List.extract_eq_take_drop]
  · intro none
    by_contra some
    have nonempty : head ≠ [] := by
      rintro empty
      rw [empty] at length
      exact some length.symm
    have short := endOf_completed_lt nonempty
    rw [trailing, List.drop_eq_nil_iff] at none
    rw [← seen] at short
    omega
  · have parts := tokenize_trailing head
    rwa [← seen] at parts

end Cursor

end FilterAssist
