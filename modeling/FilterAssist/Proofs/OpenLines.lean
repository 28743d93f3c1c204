import FilterAssist.Editor.Finished
import Mathlib.Algebra.Group.Nat.Defs
import Mathlib.Algebra.Ring.Int.Defs
import Mathlib.Tactic.Common

/-!
# Lines that are left open

A line is left open by a string that does not close, or by a parenthesis that is never
closed. Both are said here without a counter: strings by cutting the line, partners by
nesting. The counter alone decides by numbers. It never takes a closed line for an open one;
but a closing parenthesis that closes nothing makes up for an opening one further on, and a
line with both may pass as finished.
-/

namespace FilterAssist.Editor

/-- The inside of a string. A backslash takes the next character with it, whatever it is. -/
inductive Quoted : List Char → Prop
  | nil : Quoted []
  | plain {c : Char} {cs : List Char} (quote : c ≠ '"') (backslash : c ≠ '\\')
      (rest : Quoted cs) : Quoted (c :: cs)
  | escape {c : Char} {cs : List Char} (rest : Quoted cs) : Quoted ('\\' :: c :: cs)

/-- `Outside line code isOpen`: with its strings skipped from the left the line is `code`,
and the flag tells whether a string is open at its end. -/
inductive Outside : List Char → List Char → Bool → Prop
  | done : Outside [] [] false
  | code {c : Char} {cs code : List Char} {isOpen : Bool} (quote : c ≠ '"')
      (rest : Outside cs code isOpen) : Outside (c :: cs) (c :: code) isOpen
  | string {body cs code : List Char} {isOpen : Bool} (inside : Quoted body)
      (rest : Outside cs code isOpen) : Outside ('"' :: (body ++ '"' :: cs)) code isOpen
  | unclosed {body : List Char} (inside : Quoted body) : Outside ('"' :: body) [] true
  /-- What the backslash escapes is yet to come. -/
  | escaping {body : List Char} (inside : Quoted body) : Outside ('"' :: (body ++ ['\\'])) [] true

inductive Nested : List Char → Prop
  | nil : Nested []
  | plain {c : Char} {cs : List Char} (opening : c ≠ '(') (closing : c ≠ ')')
      (rest : Nested cs) : Nested (c :: cs)
  | group {inner rest : List Char} (inside : Nested inner) (behind : Nested rest) :
      Nested ('(' :: (inner ++ ')' :: rest))

/-- Whether a parenthesis that is open in front of the text is closed there. -/
def Closes (after : List Char) : Prop :=
  ∃ inner rest, after = inner ++ ')' :: rest ∧ Nested inner

/-- Whether a parenthesis closed right behind the text was opened there. -/
def Opens (before : List Char) : Prop :=
  ∃ front inner, before = front ++ '(' :: inner ∧ Nested inner

/-- Some opening parenthesis is never closed. -/
def Unclosed (code : List Char) : Prop :=
  ∃ before after, code = before ++ '(' :: after ∧ ¬ Closes after

/-- Some closing parenthesis closes nothing. -/
def Surplus (code : List Char) : Prop :=
  ∃ before after, code = before ++ ')' :: after ∧ ¬ Opens before

/-- Opening parentheses less closing ones. -/
def net (cs : List Char) : Int := cs.count '(' - cs.count ')'

@[simp] lemma net_nil : net [] = 0 := rfl

@[simp] lemma net_opening (cs : List Char) : net ('(' :: cs) = 1 + net cs := by
  simp [net]
  omega

@[simp] lemma net_closing (cs : List Char) : net (')' :: cs) = net cs - 1 := by
  simp [net]
  omega

lemma net_plain {c : Char} (opening : c ≠ '(') (closing : c ≠ ')') (cs : List Char) :
    net (c :: cs) = net cs := by
  simp [net, opening, closing]

@[simp] lemma net_append (cs ds : List Char) : net (cs ++ ds) = net cs + net ds := by
  simp [net]
  omega

lemma Nested.net_eq {cs : List Char} (h : Nested cs) : net cs = 0 := by
  induction h with
  | nil => rfl
  | plain opening closing _ ih => rw [net_plain opening closing, ih]
  | group _ _ inside behind =>
    simp only [net_opening, net_append, net_closing, inside, behind]
    omega

/-- Nothing is opened in nested text that is not closed before its end. -/
lemma Nested.net_suffix {cs back : List Char} (h : Nested cs) (ends : back <:+ cs) :
    net back ≤ 0 := by
  induction h generalizing back with
  | nil =>
    have none := List.suffix_nil.1 ends
    simp [none]
  | @plain c cs opening closing rest ih =>
    rcases List.suffix_cons_iff.1 ends with rfl | ends
    · exact Int.le_of_eq (Nested.plain opening closing rest).net_eq
    · exact ih ends
  | @group inner rest inside behind first second =>
    rcases List.suffix_cons_iff.1 ends with rfl | ends
    · exact Int.le_of_eq (Nested.group inside behind).net_eq
    rcases List.suffix_or_suffix_of_suffix ends (List.suffix_append inner (')' :: rest)) with
      short | long
    · rcases List.suffix_cons_iff.1 short with rfl | short
      · rw [net_closing, behind.net_eq]
        omega
      · exact second short
    · obtain ⟨front, rfl⟩ := long
      have within := first (List.suffix_append_self_iff.1 ends)
      rw [net_append, net_closing, behind.net_eq]
      omega

/-- Where more is closed than opened, a parenthesis in front is closed. -/
lemma closes_of_net_neg {cs : List Char} (more : net cs < 0) : Closes cs := by
  induction hlen : cs.length using Nat.strongRecOn generalizing cs with
  | ind length ih =>
    subst hlen
    cases cs with
    | nil => simp at more
    | cons c cs =>
      by_cases closing : c = ')'
      · exact ⟨[], cs, by rw [closing, List.nil_append], .nil⟩
      by_cases opening : c = '('
      · subst opening
        rw [net_opening] at more
        obtain ⟨inner, rest, rfl, inside⟩ := ih cs.length (by simp) (by omega) rfl
        rw [net_append, net_closing, inside.net_eq] at more
        obtain ⟨inner', rest', rfl, behind⟩ := ih rest.length (by simp; omega) (by omega) rfl
        exact ⟨'(' :: (inner ++ ')' :: inner'), rest', by simp, .group inside behind⟩
      · rw [net_plain opening closing] at more
        obtain ⟨inner, rest, rfl, inside⟩ := ih cs.length (by simp) more rfl
        exact ⟨c :: inner, rest, rfl, .plain opening closing inside⟩

lemma Unclosed.append {cs : List Char} (h : Unclosed cs) (front : List Char) :
    Unclosed (front ++ cs) := by
  obtain ⟨before, after, rfl, unclosed⟩ := h
  exact ⟨front ++ before, after, by simp, unclosed⟩

/-- Where more is opened than closed, some parenthesis is never closed. -/
lemma unclosed_of_net_pos {cs : List Char} (more : 0 < net cs) : Unclosed cs := by
  induction hlen : cs.length using Nat.strongRecOn generalizing cs with
  | ind length ih =>
    subst hlen
    cases cs with
    | nil => simp at more
    | cons c cs =>
      by_cases opening : c = '('
      · subst opening
        by_cases closes : Closes cs
        · obtain ⟨inner, rest, rfl, inside⟩ := closes
          simp only [net_opening, net_append, net_closing, inside.net_eq] at more
          have positive : 0 < net rest := by omega
          have later := (ih rest.length (by simp; omega) positive rfl).append ('(' :: (inner ++ [')']))
          simpa using later
        · exact ⟨[], cs, rfl, closes⟩
      · have tail : 0 < net cs := by
          by_cases closing : c = ')'
          · rw [closing, net_closing] at more
            omega
          · rwa [net_plain opening closing] at more
        exact (ih cs.length (by simp) tail rfl).append [c]

/-- Without a surplus every beginning opens at least as much as it closes. -/
lemma net_prefix_nonneg {code front : List Char} (none : ¬ Surplus code) (starts : front <+: code) :
    0 ≤ net front := by
  by_contra negative
  obtain ⟨inner, rest, rfl, inside⟩ := closes_of_net_neg (Int.not_le.1 negative)
  obtain ⟨back, rfl⟩ := starts
  apply none
  refine ⟨inner, rest ++ back, by simp, ?_⟩
  rintro ⟨outer, inner', rfl, partner⟩
  have := inside.net_suffix (List.suffix_append outer _)
  rw [net_opening, partner.net_eq] at this
  omega

lemma unclosed_iff_net_pos {code : List Char} (none : ¬ Surplus code) :
    Unclosed code ↔ 0 < net code := by
  constructor
  · rintro ⟨before, after, rfl, unclosed⟩
    have front := net_prefix_nonneg none (List.prefix_append before _)
    have back : 0 ≤ net after := by
      by_contra negative
      exact unclosed (closes_of_net_neg (Int.not_le.1 negative))
    rw [net_append, net_opening]
    omega
  · exact unclosed_of_net_pos

/-- Behind a quote a string is closed, or goes on to the end of the line. -/
lemma quoted_cases (cs : List Char) :
    (∃ body rest, Quoted body ∧ cs = body ++ '"' :: rest) ∨ Quoted cs ∨
      ∃ body, Quoted body ∧ cs = body ++ ['\\'] := by
  induction hlen : cs.length using Nat.strongRecOn generalizing cs with
  | ind length ih =>
    subst hlen
    cases cs with
    | nil => exact Or.inr (Or.inl .nil)
    | cons c cs =>
      by_cases quote : c = '"'
      · exact Or.inl ⟨[], cs, .nil, by rw [quote, List.nil_append]⟩
      by_cases backslash : c = '\\'
      · subst backslash
        cases cs with
        | nil => exact Or.inr (Or.inr ⟨[], .nil, rfl⟩)
        | cons e cs =>
          rcases ih cs.length (by simp only [List.length_cons]; omega) cs rfl with
            ⟨body, rest, inside, rfl⟩ | inside | ⟨body, inside, rfl⟩
          · exact Or.inl ⟨_, rest, .escape inside, rfl⟩
          · exact Or.inr (Or.inl (.escape inside))
          · exact Or.inr (Or.inr ⟨_, .escape inside, rfl⟩)
      · rcases ih cs.length (by simp) cs rfl with
          ⟨body, rest, inside, rfl⟩ | inside | ⟨body, inside, rfl⟩
        · exact Or.inl ⟨_, rest, .plain quote backslash inside, rfl⟩
        · exact Or.inr (Or.inl (.plain quote backslash inside))
        · exact Or.inr (Or.inr ⟨_, .plain quote backslash inside, rfl⟩)

theorem exists_outside (cs : List Char) : ∃ code isOpen, Outside cs code isOpen := by
  induction hlen : cs.length using Nat.strongRecOn generalizing cs with
  | ind length ih =>
    subst hlen
    cases cs with
    | nil => exact ⟨[], false, .done⟩
    | cons c cs =>
      by_cases quote : c = '"'
      · subst quote
        rcases quoted_cases cs with ⟨body, rest, inside, rfl⟩ | inside | ⟨body, inside, rfl⟩
        · obtain ⟨code, isOpen, later⟩ := ih rest.length (by simp; omega) rest rfl
          exact ⟨code, isOpen, .string inside later⟩
        · exact ⟨[], true, .unclosed inside⟩
        · exact ⟨[], true, .escaping inside⟩
      · obtain ⟨code, isOpen, later⟩ := ih cs.length (by simp) cs rfl
        exact ⟨c :: code, isOpen, .code quote later⟩

namespace Scan

variable {s : Scan} {n : Int} {c : Char}

def At (s : Scan) (n : Int) : Prop := s.mode = .code ∧ s.depth.toInt = n

lemma start_at : start.At 0 := ⟨rfl, rfl⟩

lemma toInt_add_one {depth : Int32} (room : depth.toInt + 1 < 2 ^ 31) :
    (depth + 1).toInt = depth.toInt + 1 := by
  have low := depth.le_toInt
  have one : (1 : Int32).toInt = 1 := rfl
  rw [Int32.toInt_add, one]
  apply Int.bmod_eq_of_le <;> omega

lemma toInt_sub_one {depth : Int32} (room : -2 ^ 31 ≤ depth.toInt - 1) :
    (depth - 1).toInt = depth.toInt - 1 := by
  have high := depth.toInt_lt
  have one : (1 : Int32).toInt = 1 := rfl
  rw [Int32.toInt_sub, one]
  apply Int.bmod_eq_of_le <;> omega

/-- One character outside of strings, with room for it in the counter. -/
lemma At.step (h : s.At n) (quote : c ≠ '"') (room : n.natAbs + 1 < 2 ^ 31) :
    (s.step c).At (n + net [c]) := by
  obtain ⟨mode, depth⟩ := s
  obtain ⟨rfl, rfl⟩ : mode = .code ∧ depth.toInt = n := h
  by_cases opening : c = '('
  · subst opening
    refine ⟨rfl, ?_⟩
    change (depth + 1).toInt = _
    rw [toInt_add_one (by omega), net_opening, net_nil]
    omega
  by_cases closing : c = ')'
  · subst closing
    refine ⟨rfl, ?_⟩
    change (depth - 1).toInt = _
    rw [toInt_sub_one (by omega), net_closing, net_nil]
    omega
  · rw [net_plain opening closing, net_nil, Int.add_zero]
    simp [Scan.step, At, quote, opening, closing]

lemma At.step_quote (h : s.At n) : s.step '"' = ⟨.string, s.depth⟩ := by
  obtain ⟨mode, depth⟩ := s
  obtain ⟨rfl, -⟩ : mode = .code ∧ depth.toInt = n := h
  rfl

end Scan

lemma Quoted.foldl_step {body : List Char} (h : Quoted body) (depth : Int32) :
    body.foldl Scan.step ⟨.string, depth⟩ = ⟨.string, depth⟩ := by
  induction h with
  | nil => rfl
  | plain quote backslash _ ih => simpa [Scan.step, quote, backslash] using ih
  | escape _ ih => simpa [Scan.step] using ih

lemma Scan.At.string {s : Scan} {n : Int} {body : List Char} (h : s.At n) (inside : Quoted body) :
    (('"' :: (body ++ ['"'])).foldl Scan.step s).At n := by
  rw [List.foldl_cons, h.step_quote, List.foldl_append, inside.foldl_step]
  exact ⟨rfl, h.2⟩

/-- Reading a line ends inside a string exactly when one is open, and otherwise the counter
has counted what stands outside of strings. -/
theorem Outside.foldl_step {cs code : List Char} {isOpen : Bool} (h : Outside cs code isOpen)
    {s : Scan} {n : Int} (here : s.At n) (room : n.natAbs + cs.length < 2 ^ 31) :
    (isOpen = true → (cs.foldl Scan.step s).mode ≠ .code) ∧
      (isOpen = false → (cs.foldl Scan.step s).At (n + net code)) := by
  induction h generalizing s n with
  | done => simpa using here
  | @code c cs code isOpen quote rest ih =>
    rw [List.length_cons] at room
    have next := here.step quote (by omega)
    have close : (net [c]).natAbs ≤ 1 := by
      by_cases opening : c = '('
      · simp [opening]
      by_cases closing : c = ')'
      · simp [closing]
      · simp [net_plain opening closing]
    have later := ih next (by omega)
    have split : net (c :: code) = net [c] + net code := net_append [c] code
    rw [split, ← Int.add_assoc]
    exact later
  | @string body cs code isOpen inside rest ih =>
    have closed := here.string inside
    have later := ih closed (by simp at room; omega)
    have cut : '"' :: (body ++ '"' :: cs) = ('"' :: (body ++ ['"'])) ++ cs := by simp
    rw [cut, List.foldl_append]
    exact later
  | unclosed inside =>
    rw [List.foldl_cons, here.step_quote, inside.foldl_step]
    simp
  | escaping inside =>
    rw [List.foldl_cons, here.step_quote, List.foldl_append, inside.foldl_step]
    simp [Scan.step]

lemma isBalanced_iff {line : String} : isBalanced line = true ↔
    (line.toList.foldl Scan.step Scan.start).mode = .code ∧
      (line.toList.foldl Scan.step Scan.start).depth.toInt ≤ 0 := by
  simp [isBalanced, Int32.le_iff_toInt_le]

/-- Numbers decide about a line that is not blank. -/
theorem isFinished_iff {line : String} {code : List Char} {isOpen : Bool}
    (visible : ∃ c ∈ line.toList, Text.isSpace c = false) (short : line.length < 2 ^ 31)
    (h : Outside line.toList code isOpen) :
    isFinished line = false ↔ isOpen = true ∨ 0 < net code := by
  have blank : line.toList.all Text.isSpace = false := by
    rw [List.all_eq_false]
    simpa using visible
  obtain ⟨opens, closed⟩ := h.foldl_step Scan.start_at (by simpa [String.length_toList] using short)
  rw [isFinished, blank, Bool.false_or, ← Bool.not_eq_true, isBalanced_iff]
  cases isOpen with
  | true => simp [opens rfl]
  | false =>
    obtain ⟨mode, depth⟩ := closed rfl
    rw [mode, depth]
    simp

/-- The answer for a line that is not blank goes by numbers: it is unfinished when a string
is open or more parentheses are opened than closed outside of strings. That is the same as
being left open unless some parenthesis is never closed and as many are closed as opened; it
is the same wherever no closing parenthesis is surplus. -/
theorem isFinished_leftOpen (line : String)
    (visible : ∃ c ∈ line.toList, Text.isSpace c = false) (short : line.length < 2 ^ 31) :
    (∃ code isOpen, Outside line.toList code isOpen) ∧
    ∀ code isOpen, Outside line.toList code isOpen →
      (isFinished line = false ↔ isOpen = true ∨ code.count ')' < code.count '(') ∧
      ((isFinished line = false ↔ isOpen = true ∨ Unclosed code) ↔
        isOpen = true ∨ ¬ Unclosed code ∨ code.count ')' < code.count '(') ∧
      (¬ Surplus code → (isFinished line = false ↔ isOpen = true ∨ Unclosed code)) := by
  refine ⟨exists_outside line.toList, ?_⟩
  intro code isOpen outside
  have answer := isFinished_iff visible short outside
  have number : 0 < net code ↔ code.count ')' < code.count '(' := by
    rw [net]
    omega
  have alarm : 0 < net code → Unclosed code := unclosed_of_net_pos
  rw [answer, ← number]
  refine ⟨Iff.rfl, ⟨?_, ?_⟩, ?_⟩
  · intro agrees
    by_cases unclosed : Unclosed code
    · rcases agrees.2 (Or.inr unclosed) with open_ | more
      · exact Or.inl open_
      · exact Or.inr (Or.inr more)
    · exact Or.inr (Or.inl unclosed)
  · rintro (open_ | closed | more)
    · exact iff_of_true (Or.inl open_) (Or.inl open_)
    · have fewer : ¬ 0 < net code := fun more => closed (alarm more)
      rw [iff_false_intro fewer, iff_false_intro closed]
    · exact iff_of_true (Or.inr more) (Or.inr (alarm more))
  · intro none
    rw [unclosed_iff_net_pos none]

/-- A closing parenthesis in a string, behind an escaped quote, closes nothing. -/
theorem isFinished_leftOpen_quoted :
    let line := "(\"\\\")\""
    (∃ c ∈ line.toList, Text.isSpace c = false) ∧ line.length < 2 ^ 31 ∧
      Outside line.toList ['('] false ∧ ¬ Surplus ['('] ∧
      (isFinished line = false ↔ false = true ∨ Unclosed ['(']) := by
  intro line
  have text : line.toList = ['(', '"', '\\', '"', ')', '"'] := by decide +kernel
  have visible : ∃ c ∈ line.toList, Text.isSpace c = false := ⟨'(', by simp [text], by decide⟩
  have short : line.length < 2 ^ 31 := by decide +kernel
  have inside : Quoted ['\\', '"', ')'] := .escape (.plain (by decide) (by decide) .nil)
  have outside : Outside line.toList ['('] false := by
    rw [text]
    exact .code (c := '(') (by decide) (.string inside .done)
  have paired : ¬ Surplus ['('] := by
    rintro ⟨before, after, cut, -⟩
    have mem : ')' ∈ ['('] := by simp [cut]
    simp at mem
  exact ⟨visible, short, outside, paired,
    ((isFinished_leftOpen line visible short).2 _ _ outside).2.2 paired⟩

/-- A surplus parenthesis makes up for one that is never closed. -/
theorem isFinished_surplus :
    let line := ")("
    (∃ c ∈ line.toList, Text.isSpace c = false) ∧ line.length < 2 ^ 31 ∧
      Outside line.toList [')', '('] false ∧
      ¬ (isFinished line = false ↔ false = true ∨ Unclosed [')', '(']) := by
  intro line
  have text : line.toList = [')', '('] := by decide +kernel
  have unclosed : Unclosed [')', '('] := by
    refine ⟨[')'], [], rfl, ?_⟩
    rintro ⟨inner, rest, none, -⟩
    simp at none
  have finished : isFinished line = true := by decide +kernel
  refine ⟨⟨')', by simp [text], by decide⟩, by decide +kernel, ?_, ?_⟩
  · rw [text]
    exact .code (c := ')') (by decide) (.code (c := '(') (by decide) .done)
  · simp [finished, unclosed]

end FilterAssist.Editor
