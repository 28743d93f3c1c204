import FilterAssist.Editor.Highlight
import FilterAssist.Proofs.ByteBoundaries
import FilterAssist.Proofs.LexerRuns
import Mathlib.Data.List.Chain

/-!
# A coloured line is the line

Tokens lie in a row, so a line falls into tokens and the runs of characters between them.
Cutting it there by bytes never misses a boundary, and the pieces are the tokens and these
runs, each as long as it can be. Colours apart, nothing is added to the line and nothing lost.
-/

namespace FilterAssist

namespace Text

variable {cs : List Char} {i j : Nat}

lemma getElem?_byteOffsets (n : Nat) (h : i ≤ cs.length) :
    (byteOffsets n cs)[i]? = some (n + byteLength (cs.take i)) := by
  induction cs generalizing n i with
  | nil =>
    obtain rfl := Nat.le_zero.1 h
    rfl
  | cons c cs ih =>
    cases i with
    | zero => rfl
    | succ i =>
      rw [byteOffsets, List.getElem?_cons_succ, ih _ (Nat.le_of_succ_le_succ h), List.take_succ_cons,
        byteLength_cons, Nat.add_assoc]

lemma take_eq_append_extract (h : i ≤ j) : cs.take j = cs.take i ++ cs.extract i j := by
  obtain ⟨k, rfl⟩ := Nat.exists_eq_add_of_le h
  rw [List.extract_eq_take_drop, Nat.add_sub_cancel_left, List.take_add]

lemma byteLength_take_lt (lt : i < j) (h : j ≤ cs.length) :
    byteLength (cs.take i) < byteLength (cs.take j) := by
  have some : cs.extract i j ≠ [] := by
    rw [← List.length_pos_iff, List.extract_eq_take_drop, List.length_take, List.length_drop]
    omega
  obtain ⟨c, rest, same⟩ := List.exists_cons_of_ne_nil some
  have positive := c.utf8Size_pos
  rw [take_eq_append_extract (Nat.le_of_lt lt), same, byteLength_append, byteLength_cons]
  omega

/-- Between the bytes of two characters lie the characters from the one up to the other. -/
lemma sliceBytes?_take (h : i ≤ j) :
    sliceBytes? (byteLength (cs.take i)) (byteLength (cs.take j)) cs = some (cs.extract i j) := by
  have front : takeBytes? (byteLength (cs.take j)) cs = some (cs.take j) :=
    takeBytes?_eq_some_iff.2 ⟨List.take_prefix j cs, rfl⟩
  have before : takeBytes? (byteLength (cs.take i)) (cs.take j) = some (cs.take i) :=
    takeBytes?_eq_some_iff.2 ⟨⟨_, (take_eq_append_extract h).symm⟩, rfl⟩
  rw [sliceBytes?, front, Option.bind_some, before, Option.map_some, take_eq_append_extract h,
    List.drop_left]

end Text

namespace Query

variable {i n a b : Nat} {t : Token} {ts : List Token}

/-- The tokens lie one behind the other between two positions, and none is empty. -/
def Laid : Nat → List Token → Nat → Prop
  | i, [], n => i ≤ n
  | i, t :: ts, n => i ≤ t.start ∧ t.start < t.stop ∧ Laid t.stop ts n

lemma Laid.le (laid : Laid i ts n) : i ≤ n := by
  induction ts generalizing i with
  | nil => exact laid
  | cons t ts ih =>
    obtain ⟨before, inside, later⟩ := laid
    have := ih later
    omega

lemma Laid.mono {m : Nat} (laid : Laid i ts n) (h : m ≤ i) : Laid m ts n := by
  cases ts with
  | nil => exact Nat.le_trans h laid
  | cons t ts => exact ⟨Nat.le_trans h laid.1, laid.2⟩

/-- What one step of the lexer does keeps the tokens in a row, and so does a run. -/
theorem Passes.laid {x y : Lexer} (run : Passes x ts y) : Laid x.offset ts y.offset := by
  induction run with
  | here => exact Nat.le_refl _
  | skip _ _ ih => exact ih.mono (Nat.le_succ _)
  | @read n cs l _ _ found _ ih =>
    have nonempty := List.length_pos_iff.2 (scan_source_ne_nil found)
    refine ⟨Nat.le_refl n, ?_, ih⟩
    simp only [Lexeme.toToken]
    omega

theorem tokenize_laid (text : String) : Laid 0 (tokenize text) text.toList.length := by
  have run := (passes_to_end 0 text.toList).laid
  rwa [Nat.zero_add] at run

def Covered (ts : List Token) (k : Nat) : Prop := ∃ t ∈ ts, t.start ≤ k ∧ k < t.stop

lemma covered_cons {k : Nat} :
    Covered (t :: ts) k ↔ (t.start ≤ k ∧ k < t.stop) ∨ Covered ts k := by
  simp [Covered]

lemma Laid.le_of_covered {k : Nat} (laid : Laid i ts n) (h : Covered ts k) : i ≤ k ∧ k < n := by
  induction ts generalizing i with
  | nil =>
    obtain ⟨t, mem, -⟩ := h
    cases mem
  | cons t ts ih =>
    obtain ⟨before, inside, later⟩ := laid
    have := later.le
    rcases covered_cons.1 h with here | h
    · omega
    · have := ih later h
      omega

/-- From `a` up to `b` no character is covered, and the run cannot be made longer within `i`
and `n`. -/
structure Gap (i n : Nat) (ts : List Token) (a b : Nat) : Prop where
  within : i ≤ a ∧ a < b ∧ b ≤ n
  free : ∀ k, a ≤ k → k < b → ¬ Covered ts k
  begins : a = i ∨ Covered ts (a - 1)
  ends : b = n ∨ Covered ts b

lemma gap_nil_iff : Gap i n [] a b ↔ a = i ∧ b = n ∧ i < n := by
  have uncovered (k : Nat) : ¬ Covered [] k := by
    rintro ⟨t, mem, -⟩
    cases mem
  constructor
  · rintro ⟨within, -, begins, ends⟩
    have := begins.resolve_right (uncovered _)
    have := ends.resolve_right (uncovered _)
    omega
  · rintro ⟨rfl, rfl, lt⟩
    exact ⟨by omega, fun k _ _ => uncovered k, Or.inl rfl, Or.inl rfl⟩

/-- The run in front of the first token, or one behind it. -/
lemma gap_cons_iff (laid : Laid i (t :: ts) n) :
    Gap i n (t :: ts) a b ↔ (a = i ∧ b = t.start ∧ i < t.start) ∨ Gap t.stop n ts a b := by
  obtain ⟨before, inside, later⟩ := laid
  have room := later.le
  constructor
  · rintro ⟨within, free, begins, ends⟩
    simp only [covered_cons, not_or] at free begins ends
    by_cases front : a < t.start
    · have start : a = i := by
        rcases begins with start | here | behind
        · exact start
        · omega
        · have := later.le_of_covered behind
          omega
      have short : b ≤ t.start := by
        by_contra long
        exact (free t.start (by omega) (by omega)).1 (by omega)
      have stop : b = t.start := by
        rcases ends with last | here | behind
        · omega
        · omega
        · have := later.le_of_covered behind
          omega
      exact Or.inl ⟨start, stop, by omega⟩
    · have past : t.stop ≤ a := by
        by_contra inside
        exact (free a (by omega) (by omega)).1 (by omega)
      refine Or.inr ⟨by omega, fun k low high => (free k low high).2, ?_, ?_⟩
      · rcases begins with start | here | behind
        · omega
        · exact Or.inl (by omega)
        · exact Or.inr behind
      · rcases ends with last | here | behind
        · exact Or.inl last
        · omega
        · exact Or.inr behind
  · rintro (⟨rfl, rfl, lt⟩ | ⟨within, free, begins, ends⟩)
    · refine ⟨by omega, fun k low high covered => ?_, Or.inl rfl,
        Or.inr (covered_cons.2 (Or.inl (by omega)))⟩
      rcases covered_cons.1 covered with here | behind
      · omega
      · have := later.le_of_covered behind
        omega
    · refine ⟨by omega, fun k low high covered => ?_, ?_, ?_⟩
      · rcases covered_cons.1 covered with here | behind
        · omega
        · exact free k low high behind
      · rcases begins with rfl | behind
        · exact Or.inr (covered_cons.2 (Or.inl (by omega)))
        · exact Or.inr (covered_cons.2 (Or.inr behind))
      · rcases ends with last | behind
        · exact Or.inl last
        · exact Or.inr (covered_cons.2 (Or.inr behind))

end Query

namespace Editor

open Query Text

variable {cs : List Char} {i j : Nat} {t : Token} {ts : List Token}

/-- Text without a style from one character up to another. -/
def between (cs : List Char) (i j : Nat) : List Piece :=
  if i < j then [⟨"", String.ofList (cs.extract i j)⟩] else []

def tokenPiece (cs : List Char) (t : Token) : Piece :=
  ⟨Report.style t.kind, String.ofList (cs.extract t.start t.stop)⟩

def piecesFrom (cs : List Char) (i : Nat) : List Token → List Piece
  | [] => between cs i cs.length
  | t :: ts => between cs i t.start ++ tokenPiece cs t :: piecesFrom cs t.stop ts

lemma gap?_take (h : i ≤ j) (inside : j ≤ cs.length) :
    gap? cs (byteLength (cs.take i)) (byteLength (cs.take j)) = some (between cs i j) := by
  by_cases lt : i < j
  · rw [gap?, if_pos (byteLength_take_lt lt inside), sliceBytes?_take h, between, if_pos lt,
      Option.map_some]
  · obtain rfl : i = j := by omega
    rw [gap?, if_neg (Nat.lt_irrefl _), between, if_neg (Nat.lt_irrefl _)]

/-- Every byte is found and every cut is between characters. -/
theorem pieces?_eq (laid : Laid i ts cs.length) :
    pieces? cs (byteOffsets 0 cs) (byteLength (cs.take i)) ts = some (piecesFrom cs i ts) := by
  induction ts generalizing i with
  | nil =>
    have whole := gap?_take laid (Nat.le_refl cs.length)
    rwa [List.take_length] at whole
  | cons t ts ih =>
    obtain ⟨before, inside, later⟩ := laid
    have room := later.le
    have start : (byteOffsets 0 cs)[t.start]? = some (0 + byteLength (cs.take t.start)) :=
      getElem?_byteOffsets 0 (by omega)
    have stop : (byteOffsets 0 cs)[t.stop]? = some (0 + byteLength (cs.take t.stop)) :=
      getElem?_byteOffsets 0 room
    have gap : gap? cs (byteLength (cs.take i)) (byteLength (cs.take t.start))
        = some (between cs i t.start) := gap?_take before (by omega)
    rw [Nat.zero_add] at start stop
    rw [pieces?, start, stop]
    simp only [Option.bind_eq_bind, Option.bind_some, gap, sliceBytes?_take (Nat.le_of_lt inside),
      ih later]
    rfl

theorem cut?_eq (line : String) :
    cut? line = some (piecesFrom line.toList 0 (tokenize line)) :=
  pieces?_eq (tokenize_laid line)

/-- Each piece with the character at which it begins. -/
def placed (n : Nat) : List Piece → List (Nat × Piece)
  | [] => []
  | p :: ps => (n, p) :: placed (n + p.text.length) ps

lemma length_extract (h : i ≤ j) (inside : j ≤ cs.length) :
    i + (String.ofList (cs.extract i j)).length = j := by
  rw [String.length_ofList, List.extract_eq_take_drop, List.length_take, List.length_drop]
  omega

lemma placed_between_append (h : i ≤ j) (inside : j ≤ cs.length) (ps : List Piece) :
    placed i (between cs i j ++ ps) = (between cs i j).map (i, ·) ++ placed j ps := by
  by_cases lt : i < j
  · rw [between, if_pos lt]
    simp only [List.singleton_append, placed, length_extract h inside, List.map_cons, List.map_nil]
  · obtain rfl : i = j := by omega
    rw [between, if_neg lt]
    rfl

lemma placed_tokenPiece (inside : t.start < t.stop) (room : t.stop ≤ cs.length)
    (ps : List Piece) :
    placed t.start (tokenPiece cs t :: ps) = (t.start, tokenPiece cs t) :: placed t.stop ps := by
  simp only [placed, tokenPiece, length_extract (Nat.le_of_lt inside) room]

lemma placed_nil (h : i ≤ cs.length) :
    placed i (piecesFrom cs i []) = (between cs i cs.length).map (i, ·) := by
  have whole := placed_between_append h (Nat.le_refl cs.length) []
  rw [List.append_nil] at whole
  exact whole.trans (List.append_nil _)

lemma placed_cons (laid : Laid i (t :: ts) cs.length) :
    placed i (piecesFrom cs i (t :: ts)) = (between cs i t.start).map (i, ·)
      ++ (t.start, tokenPiece cs t) :: placed t.stop (piecesFrom cs t.stop ts) := by
  obtain ⟨before, inside, later⟩ := laid
  have room := later.le
  rw [piecesFrom, placed_between_append before (by omega), placed_tokenPiece inside room]

lemma style_ne_empty (k : Kind) : Report.style k ≠ "" := by
  cases k with
  | punct p => cases p <;> decide
  | keyword w => cases w <;> decide
  | name | string | int | float => decide
  | comparison op => cases op <;> decide

lemma filter_between (m : Nat) :
    ((between cs i j).map (m, ·)).filter (fun x => x.2.style != "") = [] := by
  rw [between]
  split <;> rfl

/-- The pieces with a style are the tokens. -/
theorem filter_placed (laid : Laid i ts cs.length) :
    (placed i (piecesFrom cs i ts)).filter (fun x => x.2.style != "")
      = ts.map fun t => (t.start, tokenPiece cs t) := by
  induction ts generalizing i with
  | nil => rw [placed_nil laid, filter_between, List.map_nil]
  | cons t ts ih =>
    have styled : ((tokenPiece cs t).style != "") = true := bne_iff_ne.2 (style_ne_empty t.kind)
    rw [placed_cons laid, List.filter_append, filter_between, List.nil_append, List.filter_cons,
      if_pos styled, ih laid.2.2, List.map_cons]

lemma mem_between {m a : Nat} {s : String} : (a, Piece.mk "" s) ∈ (between cs i j).map (m, ·) ↔
    a = m ∧ i < j ∧ s = String.ofList (cs.extract i j) := by
  rw [between]
  split
  · next lt => simp [lt]
  · next lt => simp [lt]

/-- The pieces without a style are the runs that no token covers. -/
theorem mem_placed_iff (laid : Laid i ts cs.length) {a : Nat} {s : String} :
    (a, Piece.mk "" s) ∈ placed i (piecesFrom cs i ts) ↔
      ∃ b, Gap i cs.length ts a b ∧ s = String.ofList (cs.extract a b) := by
  induction ts generalizing i with
  | nil =>
    rw [placed_nil laid, mem_between]
    simp only [gap_nil_iff]
    constructor
    · rintro ⟨rfl, lt, rfl⟩
      exact ⟨cs.length, ⟨rfl, rfl, lt⟩, rfl⟩
    · rintro ⟨b, ⟨rfl, rfl, lt⟩, rfl⟩
      exact ⟨rfl, lt, rfl⟩
  | cons t ts ih =>
    have other : (a, Piece.mk "" s) ≠ (t.start, tokenPiece cs t) := by
      intro same
      have style : "" = Report.style t.kind := congrArg (fun x => x.2.style) same
      exact style_ne_empty t.kind style.symm
    rw [placed_cons laid, List.mem_append, List.mem_cons, mem_between, ih laid.2.2]
    simp only [gap_cons_iff laid, other, false_or]
    constructor
    · rintro (⟨rfl, lt, rfl⟩ | ⟨b, gap, text⟩)
      · exact ⟨t.start, Or.inl ⟨rfl, rfl, lt⟩, rfl⟩
      · exact ⟨b, Or.inr gap, text⟩
    · rintro ⟨b, ⟨rfl, rfl, lt⟩ | gap, text⟩
      · exact Or.inl ⟨rfl, lt, text⟩
      · exact Or.inr ⟨b, gap, text⟩

lemma text_between (h : i ≤ j) :
    (between cs i j).flatMap (fun p => p.text.toList) = cs.extract i j := by
  by_cases lt : i < j
  · rw [between, if_pos lt]
    simp
  · obtain rfl : i = j := by omega
    rw [between, if_neg lt, List.extract_eq_take_drop, Nat.sub_self]
    rfl

lemma extract_append_drop (h : i ≤ j) : cs.extract i j ++ cs.drop j = cs.drop i := by
  obtain ⟨k, rfl⟩ := Nat.exists_eq_add_of_le h
  rw [List.extract_eq_take_drop, Nat.add_sub_cancel_left, ← List.drop_drop, List.take_append_drop]

/-- Put together, the pieces are what is left of the line. -/
theorem text_piecesFrom (laid : Laid i ts cs.length) :
    (piecesFrom cs i ts).flatMap (fun p => p.text.toList) = cs.drop i := by
  induction ts generalizing i with
  | nil =>
    rw [piecesFrom, text_between laid, ← extract_append_drop laid, List.drop_length,
      List.append_nil]
  | cons t ts ih =>
    obtain ⟨before, inside, later⟩ := laid
    rw [piecesFrom, List.flatMap_append, List.flatMap_cons, text_between before, ih later,
      tokenPiece, String.toList_ofList, extract_append_drop (Nat.le_of_lt inside),
      extract_append_drop before]

lemma extract_ne_empty (lt : i < j) (inside : j ≤ cs.length) :
    String.ofList (cs.extract i j) ≠ "" := by
  intro empty
  have length := length_extract (Nat.le_of_lt lt) inside
  rw [empty, String.length_empty] at length
  omega

lemma text_ne_empty (laid : Laid i ts cs.length) :
    ∀ p ∈ piecesFrom cs i ts, p.text ≠ "" := by
  have gaps {i j : Nat} (inside : j ≤ cs.length) : ∀ p ∈ between cs i j, p.text ≠ "" := by
    intro p mem
    rw [between] at mem
    split at mem
    · next lt =>
      obtain rfl := List.mem_singleton.1 mem
      exact extract_ne_empty lt inside
    · cases mem
  induction ts generalizing i with
  | nil => exact gaps (Nat.le_refl _)
  | cons t ts ih =>
    obtain ⟨before, inside, later⟩ := laid
    have room := later.le
    intro p mem
    rcases List.mem_append.1 mem with mem | mem
    · exact gaps (by omega) p mem
    rcases List.mem_cons.1 mem with rfl | mem
    · exact extract_ne_empty inside room
    · exact ih later p mem

/-- Of two pieces side by side one has a style. -/
lemma isChain_piecesFrom (cs : List Char) (i : Nat) (ts : List Token) :
    (piecesFrom cs i ts).IsChain fun p q => p.style ≠ "" ∨ q.style ≠ "" := by
  induction ts generalizing i with
  | nil =>
    rw [piecesFrom, between]
    split <;> simp
  | cons t ts ih =>
    have styled : (tokenPiece cs t).style ≠ "" := style_ne_empty t.kind
    have behind : (tokenPiece cs t :: piecesFrom cs t.stop ts).IsChain
        fun p q => p.style ≠ "" ∨ q.style ≠ "" :=
      List.isChain_cons.2 ⟨fun q _ => Or.inl styled, ih t.stop⟩
    rw [piecesFrom, between]
    split
    · exact List.isChain_cons_cons.2 ⟨Or.inr styled, behind⟩
    · exact behind

lemma highlight_eq (line : String) :
    highlight true line = piecesFrom line.toList 0 (tokenize line) := by
  rw [highlight, if_pos rfl, cut?_eq, Option.getD_some]

lemma join_highlight (enabled : Bool) (line : String) :
    String.join ((highlight enabled line).map Piece.text) = line := by
  cases enabled with
  | false => simp [highlight]
  | true =>
    have text := text_piecesFrom (tokenize_laid line)
    rw [← String.toList_inj, String.toList_join, List.flatMap_map, highlight_eq]
    exact text

/-- A coloured line is the line. Cutting it succeeds, and gives the tokens with their styles
and, without a style, the longest runs that no token covers. -/
theorem highlight_preserves (line : String) :
    (∀ enabled, String.join ((highlight enabled line).map Piece.text) = line) ∧
    cut? line = some (highlight true line) ∧
    (∀ p ∈ highlight true line, p.text ≠ "") ∧
    (placed 0 (highlight true line)).filter (fun x => x.2.style != "") =
      ((tokenize line).map fun t => (t.start,
        ⟨Report.style t.kind, String.ofList (line.toList.extract t.start t.stop)⟩)) ∧
    (∀ a s, (a, ⟨"", s⟩) ∈ placed 0 (highlight true line) ↔
      ∃ b, Gap 0 line.toList.length (tokenize line) a b ∧
        s = String.ofList (line.toList.extract a b)) ∧
    (highlight true line).IsChain fun p q => p.style ≠ "" ∨ q.style ≠ "" := by
  have laid := tokenize_laid line
  refine ⟨fun enabled => join_highlight enabled line, ?_⟩
  rw [highlight_eq]
  exact ⟨cut?_eq line, text_ne_empty laid, filter_placed laid, fun a s => mem_placed_iff laid,
    isChain_piecesFrom _ _ _⟩

/-- Characters of several bytes, inside a token and in the gaps around it. -/
example : highlight true "é\"ü\" @" =
    [⟨"", "é"⟩, ⟨Report.style .string, "\"ü\""⟩, ⟨"", " @"⟩] := by decide +kernel

end Editor

end FilterAssist
