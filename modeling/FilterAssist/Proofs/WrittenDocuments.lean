import FilterAssist.Proofs.QuotedStrings
import FilterAssist.Toml.Reader

/-!
# Documents written and read back

Sections of plain entries, written one line each with a blank line between sections, are read
back as one table per section. Names and keys have to be such that they need no quotes, and
each of them may be used once; the values are free.
-/

namespace FilterAssist.Toml

open Text

variable {c : Char} {w cs rest : List Char}

lemma ungroup?_digits (nonempty : cs ≠ []) (digits : ∀ c ∈ cs, c.isDigit = true) :
    ungroup? Char.isDigit cs = some cs := by
  induction cs with
  | nil => exact absurd rfl nonempty
  | cons c cs ih =>
    obtain ⟨hc, hcs⟩ := List.forall_mem_cons.1 digits
    cases cs with
    | nil => simp [ungroup?, hc]
    | cons d ds =>
      have together : d ≠ '_' := by
        rintro rfl
        cases hcs '_' List.mem_cons_self
      simp [ungroup?, hc, together, ih (by simp) hcs]

lemma isDigit_of_mem {n : Nat} (h : c ∈ Nat.toDigits 10 n) : c.isDigit = true :=
  Nat.isDigit_of_mem_toDigits (by decide) (by decide) h

/-- Only zero is written with a zero in front. -/
lemma head?_toDigits_ne {n : Nat} (pos : 0 < n) : (Nat.toDigits 10 n).head? ≠ some '0' := by
  induction n using Nat.strongRecOn with
  | ind n ih =>
    by_cases small : n < 10
    · rw [Nat.toDigits_of_lt_base small]
      interval_cases n <;> decide
    · rw [Nat.toDigits_of_base_le (by decide) (by omega), List.head?_append_of_ne_nil _ (by simp)]
      exact ih (n / 10) (by omega) (by omega)

lemma wholeDigits?_toDigits (n : Nat) :
    wholeDigits? (Nat.toDigits 10 n) = some (Nat.toDigits 10 n) := by
  have spelt : ungroup? Char.isDigit (Nat.toDigits 10 n) = some (Nat.toDigits 10 n) :=
    ungroup?_digits Nat.toDigits_ne_nil fun c => isDigit_of_mem
  have plain : ¬ ((Nat.toDigits 10 n).head? == some '0'
      && (Nat.toDigits 10 n).length > 1) = true := by
    by_cases pos : 0 < n
    · simp [head?_toDigits_ne pos]
    · obtain rfl := Nat.eq_zero_of_not_pos pos
      decide
  rw [wholeDigits?, spelt, Option.bind_some, if_neg plain]

/-- What is written for a number is read as that number. -/
lemma integer?_toDigits (n : Nat) : integer? (Nat.toDigits 10 n) = some (n : Int) := by
  have digit {c : Char} (h : c ∈ Nat.toDigits 10 n) := isDigit_of_mem h
  have value : ofDigits (Nat.toDigits 10 n) = n := Nat.ofDigitChars_ten_toDigits
  have whole := wholeDigits?_toDigits n
  generalize Nat.toDigits 10 n = ds at *
  cases ds with
  | nil => cases whole
  | cons c ds =>
    have sign : c ≠ '+' ∧ c ≠ '-' := by
      constructor <;> rintro rfl <;> cases digit List.mem_cons_self
    have unsigned : dropSign (c :: ds) = c :: ds := by simp [dropSign, sign]
    have positive : isNegative (c :: ds) = false := by simp [isNegative, sign]
    rw [integer?, unsigned, whole, Option.map_some, positive, value]
    · rfl
    all_goals
      rintro after ⟨⟩
      cases digit (List.mem_cons_of_mem _ List.mem_cons_self)

lemma date?_eq_none (dashless : '-' ∉ cs) : date? cs = none := by
  rw [date?]
  rintro y₁ y₂ y₃ y₄ after rfl
  simp at dashless

/-- A word that is no date ends where its characters end. -/
lemma word_append (inside : ∀ c ∈ w, isWordChar c = true) (dashless : '-' ∉ w) :
    word (w ++ '\n' :: rest) = (w, '\n' :: rest) := by
  have apart : ∀ c, ('\n' :: rest).head? = some c → isWordChar c = false := by
    rintro c ⟨⟩
    decide
  obtain ⟨taken, dropped⟩ := takeWhile_dropWhile_append inside apart
  rw [word]
  simp only [taken, dropped, date?_eq_none dashless]

/-- The value that is read where the scalar is written. -/
def Scalar.value : Scalar → Value
  | .string s => .string s
  | .integer n => .integer n
  | .bool b => .bool b

lemma value?_string (depth : Nat) (h : string? cs = some (w, rest)) :
    value? depth cs = some (.string (String.ofList w), rest) := by
  rw [value?.eq_def]
  simp only [h]

lemma string?_eq_none (double : c ≠ '"') (single : c ≠ '\'') : string? (c :: cs) = none := by
  rw [string?, lineString?]
  all_goals rintro after ⟨⟩
  all_goals contradiction

/-- A letter or digit opens a bare word, which ends with its line. -/
lemma value?_word (depth : Nat) {v : Value} (starts : c.isAlphanum = true)
    (inside : ∀ d ∈ c :: w, isWordChar d = true) (dashless : '-' ∉ c :: w)
    (stands : scalar? (c :: w) = some v) :
    value? depth (c :: w ++ '\n' :: rest) = some (v, '\n' :: rest) := by
  have other {d : Char} (h : d.isAlphanum = false) : c ≠ d := by
    rintro rfl
    rw [starts] at h
    cases h
  have unquoted : string? (c :: (w ++ '\n' :: rest)) = none :=
    string?_eq_none (other (by decide)) (other (by decide))
  rw [value?, List.cons_append, unquoted, ← List.cons_append, word_append inside dashless]
  · simp only [stands, Option.map_some]
  · rintro depth' after - ⟨⟩
    exact other (by decide) rfl
  · rintro depth' after - ⟨⟩
    exact other (by decide) rfl

lemma scalar?_toDigits (n : Nat) : scalar? (Nat.toDigits 10 n) = some (.integer n) := by
  have other (b : String) (c : Char) (mem : c ∈ b.toList) (letter : c.isDigit = false) :
      (Nat.toDigits 10 n == b.toList) = false := by
    rw [beq_eq_false_iff_ne]
    intro same
    rw [← same] at mem
    rw [isDigit_of_mem mem] at letter
    cases letter
  rw [scalar?, other "true" 't' (by decide) (by decide), other "false" 'f' (by decide) (by decide),
    integer?_toDigits]
  rfl

/-- What is written for a value is read as that value, up to the end of its line. -/
theorem value?_text (depth : Nat) (value : Scalar) :
    value? depth (value.text.toList ++ '\n' :: rest) = some (value.value, '\n' :: rest) := by
  cases value with
  | string s =>
    rw [Scalar.text, String.toList_ofList,
      value?_string depth (string?_writeString s.toList (by simp) (by simp)), String.ofList_toList]
    rfl
  | integer n =>
    rw [Scalar.text, Nat.toList_repr]
    have digit {c : Char} (h : c ∈ Nat.toDigits 10 n) := isDigit_of_mem h
    have value := scalar?_toDigits n
    have nonempty : Nat.toDigits 10 n ≠ [] := Nat.toDigits_ne_nil
    generalize Nat.toDigits 10 n = ds at *
    obtain ⟨c, ds, rfl⟩ := List.exists_cons_of_ne_nil nonempty
    have alphanum {c : Char} (h : c.isDigit = true) : c.isAlphanum = true := by
      rw [Char.isAlphanum, h, Bool.or_true]
    refine value?_word depth (alphanum (digit List.mem_cons_self)) (fun d hd => ?_) ?_ value
    · simp [isWordChar, alphanum (digit hd)]
    · intro dash
      cases digit dash
  | bool b =>
    cases b with
    | true => exact value?_word depth rfl (List.all_eq_true.1 rfl) (by decide) rfl
    | false => exact value?_word depth rfl (List.all_eq_true.1 rfl) (by decide) rfl

/-- A key that needs no quotes. -/
def IsBare (key : String) : Prop := key ≠ "" ∧ ∀ c ∈ key.toList, isBareKeyChar c = true

instance (key : String) : Decidable (IsBare key) :=
  decidable_of_iff (key ≠ "" ∧ key.toList.all isBareKeyChar = true)
    (and_congr_right fun _ => List.all_eq_true)

lemma IsBare.exists_cons {key : String} (h : IsBare key) :
    ∃ c cs, key.toList = c :: cs ∧ isBareKeyChar c = true := by
  cases chars : key.toList with
  | nil => exact absurd (String.toList_inj.1 chars) h.1
  | cons c cs => exact ⟨c, cs, rfl, h.2 c (by simp [chars])⟩

/-- A character of a bare key is nothing else. -/
lemma ne_of_isBareKeyChar {d : Char} (bare : isBareKeyChar c = true)
    (other : isBareKeyChar d = false) : c ≠ d := by
  rintro rfl
  rw [bare] at other
  cases other

lemma isWs_of_isBareKeyChar (bare : isBareKeyChar c = true) : isWs c = false := by
  rw [isWs, Bool.or_eq_false_iff, beq_eq_false_iff_ne, beq_eq_false_iff_ne]
  exact ⟨ne_of_isBareKeyChar bare (by decide), ne_of_isBareKeyChar bare (by decide)⟩

lemma skipWs_of_not_isWs (h : isWs c = false) : skipWs (c :: cs) = c :: cs := by
  simp [skipWs, h]

/-- A bare key is read up to what cannot go on with it. -/
lemma key?_bare {key : String} (bare : IsBare key) (cs : List Char)
    (apart : ∀ c, cs.head? = some c → isBareKeyChar c = false)
    (single : (skipWs cs).head? ≠ some '.') :
    key? (key.toList ++ cs) = some ([key], skipWs cs) := by
  obtain ⟨c, ds, chars, hc⟩ := bare.exists_cons
  have unquoted : lineString? (key.toList ++ cs) = none := by
    rw [chars, List.cons_append, lineString?]
    all_goals rintro after ⟨⟩
    all_goals cases hc
  obtain ⟨taken, dropped⟩ := takeWhile_dropWhile_append bare.2 apart
  have part : keyPart? (key.toList ++ cs) = some (key, cs) := by
    have nonempty : key.toList.isEmpty = false := by rw [chars]; rfl
    rw [keyPart?, unquoted]
    simp only [taken, dropped, nonempty, Bool.false_eq_true, if_false, String.ofList_toList]
  have start : skipWs (key.toList ++ cs) = key.toList ++ cs := by
    rw [chars]
    exact skipWs_of_not_isWs (isWs_of_isBareKeyChar hc)
  have read : keyParts? ((key.toList ++ cs).length + 1) (key.toList ++ cs)
      = some ([key], skipWs cs) := by
    rw [keyParts?, start, part]
    simp only
    split
    · next after dot =>
      rw [dot] at single
      exact absurd rfl single
    · rfl
  rw [key?, read]
  rfl

/-- One line of a document. -/
inductive Line where
  | blank
  | header (name : String)
  | entry (key : String) (value : Scalar)

namespace Line

/-- The text of a line, with the line break that ends it. -/
def text : Line → List Char
  | blank => ['\n']
  | header name => '[' :: (name.toList ++ [']', '\n'])
  | entry key value => key.toList ++ (' ' :: '=' :: ' ' :: (value.text.toList ++ ['\n']))

def statements : Line → List Statement
  | blank => []
  | header name => [.table [name]]
  | entry key value => [.assign [key] value.value]

/-- Names and keys need no quotes. -/
def IsBare : Line → Prop
  | blank => True
  | header name => Toml.IsBare name
  | entry key _ => Toml.IsBare key

end Line

lemma lineEnd?_newline (cs : List Char) : lineEnd? ('\n' :: cs) = some cs := rfl

/-- A line does not end where a statement starts. -/
lemma lineEnd?_eq_none (h : c = '[' ∨ isBareKeyChar c = true) : lineEnd? (c :: cs) = none := by
  have other {d : Char} (no : d ≠ '[' ∧ isBareKeyChar d = false) : c ≠ d := by
    rcases h with rfl | bare
    · exact no.1.symm
    · exact ne_of_isBareKeyChar bare no.2
  have visible : isWs c = false := by
    rw [isWs, Bool.or_eq_false_iff, beq_eq_false_iff_ne, beq_eq_false_iff_ne]
    exact ⟨other (by decide), other (by decide)⟩
  have uncommented : skipComment (c :: cs) = c :: cs := by
    rw [skipComment]
    rintro after ⟨⟩
    exact other (by decide) rfl
  have unbroken : newline? (c :: cs) = none := by
    apply newline?_eq_none
    · rintro ⟨⟩
      exact other (by decide) rfl
    · rintro ⟨⟩
      exact other (by decide) rfl
  rw [lineEnd?, skipWs_of_not_isWs visible, uncommented]
  exact unbroken

lemma statement?_header {name : String} (bare : IsBare name) (cs : List Char) :
    statement? ('[' :: (name.toList ++ ']' :: cs)) = some (.table [name], cs) := by
  have key : key? (name.toList ++ ']' :: cs) = some ([name], ']' :: cs) := by
    refine key?_bare bare (']' :: cs) ?_ (by simp [skipWs, isWs])
    rintro c ⟨⟩
    decide
  have start : skipWs ('[' :: (name.toList ++ ']' :: cs)) = '[' :: (name.toList ++ ']' :: cs) :=
    skipWs_of_not_isWs (by decide)
  obtain ⟨c, ds, chars, hc⟩ := bare.exists_cons
  rw [statement?, start]
  split
  · next heq =>
    rw [chars] at heq
    cases heq
    cases hc
  · next heq =>
    cases heq
    simp only [key]
  · next other => exact absurd rfl (other _)

/-- A value stands right behind the blank. -/
lemma skipWs_text (value : Scalar) (cs : List Char) :
    skipWs (' ' :: (value.text.toList ++ cs)) = value.text.toList ++ cs := by
  have visible : ∃ c w, value.text.toList = c :: w ∧ isWs c = false := by
    cases value with
    | string s =>
      rw [Scalar.text, String.toList_ofList, writeString]
      split
      · exact ⟨'"', _, rfl, rfl⟩
      · exact ⟨'\'', _, rfl, rfl⟩
      · exact ⟨'"', _, rfl, rfl⟩
      · exact ⟨'\'', _, rfl, rfl⟩
    | integer n =>
      obtain ⟨c, w, digits⟩ := List.exists_cons_of_ne_nil (Nat.toDigits_ne_nil (b := 10) (n := n))
      have digit : c.isDigit = true := isDigit_of_mem (n := n) (by simp [digits])
      refine ⟨c, w, by rw [Scalar.text, Nat.toList_repr, digits], isWs_of_isBareKeyChar ?_⟩
      simp [isBareKeyChar, Char.isAlphanum, digit]
    | bool b =>
      cases b with
      | true => exact ⟨'t', _, rfl, rfl⟩
      | false => exact ⟨'f', _, rfl, rfl⟩
  obtain ⟨c, w, chars, visible⟩ := visible
  rw [chars]
  exact skipWs_of_not_isWs visible

lemma keyValue?_entry {key : String} (bare : IsBare key) (value : Scalar) (cs : List Char) :
    keyValue? skipWs (value? maxDepth)
        (key.toList ++ (' ' :: '=' :: ' ' :: (value.text.toList ++ '\n' :: cs)))
      = some (([key], value.value), '\n' :: cs) := by
  have equals (behind : List Char) : skipWs ('=' :: behind) = '=' :: behind :=
    skipWs_of_not_isWs (by decide)
  have path (behind : List Char) :
      key? (key.toList ++ (' ' :: '=' :: behind)) = some ([key], '=' :: behind) := by
    refine key?_bare bare (' ' :: '=' :: behind) ?_ (by simp [skipWs, isWs])
    rintro c ⟨⟩
    decide
  rw [keyValue?, path]
  simp only [equals, skipWs_text, value?_text, Option.map_some]

lemma statement?_entry {key : String} (bare : IsBare key) (value : Scalar) (cs : List Char) :
    statement? (key.toList ++ (' ' :: '=' :: ' ' :: (value.text.toList ++ '\n' :: cs)))
      = some (.assign [key] value.value, '\n' :: cs) := by
  have pair := keyValue?_entry bare value cs
  obtain ⟨c, ds, chars, hc⟩ := bare.exists_cons
  have unbracketed : c ≠ '[' := ne_of_isBareKeyChar hc (by decide)
  rw [chars] at pair ⊢
  rw [statement?, List.cons_append, skipWs_of_not_isWs (isWs_of_isBareKeyChar hc)]
  split
  · next heq => exact absurd (List.cons.inj heq).1 unbracketed
  · next heq => exact absurd (List.cons.inj heq).1 unbracketed
  · rw [← List.cons_append, pair]
    rfl

lemma statements?_nil (fuel : Nat) : statements? fuel [] = some [] := by
  cases fuel <;> rfl

lemma statements?_blank (fuel : Nat) (cs : List Char) :
    statements? (fuel + 1) ('\n' :: cs) = statements? fuel cs := by
  rw [statements?, lineEnd?_newline]
  cases cs with
  | nil => rw [statements?_nil]
  | cons c cs => rfl

lemma statements?_statement (fuel : Nat) {st : Statement} (starts : lineEnd? cs = none)
    (found : statement? cs = some (st, '\n' :: rest)) :
    statements? (fuel + 1) cs = (statements? fuel rest).map (st :: ·) := by
  rw [statements?, starts, found]
  simp only [lineEnd?_newline]

/-- One line is one step of the reader. -/
lemma statements?_line {line : Line} (bare : line.IsBare) (fuel : Nat) (cs : List Char) :
    statements? (fuel + 1) (line.text ++ cs)
      = (statements? fuel cs).map (line.statements ++ ·) := by
  cases line with
  | blank =>
    rw [Line.text, List.singleton_append, statements?_blank]
    simp [Line.statements]
  | header name =>
    have text : (Line.header name).text ++ cs = '[' :: (name.toList ++ ']' :: '\n' :: cs) := by
      simp [Line.text]
    rw [text, statements?_statement fuel (lineEnd?_eq_none (Or.inl rfl))
      (statement?_header bare ('\n' :: cs))]
    rfl
  | entry key value =>
    have text : (Line.entry key value).text ++ cs
        = key.toList ++ (' ' :: '=' :: ' ' :: (value.text.toList ++ '\n' :: cs)) := by
      simp [Line.text]
    have starts : lineEnd? (key.toList ++ (' ' :: '=' :: ' ' :: (value.text.toList ++ '\n' :: cs)))
        = none := by
      obtain ⟨c, ds, chars, hc⟩ := IsBare.exists_cons bare
      rw [chars]
      exact lineEnd?_eq_none (Or.inr hc)
    rw [text, statements?_statement fuel starts (statement?_entry bare value cs)]
    rfl

/-- So a document is read to its end. -/
theorem statements?_lines {lines : List Line} (bare : ∀ line ∈ lines, line.IsBare) {fuel : Nat}
    (enough : lines.length ≤ fuel) :
    statements? fuel (lines.flatMap Line.text) = some (lines.flatMap Line.statements) := by
  induction lines generalizing fuel with
  | nil => exact statements?_nil fuel
  | cons line lines ih =>
    obtain ⟨fuel, rfl⟩ := Nat.exists_eq_succ_of_ne_zero (Nat.ne_zero_of_lt enough)
    obtain ⟨hline, hlines⟩ := List.forall_mem_cons.1 bare
    rw [List.flatMap_cons, statements?_line hline, ih hlines (Nat.le_of_succ_le_succ enough)]
    rfl

/-- The statements of a section: its header, and one for each entry. -/
def Section.statements (s : Section) : List Statement :=
  .table [s.name] :: s.entries.map fun (key, value) => .assign [key] value.value

/-- The entries of a section as they are read. -/
def Section.values (s : Section) : Entries := s.entries.map fun (key, value) => (key, value.value)

/-- The table that a section describes. -/
def Section.table (s : Section) : String × Value := (s.name, .table .header s.values)

section Building

variable {name : String} {root inner : Entries}

lemma lookup_eq_none (fresh : name ∉ root.map Prod.fst) : root.lookup name = none := by
  rw [List.lookup_eq_none_iff]
  rintro ⟨key, v⟩ mem
  rw [bne_iff_ne]
  rintro rfl
  exact fresh (List.mem_map_of_mem mem)

lemma lookup_append_self {v : Value} (fresh : name ∉ root.map Prod.fst) :
    (root ++ [(name, v)]).lookup name = some v := by
  rw [List.lookup_append, lookup_eq_none fresh]
  simp

lemma put_append_self {v v' : Value} (fresh : name ∉ root.map Prod.fst) :
    Table.put name v' (root ++ [(name, v)]) = root ++ [(name, v')] := by
  induction root with
  | nil => simp [Table.put]
  | cons e root ih =>
    rw [List.map_cons, List.mem_cons, not_or] at fresh
    rw [List.cons_append, Table.put, if_neg (Ne.symm fresh.1), ih fresh.2, List.cons_append]

lemma add_table (current : List String) (fresh : name ∉ root.map Prod.fst) :
    Draft.add ⟨root, current⟩ (.table [name])
      = some ⟨root ++ [(name, .table .header [])], [name]⟩ := by
  simp only [Draft.add, openTable, lookup_eq_none fresh, Option.map_some]

/-- An assignment goes into the table that was opened last. -/
lemma add_assign {key : String} {v : Value} (fresh : name ∉ root.map Prod.fst)
    (free : key ∉ inner.map Prod.fst) :
    Draft.add ⟨root ++ [(name, .table .header inner)], [name]⟩ (.assign [key] v)
      = some ⟨root ++ [(name, .table .header (inner ++ [(key, v)]))], [name]⟩ := by
  simp only [Draft.add, changeAt, lookup_append_self fresh, assign, lookup_eq_none free,
    Option.map_some, put_append_self fresh]

lemma add_entries {entries : List (String × Scalar)} (fresh : name ∉ root.map Prod.fst)
    (free : ∀ key ∈ entries.map Prod.fst, key ∉ inner.map Prod.fst)
    (distinct : (entries.map Prod.fst).Nodup) :
    (entries.map fun (key, value) => Statement.assign [key] value.value).foldlM Draft.add
        ⟨root ++ [(name, .table .header inner)], [name]⟩
      = some ⟨root ++ [(name, .table .header
          (inner ++ entries.map fun (key, value) => (key, value.value)))], [name]⟩ := by
  induction entries generalizing inner with
  | nil => simp
  | cons e entries ih =>
    obtain ⟨key, value⟩ := e
    obtain ⟨unused, distinct⟩ := List.nodup_cons.1 distinct
    obtain ⟨first, later⟩ := List.forall_mem_cons.1 free
    rw [List.map_cons, List.foldlM_cons, add_assign fresh first]
    have free' : ∀ k ∈ entries.map Prod.fst, k ∉ (inner ++ [(key, value.value)]).map Prod.fst := by
      intro k hk mem
      rw [List.map_append, List.mem_append] at mem
      rcases mem with mem | mem
      · exact later k hk mem
      · obtain rfl := List.mem_singleton.1 mem
        exact unused hk
    have step := ih free' distinct
    rw [List.append_assoc] at step
    exact step

/-- What makes sections readable: bare names and keys, none of them twice. -/
structure Section.IsSound (s : Section) : Prop where
  name : IsBare s.name
  keys : ∀ key ∈ s.entries.map Prod.fst, IsBare key
  distinct : (s.entries.map Prod.fst).Nodup

lemma add_section {s : Section} (distinct : (s.entries.map Prod.fst).Nodup)
    (current : List String) (fresh : s.name ∉ root.map Prod.fst) :
    s.statements.foldlM Draft.add ⟨root, current⟩ = some ⟨root ++ [s.table], [s.name]⟩ := by
  rw [Section.statements, List.foldlM_cons, add_table current fresh]
  exact add_entries fresh (fun _ _ => List.not_mem_nil) distinct

lemma add_sections {sections : List Section} (sound : ∀ s ∈ sections, s.IsSound)
    (distinct : (sections.map Section.name).Nodup) (current : List String)
    (fresh : ∀ s ∈ sections, s.name ∉ root.map Prod.fst) :
    ((sections.flatMap Section.statements).foldlM Draft.add ⟨root, current⟩).map Draft.root
      = some (root ++ sections.map Section.table) := by
  induction sections generalizing root current with
  | nil => simp
  | cons s sections ih =>
    obtain ⟨hs, hsections⟩ := List.forall_mem_cons.1 sound
    obtain ⟨unused, distinct⟩ := List.nodup_cons.1 distinct
    obtain ⟨first, later⟩ := List.forall_mem_cons.1 fresh
    have fresh' : ∀ t ∈ sections, t.name ∉ (root ++ [s.table]).map Prod.fst := by
      intro t ht mem
      rw [List.map_append, List.mem_append] at mem
      rcases mem with mem | mem
      · exact later t ht mem
      · have same : t.name = s.name := List.mem_singleton.1 mem
        exact unused (same ▸ List.mem_map_of_mem ht)
    rw [List.flatMap_cons, List.foldlM_append, add_section hs.distinct current first]
    have step := ih hsections distinct [s.name] fresh'
    rw [List.append_assoc] at step
    exact step

/-- Sound sections with names of their own make one table each. -/
theorem build?_sections {sections : List Section} (sound : ∀ s ∈ sections, s.IsSound)
    (distinct : (sections.map Section.name).Nodup) :
    build? (sections.flatMap Section.statements) = some (sections.map Section.table) :=
  add_sections sound distinct [] (by simp)

end Building

def Section.lines (s : Section) : List Line :=
  .header s.name :: s.entries.map fun (key, value) => .entry key value

/-- The lines of a document, with a blank one between sections. -/
def linesOf : List Section → List Line
  | [] => []
  | [s] => s.lines
  | s :: t :: sections => s.lines ++ .blank :: linesOf (t :: sections)

lemma Section.toList_text (s : Section) : s.text.toList = s.lines.flatMap Line.text := by
  rw [Section.text]
  simp [String.toList_join, Section.lines, Line.text, List.flatMap_map]

lemma toList_write (sections : List Section) :
    (write sections).toList = (linesOf sections).flatMap Line.text := by
  induction sections using linesOf.induct with
  | case1 => rfl
  | case2 s => rw [write, List.map_singleton, String.intercalate_singleton, s.toList_text, linesOf]
  | case3 s t sections ih =>
    rw [write, List.map_cons] at ih
    rw [write, List.map_cons, List.map_cons, String.intercalate_cons_cons, String.toList_append,
      String.toList_append, ih, s.toList_text, linesOf, List.flatMap_append, List.flatMap_cons,
      List.append_assoc]
    rfl

lemma Section.statements_lines (s : Section) :
    s.lines.flatMap Line.statements = s.statements := by
  have entries (es : List (String × Scalar)) :
      (es.map fun (key, value) => Line.entry key value).flatMap Line.statements
        = es.map fun (key, value) => Statement.assign [key] value.value := by
    rw [List.flatMap_map, List.map_eq_flatMap]
    rfl
  rw [Section.lines, List.flatMap_cons, entries]
  rfl

lemma statements_linesOf (sections : List Section) :
    (linesOf sections).flatMap Line.statements = sections.flatMap Section.statements := by
  induction sections using linesOf.induct with
  | case1 => rfl
  | case2 s => rw [linesOf, s.statements_lines, List.flatMap_singleton]
  | case3 s t sections ih =>
    rw [linesOf, List.flatMap_append, List.flatMap_cons, ih, s.statements_lines]
    rfl

lemma Section.IsSound.lines {s : Section} (sound : s.IsSound) : ∀ line ∈ s.lines, line.IsBare := by
  refine List.forall_mem_cons.2 ⟨sound.name, ?_⟩
  intro line mem
  obtain ⟨⟨key, value⟩, entry, rfl⟩ := List.mem_map.1 mem
  exact sound.keys key (List.mem_map_of_mem entry)

lemma isBare_of_mem_linesOf {sections : List Section} (sound : ∀ s ∈ sections, s.IsSound) :
    ∀ line ∈ linesOf sections, line.IsBare := by
  induction sections using linesOf.induct with
  | case1 => simp [linesOf]
  | case2 s => exact (sound s List.mem_cons_self).lines
  | case3 s t sections ih =>
    obtain ⟨hs, later⟩ := List.forall_mem_cons.1 sound
    intro line mem
    rw [linesOf, List.mem_append, List.mem_cons] at mem
    rcases mem with mem | rfl | mem
    · exact hs.lines line mem
    · trivial
    · exact ih later line mem

lemma length_le_length_text (lines : List Line) :
    lines.length ≤ (lines.flatMap Line.text).length := by
  induction lines with
  | nil => exact Nat.le_refl 0
  | cons line lines ih =>
    have some : 0 < line.text.length := by cases line <;> simp [Line.text]
    rw [List.flatMap_cons, List.length_append, List.length_cons]
    omega

lemma dropByteOrderMark_lines (sections : List Section) :
    dropByteOrderMark ((linesOf sections).flatMap Line.text)
      = (linesOf sections).flatMap Line.text := by
  rw [dropByteOrderMark]
  intro after marked
  rcases sections with _ | ⟨s, _ | ⟨t, sections⟩⟩ <;> cases marked

/-- Sound sections are read as the tables that they describe. -/
theorem parse?_write {sections : List Section} (sound : ∀ s ∈ sections, s.IsSound)
    (distinct : (sections.map Section.name).Nodup) :
    parse? (write sections) = some (sections.map Section.table) := by
  rw [parse?, toList_write, dropByteOrderMark_lines]
  simp only [statements?_lines (isBare_of_mem_linesOf sound) (length_le_length_text _),
    Option.bind_some, statements_linesOf, build?_sections sound distinct]

end FilterAssist.Toml
