import FilterAssist.Cursor.Context
import FilterAssist.Proofs.OpenSeams
import FilterAssist.Proofs.OrderedTables

/-!
# Paths, segment by segment

A path is a name for the lexer and a walk for the schema. The lexer takes it as one name
exactly when every segment is a word and the first is not reserved; the schema follows it
segment by segment, so a longer path goes on from where its front has led. Schemas here
may have cycles and relations that lead nowhere.
-/

namespace FilterAssist

namespace Text

lemma segments_dot (a b : List Char) : segments (a ++ '.' :: b) = segments a ++ segments b := by
  induction a with
  | nil => rfl
  | cons c a ih =>
    simp only [segments] at ih ⊢
    simp only [List.cons_append, pieces, ih]
    by_cases dot : c = '.'
    · simp [dot]
    · obtain ⟨p, ps, hp⟩ := List.exists_cons_of_ne_nil (pieces_ne_nil '.' a)
      simp [dot, hp]

lemma segments_cons {c : Char} (plain : c ≠ '.') (cs : List Char) :
    ∃ first rest, segments cs = first :: rest ∧ segments (c :: cs) = (c :: first) :: rest := by
  obtain ⟨first, rest, cut⟩ := List.exists_cons_of_ne_nil (pieces_ne_nil '.' cs)
  exact ⟨first, rest, cut, by simp [segments, pieces, plain, cut]⟩

/-- Text without a dot belongs to the first segment. -/
lemma segments_append {a : List Char} (plain : '.' ∉ a) (b : List Char) :
    ∃ first rest, segments b = first :: rest ∧ segments (a ++ b) = (a ++ first) :: rest := by
  induction a with
  | nil =>
    obtain ⟨p, ps, hp⟩ := List.exists_cons_of_ne_nil (pieces_ne_nil '.' b)
    exact ⟨p, ps, hp, hp⟩
  | cons c a ih =>
    simp only [List.mem_cons, not_or] at plain
    obtain ⟨first, rest, hb, ha⟩ := ih plain.2
    refine ⟨first, rest, hb, ?_⟩
    simp only [segments] at ha ⊢
    simp [pieces, ha, Ne.symm plain.1]

lemma segments_of_not_mem {a : List Char} (plain : '.' ∉ a) : segments a = [a] := by
  obtain ⟨first, rest, hnil, ha⟩ := segments_append plain []
  simp only [segments, pieces, List.cons.injEq] at hnil
  rw [List.append_nil, ← hnil.1, ← hnil.2, List.append_nil] at ha
  exact ha

lemma length_segments (cs : List Char) : (segments cs).length = cs.count '.' + 1 := by
  induction cs with
  | nil => rfl
  | cons c cs ih =>
    simp only [segments] at ih ⊢
    by_cases dot : c = '.'
    · simp [pieces, dot, ih]
    · obtain ⟨p, ps, hp⟩ := List.exists_cons_of_ne_nil (pieces_ne_nil '.' cs)
      rw [hp] at ih
      simpa [pieces, dot, hp] using ih

end Text

namespace Query

open Text Pattern

/-- A letter or an underscore, then letters, digits and underscores. -/
def isSegment : List Char → Bool
  | [] => false
  | c :: cs => isNameStart c && cs.all isNameChar

lemma isSegment_cons {c : Char} {cs : List Char} : isSegment (c :: cs) = true ↔
    isNameStart c = true ∧ ∀ d ∈ cs, isNameChar d = true := by
  rw [isSegment, Bool.and_eq_true, List.all_eq_true]

lemma isNameChar_of_isSegment {cs : List Char} (h : isSegment cs = true) :
    ∀ c ∈ cs, isNameChar c = true := by
  cases cs with
  | nil => cases h
  | cons c cs =>
    obtain ⟨start, rest⟩ := isSegment_cons.1 h
    exact List.forall_mem_cons.2 ⟨Rule.isNameChar_of_isNameStart start, rest⟩

lemma isSegment_of_isPrefix {p w : List Char} (h : isSegment w = true) (starts : p <+: w)
    (nonempty : p ≠ []) : isSegment p = true := by
  obtain ⟨c, p, rfl⟩ := List.exists_cons_of_ne_nil nonempty
  obtain ⟨rest, rfl⟩ := starts
  obtain ⟨start, all⟩ := isSegment_cons.1 h
  exact isSegment_cons.2 ⟨start, fun d hd => all d (List.mem_append_left _ hd)⟩

lemma dot_not_mem {cs : List Char} (h : ∀ c ∈ cs, isNameChar c = true) : '.' ∉ cs := by
  intro dot
  cases h '.' dot

lemma quote_not_mem {cs : List Char} (h : ∀ c ∈ cs, isNameChar c = true) : '"' ∉ cs := by
  intro quote
  cases h '"' quote

lemma mem_nameRest_dot {cs : List Char} :
    '.' :: cs ∈ nameRest.language ↔ cs ∈ name.language := by
  rw [mem_nameRest_iff, mem_name_iff]
  constructor
  · rintro (none | ⟨c, v, heq, hc, -⟩ | ⟨d, v, heq, hd, hv⟩)
    · cases none
    · cases heq
      cases hc
    · cases heq
      exact ⟨d, v, rfl, hd, hv⟩
  · rintro ⟨d, v, rfl, hd, hv⟩
    exact Or.inr (Or.inr ⟨d, v, rfl, hd, hv⟩)

lemma mem_nameRest_cons {c : Char} {cs : List Char} (plain : c ≠ '.') :
    c :: cs ∈ nameRest.language ↔ isNameChar c = true ∧ cs ∈ nameRest.language := by
  rw [mem_nameRest_iff]
  constructor
  · rintro (none | ⟨d, v, heq, hd, hv⟩ | ⟨d, v, heq, -, -⟩)
    · cases none
    · cases heq
      exact ⟨hd, hv⟩
    · cases heq
      exact absurd rfl plain
  · rintro ⟨hc, hcs⟩
    exact Or.inr (Or.inl ⟨c, cs, rfl, hc, hcs⟩)

/-- The rest of a name ends one segment and adds whole ones; a name is made of whole
segments. -/
lemma name_segments (cs : List Char) :
    (cs ∈ nameRest.language ↔ ∀ first rest, segments cs = first :: rest →
      (∀ c ∈ first, isNameChar c = true) ∧ ∀ seg ∈ rest, isSegment seg = true) ∧
    (cs ∈ name.language ↔ ∀ seg ∈ segments cs, isSegment seg = true) := by
  induction cs with
  | nil =>
    have empty : segments [] = [[]] := rfl
    constructor
    · simpa [empty] using mem_nameRest_iff.2 (Or.inl rfl)
    · simp [mem_name_iff, empty, isSegment]
  | cons c cs ih =>
    obtain ⟨rests, names⟩ := ih
    by_cases dot : c = '.'
    · subst dot
      have cut : segments ('.' :: cs) = [] :: segments cs := segments_dot [] cs
      constructor
      · rw [mem_nameRest_dot, names, cut]
        simp
      · rw [mem_name_iff, cut]
        simp [isSegment, isNameStart]
    · obtain ⟨first, rest, cut, longer⟩ := segments_cons dot cs
      have open_ : cs ∈ nameRest.language ↔
          (∀ c ∈ first, isNameChar c = true) ∧ ∀ seg ∈ rest, isSegment seg = true := by
        simp [rests, cut]
      constructor
      · rw [mem_nameRest_cons dot, open_, longer]
        simp [and_assoc]
      · rw [mem_name_iff, longer, List.forall_mem_cons, isSegment_cons, and_assoc, ← open_]
        simp

lemma scanWord_of_scan {c : Char} {cs w : List Char} (h : scan (c :: cs) = some ⟨.name, w⟩) :
    isNameStart c = true ∧ scanWord c cs = ⟨.name, w⟩ := by
  rcases scan_cases h with ⟨p, -, other⟩ | ⟨start, word⟩ | ⟨-, t, -, other⟩ | ⟨-, n, -, other⟩ |
    ⟨op, -, other⟩
  · cases other
  · exact ⟨start, word.symm⟩
  · cases other
  · have := congrArg Lexeme.kind other
    split at this <;> cases this
  · cases other

/-- The scanner takes a text for one name exactly when its segments are words and the first
is not reserved. -/
theorem scan_eq_name_iff {w : List Char} : scan w = some ⟨.name, w⟩ ↔
    (∀ seg ∈ segments w, isSegment seg = true) ∧
      Keyword.ofWord? (w.takeWhile isNameChar) = none := by
  rw [← (name_segments w).2, mem_name_iff]
  constructor
  · intro h
    cases w with
    | nil => cases h
    | cons c cs =>
      obtain ⟨start, word⟩ := scanWord_of_scan h
      rw [scanWord] at word
      cases free : Keyword.ofWord? (c :: cs.takeWhile isNameChar) with
      | some k => simp [free] at word
      | none =>
        simp only [free, Lexeme.mk.injEq, List.cons.injEq, true_and] at word
        refine ⟨⟨c, cs, rfl, start, word ▸ nameTail_mem cs⟩, ?_⟩
        rw [List.takeWhile_cons_of_pos (Rule.isNameChar_of_isNameStart start)]
        exact free
  · rintro ⟨⟨c, v, rfl, hc, hv⟩, free⟩
    rw [List.takeWhile_cons_of_pos (Rule.isNameChar_of_isNameStart hc)] at free
    have whole : nameTail v = v :=
      (nameTail_isPrefix v).eq_of_length_le (prefix_nameTail hv (List.prefix_refl v)).length_le
    rw [scan_of_isNameStart hc, scanWord, free]
    simp only [whole]

/-- A word is one lexeme, reserved or not. -/
lemma scan_of_isSegment {w : List Char} (h : isSegment w = true) :
    ∃ k, scan w = some ⟨k, w⟩ ∧ (Keyword.ofWord? w = none → k = .name) := by
  have whole : w.takeWhile isNameChar = w :=
    List.takeWhile_eq_self_iff.2 (isNameChar_of_isSegment h)
  cases reserved : Keyword.ofWord? w with
  | none =>
    refine ⟨.name, scan_eq_name_iff.2 ⟨?_, by rw [whole, reserved]⟩, fun _ => rfl⟩
    rw [segments_of_not_mem (dot_not_mem (isNameChar_of_isSegment h))]
    exact List.forall_mem_singleton.2 h
  | some k =>
    cases w with
    | nil => cases h
    | cons c cs =>
      obtain ⟨start, -⟩ := isSegment_cons.1 h
      rw [List.takeWhile_cons_of_pos (Rule.isNameChar_of_isNameStart start)] at whole
      refine ⟨.keyword k, ?_, fun none => by cases none⟩
      rw [scan_of_isNameStart start, scanWord, whole, reserved]

/-- The front of a dotted name is a name. -/
lemma scan_front {front back : List Char}
    (h : scan (front ++ '.' :: back) = some ⟨.name, front ++ '.' :: back⟩) :
    scan front = some ⟨.name, front⟩ := by
  obtain ⟨words, free⟩ := scan_eq_name_iff.1 h
  rw [takeWhile_dot] at free
  refine scan_eq_name_iff.2 ⟨fun seg hseg => words seg ?_, free⟩
  rw [segments_dot]
  exact List.mem_append_left _ hseg

/-- A dot at the end does not belong to the name in front of it. -/
lemma scan_trailing_dot {front : List Char} (h : scan front = some ⟨.name, front⟩) :
    scan (front ++ ['.']) = some ⟨.name, front⟩ := by
  obtain ⟨words, free⟩ := scan_eq_name_iff.1 h
  obtain ⟨c, cs, rfl, start, rest⟩ := mem_name_iff.1 ((name_segments front).2.2 words)
  rw [← takeWhile_dot (c :: cs) [], List.cons_append,
    List.takeWhile_cons_of_pos (Rule.isNameChar_of_isNameStart start)] at free
  have stops : nameTail (cs ++ ['.']) = cs := by
    obtain ⟨y, hy⟩ := prefix_nameTail rest (List.prefix_append cs ['.'])
    have short := nameTail_isPrefix (cs ++ ['.'])
    rw [← hy, List.prefix_append_right_inj] at short
    cases y with
    | nil => rw [← hy, List.append_nil]
    | cons d y =>
      obtain ⟨rfl, none⟩ := List.cons_prefix_cons.1 short
      obtain rfl := List.prefix_nil.1 none
      have mem : c :: (cs ++ ['.']) ∈ name.language :=
        mem_name_iff.2 ⟨c, _, rfl, start, hy ▸ nameTail_mem _⟩
      rw [(name_segments _).2, ← List.cons_append, segments_dot] at mem
      cases mem [] (List.mem_append_right _ List.mem_cons_self)
  rw [List.cons_append, scan_of_isNameStart start, scanWord, free]
  simp only [stops]

end Query

namespace Schema

variable {s : Schema}

lemma mem_fieldNames_iff {m name : String} :
    name ∈ s.fieldNames m ↔ ∃ d, s.field? m name = some d := by
  rw [fieldNames, field?]
  cases s.models.get? m with
  | none => simp
  | some fields => simp [Table.mem_keys_iff]

lemma hasModel_of_field? {m name : String} {d : FieldDef} (h : s.field? m name = some d) :
    s.hasModel m = true := by
  obtain ⟨fields, found, -⟩ := Option.bind_eq_some_iff.1 h
  exact List.contains_iff_mem.2 (Table.mem_keys_iff.2 ⟨fields, found⟩)

lemma field?_eq_some_iff {m name : String} {d : FieldDef} : s.field? m name = some d ↔
    ∃ fields, (m, fields) ∈ s.models.entries ∧ (name, d) ∈ fields.entries := by
  constructor
  · intro h
    obtain ⟨fields, found, field⟩ := Option.bind_eq_some_iff.1 h
    exact ⟨fields, Table.mem_entries_of_get? found, Table.mem_entries_of_get? field⟩
  · rintro ⟨fields, model, field⟩
    apply Option.bind_eq_some_iff.2
    exact ⟨fields, Table.get?_of_mem_entries model, Table.get?_of_mem_entries field⟩

/-- The list of dangling relations holds those that lead to no model, and nothing else. -/
theorem mem_danglingLinks_iff {l : Link} : l ∈ s.danglingLinks ↔
    s.field? l.model l.field = some (.relation l.target) ∧ s.hasModel l.target = false := by
  rw [field?_eq_some_iff]
  constructor
  · intro h
    obtain ⟨⟨model, fields⟩, declared, h⟩ := List.mem_flatMap.1 h
    obtain ⟨⟨name, d⟩, field, h⟩ := List.mem_filterMap.1 h
    cases d with
    | scalar kind => cases h
    | relation target =>
      by_cases known : s.hasModel target = true
      · simp [known] at h
      · obtain rfl := Option.some.inj ((if_neg known).symm.trans h)
        exact ⟨⟨fields, declared, field⟩, by simpa using known⟩
  · rintro ⟨⟨fields, declared, field⟩, missing⟩
    apply List.mem_flatMap.2
    refine ⟨_, declared, List.mem_filterMap.2 ⟨_, field, ?_⟩⟩
    simp [missing]

/-- A relation that is not on the list leads to a model. -/
lemma hasModel_of_not_dangling {m name goal : String}
    (h : s.field? m name = some (.relation goal))
    (sound : ∀ l ∈ s.danglingLinks, ¬ (l.model = m ∧ l.field = name)) : s.hasModel goal = true := by
  by_contra missing
  have listed : ⟨m, name, goal⟩ ∈ s.danglingLinks :=
    mem_danglingLinks_iff.2 ⟨h, by simpa using missing⟩
  exact sound _ listed ⟨rfl, rfl⟩

/-- Every field name is a word, so that it can be typed as one segment of a path. -/
def WellNamed (s : Schema) : Prop :=
  ∀ model ∈ s.models.entries, ∀ name ∈ model.2.keys, Query.isSegment name.toList = true

instance : Decidable s.WellNamed := inferInstanceAs (Decidable (∀ model ∈ s.models.entries, _))

lemma WellNamed.isSegment (named : s.WellNamed) {m name : String} (h : name ∈ s.fieldNames m) :
    Query.isSegment name.toList = true := by
  obtain ⟨d, field⟩ := mem_fieldNames_iff.1 h
  obtain ⟨fields, found, lookup⟩ := Option.bind_eq_some_iff.1 field
  exact named _ (Table.mem_entries_of_get? found) name (Table.mem_keys_iff.2 ⟨d, lookup⟩)

/-- Where a walk has led to a model, it goes on from there. -/
lemma walk_append {m goal : String} {front : List String} (back : List String)
    (leads : s.walk m front = some (.model goal)) : s.walk m (front ++ back) = s.walk goal back := by
  induction front generalizing m with
  | nil =>
    rw [walk] at leads
    split at leads
    · cases leads
      rfl
    · cases leads
  | cons segment front ih =>
    rw [walk] at leads
    cases field : s.field? m segment with
    | none => simp [field] at leads
    | some d =>
      cases d with
      | scalar kind =>
        simp only [field] at leads
        split at leads <;> cases leads
      | relation next =>
        simp only [field] at leads
        rw [List.cons_append, walk, field]
        exact ih leads

/-- A walk can be stopped before any of its segments, and stands on a model then. -/
lemma walk_of_append {m segment : String} {front back : List String} {r : Resolved}
    (h : s.walk m (front ++ segment :: back) = some r) :
    ∃ goal, s.walk m front = some (.model goal) ∧ segment ∈ s.fieldNames goal := by
  induction front generalizing m with
  | nil =>
    rw [List.nil_append, walk] at h
    cases field : s.field? m segment with
    | none => simp [field] at h
    | some d =>
      refine ⟨m, ?_, mem_fieldNames_iff.2 ⟨d, field⟩⟩
      rw [walk, if_pos (hasModel_of_field? field)]
  | cons first front ih =>
    rw [List.cons_append, walk] at h
    cases field : s.field? m first with
    | none => simp [field] at h
    | some d =>
      cases d with
      | scalar kind => simp [field] at h
      | relation next =>
        simp only [field] at h
        rw [walk, field]
        exact ih h

/-- Every segment that a walk has passed is the name of a field. -/
lemma mem_fieldNames_of_walk {m segment : String} {path : List String} {r : Resolved}
    (h : s.walk m path = some r) (mem : segment ∈ path) : ∃ model, segment ∈ s.fieldNames model := by
  obtain ⟨front, back, rfl⟩ := List.append_of_mem mem
  obtain ⟨model, -, field⟩ := walk_of_append h
  exact ⟨model, field⟩

/-- Where a field of a model leads, once its target is known to exist. -/
def reached (m name : String) : FieldDef → Resolved
  | .scalar kind => .field m name kind
  | .relation goal => .model goal

lemma walk_field {m name : String} {d : FieldDef} (field : s.field? m name = some d)
    (sound : ∀ l ∈ s.danglingLinks, ¬ (l.model = m ∧ l.field = name)) :
    s.walk m [name] = some (reached m name d) := by
  rw [walk, field]
  cases d with
  | scalar kind => rfl
  | relation goal =>
    change s.walk goal [] = _
    rw [walk, if_pos (hasModel_of_not_dangling field sound)]
    rfl

lemma resolve_eq_some_iff {root : Option String} {path : List Char} {r : Resolved} :
    s.resolve root (String.ofList path) = some r ↔
      ∃ m, root = some m ∧ s.walk m ((Text.segments path).map String.ofList) = some r := by
  rw [resolve, String.toList_ofList, Option.bind_eq_some_iff]

/-- Behind a path to a model and a dot the rest is resolved from that model. -/
lemma resolve_dot {root : Option String} {m : String} {front : List Char}
    (leads : s.resolve root (String.ofList front) = some (.model m)) (back : List Char) :
    s.resolve root (String.ofList (front ++ '.' :: back))
      = s.resolve (some m) (String.ofList back) := by
  obtain ⟨r, rfl, walks⟩ := resolve_eq_some_iff.1 leads
  simp only [resolve, Option.bind_some, String.toList_ofList, Text.segments_dot, List.map_append]
  exact walk_append _ walks

/-- A path that resolves has led to a model in front of each of its dots. -/
lemma exists_model_of_resolve_dot {root : Option String} {front back : List Char} {r : Resolved}
    (h : s.resolve root (String.ofList (front ++ '.' :: back)) = some r) :
    ∃ m, s.resolve root (String.ofList front) = some (.model m) := by
  obtain ⟨start, begins, walks⟩ := resolve_eq_some_iff.1 h
  obtain ⟨segment, rest, cut⟩ := List.exists_cons_of_ne_nil (Text.pieces_ne_nil '.' back)
  change Text.segments back = segment :: rest at cut
  rw [Text.segments_dot, cut, List.map_append, List.map_cons] at walks
  obtain ⟨m, leads, -⟩ := walk_of_append walks
  exact ⟨m, resolve_eq_some_iff.2 ⟨start, begins, leads⟩⟩

/-- A path that resolves in a well named schema is made of words. -/
lemma WellNamed.segments (named : s.WellNamed) {root : Option String} {path : List Char}
    {r : Resolved} (h : s.resolve root (String.ofList path) = some r) :
    ∀ seg ∈ Text.segments path, Query.isSegment seg = true := by
  intro seg hseg
  obtain ⟨m, -, walks⟩ := resolve_eq_some_iff.1 h
  obtain ⟨model, field⟩ := mem_fieldNames_of_walk walks (List.mem_map_of_mem hseg)
  simpa using named.isSegment field

/-- So it starts like a word. -/
lemma WellNamed.begins (named : s.WellNamed) {root : Option String} {path : List Char}
    {r : Resolved} (h : s.resolve root (String.ofList path) = some r) :
    ∃ c cs, path = c :: cs ∧ Query.isNameStart c = true := by
  have words := named.segments h
  cases path with
  | nil => cases words [] List.mem_cons_self
  | cons c cs =>
    by_cases dot : c = '.'
    · subst dot
      rw [show Text.segments ('.' :: cs) = [] :: Text.segments cs from Text.segments_dot [] cs]
        at words
      cases words [] List.mem_cons_self
    · obtain ⟨first, rest, -, longer⟩ := Text.segments_cons dot cs
      rw [longer] at words
      exact ⟨c, cs, rfl, (Query.isSegment_cons.1 (words _ List.mem_cons_self)).1⟩

end Schema

namespace Cursor

open Query Text

/-- What stands in front of the segment that is being typed, and the model whose fields
are due there: nothing, or a path to that model and a dot. -/
inductive Lead (s : Schema) (root : Option String) : List Char → String → Prop
  | start {m : String} (begins : root = some m) : Lead s root [] m
  | path {front : List Char} {m : String} (lexeme : scan front = some ⟨.name, front⟩)
      (leads : s.resolve root (String.ofList front) = some (.model m)) :
      Lead s root (front ++ ['.']) m

namespace Lead

variable {s : Schema} {root : Option String} {lead w : List Char} {m : String}

/-- With one more segment the path resolves to where that segment leads from the model. -/
lemma resolve (h : Lead s root lead m) (plain : '.' ∉ w) :
    s.resolve root (String.ofList (lead ++ w)) = s.walk m [String.ofList w] := by
  cases h with
  | start begins =>
    rw [Schema.resolve, begins, Option.bind_some, List.nil_append, String.toList_ofList,
      segments_of_not_mem plain, List.map_singleton]
  | path lexeme leads =>
    rw [List.append_assoc, List.singleton_append, Schema.resolve_dot leads, Schema.resolve,
      Option.bind_some, String.toList_ofList, segments_of_not_mem plain, List.map_singleton]

/-- With one more segment the path is one lexeme, and reserved only if it is all of it. -/
lemma scan (h : Lead s root lead m) (word : isSegment w = true) :
    ∃ k, Query.scan (lead ++ w) = some ⟨k, lead ++ w⟩ ∧
      ((lead = [] → Keyword.ofWord? w = none) → k = .name) := by
  cases h with
  | start =>
    obtain ⟨k, lexeme, free⟩ := scan_of_isSegment word
    exact ⟨k, lexeme, fun none => free (none rfl)⟩
  | @path front _ lexeme =>
    obtain ⟨words, free⟩ := scan_eq_name_iff.1 lexeme
    refine ⟨.name, scan_eq_name_iff.2 ?_, fun _ => rfl⟩
    rw [List.append_assoc, List.singleton_append]
    constructor
    · intro seg hseg
      rw [segments_dot, segments_of_not_mem (dot_not_mem (isNameChar_of_isSegment word))] at hseg
      rcases List.mem_append.1 hseg with hseg | hseg
      · exact words seg hseg
      · obtain rfl := List.mem_singleton.1 hseg
        exact word
    · rw [takeWhile_dot]
      exact free

end Lead

end Cursor

end FilterAssist
