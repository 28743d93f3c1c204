/-! Strings between double quotes, for any rule of what a backslash may introduce. -/

namespace FilterAssist.Text

structure Escaping where
  /-- The character an escape stands for, read from behind its backslash. -/
  escape? : List Char → Option (Char × List Char)
  isPlain : Char → Bool
  shorter : ∀ {cs rest : List Char} {c : Char}, escape? cs = some (c, rest) →
    rest.length < cs.length

namespace Escaping

/-- The decoded rest of a string behind its opening quote, and what follows it. -/
def body (rules : Escaping) (cs : List Char) : Option (List Char × List Char) :=
  match cs with
  | [] => none
  | c :: rest =>
    if c == '"' then some ([], rest)
    else if c == '\\' then
      match _h : rules.escape? rest with
      | none => none
      | some (d, after) => (rules.body after).map fun (s, r) => (d :: s, r)
    else if rules.isPlain c then (rules.body rest).map fun (s, r) => (c :: s, r)
    else none
termination_by cs.length
decreasing_by
  · exact Nat.lt_succ_of_lt (rules.shorter _h)
  · simp

theorem body_escape {rules : Escaping} {cs after : List Char} {d : Char}
    (h : rules.escape? cs = some (d, after)) :
    rules.body ('\\' :: cs) = (rules.body after).map fun (s, r) => (d :: s, r) := by
  rw [body, if_neg (by decide), if_pos (by decide)]
  split
  · next none =>
    rw [h] at none
    cases none
  · next d' after' some =>
    rw [h] at some
    cases some
    rfl

theorem length_of_body {rules : Escaping} {cs s rest : List Char}
    (h : rules.body cs = some (s, rest)) : rest.length < cs.length := by
  fun_induction body rules cs generalizing s with
  | case1 => cases h
  | case2 => cases h; simp
  | case3 => cases h
  | case4 c cs _ _ d after he ih =>
    obtain ⟨⟨t, r⟩, ht, hr⟩ := Option.map_eq_some_iff.1 h
    cases hr
    have := rules.shorter he
    have := ih ht
    simp only [List.length_cons]
    omega
  | case5 c cs _ _ _ ih =>
    obtain ⟨⟨t, r⟩, ht, hr⟩ := Option.map_eq_some_iff.1 h
    cases hr
    exact Nat.lt_succ_of_lt (ih ht)
  | case6 => cases h

end Escaping

end FilterAssist.Text
