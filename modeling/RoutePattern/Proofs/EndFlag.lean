import RoutePattern.Proofs.Reading.Source

/-!
Where the path has to end in a concatenation. Three routes in a row match alike from either bracketing,
but for the end flag: a route with a query block counts as a mere refinement of what stands before it,
also where it brings segments and an end flag of its own.
-/

namespace RoutePattern

namespace Route

theorem isRefinement_append (p q : Pattern Schema) :
    isRefinement (p.append q) = (p.append q).rootBlock?.isSome := by
  cases p <;> cases q <;> rfl

theorem compositional_isRefinement :
    Pattern.Compositional fun p : Pattern Schema => isRefinement p = false where
  piece piece := by
    rcases piece with _ | ⟨_ | _, _ | _, _ | _⟩ <;> rfl
  concat _ _ _ := rfl

theorem isRefinement_of_parse {source : Text} {atEnd : Bool} {r : Route}
    (h : parse source atEnd = .ok r) : isRefinement r.pattern = r.pattern.rootBlock?.isSome := by
  have hread := parse_eq_ok h
  generalize r.pattern = p at hread
  cases hread with
  | plain _ hpath =>
    rw [hpath.queryless.rootBlock?_eq_none, compositional_isRefinement.readPath hpath]
    rfl
  | query => rfl

section

variable {a b c : Route}

theorem atEnd_append (a : Route) (hb : isRefinement b.pattern = b.pattern.rootBlock?.isSome) :
    (a.append b).atEnd = if b.pattern.rootBlock?.isSome then a.atEnd else b.atEnd := by
  rw [← hb]
  rfl

/-- The flag of a concatenation comes from the last route without a query block. -/
theorem atEnd_append_left (a : Route) (hb : isRefinement b.pattern = b.pattern.rootBlock?.isSome)
    (hc : isRefinement c.pattern = c.pattern.rootBlock?.isSome) :
    ((a.append b).append c).atEnd =
      if c.pattern.rootBlock?.isSome then
        if b.pattern.rootBlock?.isSome then a.atEnd else b.atEnd
      else c.atEnd := by
  rw [atEnd_append _ hc, atEnd_append _ hb]

/-- From the right, one query block is enough to pass over the flags of both routes behind the first. -/
theorem atEnd_append_right (a b : Route)
    (hc : isRefinement c.pattern = c.pattern.rootBlock?.isSome) :
    (a.append (b.append c)).atEnd =
      if b.pattern.rootBlock?.isSome || c.pattern.rootBlock?.isSome then a.atEnd else c.atEnd := by
  have hblock : (b.append c).pattern.rootBlock?.isSome =
      (b.pattern.rootBlock?.isSome || c.pattern.rootBlock?.isSome) := by
    have happend := Pattern.rootBlock?_append b.pattern c.pattern
    rw [append, happend]
    cases b.pattern.rootBlock? <;> cases c.pattern.rootBlock? <;> rfl
  rw [atEnd_append a (isRefinement_append b.pattern c.pattern), hblock]
  cases hb : b.pattern.rootBlock?.isSome <;> cases hq : c.pattern.rootBlock?.isSome <;>
    simp [atEnd_append b hc, hq]

theorem accept_append_assoc (a b c : Route) (atEnd : Bool) (target : Text) :
    (((a.append b).append c).withEnd atEnd).accept target =
      ((a.append (b.append c)).withEnd atEnd).accept target := by
  let left : Bracketing Schema :=
    .pair (.pair (.single a.pattern) (.single b.pattern)) (.single c.pattern)
  let right : Bracketing Schema :=
    .pair (.single a.pattern) (.pair (.single b.pattern) (.single c.pattern))
  have hleaves : left.leaves = right.leaves := rfl
  have hmatcher : ((a.pattern.append b.pattern).append c.pattern).matcher atEnd =
      (a.pattern.append (b.pattern.append c.pattern)).matcher atEnd :=
    (Bracketing.alike_value hleaves).matcher atEnd
  simp only [accept, matcher, withEnd, append, hmatcher]

end

/-- Three routes in a row have the same end flag from either bracketing where both or none of the later
two have a query block, and else where the flag that counts from the left is that of the first one. They
match the same targets with the same parameters, up to that flag. -/
theorem append_assoc_iff {source₁ source₂ source₃ : Text} {end₁ end₂ end₃ : Bool} {a b c : Route}
    (ha : parse source₁ end₁ = .ok a) (hb : parse source₂ end₂ = .ok b)
    (hc : parse source₃ end₃ = .ok c) :
    (((a.append b).append c).atEnd = (a.append (b.append c)).atEnd ↔
      (b.pattern.rootBlock?.isSome = c.pattern.rootBlock?.isSome ∨
        end₁ = if c.pattern.rootBlock?.isSome then end₂ else end₃)) ∧
    (∀ atEnd target, (((a.append b).append c).withEnd atEnd).accept target =
      ((a.append (b.append c)).withEnd atEnd).accept target) ∧
    ((∀ target, ((a.append b).append c).accept target = (a.append (b.append c)).accept target) ↔
      (((a.append b).append c).atEnd = (a.append (b.append c)).atEnd ∨
        ∀ target, (((a.append b).append c).withEnd true).accept target =
          (((a.append b).append c).withEnd false).accept target)) := by
  have hflag : ∀ {source : Text} {atEnd : Bool} {r : Route}, parse source atEnd = .ok r →
      r.atEnd = atEnd := by
    intro source atEnd r h
    obtain ⟨p, -, rfl⟩ := Except.map_eq_ok.mp h
    rfl
  have hassoc := accept_append_assoc a b c
  refine ⟨?_, hassoc, ?_⟩
  · rw [atEnd_append_left a (isRefinement_of_parse hb) (isRefinement_of_parse hc),
      atEnd_append_right a b (isRefinement_of_parse hc), hflag ha, hflag hb, hflag hc]
    cases b.pattern.rootBlock?.isSome <;> cases c.pattern.rootBlock?.isSome <;> simp [eq_comm]
  · have hright : ∀ target, (a.append (b.append c)).accept target =
        (((a.append b).append c).withEnd (a.append (b.append c)).atEnd).accept target :=
      fun target => (hassoc _ target).symm
    have hleft : ∀ target, ((a.append b).append c).accept target =
        (((a.append b).append c).withEnd ((a.append b).append c).atEnd).accept target :=
      fun _ => rfl
    simp only [hleft, hright]
    cases ((a.append b).append c).atEnd <;> cases (a.append (b.append c)).atEnd <;>
      simp [eq_comm]

/-- The first two routes have to end, and the flag of the last one is passed over on both ways. -/
theorem append_assoc_iff_closed :
    ∃ a b c, parse "/x?p=:p" true = .ok a ∧ parse "/:y" true = .ok b ∧
      parse "/z?q=:q" false = .ok c ∧ ((a.append b).append c).atEnd = true ∧
      (a.append (b.append c)).atEnd = true ∧
      ((a.append b).append c).accept "/x/1/z?p=a&q=b" = (a.append (b.append c)).accept "/x/1/z?p=a&q=b" ∧
      ((a.append b).append c).accept "/x/1/z/2?p=a&q=b" = .ok none := by
  let a : Route := ⟨.queryParams (.literal "x") [("p", .param "p")], true⟩
  let b : Route := ⟨.param "y", true⟩
  let c : Route := ⟨.queryParams (.literal "z") [("q", .param "q")], false⟩
  have ha : parse "/x?p=:p" true = .ok a := by rfl
  have hb : parse "/:y" true = .ok b := by rfl
  have hc : parse "/z?q=:q" false = .ok c := by rfl
  obtain ⟨hflag, -, haccept⟩ := append_assoc_iff ha hb hc
  have hsame := hflag.mpr (.inr rfl)
  exact ⟨a, b, c, ha, hb, hc, rfl, hsame.symm, haccept.mpr (.inl hsame) _, by rfl⟩

/-- The path has to end behind the second route, and a query block behind it only refines this. But put
together with that query block first, the second route counts as a refinement too, and its flag is
lost. -/
theorem end_passed_over :
    ∃ a b c, parse "/a" false = .ok a ∧ parse "/b" true = .ok b ∧ parse "?x=:x" false = .ok c ∧
      ((a.append b).append c).atEnd = true ∧ (a.append (b.append c)).atEnd = false ∧
      ((a.append b).append c).accept "/a/b/z?x=1" = .ok none ∧
      (a.append (b.append c)).accept "/a/b/z?x=1" = .ok (some [(.name "x", .one "1")]) :=
  ⟨⟨.literal "a", false⟩, ⟨.literal "b", true⟩, ⟨.queryParams .root [("x", .param "x")], false⟩, by rfl,
    by rfl, by rfl, rfl, rfl, by rfl, by rfl⟩

end Route

end RoutePattern
