import RoutePattern.Proofs.Descriptions

/-!
Query keys that a target may leave out. A query entry is matched without any value just where its pattern is
optional, and no entry looks at the key of another one.
-/

namespace RoutePattern

theorem isSome_matchEntry_nil (parts : List Part) :
    (matchEntry parts []).isSome = parts.all Part.isOptional := by
  match parts with
  | [] => rfl
  | [.literal text optional] => cases optional <;> rfl
  | [.capture ⟨key, lead, optional, multiple⟩] => cases optional <;> rfl
  | p :: q :: rest =>
    rw [matchEntry]
    · split <;> simp_all
    · simp

theorem isSome_matchQuery (query : Query) (entries : List (Text × List Part)) :
    (matchQuery query entries).isSome =
      entries.all fun e => (matchEntry e.2 (query.all e.1)).isSome := by
  induction entries with
  | nil => rfl
  | cons e rest ih =>
    rw [List.all_cons, ← ih, matchQuery]
    cases matchEntry e.2 (query.all e.1) <;> simp

/-- Where a query is matched, it is still matched without the values of one key just where all parts of its
entry are optional. -/
theorem isSome_matchQuery_erase {query : Query} {entries : List (Text × List Part)} {e : Text × List Part}
    (hquery : query.keys.Nodup) (hentries : (entries.map (·.1)).Nodup) (he : e ∈ entries)
    (hmatch : (matchQuery query entries).isSome) :
    (matchQuery (Table.erase e.1 query) entries).isSome = e.2.all Part.isOptional := by
  rw [isSome_matchQuery, List.all_eq_true] at hmatch
  have hown : (matchEntry e.2 (Query.all e.1 (Table.erase e.1 query))).isSome =
      e.2.all Part.isOptional := by
    rw [Query.all_erase hquery, if_pos rfl, isSome_matchEntry_nil]
  have hothers : ∀ f ∈ entries, f ≠ e →
      (matchEntry f.2 (Query.all f.1 (Table.erase e.1 query))).isSome = true := by
    intro f hf hne
    have hkey : f.1 ≠ e.1 := fun heq => hne (List.inj_on_of_nodup_map hentries hf he heq)
    rw [Query.all_erase hquery, if_neg hkey]
    exact hmatch f hf
  rw [isSome_matchQuery, ← hown, Bool.eq_iff_iff, List.all_eq_true]
  constructor
  · intro hall
    exact hall e he
  · intro hmatched f hf
    by_cases hfe : f = e
    · exact hfe ▸ hmatched
    · exact hothers f hf hfe

variable {σ : Type}

theorem Piece.isOptional_part (first : Nat) (piece : Piece) :
    (piece.part first).isOptional = (piece.pattern : Pattern σ).isOptional := by
  rcases piece with _ | ⟨_ | _, _ | _, _ | _⟩ <;> rfl

theorem Piece.all_isOptional_partsFrom (first : Nat) (pieces : List Piece) :
    (partsFrom first pieces).all Part.isOptional =
      (pieces.map (Piece.pattern (σ := σ))).all Pattern.isOptional := by
  induction pieces generalizing first with
  | nil => rfl
  | cons piece rest ih =>
    rw [partsFrom, List.all_cons, ih, isOptional_part (σ := σ), List.map_cons, List.all_cons]

namespace Pattern

theorem isOptional_foldl_joined (p : Pattern σ) (ps : List (Pattern σ)) :
    (ps.foldl (fun left right => concat left right true) p).isOptional =
      (p :: ps).all isOptional := by
  induction ps generalizing p with
  | nil => simp
  | cons q rest ih =>
    rw [List.foldl_cons, ih]
    simp [isOptional, Bool.and_assoc]

theorem ReadFrom.all_isOptional {value : Text} {p : Pattern σ} (h : ReadFrom value p) {first : Nat}
    {parts : List Part} (hparts : (p.stops first false).mapM Stop.part? = some parts) :
    parts.all Part.isOptional = p.isOptional := by
  obtain ⟨pieces, -, -, rfl⟩ := ofSegment_eq_ok h
  rw [mapM_part?_joinParts] at hparts
  obtain rfl := Option.some.inj hparts
  cases pieces with
  | nil => rfl
  | cons piece rest =>
    rw [Pattern.valueParts, if_neg (List.cons_ne_nil _ _), Piece.all_isOptional_partsFrom (σ := σ), List.map_cons,
      joinParts, isOptional_foldl_joined]

/-- The entries of a query that was read, with their parts: they have the same keys, and an entry is optional
where all its parts are. -/
theorem isOptional_of_entryParts {es : List (Text × Pattern σ)} {first : Nat}
    {entries : List (Text × List Part)} (h : ∀ e ∈ es, ∃ value, ReadFrom value e.2)
    (hentries : entryParts first es = entries.map fun f => (f.1, some f.2)) :
    List.Forall₂ (fun e f => f.1 = e.1 ∧ f.2.all Part.isOptional = e.2.isOptional) es entries := by
  induction es generalizing first entries with
  | nil =>
    cases entries with
    | nil => exact .nil
    | cons f rest => simp [entryParts] at hentries
  | cons e rest ih =>
    obtain ⟨⟨value, hread⟩, hrest⟩ := List.forall_mem_cons.mp h
    cases entries with
    | nil => simp [entryParts] at hentries
    | cons f others =>
      rw [entryParts, List.map_cons] at hentries
      obtain ⟨hfirst, hothers⟩ := List.cons.inj hentries
      obtain ⟨hkey, hparts⟩ := Prod.mk.inj hfirst
      exact .cons ⟨hkey.symm, hread.all_isOptional hparts⟩ (ih hrest hothers)

variable {split : QuerySplit} {p : Pattern σ}

theorem ReadSplit.exists_parts (h : ReadSplit split p) {e : Text × Pattern σ}
    (he : e ∈ p.rootBlock?.getD []) :
    ∃ parts, (e.1, parts) ∈ p.queryParts ∧ parts.all Part.isOptional = e.2.isOptional := by
  have hblock := h.queryParts_eq.1
  cases h with
  | plain _ hpath =>
    rw [hpath.queryless.rootBlock?_eq_none] at he
    cases he
  | @query q query es _ _ hquery =>
    have hentries : entryParts (0 + q.unnamedCount) es =
        (queryParams q es).queryParts.map fun f => (f.1, some f.2) := by
      simpa [blockGroups, rootBlock?, trunk] using hblock
    have hread : ∀ e ∈ es, ∃ value, ReadFrom value e.2 := by
      intro e he
      obtain ⟨_, -, value, -, -, -, hvalue⟩ := exists_of_mem_right hquery.1 he
      exact ⟨value, hvalue⟩
    obtain ⟨f, hf, hkey, hparts⟩ := exists_of_mem_right (isOptional_of_entryParts hread hentries).flip he
    exact ⟨f.2, hkey ▸ hf, hparts⟩

theorem ReadSplit.isSome_accept (h : ReadSplit split p) (atEnd : Bool) (segments : List Text)
    (query : Query) :
    ((⟨p.readSteps, atEnd⟩ : Matcher).accept segments query).isSome =
      (((⟨p.pathParts.map Step.ofParts, atEnd⟩ : Matcher).accept segments []).isSome &&
        (matchQuery query p.queryParts).isSome) := by
  have hpath : runSteps query (.start segments) (p.pathParts.map Step.ofParts) =
      runSteps [] (.start segments) (p.pathParts.map Step.ofParts) := by
    have hnil : ∀ cursor, runSteps query cursor [] = runSteps [] cursor [] := fun _ => rfl
    simpa using runSteps_segments_congr p.pathParts hnil (.start segments)
  simp only [Matcher.accept, Matcher.run, readSteps, runSteps_append, h.runSteps_blockSteps, hpath]
  cases runSteps [] (.start segments) (p.pathParts.map Step.ofParts) with
  | none => rfl
  | some found =>
    obtain ⟨params, last⟩ := found
    cases matchQuery query p.queryParts <;> cases hend : atEnd && !last.isExhausted <;> simp [hend]

end Pattern

namespace Route

open Pattern

/-- A target that a route matches is still matched without the values of a declared query key just where the
entry of this key is one of the optional ones. -/
theorem accept_erase_iff {source : Text} {atEnd : Bool} {r : Route}
    {entries : List (Text × Pattern Schema)} (hr : parse source atEnd = .ok r)
    (hblock : r.pattern.queryBlock? = some entries) {e : Text × Pattern Schema} (he : e ∈ entries) :
    ∃ m, r.matcher = .ok m ∧ ∀ (segments : List Text) (query : Query), query.keys.Nodup →
      (m.accept segments query).isSome →
      ((m.accept segments (Table.erase e.1 query)).isSome ↔ e ∈ r.pattern.optionalEntries) := by
  have hread := parse_eq_ok hr
  have hroot : r.pattern.rootBlock? = some entries := by
    rw [← hread.blockAtRoot.queryBlock?_eq, hblock]
  obtain ⟨parts, hmem, hparts⟩ := hread.exists_parts (e := e) (by simpa [hroot] using he)
  have hoptional : e ∈ r.pattern.optionalEntries ↔ e.2.isOptional = true := by
    rw [optionalEntries, hblock, Option.getD_some, List.mem_filter]
    exact and_iff_right he
  refine ⟨_, matcher_of_read hread, fun segments query hquery haccept => ?_⟩
  rw [hread.isSome_accept, Bool.and_eq_true] at haccept
  have herase := isSome_matchQuery_erase hquery hread.queryParts_keys_clean.1 hmem haccept.2
  rw [hread.isSome_accept, haccept.1, Bool.true_and, hoptional, ← hparts]
  exact iff_of_eq (congrArg (· = true) herase)

/-- Two optional captures side by side may be left out together, and one beside a required capture may not. -/
theorem accept_erase_compound :
    let query : Query := [("a", ["v1"]), ("b", ["2"])]
    ∃ (r : Route) (m : Matcher) (first second : Text × Pattern Schema),
      parse "/s?a={v:x?}{.:y*}&b=:n{-:z?}" true = .ok r ∧
      r.pattern.queryBlock? = some [first, second] ∧ r.matcher = .ok m ∧ query.keys.Nodup ∧
      (m.accept ["s"] query).isSome ∧ first ∈ r.pattern.optionalEntries ∧
      (m.accept ["s"] (Table.erase "a" query)).isSome ∧ second ∉ r.pattern.optionalEntries ∧
      ¬ (m.accept ["s"] (Table.erase "b" query)).isSome := by
  intro query
  let first : Text × Pattern Schema := ("a", .concat (.prefixed "v" (.modified .optional (.param "x")))
    (.prefixed "." (.modified .zeroOrMore (.param "y"))) true)
  let second : Text × Pattern Schema :=
    ("b", .concat (.param "n") (.prefixed "-" (.modified .optional (.param "z"))) true)
  let r : Route := ⟨.queryParams (.literal "s") [first, second], true⟩
  have hr : parse "/s?a={v:x?}{.:y*}&b=:n{-:z?}" true = .ok r := by rfl
  have hquery : query.keys.Nodup := by decide
  obtain ⟨m, hm, hfirst⟩ := accept_erase_iff hr rfl (e := first) (by simp)
  obtain ⟨m', hm', hsecond⟩ := accept_erase_iff hr rfl (e := second) (by simp)
  obtain rfl : m = m' := Except.ok.inj (hm.symm.trans hm')
  have haccept : (m.accept ["s"] query).isSome := by
    obtain rfl := Except.ok.inj hm
    rfl
  have hin : first ∈ r.pattern.optionalEntries := by
    show first ∈ [first]
    exact List.mem_singleton_self first
  have hout : second ∉ r.pattern.optionalEntries := by
    show second ∉ [first]
    simp [first, second]
  exact ⟨r, m, first, second, hr, rfl, hm, hquery, haccept, hin, (hfirst _ query hquery haccept).mpr hin,
    hout, mt (hsecond _ query hquery haccept).mp hout⟩

end Route

end RoutePattern
