import RoutePattern.Proofs.RoundTrip.QueryText

/-!
Matching inverts rendering. What a pattern writes for parameters that fit it is matched by the pattern
again, with the parameters as the result, but for the empty lists of repetitions that were left out.
-/

namespace RoutePattern

theorem get?_flatMap_of_notMem {f : Capture → Params} (hf : ∀ c, ∀ e ∈ f c, e.1 = c.key)
    {cs : List Capture} {key : Key} (hkey : key ∉ cs.map Capture.key) :
    Table.get? key (cs.flatMap f) = none := by
  rw [Table.get?_eq_none_iff]
  intro hk
  obtain ⟨e, he, heq⟩ := List.mem_map.mp hk
  obtain ⟨c, hc, hm⟩ := List.mem_flatMap.mp he
  exact hkey (List.mem_map.mpr ⟨c, hc, (hf c e hm).symm.trans heq⟩)

theorem get?_flatMap {f : Capture → Params} (hf : ∀ c, ∀ e ∈ f c, e.1 = c.key) {cs : List Capture}
    (hkeys : (cs.map Capture.key).Nodup) {c : Capture} (hc : c ∈ cs) :
    Table.get? c.key (cs.flatMap f) = Table.get? c.key (f c) := by
  induction cs with
  | nil => simp at hc
  | cons d rest ih =>
    obtain ⟨hfresh, hrest⟩ := List.nodup_cons.mp hkeys
    rw [List.flatMap_cons, Table.get?_append]
    rcases List.mem_cons.mp hc with rfl | hm
    · have hnone : Table.get? c.key (rest.flatMap f) = none := get?_flatMap_of_notMem hf hfresh
      rw [hnone, Option.or_none]
    · have hother : c.key ∉ [d].map Capture.key := by
        intro hk
        obtain heq : c.key = d.key := by simpa using hk
        exact hfresh (List.mem_map.mpr ⟨c, hm, heq⟩)
      have hnone : Table.get? c.key (f d) = none := by
        simpa using get?_flatMap_of_notMem hf hother
      rw [hnone, Option.none_or, ih hrest hm]

theorem key_of_mem_answer (params : Params) (c : Capture) :
    ∀ e ∈ (Part.capture c).answer params, e.1 = c.key := by
  intro e he
  rw [Part.answer] at he
  split at he
  next => simpa using congrArg Prod.fst (List.mem_singleton.mp he)
  next =>
    split at he
    next => simpa using congrArg Prod.fst (List.mem_singleton.mp he)
    next => simp at he

theorem answer_sublist (params : Params) (c : Capture) :
    (((Part.capture c).answer params).map (·.1)).Sublist [c.key] := by
  rw [Part.answer]
  split
  next => simp
  next => split <;> simp

theorem nodup_answers (params : Params) {cs : List Capture} (h : (cs.map Capture.key).Nodup) :
    ((cs.flatMap fun c => (Part.capture c).answer params).map (·.1)).Nodup := by
  have hsub : ((cs.flatMap fun c => (Part.capture c).answer params).map (·.1)).Sublist
      (cs.map Capture.key) := by
    induction cs with
    | nil => simp
    | cons c rest ih =>
      rw [List.flatMap_cons, List.map_append, List.map_cons]
      exact (answer_sublist params c).append (ih (List.nodup_cons.mp h).2)
  exact h.sublist hsub

theorem flatMap_answer (params : Params) (parts : List Part) :
    parts.flatMap (Part.answer params) =
      (parts.filterMap Part.capture?).flatMap fun c => (Part.capture c).answer params := by
  induction parts with
  | nil => rfl
  | cons part rest ih =>
    rw [List.flatMap_cons, ih]
    cases part <;> rfl

namespace Pattern

variable {σ : Type}

/-- A capture that has a segment of its own. -/
def LoneCapture : List Part → Prop
  | [.capture _] => True
  | _ => False

instance : DecidablePred LoneCapture
  | [.capture _] => isTrue trivial
  | [.literal _ _] => isFalse id
  | [] => isFalse id
  | .literal _ _ :: _ :: _ => isFalse id
  | .capture _ :: _ :: _ => isFalse id

/-- Patterns that matching can invert: no key stands for two captures, every segment is made of
literals and required single captures, except that the last one may be any capture, and every query
value is a literal or a capture. -/
structure Invertible (p : Pattern σ) : Prop where
  keys : ((p.captures 0 false).map (·.1.key)).Nodup
  path : ∀ parts ∈ p.pathParts.dropLast, ∀ part ∈ parts, part.IsFixed
  last : ∀ parts ∈ p.pathParts.getLast?, (∀ part ∈ parts, part.IsFixed) ∨ LoneCapture parts
  query : ∀ e ∈ p.queryParts, SimpleEntry e.2

instance (p : Pattern σ) : Decidable p.Invertible :=
  decidable_of_iff
    (((p.captures 0 false).map (·.1.key)).Nodup ∧
      (∀ parts ∈ p.pathParts.dropLast, ∀ part ∈ parts, part.IsFixed) ∧
      (∀ parts ∈ p.pathParts.getLast?, (∀ part ∈ parts, part.IsFixed) ∨ LoneCapture parts) ∧
      ∀ e ∈ p.queryParts, SimpleEntry e.2)
    ⟨fun h => ⟨h.1, h.2.1, h.2.2.1, h.2.2.2⟩, fun h => ⟨h.keys, h.path, h.last, h.query⟩⟩

/-- Parameters that a pattern can write without losing any of them. -/
structure Fitting (p : Pattern σ) (params : Params) : Prop where
  known : ∀ key ∈ params.map (·.1), key ∈ (p.captures 0 false).map (·.1.key)
  fits : ∀ c ∈ p.captures 0 false, c.1.Fits (Table.get? c.1.key params)
  pathText : ∀ parts ∈ p.pathParts, ∀ part ∈ parts, part.Avoids params ['/', '?', '#']
  queryText : ∀ e ∈ p.queryParts, (Part.literal e.1 false).Avoids params ['#', '&', '+', '%'] ∧
    ∀ part ∈ e.2, part.Avoids params ['#', '&', '+', '%']
  delimited : ∀ parts ∈ p.pathParts, Delimited params parts

instance (p : Pattern σ) (params : Params) : Decidable (p.Fitting params) :=
  decidable_of_iff
    ((∀ key ∈ params.map (·.1), key ∈ (p.captures 0 false).map (·.1.key)) ∧
      (∀ c ∈ p.captures 0 false, c.1.Fits (Table.get? c.1.key params)) ∧
      (∀ parts ∈ p.pathParts, ∀ part ∈ parts, part.Avoids params ['/', '?', '#']) ∧
      (∀ e ∈ p.queryParts, (Part.literal e.1 false).Avoids params ['#', '&', '+', '%'] ∧
        ∀ part ∈ e.2, part.Avoids params ['#', '&', '+', '%']) ∧
      ∀ parts ∈ p.pathParts, Delimited params parts)
    ⟨fun h => ⟨h.1, h.2.1, h.2.2.1, h.2.2.2.1, h.2.2.2.2⟩,
      fun h => ⟨h.known, h.fits, h.pathText, h.queryText, h.delimited⟩⟩

/-- What a capture gives that was left out: an empty list, if it is a repetition. -/
def leftOut (params : Params) (c : Capture) : Params :=
  if c.optional && c.multiple && !Table.has c.key params then [(c.key, .many [])] else []

/-- The parameters with an empty list for every zero-or-more capture that they leave out. -/
def completed (p : Pattern σ) (params : Params) : Params :=
  params ++ (p.captures 0 false).flatMap fun c => leftOut params c.1

end Pattern

theorem mem_joinPath {x : Char} {texts : List Text} (h : x ∈ joinPath texts) (hx : x ≠ '/') :
    ∃ t ∈ texts, x ∈ t := by
  obtain ⟨piece, hp, hm⟩ := List.mem_flatMap.mp h
  obtain ⟨t, ht, rfl⟩ := List.mem_map.mp (List.mem_filter.mp hp).1
  rcases List.mem_cons.mp hm with rfl | hm
  · contradiction
  · exact ⟨t, ht, Text.mem_of_mem_trim hm⟩

/-- A target is cut where its path and its query were put together, and what follows a fragment sign is
dropped. -/
theorem Target.ofText_withQuery_takeWhile {path : Text} (query : Text) (hq : '?' ∉ path) (hp : '#' ∉ path) :
    Target.ofText (orRoot (withQuery path query)) =
      ⟨splitPath path, Query.ofPairs (queryPairs (query.takeWhile (· != '#')))⟩ := by
  have hroot : ∀ x ∈ orRoot path, x ≠ '?' ∧ x ≠ '#' := by
    intro x hx
    unfold orRoot at hx
    split at hx
    next =>
      obtain rfl : x = '/' := by simpa using hx
      decide
    next =>
      refine ⟨?_, ?_⟩
      · rintro rfl
        exact hq hx
      · rintro rfl
        exact hp hx
  have hquestion : ∀ x ∈ orRoot path, (x != '?') = true := fun x hx => by simpa using (hroot x hx).1
  have hhash : ∀ x ∈ orRoot path, (x != '#') = true := fun x hx => by simpa using (hroot x hx).2
  have hne := orRoot_ne_nil path
  by_cases hnil : query = []
  · subst hnil
    have htext : orRoot (withQuery path []) = orRoot path := rfl
    have hfragment : (orRoot path).takeWhile (· != '#') = orRoot path := List.takeWhile_eq_self_iff.mpr hhash
    have hpath : (orRoot path).takeWhile (· != '?') = orRoot path :=
      List.takeWhile_eq_self_iff.mpr hquestion
    have hrest : (orRoot path).dropWhile (· != '?') = [] := List.dropWhile_eq_nil_iff.mpr hquestion
    rw [htext, Target.ofText, hfragment, hpath, hrest, splitPath_orRoot]
    rfl
  · have htext : orRoot (withQuery path query) = orRoot path ++ '?' :: query := by
      simp [withQuery, hnil, orRoot]
    have hfragment : (orRoot path ++ '?' :: query).takeWhile (· != '#') =
        orRoot path ++ '?' :: query.takeWhile (· != '#') := by
      rw [List.takeWhile_append_of_pos hhash]
      simp
    have hpath : (orRoot path ++ '?' :: query.takeWhile (· != '#')).takeWhile (· != '?') =
        orRoot path := by
      rw [List.takeWhile_append_of_pos hquestion]
      simp
    have hrest : (orRoot path ++ '?' :: query.takeWhile (· != '#')).dropWhile (· != '?') =
        '?' :: query.takeWhile (· != '#') := by
      rw [List.dropWhile_append_of_pos hquestion]
      simp
    rw [htext, Target.ofText, hfragment, hpath, hrest, splitPath_orRoot]
    rfl

theorem Target.ofText_withQuery {path query : Text} (hq : '?' ∉ path) (hp : '#' ∉ path)
    (hquery : '#' ∉ query) :
    Target.ofText (orRoot (withQuery path query)) = ⟨splitPath path, Query.ofPairs (queryPairs query)⟩ := by
  have hall : query.takeWhile (· != '#') = query := by
    refine List.takeWhile_eq_self_iff.mpr fun x hx => ?_
    have hne : x ≠ '#' := by
      rintro rfl
      exact hquery hx
    simpa using hne
  rw [ofText_withQuery_takeWhile query hq hp, hall]

theorem runSteps_cons {query : Query} {cursor next last : Cursor} {step : Step} {steps : List Step}
    {first params : Params} (hstep : step.run query cursor = some (first, next))
    (hsteps : runSteps query next steps = some (params, last))
    (hkeys : ((first ++ params).map (·.1)).Nodup) :
    runSteps query cursor (step :: steps) = some (first ++ params, last) := by
  rw [List.map_append] at hkeys
  obtain ⟨-, hnodup, hdisjoint⟩ := List.nodup_append.mp hkeys
  rw [runSteps, hstep, Option.bind_some]
  simp only
  rw [hsteps, Option.map_some, Table.putAll_of_disjoint hnodup]
  exact fun key hk hm => hdisjoint key hm key hk rfl

/-- Segments that each invert what they wrote invert all of it, one after the other. -/
theorem runSteps_segments {params blockAnswers : Params} {query : Query} {block : List Step}
    {pss : List (List Part)}
    (hinit : ∀ parts ∈ pss.dropLast, ∀ rest, Inverts params query parts rest)
    (hlast : ∀ parts ∈ pss.getLast?, Inverts params query parts [])
    (hkeys : ((pss.flatMap (·.flatMap (Part.answer params)) ++ blockAnswers).map (·.1)).Nodup)
    (hblock : ∀ done, runSteps query (Cursor.behind done []) block =
      some (blockAnswers, Cursor.behind done [])) (done : List Text) :
    runSteps query (Cursor.behind done (pss.flatMap (writtenSegments params)))
        (pss.map Step.ofParts ++ block) =
      some (pss.flatMap (·.flatMap (Part.answer params)) ++ blockAnswers,
        Cursor.behind (done ++ pss.flatMap (writtenSegments params)) []) := by
  -- `done` grows by what each segment wrote, while only the last one needs an empty rest
  induction pss generalizing done with
  | nil => simpa using hblock done
  | cons parts rest ih =>
    have hinverts : Inverts params query parts (rest.flatMap (writtenSegments params)) := by
      cases rest with
      | nil => exact hlast parts rfl
      | cons _ _ => exact hinit parts (by simp) _
    have hinit' : ∀ q ∈ rest.dropLast, ∀ more, Inverts params query q more := by
      cases rest with
      | nil => simp
      | cons _ _ => exact fun q hq => hinit q (by simpa using Or.inr hq)
    have hlast' : ∀ q ∈ rest.getLast?, Inverts params query q [] := by
      cases rest with
      | nil => simp
      | cons _ _ => exact fun q hq => hlast q (by simpa [List.getLast?_cons] using hq)
    rw [List.flatMap_cons, List.append_assoc] at hkeys
    have hnodup := hkeys
    rw [List.map_append] at hnodup
    have hrest := ih hinit' hlast' (List.nodup_append.mp hnodup).2.1 (done ++ writtenSegments params parts)
    rw [List.flatMap_cons, List.flatMap_cons, List.map_cons, List.cons_append, List.append_assoc,
      ← List.append_assoc done]
    exact runSteps_cons (hinverts done) hrest hkeys

namespace Pattern

variable {σ : Type}

/-- What matching gives back for a pattern as a whole. -/
def answers (p : Pattern σ) (params : Params) : Params :=
  p.pathParts.flatMap (·.flatMap (Part.answer params)) ++ entryAnswers params p.queryParts

theorem answers_eq (p : Pattern σ) (params : Params) :
    p.answers params = p.allParts.flatMap (Part.answer params) := by
  rw [answers, allParts, List.flatMap_append, entryAnswers, List.flatMap_assoc, List.flatMap_def,
    List.flatMap_def (l := p.pathParts.flatten)]
  congr 1
  simp [List.map_flatten, List.flatten_flatten, Function.comp_def, List.flatMap_def]

def writtenQuery (p : Pattern σ) (params : Params) : Text :=
  Text.join ['&'] ((p.queryParts.flatMap (entryPairs params)).map pieceOf)

namespace ReadSplit

variable {split : QuerySplit} {p : Pattern σ} {params : Params}

theorem fits_of_mem (h : ReadSplit split p) (hf : p.Fitting params) :
    ∀ part ∈ p.allParts, part.Fits params :=
  h.fits_allParts hf.fits

theorem fits_path (h : ReadSplit split p) (hf : p.Fitting params) :
    ∀ parts ∈ p.pathParts, ∀ part ∈ parts, part.Fits params := fun parts hm part hp =>
  h.fits_of_mem hf part (List.mem_append_left _ (List.mem_flatten.mpr ⟨parts, hm, hp⟩))

theorem fits_query (h : ReadSplit split p) (hf : p.Fitting params) :
    ∀ e ∈ p.queryParts, ∀ part ∈ e.2, part.Fits params := fun e he part hp =>
  h.fits_of_mem hf part (List.mem_append_right _ (List.mem_flatMap.mpr ⟨e, he, hp⟩))

theorem isMultiple_of_invertible (hi : p.Invertible) :
    ∀ parts ∈ p.pathParts.dropLast, ∀ part ∈ parts, part.isMultiple = false := by
  intro parts hm part hp
  have hfixed := hi.path parts hm part hp
  cases part with
  | literal _ _ => rfl
  | capture c => exact hfixed.2

theorem nodup_answers (h : ReadSplit split p) (hi : p.Invertible) (params : Params) :
    ((p.answers params).map (·.1)).Nodup := by
  have hkeys := hi.keys
  rw [h.keys_eq] at hkeys
  rw [answers_eq, flatMap_answer]
  exact RoutePattern.nodup_answers params hkeys

theorem nodup_parts (h : ReadSplit split p) (hi : p.Invertible) (params : Params) :
    ((p.pathParts.flatMap (·.flatMap (Part.answer params))).map (·.1)).Nodup ∧
      ((entryAnswers params p.queryParts).map (·.1)).Nodup := by
  have hall := h.nodup_answers hi params
  rw [answers, List.map_append] at hall
  obtain ⟨hpath, hquery, -⟩ := List.nodup_append.mp hall
  exact ⟨hpath, hquery⟩

theorem fixedParts (h : ReadSplit split p) (hf : p.Fitting params) {parts : List Part}
    (hm : parts ∈ p.pathParts) (hfixed : ∀ part ∈ parts, part.IsFixed) : FixedParts params parts where
  isFixed := hfixed
  fits := h.fits_path hf parts hm
  sound := (h.sound_of_mem parts hm).2

theorem inverts_of_fixed (h : ReadSplit split p) (hi : p.Invertible) (hf : p.Fitting params)
    {parts : List Part} (hm : parts ∈ p.pathParts) (hfixed : ∀ part ∈ parts, part.IsFixed)
    (query : Query) (rest : List Text) : Inverts params query parts rest := by
  have hkeys : ((parts.flatMap (Part.answer params)).map (·.1)).Nodup := by
    refine (h.nodup_parts hi params).1.sublist (List.Sublist.map _ ?_)
    rw [List.flatMap_def (l := p.pathParts)]
    exact List.sublist_flatten_of_mem (List.mem_map_of_mem hm)
  exact RoutePattern.inverts_of_fixed query (h.fixedParts hf hm hfixed) (h.sound_of_mem parts hm).1
    (hf.delimited parts hm) (fun part hp => hf.pathText parts hm part hp '/' (by simp)) hkeys rest

theorem inverts_of_mem_getLast? (h : ReadSplit split p) (hi : p.Invertible) (hf : p.Fitting params)
    (query : Query) : ∀ parts ∈ p.pathParts.getLast?, Inverts params query parts [] := by
  intro parts hlast
  have hm : parts ∈ p.pathParts := List.mem_of_getLast? hlast
  rcases hi.last parts hlast with hfixed | hlone
  · exact h.inverts_of_fixed hi hf hm hfixed query []
  · obtain ⟨c, rfl⟩ : ∃ c, parts = [.capture c] := by
      match parts, hlone with
      | [.capture c], _ => exact ⟨c, rfl⟩
    exact inverts_of_last query (h.fits_path hf _ hm (.capture c) (by simp))
      (hf.pathText _ hm (.capture c) (by simp) '/' (by simp))

theorem uses_of_mem_values {x : Char} {part : Part} {value : Text}
    (hv : value ∈ part.values params) (hx : x ∈ value) : part.Uses params x := by
  cases part with
  | literal text _ =>
    obtain rfl : value = text := by simpa [Part.values] using hv
    exact hx
  | capture c =>
    obtain ⟨t, ht, rfl⟩ := List.mem_map.mp hv
    rcases List.mem_append.mp hx with hx | hx
    · exact .inl hx
    · cases hg : Table.get? c.key params with
      | none => simp [hg] at ht
      | some captured => exact .inr ⟨captured, hg, t, by simpa [hg] using ht, hx⟩

theorem uses_of_mem_text {x : Char} {part : Part} (hx : x ∈ part.text params) (hne : x ≠ '/') :
    part.Uses params x := by
  cases part with
  | literal text _ => exact hx
  | capture c =>
    rw [Part.text] at hx
    split at hx
    next => simp at hx
    next captured hg =>
      split at hx
      next => simp at hx
      next =>
        rcases List.mem_append.mp hx with hx | hx
        · exact .inl hx
        · rcases Text.mem_of_mem_join hx with hx | ⟨t, ht, hx⟩
          · exact absurd (by simpa using hx) hne
          · exact .inr ⟨captured, hg, t, ht, hx⟩

theorem notMem_writtenPath (hf : p.Fitting params) {x : Char} (hx : x ∈ ['/', '?', '#']) (hne : x ≠ '/') :
    x ∉ joinPath (p.pathParts.map fun parts => parts.flatMap (Part.text params)) := by
  intro hm
  obtain ⟨t, ht, hm⟩ := mem_joinPath hm hne
  obtain ⟨parts, hparts, rfl⟩ := List.mem_map.mp ht
  obtain ⟨part, hp, hm⟩ := List.mem_flatMap.mp hm
  exact hf.pathText parts hparts part hp x hx (uses_of_mem_text hm hne)

theorem notMem_pieceOf (hf : p.Fitting params) {x : Char} (hx : x ∈ ['#', '&', '+', '%'])
    (hne : x ≠ '=') : ∀ pair ∈ p.queryParts.flatMap (entryPairs params), x ∉ pieceOf pair := by
  intro pair hp hm
  obtain ⟨e, he, hp⟩ := List.mem_flatMap.mp hp
  obtain ⟨value, hv, rfl⟩ := List.mem_map.mp hp
  obtain ⟨part, hpart, hv⟩ := List.mem_flatMap.mp hv
  obtain ⟨hkey, hvalue⟩ := hf.queryText e he
  rcases List.mem_append.mp hm with hm | hm
  · exact hkey x hx hm
  · rcases List.mem_cons.mp hm with rfl | hm
    · contradiction
    · exact hvalue part hpart x hx (uses_of_mem_values hv hm)

theorem plainPair_of_mem (h : ReadSplit split p) (hf : p.Fitting params) :
    ∀ pair ∈ p.queryParts.flatMap (entryPairs params), PlainPair pair := by
  intro pair hp
  refine ⟨?_, notMem_pieceOf hf (by simp) (by decide) pair hp,
    notMem_pieceOf hf (by simp) (by decide) pair hp, notMem_pieceOf hf (by simp) (by decide) pair hp⟩
  obtain ⟨e, he, hp⟩ := List.mem_flatMap.mp hp
  obtain ⟨value, -, rfl⟩ := List.mem_map.mp hp
  exact h.queryParts_keys_clean.2 e he

theorem renderSteps_eq (h : ReadSplit split p) (hi : p.Invertible) (hf : p.Fitting params) :
    renderSteps (argumentsOf params) (p.pathParts.map Step.ofParts ++ blockSteps p) =
      .ok (withQuery (joinPath (p.pathParts.map fun parts => parts.flatMap (Part.text params)))
        (p.writtenQuery params)) := by
  rw [writtenQuery, ← entryPieces_of_simple hi.query]
  exact h.renderSteps_readSteps hf.fits

theorem runSteps_block (h : ReadSplit split p) (hi : p.Invertible) (hf : p.Fitting params)
    (done : List Text) :
    runSteps (Query.ofPairs (queryPairs (p.writtenQuery params))) (Cursor.behind done []) (blockSteps p) =
      some (entryAnswers params p.queryParts, Cursor.behind done []) := by
  unfold blockSteps
  cases hb : p.rootBlock? with
  | none =>
    rw [h.queryParts_eq_nil hb]
    rfl
  | some es =>
    have hpairs : queryPairs (p.writtenQuery params) = p.queryParts.flatMap (entryPairs params) :=
      queryPairs_join (h.plainPair_of_mem hf)
    have hmatch : matchQuery (Query.ofPairs (queryPairs (p.writtenQuery params))) p.queryParts =
        some (entryAnswers params p.queryParts) := by
      rw [hpairs]
      exact matchQuery_eq hi.query (h.fits_query hf) (all_ofPairs_entryPairs h.queryParts_keys_clean.1)
        (h.nodup_parts hi params).2
    simp [runSteps, Step.run, hmatch, Table.putAll]

theorem accept_written (h : ReadSplit split p) (hi : p.Invertible) (hf : p.Fitting params)
    (atEnd : Bool) :
    (Matcher.mk (p.pathParts.map Step.ofParts ++ blockSteps p) atEnd).accept
        (p.pathParts.flatMap (writtenSegments params))
        (Query.ofPairs (queryPairs (p.writtenQuery params))) = some (p.answers params) := by
  have hrun := runSteps_segments
    (fun parts hm => h.inverts_of_fixed hi hf (List.dropLast_subset _ hm) (hi.path parts hm) _)
    (h.inverts_of_mem_getLast? hi hf _) (h.nodup_answers hi params) (h.runSteps_block hi hf) []
  have hstart : Cursor.start (p.pathParts.flatMap (writtenSegments params)) =
      Cursor.behind [] (p.pathParts.flatMap (writtenSegments params)) := rfl
  rw [Matcher.accept, Matcher.run, hstart, hrun]
  simp [Cursor.isExhausted_behind, answers]

end ReadSplit

theorem get?_answers {p : Pattern σ} {split : QuerySplit} {params : Params} (h : ReadSplit split p)
    (hi : p.Invertible) (hf : p.Fitting params) (key : Key) :
    Table.get? key (p.answers params) = Table.get? key (p.completed params) := by
  have hanswer := key_of_mem_answer params
  have hleft : ∀ c, ∀ e ∈ leftOut params c, e.1 = c.key := by
    intro c e he
    unfold leftOut at he
    split at he
    next => simpa using congrArg Prod.fst (List.mem_singleton.mp he)
    next => simp at he
  have hkeys := hi.keys
  have hextra : ((p.captures 0 false).flatMap fun c => leftOut params c.1) =
      (p.allParts.filterMap Part.capture?).flatMap (leftOut params) := by
    rw [← h.captures_eq_allParts, List.flatMap_map]
  rw [answers_eq, flatMap_answer, completed, Table.get?_append, hextra]
  rw [h.keys_eq] at hkeys
  by_cases hk : key ∈ (p.allParts.filterMap Part.capture?).map Capture.key
  · obtain ⟨c, hc, rfl⟩ := List.mem_map.mp hk
    obtain ⟨part, hpart, hcapture⟩ := List.mem_filterMap.mp hc
    obtain rfl : part = .capture c := by
      cases part with
      | literal _ _ => simp [Part.capture?] at hcapture
      | capture d => simpa [Part.capture?] using hcapture
    have hfits : c.Fits (Table.get? c.key params) := h.fits_of_mem hf _ hpart
    rw [get?_flatMap hanswer hkeys hc, get?_flatMap hleft hkeys hc, Part.answer]
    cases hg : Table.get? c.key params with
    | some captured => simp
    | none =>
      have ho : c.optional = true := by simpa [hg, Capture.Fits] using hfits
      cases hm : c.multiple <;> simp [leftOut, Table.has, hg, ho, hm, Table.get?]
  · have hparams : Table.get? key params = none := by
      rw [Table.get?_eq_none_iff]
      intro hm
      exact hk (h.keys_eq ▸ hf.known key hm)
    rw [get?_flatMap_of_notMem hanswer hk, get?_flatMap_of_notMem hleft hk, hparams]
    rfl

end Pattern

namespace Route

open Pattern

theorem argumentsOf_truthy (params : Params) :
    (if (argumentsOf params).isTruthy then argumentsOf params else .map []) = argumentsOf params := by
  cases params with
  | nil => rfl
  | cons e rest => rfl

/-- Matching inverts rendering. Where a route is read from a pattern that can be inverted and the
parameters fit it, they are rendered, and what was rendered is matched, at either end flag, with
exactly the parameters as the result, and with an empty list for every zero-or-more capture that they
leave out. -/
theorem accept_render {source : Text} {atEnd : Bool} {r : Route} {params : Params}
    (hr : parse source atEnd = .ok r) (hi : r.pattern.Invertible) (hf : r.pattern.Fitting params) :
    ∃ target result, r.render (.map (paramEntries params)) = .ok target ∧
      r.accept target = .ok (some result) ∧ (result.map (·.1)).Nodup ∧
      ∀ key, Table.get? key result = Table.get? key (r.pattern.completed params) := by
  have h := parse_eq_ok hr
  have hlayout := h.layout_eq (ReadSplit.isMultiple_of_invertible hi)
  have hrender : r.render (argumentsOf params) =
      .ok (orRoot (withQuery
        (joinPath (r.pattern.pathParts.map fun parts => parts.flatMap (Part.text params)))
        (r.pattern.writtenQuery params))) := by
    rw [render, renderer, Pattern.renderer, hlayout]
    show Except.mapError _ (Renderer.run ⟨_, _⟩ (argumentsOf params)) = _
    rw [Renderer.run, argumentsOf_truthy, renderRoute, h.renderSteps_eq hi hf]
    rfl
  have hhash : '#' ∉ r.pattern.writtenQuery params := by
    intro hm
    rcases Text.mem_of_mem_join hm with hm | ⟨piece, hp, hm⟩
    · simp at hm
    · obtain ⟨pair, hpair, rfl⟩ := List.mem_map.mp hp
      exact ReadSplit.notMem_pieceOf hf (by simp) (by decide) pair hpair hm
  have htarget := Target.ofText_withQuery
    (ReadSplit.notMem_writtenPath hf (x := '?') (by simp) (by decide))
    (ReadSplit.notMem_writtenPath hf (x := '#') (by simp) (by decide)) hhash
  have hsegments : splitPath (joinPath (r.pattern.pathParts.map fun parts =>
      parts.flatMap (Part.text params))) = r.pattern.pathParts.flatMap (writtenSegments params) := by
    rw [splitPath_joinPath, List.flatMap_map]
    rfl
  refine ⟨_, r.pattern.answers params, hrender, ?_, h.nodup_answers hi params,
    get?_answers h hi hf⟩
  rw [accept, matcher, Pattern.matcher, hlayout]
  show Except.ok ((Matcher.mk _ r.atEnd).accept (Target.ofText _).segments (Target.ofText _).query) = _
  rw [htarget, hsegments, h.accept_written hi hf]

/-- A version in two captures of one segment, a repetition that is left out, and a repeated key. -/
theorem accept_render_version :
    let source : Text := "/u/{v:major}{.:minor}/:rest*?q=:q&tag={t-:tags+}&mode=full"
    let params : Params :=
      [(.name "q", .one "a b"), (.name "major", .one "1"), (.name "minor", .one "2"),
        (.name "tags", .many ["x", "y"])]
    ∃ r target result, parse source true = .ok r ∧ r.render (.map (paramEntries params)) = .ok target ∧
      target = ("/u/v1.2?q=a b&tag=t-x&tag=t-y&mode=full" : Text) ∧
      r.accept target = .ok (some result) ∧
      Table.get? (.name "tags") result = some (.many ["x", "y"]) ∧
      Table.get? (.name "rest") result = some (.many []) := by
  intro source params
  let pattern : Pattern Schema := .queryParams
    (.concat (.concat (.literal "u")
        (.concat (.prefixed "v" (.param "major")) (.prefixed "." (.param "minor")) true) false)
      (.modified .zeroOrMore (.param "rest")) false)
    [("q", .param "q"), ("tag", .prefixed "t-" (.modified .oneOrMore (.param "tags"))),
      ("mode", .literal "full")]
  have hr : parse source true = .ok ⟨pattern, true⟩ := by rfl
  have hi : pattern.Invertible := by decide
  have hf : pattern.Fitting params := by decide
  obtain ⟨target, result, hrender, haccept, -, hget⟩ := accept_render hr hi hf
  have htarget : target = ("/u/v1.2?q=a b&tag=t-x&tag=t-y&mode=full" : Text) :=
    (Except.ok.inj hrender).symm.trans rfl
  exact ⟨⟨pattern, true⟩, target, result, hr, hrender, htarget, haccept,
    (hget (.name "tags")).trans rfl, (hget (.name "rest")).trans rfl⟩

end Route

end RoutePattern
