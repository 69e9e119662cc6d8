import RoutePattern.Proofs.RoundTrip
import RoutePattern.Proofs.Usable

/-!
Paths of nothing but fixed text. Such a path takes just the segments that it writes, so that a match is left to
the query.
-/

namespace RoutePattern

variable {σ : Type}

namespace Piece

theorem mem_source_of_mem_leading (first : Nat) {piece : Piece} {c : Char}
    (h : c ∈ (piece.part first).leading) : c ∈ piece.source := by
  rcases piece with text | ⟨_ | lead, name, m⟩
  · exact h
  · cases h
  · have hlead : c ∈ lead := h
    simp [source, hlead]

theorem mem_source_of_mem_partsFrom {first : Nat} {pieces : List Piece} {part : Part}
    (hpart : part ∈ partsFrom first pieces) {c : Char} (hc : c ∈ part.leading) :
    c ∈ pieces.flatMap source := by
  induction pieces generalizing first with
  | nil => cases hpart
  | cons piece rest ih =>
    rw [List.flatMap_cons]
    rcases List.mem_cons.mp hpart with rfl | hpart
    · exact List.mem_append_left _ (mem_source_of_mem_leading first hc)
    · exact List.mem_append_right _ (ih hpart)

theorem slash_notMem_partsFrom {pieces : List Piece} (first : Nat)
    (h : '/' ∉ pieces.flatMap source) : ∀ part ∈ partsFrom first pieces, '/' ∉ part.leading :=
  fun _ hpart hslash => h (mem_source_of_mem_partsFrom hpart hslash)

end Piece

namespace Pattern

/-- The parts of the path are those of the pieces that its segments are made of. -/
theorem ReadSplit.exists_segment {split : QuerySplit} {p : Pattern σ} (h : ReadSplit split p) :
    ∀ parts ∈ p.pathParts, ∃ segment ∈ splitPath split.path, ∃ (pieces : List Piece) (first : Nat),
      ReadFrom segment (joinParts (pieces.map Piece.pattern) : Pattern σ) ∧
        (∀ piece ∈ pieces, piece.Sound) ∧ pieces.flatMap Piece.source = segment ∧
        parts = Piece.partsFrom first pieces := by
  obtain ⟨ps, hread, htrunk⟩ := h.readPath
  have hsegment : ∀ q ∈ ps, ∃ segment ∈ splitPath split.path, ReadFrom segment q := fun q hq =>
    have ⟨segment, hs, hr⟩ := exists_of_mem_right hread hq
    ⟨segment, hs, hr⟩
  have hcollect : ∀ (qs : List (Pattern σ)) (first : Nat), (∀ q ∈ qs, q ∈ ps) →
      ∀ g ∈ collect Pattern.groupsFrom first qs, ∃ q ∈ ps, ∃ n, g ∈ q.groupsFrom n := by
    intro qs
    induction qs with
    | nil => simp [collect]
    | cons q rest ih =>
      intro first hqs g hg
      rcases List.mem_append.mp hg with hg | hg
      · exact ⟨q, hqs q (by simp), first, hg⟩
      · exact ih _ (fun r hr => hqs r (List.mem_cons_of_mem _ hr)) g hg
  rw [h.pathParts_eq, htrunk, additive_groups.joinSegments 0 ps]
  intro parts hparts
  obtain ⟨g, hg, rfl⟩ := List.mem_map.mp hparts
  obtain ⟨q, hq, n, hg⟩ := hcollect ps 0 (fun _ hq => hq) g hg
  obtain ⟨segment, hs, hr⟩ := hsegment q hq
  obtain ⟨pieces, hsound, hsource, rfl⟩ := ofSegment_eq_ok hr
  have hpieces : pieces ≠ [] := by
    rintro rfl
    exact ne_nil_of_mem_splitPath hs hsource.symm
  have hgap := isGap_of_mem hsound (hsource ▸ slash_notMem_of_mem_splitPath hs)
  rw [groupsFrom_joinParts n hpieces hgap] at hg
  obtain rfl := List.mem_singleton.mp hg
  exact ⟨segment, hs, pieces, n, hr, hsound, hsource, Piece.filterMap_part?_membersFrom n pieces⟩

theorem ReadSplit.slash_notMem {split : QuerySplit} {p : Pattern σ} (h : ReadSplit split p) :
    ∀ parts ∈ p.pathParts, ∀ part ∈ parts, '/' ∉ part.leading := by
  intro parts hparts
  obtain ⟨segment, hs, pieces, first, -, -, hsource, rfl⟩ := h.exists_segment parts hparts
  exact Piece.slash_notMem_partsFrom first (hsource ▸ slash_notMem_of_mem_splitPath hs)

/-- A path of fixed text that a target can hold. -/
def FixedPath (p : Pattern σ) : Prop :=
  ∀ parts ∈ p.pathParts, ∀ part ∈ parts, part.capture? = none ∧ part.Avoids [] ['?', '#']

namespace FixedPath

variable {split : QuerySplit} {p : Pattern σ} (h : ReadSplit split p) (hp : p.FixedPath)

include hp

theorem exists_literal {parts : List Part} (hparts : parts ∈ p.pathParts) {part : Part}
    (hpart : part ∈ parts) :
    ∃ text loose, part = .literal text loose ∧ '?' ∉ text ∧ '#' ∉ text := by
  obtain ⟨hcapture, havoids⟩ := hp parts hparts part hpart
  cases part with
  | literal text loose => exact ⟨text, loose, rfl, havoids '?' (by simp), havoids '#' (by simp)⟩
  | capture c => cases hcapture

theorem answer_eq_nil (params : Params) {parts : List Part} (hparts : parts ∈ p.pathParts) :
    parts.flatMap (Part.answer params) = [] := by
  refine List.flatMap_eq_nil_iff.mpr fun part hpart => ?_
  obtain ⟨text, loose, rfl, -⟩ := hp.exists_literal hparts hpart
  rfl

theorem delimited (params : Params) {parts : List Part} (hparts : parts ∈ p.pathParts) :
    Delimited params parts := by
  have hliterals : ∀ part ∈ parts, part.capture? = none := fun part hpart =>
    (hp parts hparts part hpart).1
  clear hparts
  induction parts with
  | nil => trivial
  | cons part rest ih =>
    obtain ⟨hpart, hrest⟩ := List.forall_mem_cons.mp hliterals
    cases part with
    | literal text loose => exact ih hrest
    | capture c => cases hpart

include h

theorem runSteps_path (params : Params) (query : Query) :
    runSteps query (Cursor.start (p.pathParts.flatMap (writtenSegments params)))
        (p.pathParts.map Step.ofParts) =
      some ([], Cursor.behind (p.pathParts.flatMap (writtenSegments params)) []) := by
  have hinverts : ∀ parts ∈ p.pathParts, ∀ rest, Inverts params query parts rest := by
    intro parts hparts rest
    obtain ⟨hne, hsound⟩ := h.sound_of_mem parts hparts
    have hfixed : FixedParts params parts := by
      refine ⟨fun part hpart => ?_, fun part hpart => ?_, hsound⟩ <;>
        obtain ⟨text, loose, rfl, -⟩ := hp.exists_literal hparts hpart <;> trivial
    have hslash : ∀ part ∈ parts, ¬ part.Uses params '/' := by
      intro part hpart
      have hleading := h.slash_notMem parts hparts part hpart
      obtain ⟨text, loose, rfl, -⟩ := hp.exists_literal hparts hpart
      exact hleading
    exact RoutePattern.inverts_of_fixed query hfixed hne (hp.delimited params hparts) hslash
      (by simp [hp.answer_eq_nil params hparts]) rest
  have hanswers : p.pathParts.flatMap (fun parts => parts.flatMap (Part.answer params)) = [] :=
    List.flatMap_eq_nil_iff.mpr fun parts hparts => hp.answer_eq_nil params hparts
  have hkeys : ((p.pathParts.flatMap (·.flatMap (Part.answer params)) ++ ([] : Params)).map
      (·.1)).Nodup := by
    simp [hanswers]
  have hrun := runSteps_segments (fun parts hparts => hinverts parts (List.dropLast_subset _ hparts))
    (fun parts hparts => hinverts parts (List.mem_of_getLast? hparts) []) hkeys
    (fun done => (rfl : runSteps query (Cursor.behind done []) [] = _)) []
  have hstart : Cursor.start (p.pathParts.flatMap (writtenSegments params)) =
      Cursor.behind [] (p.pathParts.flatMap (writtenSegments params)) := rfl
  rw [hanswers] at hrun
  rw [hstart]
  simpa using hrun

omit h in
theorem notMem_pathText (params : Params) {x : Char} (hx : x ∈ ['?', '#']) : x ∉ p.pathText params := by
  have hne : x ≠ '/' := by
    rintro rfl
    simp at hx
  intro hmem
  obtain ⟨text, htext, hmem⟩ := mem_joinPath hmem hne
  obtain ⟨parts, hparts, rfl⟩ := List.mem_map.mp htext
  obtain ⟨part, hpart, hmem⟩ := List.mem_flatMap.mp hmem
  obtain ⟨-, havoids⟩ := hp parts hparts part hpart
  obtain ⟨text, loose, rfl, -⟩ := hp.exists_literal hparts hpart
  exact havoids x hx hmem

end FixedPath

theorem ReadSplit.runSteps_blockSteps {split : QuerySplit} {p : Pattern σ} (h : ReadSplit split p)
    (query : Query) (cursor : Cursor) :
    runSteps query cursor (ReadSplit.blockSteps p) = (matchQuery query p.queryParts).map (·, cursor) := by
  unfold ReadSplit.blockSteps
  cases hb : p.rootBlock? with
  | none =>
    rw [h.queryParts_eq_nil hb]
    rfl
  | some es =>
    show runSteps query cursor [.query p.queryParts] = _
    rw [runSteps, Step.run]
    cases matchQuery query p.queryParts <;> rfl

end Pattern

namespace Route

open Pattern

theorem accept_eq_matchQuery {split : QuerySplit} {r : Route} (h : ReadSplit split r.pattern)
    (hp : r.pattern.FixedPath) (params : Params) (query : Text) :
    r.accept (orRoot (withQuery (r.pattern.pathText params) query)) =
      .ok (matchQuery (Query.ofPairs (queryPairs (query.takeWhile (· != '#')))) r.pattern.queryParts) := by
  have hquestion : '?' ∉ r.pattern.pathText params := hp.notMem_pathText params (by simp)
  have hhash : '#' ∉ r.pattern.pathText params := hp.notMem_pathText params (by simp)
  have htarget := Target.ofText_withQuery_takeWhile query hquestion hhash
  have hsegments : splitPath (r.pattern.pathText params) =
      r.pattern.pathParts.flatMap (writtenSegments params) := by
    rw [pathText, splitPath_joinPath, List.flatMap_map]
    rfl
  rw [accept, matcher_of_read h]
  show Except.ok ((Matcher.mk _ r.atEnd).accept (Target.ofText _).segments (Target.ofText _).query) = _
  rw [htarget, hsegments, Matcher.accept, Matcher.run, readSteps, runSteps_append,
    hp.runSteps_path h params, Option.bind_some]
  simp only [h.runSteps_blockSteps]
  cases hmatch : matchQuery (Query.ofPairs (queryPairs (query.takeWhile (· != '#'))))
      r.pattern.queryParts with
  | none => rfl
  | some found =>
    have hnil := Table.putAll_nil (collected_matchQuery false hmatch).nodup_keys
    simp [hnil, Cursor.isExhausted_behind]

end Route

end RoutePattern
