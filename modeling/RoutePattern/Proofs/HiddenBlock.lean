import RoutePattern.Proofs.Reading.Layout

/-!
Composition behind a schema. A schema hides the query block of the route that it is attached to from
concatenation, so that what follows the route lands behind the block. Nothing of this shows just where
the route has no query block, or nothing but the bare separator follows it.
-/

namespace RoutePattern

variable {σ : Type}

namespace Pattern

theorem entryParts_keys (first : Nat) (es : List (Text × Pattern σ)) :
    (entryParts first es).map (·.1) = es.map (·.1) := by
  induction es generalizing first with
  | nil => rfl
  | cons e rest ih => simp [entryParts, ih]

theorem BlockAtRoot.isSegment_of_mem_dropLast {p : Pattern σ} (h : p.BlockAtRoot) :
    ∀ g ∈ p.groups.dropLast, g.isSegment := by
  have hpath := isSegment_of_mem_groupsFrom h.trunk 0
  rw [groups_eq]
  intro g hg
  cases hb : p.rootBlock? with
  | none =>
    rw [blockGroups, hb, List.append_nil] at hg
    exact hpath g (List.dropLast_subset _ hg)
  | some es =>
    rw [blockGroups, hb] at hg
    simp only [List.dropLast_concat] at hg
    exact hpath g hg

theorem getLast?_groups_of_declares {p : Pattern σ} {key : Text} (h : p.declares key = true) :
    ∃ node entries, p.groups.getLast? = some (.query node entries) ∧ key ∈ entries.map (·.1) := by
  cases hb : p.rootBlock? with
  | none => simp [declares, hb] at h
  | some es =>
    refine ⟨p, entryParts (0 + p.trunk.unnamedCount) es, ?_, ?_⟩
    · rw [groups_eq, blockGroups, hb]
      simp
    · rw [entryParts_keys]
      simpa [declares, hb] using h

theorem declares_append (key : Text) (p q : Pattern σ) :
    (p.append q).declares key = (p.declares key || q.declares key) := by
  simp only [declares, rootBlock?_append]
  match p.rootBlock?, q.rootBlock? with
  | none, _ => simp [mergeBlocks]
  | some es, none => simp [mergeBlocks]
  | some es, some fs =>
    simp only [mergeBlocks, mergeEntries, Option.getD_some, List.any_append]
    cases hf : fs.any fun entry => entry.1 == key with
    | true => simp
    | false =>
      rw [Bool.or_false, Bool.or_false, List.any_filter]
      congr 1
      funext entry
      by_cases hk : entry.1 = key
      · subst hk
        have hfresh : (fs.map (·.1)).contains entry.1 = false := by
          rw [← Bool.not_eq_true, List.contains_iff_mem]
          intro hm
          obtain ⟨e, he, hk⟩ := List.mem_map.mp hm
          have hne := List.any_eq_false.mp hf e he
          simp [hk] at hne
        rw [hfresh]
        simp
      · simp [hk]

theorem Alike.append_left {p p' : Pattern σ} (h : p.Alike p') (q : Pattern σ) :
    (p.append q).Alike (p'.append q) where
  block := by rw [rootBlock?_append, rootBlock?_append, h.block]
  count := by rw [unnamedCount_trunk_append, unnamedCount_trunk_append, h.count]
  groups := by rw [additive_groups.append, additive_groups.append, h.groups, h.count]
  captures := by
    have hp := additive_captures.append 0 p q
    have hp' := additive_captures.append 0 p' q
    rw [← h.count, ← h.captures] at hp'
    exact hp.trans hp'.symm
  body := by
    have hp := additive_body.append 0 p q
    have hp' := additive_body.append 0 p' q
    rw [← h.body] at hp'
    exact hp.trans hp'.symm
  stray := by rw [strayParam?_trunk_append, strayParam?_trunk_append, h.stray]

/-- Around a pattern without a query block at its root a schema cannot be seen. -/
theorem alike_withSchema {p : Pattern σ} (h : p.rootBlock? = none) (s : σ) :
    (withSchema p s).Alike p := by
  have htrunk := trunk_eq_self h
  refine ⟨h.symm, ?_, ?_, ?_, ?_, ?_⟩ <;> rw [htrunk] <;> rfl

theorem BlockAtRoot.withSchema {p : Pattern σ} (hp : p.BlockAtRoot) (h : p.rootBlock? = none) (s : σ) :
    (withSchema p s).BlockAtRoot := by
  refine ⟨?_, by simp [rootBlock?]⟩
  have := hp.trunk
  rwa [trunk_eq_self h] at this

theorem append_root (p : Pattern σ) {es : List (Text × Pattern σ)} (h : p.rootBlock? = some es) :
    p.append root = p := by
  obtain ⟨previous, rfl⟩ := exists_queryParams h
  rfl

theorem withSchema_append_of_plain (p : Pattern σ) {q : Pattern σ} (h : q.rootBlock? = none) (s : σ) :
    (withSchema p s).append q = concat (withSchema p s) q false := by
  cases q <;> first | rfl | simp [rootBlock?] at h

theorem groupsFrom_withSchema (first : Nat) (p : Pattern σ) (s : σ) :
    (withSchema p s).groupsFrom first = p.groupsFrom first := rfl

theorem groupsFrom_concat_root (first : Nat) (p : Pattern σ) :
    (concat p root false).groupsFrom first = p.groupsFrom first := by
  have hroot : (root : Pattern σ).groupsFrom (first + p.unnamedCount) = [] :=
    groupsFrom_of_isEmptyLiteral _ rfl
  rw [groupsFrom_concat, hroot, List.append_nil]

theorem groupsFrom_eq_nil {p : Pattern σ} {first : Nat} (h : p.groupsFrom first = []) :
    p.groupsFrom 0 = [] := by
  have hnodes := nodes_groupsFrom first p
  rw [h] at hnodes
  simpa using hnodes.symm

/-- A query block that a schema hides stays where it is, before whatever follows. -/
theorem query_mem_groups_dropLast {p q : Pattern σ} {es : List (Text × Pattern σ)}
    (hp : p.rootBlock? = some es) (s : σ)
    (hq : q.rootBlock?.isSome ∨ q.groupsFrom 0 ≠ []) :
    ∃ g ∈ ((withSchema p s).append q).groups.dropLast, g.isSegment = false := by
  obtain ⟨previous, rfl⟩ := exists_queryParams hp
  have hquery : ∃ g ∈ (queryParams previous es).groupsFrom 0, g.isSegment = false := by
    rw [groupsFrom_queryParams]
    exact ⟨.query (queryParams previous es) (entryParts (0 + previous.unnamedCount) es), by simp, rfl⟩
  obtain ⟨g, hg, hsegment⟩ := hquery
  refine ⟨g, ?_, hsegment⟩
  cases hb : q.rootBlock? with
  | some fs =>
    obtain ⟨q', rfl⟩ := exists_queryParams hb
    have happend : (withSchema (queryParams previous es) s).append (queryParams q' fs) =
        queryParams ((withSchema (queryParams previous es) s).merge q') fs := rfl
    rw [happend, groups_eq, blockGroups]
    simp only [rootBlock?, trunk, List.dropLast_concat]
    rw [additive_groups.merge, groupsFrom_withSchema]
    exact List.mem_append_left _ hg
  | none =>
    rw [withSchema_append_of_plain _ hb]
    have hgroups : (concat (withSchema (queryParams previous es) s) q false).groups =
        (concat (withSchema (queryParams previous es) s) q false).groupsFrom 0 := rfl
    rw [hgroups, groupsFrom_concat, groupsFrom_withSchema]
    have hne : q.groupsFrom (0 + (withSchema (queryParams previous es) s).unnamedCount) ≠ [] := by
      intro hnil
      simp [hb, groupsFrom_eq_nil hnil] at hq
    rw [List.dropLast_append_of_ne_nil hne]
    exact List.mem_append_left _ hg

/-- The written form of a path with a query begins with a single slash and holds a question mark. -/
theorem written_some (parts : List Text) (es : List (Text × Pattern σ)) :
    ∃ rest, written (joinPath parts) (some es) = '/' :: rest ∧ rest.head? ≠ some '/' ∧ '?' ∈ rest := by
  have hsep : ∀ path query, (querySeparator path query).head? ≠ some '/' ∧
      '?' ∈ querySeparator path query := by
    intro path query
    unfold querySeparator
    split <;> simp
  rcases joinPath_eq_nil_or_cons parts with h | ⟨rest, h, hne, hhead⟩
  · obtain ⟨hs, hmem⟩ := hsep ['/'] (Text.join ['&'] (entryBodies es))
    refine ⟨querySeparator ['/'] (Text.join ['&'] (entryBodies es)) ++
      Text.join ['&'] (entryBodies es), by simp [written, h, orRoot], ?_, by simp [hmem]⟩
    obtain ⟨x, xs, hx⟩ := List.exists_cons_of_ne_nil (List.ne_nil_of_mem hmem)
    rw [hx] at hs ⊢
    simpa using hs
  · obtain ⟨-, hmem⟩ := hsep ('/' :: rest) (Text.join ['&'] (entryBodies es))
    refine ⟨rest ++ (querySeparator ('/' :: rest) (Text.join ['&'] (entryBodies es)) ++
      Text.join ['&'] (entryBodies es)), by simp [written, h, orRoot], ?_, by simp [hmem]⟩
    obtain ⟨x, xs, hx⟩ := List.exists_cons_of_ne_nil hne
    rw [hx] at hhead ⊢
    simpa using hhead

/-- Written as part of a path, a pattern with a query loses the slashes at its end. -/
theorem orRoot_joinPath_eq_iff {p : Pattern σ} (hp : p.BlockAtRoot) {es : List (Text × Pattern σ)}
    (hb : p.rootBlock? = some es) :
    orRoot (joinPath [p.path]) = p.path ↔ p.path.getLast? ≠ some '/' := by
  rw [hp.path_eq, hb]
  obtain ⟨rest, hw, hhead, hmem⟩ := written_some [p.trunk.body] es
  rw [hw]
  have hne : rest ≠ [] := List.ne_nil_of_mem hmem
  constructor
  · intro h hlast
    have hjoin := getLast?_joinPath ['/' :: rest]
    unfold orRoot at h
    split at h
    next =>
      obtain rfl : [] = rest := by simpa using h
      contradiction
    next =>
      rw [h] at hjoin
      exact hjoin hlast
  · intro hlast
    have htrim : rest.getLast? ≠ some '/' := by
      rw [List.getLast?_cons] at hlast
      rw [List.getLast?_eq_some_getLast hne] at hlast ⊢
      simpa using hlast
    rw [joinPath_singleton, Text.trim_cons_self, Text.trim_eq_self hhead htrim, if_neg hne]
    simp [orRoot]

theorem path_withSchema_root {p : Pattern σ} (hp : p.BlockAtRoot) {es : List (Text × Pattern σ)}
    (hb : p.rootBlock? = some es) (s : σ) :
    (concat (withSchema p s) root false).path = orRoot (joinPath [p.path]) := by
  have hbody : p.body = p.path := by
    rw [path, hp.queryBlock?_eq, hb]
    rfl
  have hnone : (concat (withSchema p s) root false).queryBlock? = none := rfl
  have hroot : joinPath [(root : Pattern σ).body] = [] := joinPath_slashes rfl
  rw [path, hnone, additive_body.concat 0, hroot, List.append_nil]
  simp only [Option.isSome_none, Bool.false_eq_true, if_false]
  rw [← hbody]
  rfl

theorem layout_withSchema_root (p : Pattern σ) (s : σ) :
    (concat (withSchema p s) root false).layout.Alike p.layout := by
  have hgroups : (concat (withSchema p s) root false).groupsFrom 0 = p.groupsFrom 0 :=
    groupsFrom_concat_root 0 (withSchema p s)
  have hstray : (concat (withSchema p s) root false).strayParam? = p.strayParam? := by
    simp [strayParam?, root]
  have hlayout : (concat (withSchema p s) root false).layout =
      Group.layoutAll (concat (withSchema p s) root false)
        ((concat (withSchema p s) root false).groupsFrom 0) := rfl
  rw [hlayout, hgroups]
  exact Group.layoutAll_alike (Group.forall₂_alike_refl _) hstray

end Pattern

namespace Route

open Pattern

/-- Attaching a schema to `r` does not change how it composes with `q`: the composition is written
alike, matches alike and renders alike, and has at most one query block, which is its last group and
holds every key that either route declares. -/
structure ComposesAlike (r q : Route) (s : Schema) : Prop where
  path : ((r.withSchema s).append q).path? = (r.append q).path?
  accept : ∀ target, ((r.withSchema s).append q).accept target = (r.append q).accept target
  render : ∀ args, ((r.withSchema s).append q).render args = (r.append q).render args
  segments : ∀ g ∈ ((r.withSchema s).append q).pattern.groups.dropLast, g.isSegment
  keys : ∀ key, r.pattern.declares key ∨ q.pattern.declares key →
    ∃ node entries, ((r.withSchema s).append q).pattern.groups.getLast? = some (.query node entries) ∧
      key ∈ entries.map (·.1)

theorem accept_congr {r q : Route} (h : r.matcher = q.matcher) (target : Text) :
    r.accept target = q.accept target := by
  rw [accept, accept, h]

theorem render_congr {r q : Route} (h : r.renderer = q.renderer) (args : Arguments) :
    r.render args = q.render args := by
  rw [render, render, h]

theorem composesAlike_of_plain {r q : Route} (hr : r.pattern.BlockAtRoot) (hq : q.pattern.BlockAtRoot)
    (h : r.pattern.rootBlock? = none) (s : Schema) : r.ComposesAlike q s := by
  have halike := (alike_withSchema h s).append_left q.pattern
  have hroot := (hr.withSchema h s).append hq
  refine ⟨halike.path? hroot (hr.append hq), accept_congr ?_, render_congr ?_,
    hroot.isSegment_of_mem_dropLast, ?_⟩
  · exact congrArg (Except.mapError _) (halike.matcher _)
  · exact congrArg (Except.mapError _) halike.renderer
  · intro key hkey
    apply getLast?_groups_of_declares
    show (Pattern.append (.withSchema r.pattern s) q.pattern).declares key = true
    have hhidden : (Pattern.withSchema r.pattern s).declares key = r.pattern.declares key := by
      simp only [declares, h]
      rfl
    rw [declares_append, hhidden]
    simpa using hkey

theorem composesAlike_of_root {r q : Route} (hr : r.pattern.BlockAtRoot)
    {es : List (Text × Pattern Schema)} (hb : r.pattern.rootBlock? = some es) (hq : q.pattern = root)
    (hlast : r.pattern.path.getLast? ≠ some '/') (s : Schema) : r.ComposesAlike q s := by
  obtain ⟨p, atEnd⟩ := r
  obtain ⟨_, atEnd'⟩ := q
  subst hq
  simp only at hr hb hlast
  have happend := append_root p hb
  have hhidden : (Pattern.withSchema p s).append root = concat (.withSchema p s) root false := rfl
  have hlayout := layout_withSchema_root p s
  have hcaptures : (concat (.withSchema p s) root false).captures 0 false = p.captures 0 false := by
    have hroot : (root : Pattern Schema).captures (0 + (Pattern.withSchema p s).unnamedCount) false = [] :=
      captures_of_isEmptyLiteral _ _ rfl
    rw [captures, hroot, List.append_nil]
    rfl
  have hgroups : (concat (.withSchema p s) root false).groups = p.groups :=
    groupsFrom_concat_root 0 (.withSchema p s)
  refine ⟨?_, accept_congr ?_, render_congr ?_, ?_, ?_⟩
  · show Pattern.path? (Pattern.append (.withSchema p s) root) = Pattern.path? (p.append root)
    have hstray : (concat (.withSchema p s) root false).strayParam? = p.strayParam? := by
      simp [strayParam?, root]
    rw [happend, hhidden, Pattern.path?, Pattern.path?, hstray, path_withSchema_root hr hb,
      (orRoot_joinPath_eq_iff hr hb).mpr hlast]
  · show Except.mapError _ (Pattern.matcher (Pattern.append (.withSchema p s) root) _) =
      Except.mapError _ (Pattern.matcher (p.append root) _)
    rw [happend, hhidden, Pattern.matcher, Pattern.matcher, hlayout.toldSteps]
    rfl
  · show Except.mapError _ (Pattern.renderer (Pattern.append (.withSchema p s) root)) =
      Except.mapError _ (Pattern.renderer (p.append root))
    rw [happend, hhidden, Pattern.renderer, Pattern.renderer, hlayout.steps, hcaptures]
  · show ∀ g ∈ (Pattern.append (.withSchema p s) root).groups.dropLast, g.isSegment
    rw [hhidden, hgroups]
    exact hr.isSegment_of_mem_dropLast
  · intro key hkey
    have hdeclares : p.declares key = true := by
      rcases hkey with h | h
      · exact h
      · simp [declares, root, rootBlock?] at h
    show ∃ node entries, (Pattern.append (.withSchema p s) root).groups.getLast? = _ ∧ _
    rw [hhidden, hgroups]
    exact getLast?_groups_of_declares hdeclares

/-- A schema can be seen in a composition exactly where it hides a query block from what follows, be
it only from a separator that cuts the slashes off the end of the query. -/
theorem composesAlike_iff {a b : Text} {aEnd bEnd : Bool} {r q : Route} (hr : parse a aEnd = .ok r)
    (hq : parse b bEnd = .ok q) (s : Schema) :
    r.ComposesAlike q s ↔
      r.pattern.rootBlock? = none ∨ (q.pattern = root ∧ r.pattern.path.getLast? ≠ some '/') := by
  have hreadr := parse_eq_ok hr
  have hreadq := parse_eq_ok hq
  have hrootr := hreadr.blockAtRoot
  have hrootq := hreadq.blockAtRoot
  constructor
  · intro h
    cases hb : r.pattern.rootBlock? with
    | none => exact .inl rfl
    | some es =>
      right
      -- whatever stood behind the hidden block would leave it among the groups before the last one
      have hclear : ¬ (q.pattern.rootBlock?.isSome ∨ q.pattern.groupsFrom 0 ≠ []) := by
        intro hseen
        obtain ⟨g, hg, hsegment⟩ := query_mem_groups_dropLast hb s hseen
        simp [h.segments g hg] at hsegment
      obtain ⟨hblock, hnil⟩ : q.pattern.rootBlock? = none ∧ q.pattern.groupsFrom 0 = [] := by
        simpa using hclear
      have hq : q.pattern = root := by
        have hpath := hreadq.readPath
        rw [trunk_eq_self hblock] at hpath
        exact hpath.eq_root hnil
      refine ⟨hq, ?_⟩
      have hpath : Pattern.path? (Pattern.append (.withSchema r.pattern s) q.pattern) =
          Pattern.path? (r.pattern.append q.pattern) := h.path
      have hstray : (concat (.withSchema r.pattern s) root false).strayParam? = none := by
        simp [strayParam?, root, hreadr.strayParam?]
      have hhidden : (Pattern.withSchema r.pattern s).append root =
          concat (.withSchema r.pattern s) root false := rfl
      rw [hq, append_root _ hb, hhidden, Pattern.path?, Pattern.path?, hstray, hreadr.strayParam?,
        path_withSchema_root hrootr hb] at hpath
      exact (orRoot_joinPath_eq_iff hrootr hb).mp (Except.ok.inj hpath)
  · rintro (h | ⟨hroot, hlast⟩)
    · exact composesAlike_of_plain hrootr hrootq h s
    · cases hb : r.pattern.rootBlock? with
      | none => exact composesAlike_of_plain hrootr hrootq hb s
      | some es => exact composesAlike_of_root hrootr hb hroot hlast s

/-- Without a query block of its own a route with a schema takes over the one behind it. -/
theorem composesAlike_taken_over :
    let r : Route := ⟨.param "a", true⟩
    let q : Route := ⟨.queryParams (.literal "b") [("y", .param "y")], false⟩
    let s : Schema := .struct "A" [(.text "a", Codec.text)]
    parse "/:a" true = .ok r ∧ parse "/b?y=:y" false = .ok q ∧ r.ComposesAlike q s := by
  intro r q s
  have hr : parse "/:a" true = .ok r := by rfl
  have hq : parse "/b?y=:y" false = .ok q := by rfl
  exact ⟨hr, hq, (composesAlike_iff hr hq s).mpr (.inl rfl)⟩

/-- A hidden block is written in the middle of the path, and its values are lost. -/
theorem hidden_block_lost :
    let r : Route := ⟨.queryParams (.literal "a") [("x", .param "x")], true⟩
    let q : Route := ⟨.queryParams (.literal "b") [("y", .param "y")], true⟩
    let s : Schema := .struct "X" [(.text "x", Codec.text)]
    let args : Arguments := .map [(.text "x", .text "1"), (.text "y", .text "2")]
    parse "/a?x=:x" true = .ok r ∧ parse "/b?y=:y" true = .ok q ∧
      (r.append q).path? = .ok ("/a/b?x=:x&y=:y" : Text) ∧
      ((r.withSchema s).append q).path? = .ok ("/a?x=:x/b?y=:y" : Text) ∧
      (r.append q).render args = .ok ("/a/b?x=1&y=2" : Text) ∧
      ((r.withSchema s).append q).render args = .ok ("/a/b?y=2" : Text) := by
  refine ⟨by rfl, by rfl, by rfl, by rfl, by rfl, by rfl⟩

end Route

end RoutePattern
