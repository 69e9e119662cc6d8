import RoutePattern.Proofs.Escape

/-!
The written form of a composition reads back: it is accepted, with the path groups and the query block
of the composition.
-/

namespace RoutePattern

variable {σ : Type}

namespace QuerySplit

theorem ofSource_of_clean {source : Text} (h : '\\' ∉ source) :
    ofSource source =
      match Scan.start.separator? source with
      | some i => ⟨source.take i, some (source.drop (i + 1)), i + 1⟩
      | none => ⟨source, none, source.length⟩ :=
  ofSource_of_unescaped fun he => h (backslash_mem_of_escape he)

theorem passes_of_clean {source : Text} (h : '\\' ∉ source) :
    ∃ rest, Scan.Boundary rest ∧ Scan.start.Passes (ofSource source).path rest := by
  rw [ofSource_of_clean h]
  cases hs : Scan.start.separator? source with
  | none => exact ⟨[], Scan.boundary_nil, Scan.passes_of_separator?_eq_none hs⟩
  | some i =>
    obtain ⟨hp, hd⟩ := Scan.passes_of_separator?_eq_some hs
    rw [hd] at hp
    exact ⟨_, Scan.boundary_query _, hp⟩

theorem mem_of_mem_path {source : Text} (h : '\\' ∉ source) {c : Char}
    (hc : c ∈ (ofSource source).path) : c ∈ source := by
  rw [ofSource_of_clean h] at hc
  split at hc
  next => exact List.mem_of_mem_take hc
  next => exact hc

theorem mem_of_mem_query {source query : Text} (h : '\\' ∉ source)
    (hq : (ofSource source).query = some query) {c : Char} (hc : c ∈ query) : c ∈ source := by
  rw [ofSource_of_clean h] at hq
  split at hq
  next =>
    cases hq
    exact List.mem_of_mem_drop hc
  next => simp at hq

end QuerySplit

def writtenPath (segments : List Text) : Text := orRoot (segments.flatMap ('/' :: ·))

theorem lastSegment_append {front segment : Text} (h : '/' ∉ segment) :
    lastSegment (front ++ '/' :: segment) = segment := by
  have hall : ∀ c ∈ segment.reverse, (c != '/') = true := by
    intro c hc
    have hne : c ≠ '/' := by
      rintro rfl
      exact h (List.mem_reverse.mp hc)
    simpa using hne
  have hrev : (front ++ '/' :: segment).reverse = segment.reverse ++ '/' :: front.reverse := by simp
  rw [lastSegment, hrev, List.takeWhile_append_of_pos hall]
  simp

/-- After a written path no brace is open, and its last segment is under way. -/
theorem after_writtenPath {segments : List Text} (h : ∀ segment ∈ segments, Settled segment) :
    (Scan.start.after (writtenPath segments)).depth = 0 ∧
      (Scan.start.after (writtenPath segments)).segment.reverse = lastSegment (writtenPath segments) := by
  rcases List.eq_nil_or_concat' segments with rfl | ⟨init, last, rfl⟩
  · decide
  · have hlast := h last (by simp)
    have hinit : ∀ segment ∈ init, Settled segment := fun s hs => h s (by simp [hs])
    have hd := (Scan.passes_segments (s := .start) rfl hinit Scan.boundary_nil).2
    have hpath : writtenPath (init ++ [last]) = init.flatMap ('/' :: ·) ++ '/' :: last := by
      simp [writtenPath, orRoot]
    have hstep : Scan.start.after (writtenPath (init ++ [last])) = Scan.start.after last := by
      have hcons : ∀ s : Scan, s.after ('/' :: last) = (s.next '/').after last := fun _ => rfl
      rw [hpath, Scan.after_append, hcons, Scan.next_slash hd]
    refine ⟨by rw [hstep, hlast.depth]; rfl, ?_⟩
    rw [hstep, Scan.segment_after hlast.slash, hpath, lastSegment_append hlast.slash]
    simp [Scan.start]

theorem passes_writtenPath {segments : List Text} {rest : Text}
    (h : ∀ segment ∈ segments, Settled segment) (hr : Scan.Boundary rest) :
    Scan.start.Passes (writtenPath segments) rest := by
  unfold writtenPath orRoot
  split
  next => exact ⟨fun ho => absurd ho.1 (by decide), trivial⟩
  next => exact (Scan.passes_segments rfl h hr).1

theorem splitPath_writtenPath {segments : List Text} (hs : ∀ segment ∈ segments, '/' ∉ segment)
    (hne : ∀ segment ∈ segments, segment ≠ []) : splitPath (writtenPath segments) = segments := by
  have hjoin : joinPath segments = segments.flatMap ('/' :: ·) :=
    joinPath_of_clean fun s hm => ⟨hne s hm, hs s hm⟩
  have hsplit : ∀ segment ∈ segments, splitPath segment = [segment] := fun s hm =>
    splitPath_of_notMem (hne s hm) (hs s hm)
  rw [writtenPath, splitPath_orRoot, ← hjoin, splitPath_joinPath, List.flatMap_congr hsplit]
  simp

theorem notMem_writtenPath {c : Char} {segments : List Text} (hc : c ≠ '/')
    (h : ∀ segment ∈ segments, c ∉ segment) : c ∉ writtenPath segments := by
  unfold writtenPath orRoot
  split
  next => simpa using hc
  next => simpa [hc] using h

theorem unescaped_writtenPath {segments : List Text} (h : ∀ segment ∈ segments, ¬ escape <:+: segment) :
    ¬ escape <:+: writtenPath segments := by
  have hjoined : ¬ escape <:+: segments.flatMap ('/' :: ·) := by
    induction segments with
    | nil => decide
    | cons segment rest ih =>
      rw [List.flatMap_cons, escape_infix_append, List.infix_cons_iff]
      rintro ((hp | hs) | hr | ⟨-, hhead⟩)
      · simp [escape, List.cons_prefix_cons] at hp
      · exact h segment (by simp) hs
      · exact ih (fun t ht => h t (List.mem_cons_of_mem _ ht)) hr
      · cases rest <;> simp at hhead
  unfold writtenPath orRoot
  split
  next => decide
  next => exact hjoined

namespace QuerySplit

theorem ofSource_writtenPath {segments : List Text} (h : ∀ segment ∈ segments, Settled segment)
    (hun : ∀ segment ∈ segments, ¬ escape <:+: segment) :
    (ofSource (writtenPath segments)).path = writtenPath segments ∧
      (ofSource (writtenPath segments)).query = none := by
  have hnone : Scan.start.separator? (writtenPath segments) = none :=
    Scan.separator?_eq_none_iff.mpr (passes_writtenPath h Scan.boundary_nil)
  rw [ofSource_of_unescaped (unescaped_writtenPath hun), hnone]
  exact ⟨rfl, rfl⟩

/-- The question mark between a written path and a query is found: by its escape, or else because the
path is settled and nothing before or behind it is escaped. -/
theorem ofSource_querySeparator {segments : List Text} {query : Text}
    (hun : ∀ segment ∈ segments, ¬ escape <:+: segment)
    (hplain : readsAsModifier (lastSegment (writtenPath segments)) query = false →
      (∀ segment ∈ segments, Settled segment) ∧ (writtenPath segments).getLast? ≠ some '\\' ∧
        ¬ escape <:+: query) :
    let path := writtenPath segments
    (ofSource (path ++ querySeparator path query ++ query)).path = path ∧
      (ofSource (path ++ querySeparator path query ++ query)).query = some query := by
  intro path
  have hpath : ¬ escape <:+: path := unescaped_writtenPath hun
  unfold querySeparator
  split
  next =>
    have hcut := ofSource_append_escape query hpath
    exact ⟨congrArg QuerySplit.path hcut, congrArg QuerySplit.query hcut⟩
  next hmod =>
    obtain ⟨h, hlast, hquery⟩ := hplain (by simpa using hmod)
    obtain ⟨hdepth, hsegment⟩ := after_writtenPath h
    have hopens : (Scan.start.after path).Opens '?' query :=
      ⟨rfl, hdepth, by rw [hsegment]; simpa using hmod⟩
    have hsep : Scan.start.separator? (path ++ '?' :: query) = some path.length := by
      rw [Scan.separator?_append (passes_writtenPath h (Scan.boundary_query query)),
        Scan.separator?_cons, if_pos hopens]
      simp [path]
    have hall : ¬ escape <:+: path ++ '?' :: query := by
      rw [escape_infix_append, List.infix_cons_iff]
      rintro (hp | (hp | hq) | ⟨hl, -⟩)
      · exact hpath hp
      · simp [escape, List.cons_prefix_cons] at hp
      · exact hquery hq
      · exact hlast hl
    have htext : path ++ ['?'] ++ query = path ++ '?' :: query := by simp
    rw [htext, ofSource_of_unescaped hall, hsep]
    simp

end QuerySplit

namespace Pattern

/-- A query entry that can be read behind and before any other ones. -/
structure LegibleEntry (e : Text × Pattern σ) : Prop where
  read : ReadEntry (e.1 ++ '=' :: e.2.body) e
  ampersand : '&' ∉ e.1 ++ '=' :: e.2.body
  backslash : '\\' ∉ e.1 ++ '=' :: e.2.body

/-- The pattern is written as segments that read as `ps`, each wherever it stands, and as entries that
can be read. -/
structure Legible (p : Pattern σ) (segments : List Text) (ps : List (Pattern σ)) : Prop where
  trunk : p.trunk.Queryless
  path : joinPath [p.trunk.body] = segments.flatMap ('/' :: ·)
  nodes : (p.trunk.groupsFrom 0).map Group.nodes =
    ps.flatMap fun q => (q.groupsFrom 0).map Group.nodes
  read : List.Forall₂ ReadFrom segments ps
  nonempty : ∀ segment ∈ segments, segment ≠ []
  settled : ∀ segment ∈ segments, Settled segment
  backslash : ∀ segment ∈ segments, '\\' ∉ segment
  entries : ∀ e ∈ p.rootBlock?.getD [], LegibleEntry e
  keys : ((p.rootBlock?.getD []).map (·.1)).Nodup

theorem nodup_keys_mergeBlocks {a b : Option (List (Text × Pattern σ))}
    (ha : ((a.getD []).map (·.1)).Nodup) (hb : ((b.getD []).map (·.1)).Nodup) :
    (((mergeBlocks a b).getD []).map (·.1)).Nodup := by
  match a, b with
  | none, _ => exact hb
  | some _, none => exact ha
  | some es, some fs =>
    simp only [mergeBlocks, mergeEntries, Option.getD_some, List.map_append] at ha hb ⊢
    refine List.nodup_append.mpr ⟨ha.sublist (List.filter_sublist.map _), hb, ?_⟩
    rintro key hl _ hr rfl
    obtain ⟨e, he, rfl⟩ := List.mem_map.mp hl
    have hfresh := (List.mem_filter.mp he).2
    rw [List.contains_iff_mem.mpr hr] at hfresh
    simp at hfresh

namespace Legible

variable {p q : Pattern σ} {segments texts : List Text} {ps qs : List (Pattern σ)}

theorem append (hp : p.Legible segments ps) (hq : q.Legible texts qs) :
    (p.append q).Legible (segments ++ texts) (ps ++ qs) where
  trunk := by
    refine ⟨?_, ?_⟩
    · rw [← Bool.not_eq_true]
      intro hb
      rcases hasBlock_trunk_append p q hb with h | h
      · simp [hp.trunk.hasBlock] at h
      · simp [hq.trunk.hasBlock] at h
    · rw [strayParam?_trunk_append, hp.trunk.strayParam?, hq.trunk.strayParam?]
      rfl
  path := by
    rw [additive_body.append 0, hp.path, hq.path, List.flatMap_append]
  nodes := by
    rw [additive_nodes.append 0, hp.nodes, hq.nodes, List.flatMap_append]
  read := List.rel_append hp.read hq.read
  nonempty := List.forall_mem_append.mpr ⟨hp.nonempty, hq.nonempty⟩
  settled := List.forall_mem_append.mpr ⟨hp.settled, hq.settled⟩
  backslash := List.forall_mem_append.mpr ⟨hp.backslash, hq.backslash⟩
  entries := by
    intro e he
    rw [rootBlock?_append] at he
    exact (mem_mergeBlocks he).elim (hp.entries e) (hq.entries e)
  keys := by
    rw [rootBlock?_append]
    exact nodup_keys_mergeBlocks hp.keys hq.keys

theorem blockAtRoot (h : p.Legible segments ps) : p.BlockAtRoot :=
  ⟨h.trunk.hasBlock, fun e he => (h.entries e he).read.queryless.hasBlock⟩

theorem strayParam? (h : p.Legible segments ps) : p.strayParam? = none := by
  have htrunk := h.trunk.strayParam?
  cases hb : p.rootBlock? with
  | none => rwa [trunk_eq_self hb] at htrunk
  | some es =>
    have hes : strayInEntries es = none := strayInEntries_eq_none fun e he =>
      (h.entries e (by rw [hb]; exact he)).read.queryless.strayParam?
    obtain ⟨previous, rfl⟩ := exists_queryParams hb
    rw [Pattern.strayParam?, hes]
    exact htrunk

theorem readPath (h : p.Legible segments ps) : ReadPath (writtenPath segments) (joinSegments ps) := by
  refine ⟨ps, ?_, rfl⟩
  rw [splitPath_writtenPath (fun s hs => (h.settled s hs).slash) h.nonempty]
  exact h.read

theorem readQuery (h : p.Legible segments ps) {es : List (Text × Pattern σ)}
    (hb : p.rootBlock? = some es) : ReadQuery (Text.join ['&'] (entryBodies es)) es := by
  have hentries : ∀ e ∈ es, LegibleEntry e := fun e he => h.entries e (by rw [hb]; exact he)
  have hkeys := h.keys
  rw [hb] at hkeys
  refine ⟨?_, hkeys⟩
  have hpieces : queryPieces (Text.join ['&'] (entryBodies es)) = entryBodies es := by
    rw [entryBodies_eq_map]
    refine queryPieces_join (fun body hm => ?_) fun body hm => ?_
    · obtain ⟨e, -, rfl⟩ := List.mem_map.mp hm
      simp
    · obtain ⟨e, he, rfl⟩ := List.mem_map.mp hm
      exact (hentries e he).ampersand
  rw [hpieces, entryBodies_eq_map, List.forall₂_map_left_iff, List.forall₂_same]
  exact fun e he => (hentries e he).read

theorem notMem_query (h : p.Legible segments ps) {es : List (Text × Pattern σ)}
    (hb : p.rootBlock? = some es) : '\\' ∉ Text.join ['&'] (entryBodies es) := by
  have hbodies : ∀ body ∈ entryBodies es, '\\' ∉ body := by
    rw [entryBodies_eq_map]
    intro body hm
    obtain ⟨e, he, rfl⟩ := List.mem_map.mp hm
    exact (h.entries e (by rw [hb]; exact he)).backslash
  intro hm
  rcases Text.mem_of_mem_join hm with hsep | ⟨body, hbody, hc⟩
  · simp at hsep
  · exact hbodies body hbody hc

theorem unescaped (h : p.Legible segments ps) : ∀ segment ∈ segments, ¬ escape <:+: segment :=
  fun segment hs he => h.backslash segment hs (backslash_mem_of_escape he)

/-- The pattern that the written form is read as. -/
def reread (p : Pattern σ) (ps : List (Pattern σ)) : Pattern σ :=
  match p.rootBlock? with
  | none => joinSegments ps
  | some es => queryParams (joinSegments ps) es

theorem readSplit (h : p.Legible segments ps) :
    ReadSplit (QuerySplit.ofSource p.path) (reread p ps) := by
  have hpath := h.readPath
  rw [h.blockAtRoot.path_eq, h.path, reread]
  cases hb : p.rootBlock? with
  | none =>
    obtain ⟨hsplit, hquery⟩ := QuerySplit.ofSource_writtenPath h.settled h.unescaped
    refine .plain hquery ?_
    have hwritten : written (segments.flatMap ('/' :: ·)) (none : Option (List (Text × Pattern σ))) =
        writtenPath segments := rfl
    rwa [hwritten, hsplit]
  | some es =>
    have hlast : (writtenPath segments).getLast? ≠ some '\\' := fun hl =>
      notMem_writtenPath (by decide) h.backslash (List.mem_of_getLast? hl)
    have hquery : ¬ escape <:+: Text.join ['&'] (entryBodies es) := fun he =>
      h.notMem_query hb (backslash_mem_of_escape he)
    obtain ⟨hsplit, hquery⟩ :=
      QuerySplit.ofSource_querySeparator h.unescaped fun _ => ⟨h.settled, hlast, hquery⟩
    refine .query hquery ?_ (h.readQuery hb)
    have hwritten : written (segments.flatMap ('/' :: ·)) (some es) =
        writtenPath segments ++
          querySeparator (writtenPath segments) (Text.join ['&'] (entryBodies es)) ++
          Text.join ['&'] (entryBodies es) := rfl
    rwa [hwritten, hsplit]

theorem pathGroups_reread (h : p.Legible segments ps) : (reread p ps).pathGroups = p.pathGroups := by
  rw [h.readSplit.blockAtRoot.pathGroups_eq, h.blockAtRoot.pathGroups_eq, h.nodes]
  have htrunk : (reread p ps).trunk = joinSegments ps := by
    unfold reread
    split
    next => exact trunk_eq_self h.readPath.queryless.rootBlock?_eq_none
    next => rfl
  rw [htrunk]
  refine (additive_nodes.joinSegments 0 ps).trans ?_
  rw [collect_const]

theorem queryBlock?_reread (h : p.Legible segments ps) :
    (reread p ps).queryBlock? = p.queryBlock? := by
  rw [h.readSplit.blockAtRoot.queryBlock?_eq, h.blockAtRoot.queryBlock?_eq]
  unfold reread
  split
  next hb => rw [hb, h.readPath.queryless.rootBlock?_eq_none]
  next hb => rw [hb]; rfl

end Legible

theorem exists_legible_of_ofText {source : Text} {p : Pattern σ} (hclean : '\\' ∉ source)
    (h : ofText source = .ok p) : ∃ segments ps, p.Legible segments ps := by
  have hsplit := ofText_eq_ok_iff.mp h
  have hpath := hsplit.readPath
  obtain ⟨ps, hread, htrunk⟩ := hsplit.readPath
  obtain ⟨rest, hrest, hpasses⟩ := QuerySplit.passes_of_clean hclean
  have hsettled := hpath.settled hrest hpasses
  refine ⟨splitPath (QuerySplit.ofSource source).path, ps, ⟨hpath.queryless, ?_, ?_, hread,
    fun _ => ne_nil_of_mem_splitPath, hsettled, ?_, ?_, ?_⟩⟩
  · rw [htrunk, joinPath_body_joinSegments, map_body_of_forall₂ hread, joinPath_of_clean]
    exact fun s hs => ⟨ne_nil_of_mem_splitPath hs, slash_notMem_of_mem_splitPath hs⟩
  · rw [htrunk]
    refine (additive_nodes.joinSegments 0 ps).trans ?_
    rw [collect_const]
  · exact fun s hs hm =>
      hclean (QuerySplit.mem_of_mem_path hclean (mem_of_mem_splitPath hs hm))
  · intro e he
    cases hsplit with
    | plain _ hp => simp [hp.queryless.rootBlock?_eq_none] at he
    | query hq _ hquery =>
      obtain ⟨entry, hm, hentry⟩ := exists_of_mem_right hquery.1 he
      have hpiece := (List.mem_filter.mp hm).1
      have hbody := hentry.eq_body
      refine ⟨hbody ▸ hentry, hbody ▸ Text.notMem_of_mem_split hpiece, hbody ▸ fun hb => hclean ?_⟩
      exact QuerySplit.mem_of_mem_query hclean hq (Text.mem_of_mem_split hpiece hb)
  · cases hsplit with
    | plain _ hp => simp [hp.queryless.rootBlock?_eq_none]
    | query _ _ hquery => exact hquery.2

theorem exists_legible_foldl {p : Pattern σ} {others : List (Pattern σ)}
    (hp : ∃ segments ps, p.Legible segments ps)
    (h : ∀ q ∈ others, ∃ segments ps, q.Legible segments ps) :
    ∃ segments ps, (others.foldl append p).Legible segments ps := by
  induction others generalizing p with
  | nil => exact hp
  | cons q rest ih =>
    obtain ⟨segments, ps, hp⟩ := hp
    obtain ⟨texts, qs, hq⟩ := h q (by simp)
    exact ih ⟨_, _, hp.append hq⟩ fun r hr => h r (List.mem_cons_of_mem _ hr)

/-- The written form of a composition is a faithful pattern: where no source has a backslash, the
composition of what they are read as has a written form, which is accepted and read as a pattern with
the same path groups and the same query block. -/
theorem appendAll_reads_back {sources : List Text} {first : Pattern Schema}
    {others : List (Pattern Schema)} (hclean : ∀ source ∈ sources, '\\' ∉ source)
    (h : sources.mapM ofText = .ok (first :: others)) :
    ∃ text q, (appendAll first others).path? = .ok text ∧ ofText text = .ok q ∧
      q.pathGroups = (appendAll first others).pathGroups ∧
      q.queryBlock? = (appendAll first others).queryBlock? := by
  have hlegible : ∀ p ∈ first :: others, ∃ segments ps, p.Legible segments ps := by
    intro p hp
    obtain ⟨source, hs, hread⟩ := exists_of_mem_right (forall₂_of_mapM_eq_ok h) hp
    exact exists_legible_of_ofText (hclean source hs) hread
  obtain ⟨segments, ps, hall⟩ := exists_legible_foldl (hlegible first (by simp))
    fun q hq => hlegible q (List.mem_cons_of_mem _ hq)
  refine ⟨(appendAll first others).path, Legible.reread (appendAll first others) ps, ?_,
    ofText_eq_ok_iff.mpr hall.readSplit, hall.pathGroups_reread, hall.queryBlock?_reread⟩
  rw [path?]
  have hstray : (appendAll first others).strayParam? = none := hall.strayParam?
  rw [hstray]

/-- A query key that begins with a slash makes the question mark behind a bare capture look like a
modifier; the written form escapes it. -/
theorem appendAll_reads_back_escaped :
    let first : Pattern Schema := .queryParams (.literal "b") [("/k", .param "v")]
    let others : List (Pattern Schema) := [.param "a"]
    [("/b?/k=:v" : Text), ("/:a" : Text)].mapM ofText = .ok (first :: others) ∧
      (appendAll first others).path = ("/b/:a\\?/k=:v" : Text) ∧
      ∃ q : Pattern Schema, ofText ("/b/:a\\?/k=:v" : Text) = .ok q ∧
        q.queryBlock? = some [(("/k" : Text), .param ("v" : Text))] := by
  intro first others
  have hread : [("/b?/k=:v" : Text), ("/:a" : Text)].mapM ofText = .ok (first :: others) := by rfl
  obtain ⟨text, q, htext, hq, -, hblock⟩ := appendAll_reads_back (by decide) hread
  have hpath : text = ("/b/:a\\?/k=:v" : Text) := (Except.ok.inj htext).symm.trans rfl
  exact ⟨hread, rfl, q, hpath ▸ hq, hblock⟩

end Pattern

end RoutePattern
