import RoutePattern.Proofs.HiddenBlock
import RoutePattern.Proofs.LostSegments
import RoutePattern.Proofs.RouteItems
import RoutePattern.Proofs.Shadowing

/-!
Routes that combinators put together, against the routes that their written forms are read as. The flat
syntax of paths has room for one modifier on a capture and for none elsewhere. What is built from more is
written all the same, and read as something else.
-/

namespace RoutePattern

variable {σ : Type}

namespace Item

/-- The parts of items that follow one another, one for each segment. -/
def partsFrom (first : Nat) : List Item → List Part
  | [] => []
  | i :: rest => i.part first :: partsFrom (first + i.core.count) rest

def stepsFrom (first : Nat) (items : List Item) : List Step := (partsFrom first items).map .single

theorem stepsFrom_append (first : Nat) (items others : List Item) :
    stepsFrom first (items ++ others) =
      stepsFrom first items ++ stepsFrom (first + (items.map (·.core.count)).sum) others := by
  induction items generalizing first with
  | nil => simp [stepsFrom, partsFrom]
  | cons i rest ih =>
    have hcons : ∀ n, ∀ is, stepsFrom n (i :: is) = .single (i.part n) :: stepsFrom (n + i.core.count) is :=
      fun _ _ => rfl
    rw [List.cons_append, hcons, hcons, ih]
    simp [Nat.add_assoc]

end Item

theorem Layout.steps_append {l m : Layout σ} {front back : List Step} (hl : l.steps = .ok front)
    (hm : m.steps = .ok back) : (l.append m).steps = .ok (front ++ back) := by
  rw [Layout.append, hl]
  show m.steps.map (front ++ ·) = _
  rw [hm]
  rfl

namespace Pattern

/-- Patterns with these items, none of which stands for no segment. -/
def AllDenote (ps : List (Pattern σ)) (items : List Item) : Prop :=
  List.Forall₂ (fun p i => p.Denotes i ∧ p.isEmptyLiteral = false) ps items

theorem groupsFrom_of_denotes {p : Pattern σ} {i : Item} (h : p.Denotes i) (hp : p.isEmptyLiteral = false)
    (first : Nat) : p.groupsFrom first = [.segment [(p, .part i.lead.isSome (i.part first))]] := by
  rw [groupsFrom, h.stops hp]
  rfl

theorem AllDenote.layoutAll {ps : List (Pattern σ)} {items : List Item} (h : AllDenote ps items)
    (whole : Pattern σ) (first : Nat) {rest : List (Group σ)} {steps : List Step}
    (hrest : (Group.layoutAll whole rest).steps = .ok steps) :
    (Group.layoutAll whole (collect groupsFrom first ps ++ rest)).steps =
      .ok (Item.stepsFrom first items ++ steps) := by
  induction h generalizing first with
  | nil => exact hrest
  | @cons p i ps items hfirst _ ih =>
    obtain ⟨hdenotes, hp⟩ := hfirst
    rw [collect, groupsFrom_of_denotes hdenotes hp, hdenotes.unnamedCount]
    have hstep : ∀ isLast, (Group.layout whole isLast (.segment [(p, .part i.lead.isSome (i.part first))])).steps =
        .ok [.single (i.part first)] := fun _ => rfl
    exact (Layout.steps_append (hstep _) (ih (first + i.core.count))).trans rfl

theorem AllDenote.layout {ps : List (Pattern σ)} {items : List Item} (h : AllDenote ps items) {p : Pattern σ}
    (hp : p.groupsFrom 0 = collect groupsFrom 0 ps) : p.layout.steps = .ok (Item.stepsFrom 0 items) := by
  have hnone : (Group.layoutAll p []).steps = .ok [] := rfl
  have hsteps := h.layoutAll p 0 hnone
  rw [List.append_nil, List.append_nil, ← hp] at hsteps
  exact hsteps

theorem AllDenote.layout_query {ps : List (Pattern σ)} {items : List Item} (h : AllDenote ps items) {p : Pattern σ}
    (hp : p.groupsFrom 0 = collect groupsFrom 0 ps) :
    (queryParams p []).layout.steps = .ok (Item.stepsFrom 0 items ++ [.query []]) := by
  have hquery : (Group.layoutAll (queryParams p []) [.query (queryParams p []) []]).steps = .ok [.query []] := rfl
  have hsteps := h.layoutAll (queryParams p []) 0 hquery
  rw [← hp] at hsteps
  have hgroups : (queryParams p []).groups = p.groupsFrom 0 ++ [.query (queryParams p []) []] :=
    groupsFrom_queryParams 0 p []
  rw [Pattern.layout, hgroups]
  exact hsteps

end Pattern

def Member.Refused (m : Member σ) : Prop :=
  ∃ optional multiple core e, ∃ l : Layout σ, l.steps = .error e ∧ m = .composite optional multiple core l

namespace Member

theorem refused_refused (core : Pattern σ) (fault : LayoutFault) : (refused core fault).Refused :=
  ⟨_, _, _, _, _, rfl, rfl⟩

theorem Refused.modified {member : Member σ} (h : member.Refused) (m : Modifier) : (member.modified m).Refused := by
  obtain ⟨_, _, _, _, l, he, rfl⟩ := h
  exact ⟨_, _, _, _, l, he, rfl⟩

theorem Refused.prefixed {member : Member σ} (h : member.Refused) (lead : Text) (whole : Pattern σ) :
    (member.prefixed lead whole).Refused := by
  obtain ⟨_, _, _, _, _, -, rfl⟩ := h
  exact refused_refused whole .unsupportedLead

end Member

namespace Pattern

theorem leaves_concat (left right : Pattern σ) (joined : Bool) :
    (concat left right joined).leaves = left.leaves ++ right.leaves :=
  List.filter_append _ _

theorem leaves_of_segmentNodes {p : Pattern σ} (h : p.segmentNodes = [p]) :
    p.leaves = if p.isEmptyLiteral then [] else [p] := by
  rw [leaves, h]
  cases hp : p.isEmptyLiteral <;> simp [hp]

namespace Woven

variable {composed : Prop} {p : Pattern σ}

theorem queryless (h : p.Woven composed) : p.Queryless := by
  induction h with
  | root => exact ⟨rfl, rfl⟩
  | literal _ _ => exact ⟨rfl, rfl⟩
  | param _ => exact ⟨rfl, rfl⟩
  | unnamed => exact ⟨rfl, rfl⟩
  | modified _ _ ih => exact ⟨ih.hasBlock, ih.strayParam?⟩
  | prefixed _ _ ih => exact ⟨ih.hasBlock, ih.strayParam?⟩
  | concat _ _ _ hl hr => exact compositional_queryless.concat false hl hr

@[elab_as_elim]
theorem sides {motive : Pattern σ → Prop}
    (solo : ∀ q : Pattern σ, q.Woven composed → q.segmentNodes = [q] → motive q)
    (concat : ∀ left right : Pattern σ, left.Woven composed → motive left → motive right →
      motive (.concat left right false))
    (h : p.Woven composed) : motive p := by
  induction h with
  | root => exact solo _ .root rfl
  | literal hne hword => exact solo _ (.literal hne hword) rfl
  | param hname => exact solo _ (.param hname) rfl
  | unnamed => exact solo _ .unnamed rfl
  | modified m hinner _ => exact solo _ (.modified m hinner) rfl
  | prefixed hlead hinner _ => exact solo _ (.prefixed hlead hinner) rfl
  | concat _ hleft _ hl hr => exact concat _ _ hleft hl hr

theorem unnamedCount_leaves (h : p.Woven composed) : (p.leaves.map unnamedCount).sum = p.unnamedCount := by
  refine sides (fun q _ hq => ?_) (fun left right _ hl hr => ?_) h
  · rw [leaves_of_segmentNodes hq]
    split
    next hempty => exact (unnamedCount_of_isEmptyLiteral hempty).symm
    next => exact List.sum_singleton
  · rw [leaves_concat, List.map_append, List.sum_append, hl, hr]
    rfl

theorem collect_leaves {β : Type} {f : Nat → Pattern σ → List β} (hf : Additive f) (first : Nat)
    (h : p.Woven composed) : f first p = collect f first p.leaves := by
  revert first
  refine sides (fun q _ hq => ?_) (fun left right hleft hl hr => ?_) h
  · intro first
    rw [leaves_of_segmentNodes hq]
    split
    next hempty => exact hf.empty first q hempty
    next => exact (List.append_nil _).symm
  · intro first
    rw [leaves_concat, hf.concat, collect_append, hl, hr, hleft.unnamedCount_leaves]

theorem of_mem_leaves (h : p.Woven composed) : ∀ q ∈ p.leaves, q.Woven composed := by
  refine sides (fun q hq hnodes => ?_) (fun left right _ hl hr => ?_) h
  · intro leaf hleaf
    rw [leaves, hnodes] at hleaf
    obtain rfl := List.mem_singleton.mp (List.mem_filter.mp hleaf).1
    exact hq
  · rw [leaves_concat]
    exact List.forall_mem_append.mpr ⟨hl, hr⟩

theorem path_eq (h : p.Woven composed) :
    p.path = orRoot (p.leaves.flatMap fun q => joinPath [q.body]) := by
  have hblock : p.queryBlock?.isSome = false := by
    rw [queryBlock?_of_hasBlock p h.queryless.hasBlock]
    rfl
  have hbody := h.collect_leaves additive_body 0
  rw [collect_const] at hbody
  rw [path, if_neg (by simp [hblock]), hbody]

/-- Without paths of several segments there is one item, unless a lead stands around another one. -/
theorem denotes_or_refused (h : p.Woven composed) (hsolo : ¬ composed) (first : Nat) :
    (∃ i, p.Denotes i) ∨
      (p.member first).Refused ∧ p.stops first false = [.member false p (p.member first)] := by
  induction h with
  | root => exact .inl ⟨_, .literal _⟩
  | literal _ _ => exact .inl ⟨_, .literal _⟩
  | param _ => exact .inl ⟨_, .param _⟩
  | unnamed => exact .inl ⟨_, .unnamed⟩
  | @modified inner m _ ih =>
    obtain ⟨i, hi⟩ | ⟨hrefused, -⟩ := ih
    · exact .inl ⟨_, hi.modified m⟩
    · refine .inr ⟨?_, by rw [stops, member]⟩
      rw [member]
      exact hrefused.modified m
  | @prefixed inner lead _ _ ih =>
    obtain ⟨⟨core, own, marks⟩, hi⟩ | ⟨hrefused, -⟩ := ih
    · cases own with
      | none => exact .inl ⟨_, hi.prefixed lead⟩
      | some own =>
        refine .inr ⟨?_, by rw [stops, member]⟩
        rw [member, hi.member]
        exact Member.refused_refused _ _
    · refine .inr ⟨?_, by rw [stops, member]⟩
      rw [member]
      exact hrefused.prefixed lead _
  | concat hc _ _ => exact absurd hc hsolo

theorem exists_denotes (h : p.Woven composed) (hsolo : ¬ composed) {steps : List Step}
    (hsteps : p.layout.steps = .ok steps) : ∃ i, p.Denotes i := by
  obtain hi | ⟨hrefused, hstops⟩ := h.denotes_or_refused hsolo 0
  · exact hi
  · have hgroups : p.groups = [.segment [(p, p.member 0)]] := by
      rw [groups, hstops]
      rfl
    obtain ⟨optional, multiple, core, e, l, he, hmember⟩ := hrefused
    rw [layout, hgroups, hmember] at hsteps
    cases multiple with
    | true => cases hsteps
    | false =>
      have hnested : (Group.layoutAll p [.segment [(p, .composite optional false core l)]]).steps = .error e := by
        simp [Group.layoutAll, Group.layout, Group.layoutSingle, Layout.append, he, Except.map]
      rw [hnested] at hsteps
      cases hsteps

end Woven

end Pattern

theorem segments_of_matchSingle {part : Part} {cursor next : Cursor} {params : Params}
    (h : matchSingle part cursor = some (params, next)) : next.segments = cursor.segments := by
  cases part with
  | literal text optional =>
    rw [matchSingle] at h
    split at h
    next =>
      cases h
      rfl
    next =>
      split at h
      · cases h
        rfl
      · cases h
  | capture c =>
    obtain ⟨-, rfl | rfl | rfl⟩ := matchCapture_cases h
    all_goals rfl

theorem segments_of_runSteps {query : Query} {cursor next : Cursor} {params : Params} (parts : List Part)
    (h : runSteps query cursor (parts.map .single) = some (params, next)) : next.segments = cursor.segments := by
  induction parts generalizing cursor params with
  | nil =>
    obtain ⟨-, rfl⟩ := Prod.mk.inj (Option.some.inj h)
    rfl
  | cons part rest ih =>
    obtain ⟨⟨first, between⟩, hfirst, h⟩ := Option.bind_eq_some_iff.mp h
    obtain ⟨⟨others, last⟩, hrest, h⟩ := Option.map_eq_some_iff.mp h
    obtain ⟨-, rfl⟩ := Prod.mk.inj h
    exact (ih hrest).trans (segments_of_matchSingle hfirst)

/-- A step that takes and gives nothing, whatever the segments of a target are. -/
def Step.Idle (step : Step) : Prop :=
  ∀ query cursor, (∀ segment ∈ cursor.segments, '/' ∉ segment) → step.run query cursor = some ([], cursor)

theorem idle_query : (Step.query []).Idle := fun _ _ _ => rfl

theorem idle_separator : (Step.single (.literal ['/'] true)).Idle := by
  intro query cursor hslash
  have hhead : cursor.head? ≠ some ['/'] := by
    intro hhead
    obtain ⟨segment, hsegment, hrest⟩ := Option.map_eq_some_iff.mp hhead
    obtain ⟨i, -, hi⟩ := Option.bind_eq_some_iff.mp hsegment
    have hmem : '/' ∈ segment := List.mem_of_mem_drop (hrest ▸ List.mem_singleton_self '/')
    exact hslash segment (List.mem_of_getElem? hi) hmem
  rw [Step.run, matchSingle, if_neg hhead]
  rfl

theorem accept_idle {step : Step} (hidle : step.Idle) (parts : List Part) (atEnd : Bool) {segments : List Text}
    (hslash : ∀ segment ∈ segments, '/' ∉ segment) (query : Query) :
    (⟨parts.map .single ++ [step], atEnd⟩ : Matcher).accept segments query =
      (⟨parts.map .single, atEnd⟩ : Matcher).accept segments query := by
  have hrun : runSteps query (.start segments) (parts.map .single ++ [step]) =
      runSteps query (.start segments) (parts.map .single) := by
    rw [runSteps_append]
    cases hfront : runSteps query (.start segments) (parts.map .single) with
    | none => rfl
    | some result =>
      obtain ⟨params, next⟩ := result
      have hnext := segments_of_runSteps parts hfront
      have hstep := hidle query next (fun segment hs => hslash segment (by rwa [hnext] at hs))
      simp [runSteps, hstep, Table.putAll]
  rw [Matcher.accept, Matcher.accept, Matcher.run, Matcher.run, hrun]

theorem Route.accept_of_idle {r : Route} {parts : List Part} {step : Step} (hidle : step.Idle)
    (h : r.pattern.layout.steps = .ok (parts.map .single ++ [step])) (target : Text) :
    r.accept target = .ok ((⟨parts.map .single, r.atEnd⟩ : Matcher).accept (Target.ofText target).segments
      (Target.ofText target).query) := by
  have hslash : ∀ segment ∈ (Target.ofText target).segments, '/' ∉ segment := fun segment hs =>
    slash_notMem_of_mem_splitPath hs
  rw [accept_of_layout h, accept_idle hidle parts r.atEnd hslash]

/-- Routes that are put together from names, stars and words; paths of several of them if `composed`. -/
inductive Route.Combined (composed : Prop) : Route → Prop where
  | param {name : Text} (h : isName name) (atEnd : Bool) : Combined composed (.param name atEnd)
  | unnamed : Combined composed .unnamed
  | literal {text : Text} (h : ∀ c ∈ text, isWordChar c) (atEnd : Bool) : Combined composed (.literal text atEnd)
  | modified {r : Route} (m : Modifier) : Combined composed r → Combined composed (r.modified m)
  | prefixed {r : Route} {lead : Text} (h : ∀ c ∈ lead, isWordChar c) :
      Combined composed r → Combined composed (r.prefixed lead)
  | append {r s : Route} (h : composed) : Combined composed r → Combined composed s →
      Combined composed (r.append s)

/-- The written form of a route can be read, and what it is read as matches alike. -/
def Route.MeansItsPath (r : Route) : Prop :=
  ∃ text q, r.path? = .ok text ∧ parse text r.atEnd = .ok q ∧ ∀ target, q.accept target = r.accept target

theorem Pattern.append_of_rootBlock? {p q : Pattern σ} (hp : p.rootBlock? = none) (hq : q.rootBlock? = none) :
    p.append q = .concat p q false := by
  unfold append
  split
  next => simp [rootBlock?] at hp
  next => simp [rootBlock?] at hp
  next => simp [rootBlock?] at hq
  next => rfl

theorem Route.Combined.woven {composed : Prop} {r : Route} (h : r.Combined composed) : r.pattern.Woven composed := by
  induction h with
  | param hname _ => exact .param hname
  | unnamed => exact .unnamed
  | @literal text hword _ =>
    by_cases hne : text = []
    · subst hne
      exact .root
    · have hslash : '/' ∉ text := notMem_of_isWordChar hword (by decide)
      rw [Route.literal, splitPath_of_notMem hne hslash]
      exact .literal hne hword
  | modified m _ ih => exact ih.modified m
  | prefixed hlead _ ih => exact ih.prefixed hlead
  | append hc _ _ ihr ihs =>
    rw [Route.append, Pattern.append_of_rootBlock? ihr.queryless.rootBlock?_eq_none ihs.queryless.rootBlock?_eq_none]
    exact ihr.concat hc ihs

theorem exists_readings {items : List Item} (h : ∀ i ∈ items, i.Readable) :
    ∃ ps : List (Pattern σ), Pattern.AllDenote ps items ∧
      List.Forall₂ Pattern.ReadFrom (items.map Item.source) ps := by
  induction items with
  | nil => exact ⟨[], .nil, .nil⟩
  | cons i rest ih =>
    obtain ⟨hfirst, hrest⟩ := List.forall_mem_cons.mp h
    obtain ⟨p, hp, hread⟩ := hfirst.exists_readFrom (σ := σ)
    obtain ⟨ps, hps, hreads⟩ := ih hrest
    exact ⟨p :: ps, .cons hp hps, .cons hread hreads⟩

theorem sources_of_readable {items : List Item} (h : ∀ i ∈ items, i.Readable) :
    ∀ source ∈ items.map Item.source, Settled source ∧ source ≠ [] ∧ '\\' ∉ source := by
  intro source hsource
  obtain ⟨i, hi, rfl⟩ := List.mem_map.mp hsource
  exact ⟨(h i hi).settled, (h i hi).source_ne_nil, (h i hi).backslash_notMem⟩

theorem Pattern.Woven.path?_eq {composed : Prop} {p : Pattern Schema} (h : p.Woven composed) :
    p.path? = .ok p.path := by
  rw [Pattern.path?, h.queryless.strayParam?]

namespace Route

variable {composed : Prop} {r : Route} {items : List Item}

/-- A route that is written as items without a second modifier has them again when it is read. -/
theorem meansItsPath_of_items (hw : r.pattern.Woven composed) (hitems : ∀ i ∈ items, i.Readable)
    (hpath : r.pattern.path = writtenPath (items.map Item.source))
    (hsteps : r.pattern.layout.steps = .ok (Item.stepsFrom 0 items)) : r.MeansItsPath := by
  obtain ⟨ps, hps, hreads⟩ := exists_readings (σ := Schema) hitems
  have hsources := sources_of_readable hitems
  obtain ⟨hcut, hquery⟩ := QuerySplit.ofSource_writtenPath (fun s hs => (hsources s hs).1)
    fun s hs hescape => (hsources s hs).2.2 (backslash_mem_of_escape hescape)
  have hsplit := splitPath_writtenPath (fun s hs => (hsources s hs).1.slash) fun s hs => (hsources s hs).2.1
  have hread : Pattern.ReadSplit (QuerySplit.ofSource (writtenPath (items.map Item.source)))
      (Pattern.joinSegments ps) := by
    refine .plain hquery ⟨ps, ?_, rfl⟩
    rwa [hcut, hsplit]
  refine ⟨_, ⟨Pattern.joinSegments ps, r.atEnd⟩, hw.path?_eq, ?_, fun target => ?_⟩
  · rw [hpath, parse, Pattern.ofText_eq_ok_iff.mpr hread]
    rfl
  · have hlayout := hps.layout (Pattern.additive_groups.joinSegments 0 ps)
    rw [accept_of_layout hsteps, accept_of_layout hlayout]

theorem meansItsPath_of_query (hw : r.pattern.Woven composed) (hitems : ∀ i ∈ items, i.Readable) {path : Text}
    (hpath : r.pattern.path = path ++ ['?']) (hsplit : splitPath path = items.map Item.source)
    (hcut : (QuerySplit.ofSource (path ++ ['?'])).path = path ∧
      (QuerySplit.ofSource (path ++ ['?'])).query = some [])
    (haccept : ∀ target, r.accept target = .ok ((⟨Item.stepsFrom 0 items, r.atEnd⟩ : Matcher).accept
      (Target.ofText target).segments (Target.ofText target).query)) : r.MeansItsPath := by
  obtain ⟨ps, hps, hreads⟩ := exists_readings (σ := Schema) hitems
  have hread : Pattern.ReadSplit (QuerySplit.ofSource (path ++ ['?']))
      (.queryParams (Pattern.joinSegments ps) []) := by
    refine .query hcut.2 ⟨ps, ?_, rfl⟩ ⟨.nil, .nil⟩
    rwa [hcut.1, hsplit]
  refine ⟨_, ⟨.queryParams (Pattern.joinSegments ps) [], r.atEnd⟩, hw.path?_eq, ?_, fun target => ?_⟩
  · rw [hpath, parse, Pattern.ofText_eq_ok_iff.mpr hread]
    rfl
  · have hlayout := hps.layout_query (Pattern.additive_groups.joinSegments 0 ps)
    rw [haccept]
    exact accept_of_idle idle_query hlayout target

end Route

namespace Pattern

variable {composed : Prop} {p : Pattern σ} {i : Item}

theorem Denotes.eq_literal {text : Text} (h : p.Denotes ⟨.literal text, none, []⟩) : p = .literal text := by
  generalize hi : (⟨.literal text, none, []⟩ : Item) = i at h
  cases h with
  | literal _ =>
    cases hi
    rfl
  | modified m _ => simp at hi
  | param _ => cases hi
  | unnamed => cases hi
  | prefixed _ _ => cases hi

theorem Denotes.readable (h : p.Denotes i) (hw : p.Woven composed) (hp : p.isEmptyLiteral = false)
    (hregular : i.isRegular) : i.Readable := by
  refine ⟨h.plain hw, ?_, hregular⟩
  rintro hcore
  match i, hcore, hregular with
  | ⟨.literal _, none, []⟩, rfl, _ =>
    obtain rfl := h.eq_literal
    cases hp

theorem Denotes.joinPath_body (h : p.Denotes i) (hi : i.Readable) : joinPath [p.body] = '/' :: i.source := by
  rw [h.body hi.plain, joinPath_segment hi.source_ne_nil hi.settled.slash]

theorem exists_items {ps : List (Pattern σ)}
    (h : ∀ p ∈ ps, p.Woven composed ∧ p.isEmptyLiteral = false ∧ p.item?.any Item.isRegular) :
    ∃ items : List Item, AllDenote ps items ∧ (∀ i ∈ items, i.Readable) ∧
      ps.flatMap (fun p => joinPath [p.body]) = (items.map Item.source).flatMap ('/' :: ·) := by
  induction ps with
  | nil => exact ⟨[], .nil, by simp, rfl⟩
  | cons p rest ih =>
    obtain ⟨⟨hw, hp, hregular⟩, hrest⟩ := List.forall_mem_cons.mp h
    obtain ⟨items, hitems, hreadable, hbodies⟩ := ih hrest
    obtain ⟨i, hi, hregular⟩ := (Option.any_eq_true _ _).mp hregular
    have hdenotes := denotes_of_item? hi
    have hown := hdenotes.readable hw hp hregular
    refine ⟨i :: items, .cons ⟨hdenotes, hp⟩ hitems, List.forall_mem_cons.mpr ⟨hown, hreadable⟩, ?_⟩
    rw [List.flatMap_cons, hbodies, hdenotes.joinPath_body hown]
    rfl

end Pattern

namespace QuerySplit

theorem ofSource_slash_query {segments : List Text} (h : ∀ segment ∈ segments, Settled segment)
    (hbackslash : ∀ segment ∈ segments, '\\' ∉ segment) :
    let path := segments.flatMap ('/' :: ·) ++ ['/']
    (ofSource (path ++ ['?'])).path = path ∧ (ofSource (path ++ ['?'])).query = some [] := by
  intro path
  obtain ⟨hpasses, hdepth⟩ := Scan.passes_segments (s := .start) rfl h (Scan.boundary_slash ['?'])
  have hpath : Scan.start.Passes path ['?'] :=
    Scan.passes_append.mpr ⟨hpasses, Scan.passes_of_notMem (by decide)⟩
  have hend : Scan.start.after path = Scan.start := by
    rw [Scan.after_append]
    exact Scan.next_slash hdepth
  have hopens : (Scan.start.after path).Opens '?' [] := by
    rw [hend]
    exact ⟨rfl, rfl, rfl⟩
  have hclean : ¬ escape <:+: path ++ ['?'] := by
    intro hescape
    have hmem := backslash_mem_of_escape hescape
    simp [path] at hmem
    obtain ⟨segment, hs, hmem⟩ := hmem
    exact hbackslash segment hs hmem
  have hsep : Scan.start.separator? (path ++ ['?']) = some path.length := by
    rw [Scan.separator?_append hpath, Scan.separator?_cons, if_pos hopens]
    simp
  rw [ofSource_of_unescaped hclean, hsep]
  simp

end QuerySplit

namespace Route

variable {composed : Prop} {r : Route}

theorem isBareCapture_marked {name : Option Text} (hname : ∀ n ∈ name, isName n) (m : Modifier) :
    isBareCapture (Item.source ⟨.capture name, none, [m]⟩) = false := by
  cases name with
  | none => cases m <;> rfl
  | some name =>
    have hsymbol : isNameChar m.symbol = false := by cases m <;> rfl
    have hbare : isBareCapture (Item.source ⟨.capture (some name), none, [m]⟩) = isName (name ++ [m.symbol]) := rfl
    rw [hbare, ← Bool.not_eq_true]
    intro hall
    rw [isNameChar_of_mem hall (List.mem_append_right _ (List.mem_singleton_self _))] at hsymbol
    cases hsymbol

section

variable {front : List (Pattern Schema)} {last : Pattern Schema} {items : List Item}
  (hw : r.pattern.Woven composed) (hleaves : r.pattern.leaves = front ++ [last])
  (hitems : Pattern.AllDenote front items) (hempty : last.isEmptyLiteral = false)

include hw hleaves hitems hempty

theorem layout_of_last {i : Item} (hlast : last.Denotes i) :
    r.pattern.layout.steps = .ok (Item.stepsFrom 0 (items ++ [i])) := by
  have hall : Pattern.AllDenote r.pattern.leaves (items ++ [i]) := by
    rw [hleaves]
    exact List.rel_append hitems (.cons ⟨hlast, hempty⟩ .nil)
  exact hall.layout (hw.collect_leaves Pattern.additive_groups 0)

variable (hreadable : ∀ i ∈ items, i.Readable)
  (hbodies : front.flatMap (fun p => joinPath [p.body]) = (items.map Item.source).flatMap ('/' :: ·))

include hreadable hbodies

theorem meansItsPath_of_regular {i : Item} (hlast : last.Denotes i) (hregular : i.Readable) : r.MeansItsPath := by
  have hall : ∀ j ∈ items ++ [i], j.Readable :=
    List.forall_mem_append.mpr ⟨hreadable, List.forall_mem_singleton.mpr hregular⟩
  refine meansItsPath_of_items hw hall ?_ (layout_of_last hw hleaves hitems hempty hlast)
  rw [hw.path_eq, hleaves, List.flatMap_append, List.flatMap_singleton, hbodies, hlast.joinPath_body hregular,
    writtenPath, List.map_append, List.flatMap_append]
  simp

/-- A capture that may be left out already is written like one in front of an empty query. -/
theorem meansItsPath_of_twice {name : Option Text} {m : Modifier}
    (hlast : last.Denotes ⟨.capture name, none, [m, .optional]⟩)
    (hplain : Item.Plain ⟨.capture name, none, [m, .optional]⟩) (hm : m.allowsNone = true) : r.MeansItsPath := by
  let once : Item := ⟨.capture name, none, [m]⟩
  have honce : once.Readable := ⟨⟨hplain.core, hplain.lead⟩, by simp [once], rfl⟩
  have hall : ∀ i ∈ items ++ [once], i.Readable :=
    List.forall_mem_append.mpr ⟨hreadable, List.forall_mem_singleton.mpr honce⟩
  have hsources := sources_of_readable hall
  have hwritten : writtenPath ((items ++ [once]).map Item.source) =
      (items.map Item.source).flatMap ('/' :: ·) ++ '/' :: once.source := by
    rw [writtenPath, orRoot, List.map_append, List.flatMap_append, if_neg (by simp)]
    simp
  have hbody : joinPath [last.body] = '/' :: once.source ++ ['?'] := by
    have hsource : last.body = once.source ++ ['?'] := by
      rw [hlast.body hplain]
      simp [Item.source, once, symbolsText, Modifier.symbol]
    have hslash : '/' ∉ once.source ++ ['?'] := by simpa using honce.settled.slash
    rw [hsource, joinPath_segment (by simp) hslash]
    rfl
  have hbare := isBareCapture_marked hplain.core m
  have hseparator : querySeparator (writtenPath ((items ++ [once]).map Item.source)) [] = ['?'] := by
    rw [querySeparator, hwritten, lastSegment_append honce.settled.slash, readsAsModifier, hbare]
    rfl
  have hquery : ¬ escape <:+: ([] : Text) := by decide
  have hcut := QuerySplit.ofSource_querySeparator
    (fun s hs hescape => (hsources s hs).2.2 (backslash_mem_of_escape hescape)) fun _ =>
      ⟨fun s hs => (hsources s hs).1, fun hl => notMem_writtenPath (by decide) (fun s hs => (hsources s hs).2.2)
        (List.mem_of_getLast? hl), hquery⟩
  simp only [hseparator, List.append_nil] at hcut
  refine meansItsPath_of_query hw hall ?_ (splitPath_writtenPath (fun s hs => (hsources s hs).1.slash)
    fun s hs => (hsources s hs).2.1) hcut fun target => ?_
  · rw [hwritten, hw.path_eq, hleaves, List.flatMap_append, List.flatMap_singleton, hbodies, hbody, orRoot,
      if_neg (by simp)]
    simp
  · have hpart : ∀ n, Item.part n ⟨.capture name, none, [m, .optional]⟩ = once.part n := by
      intro n
      simp [Item.part, Item.loose, Item.repeated, once, hm, Modifier.allowsMany]
    have hsteps := layout_of_last hw hleaves hitems hempty hlast
    have hsame : Item.stepsFrom 0 (items ++ [⟨.capture name, none, [m, .optional]⟩]) =
        Item.stepsFrom 0 (items ++ [once]) := by
      rw [Item.stepsFrom_append, Item.stepsFrom_append]
      simp [Item.stepsFrom, Item.partsFrom, hpart]
    rw [hsame] at hsteps
    exact accept_of_layout hsteps target

/-- An optional separator stands for nothing, and is written like an empty query. -/
theorem meansItsPath_of_separator (hlast : last.Denotes ⟨.literal ['/'], none, [.optional]⟩) : r.MeansItsPath := by
  have hsources := sources_of_readable hreadable
  have hbody : joinPath [last.body] = ['/', '?'] := by
    rw [hlast.body ⟨.inl rfl, by simp⟩]
    rfl
  have hpath : r.pattern.path = (items.map Item.source).flatMap ('/' :: ·) ++ ['/'] ++ ['?'] := by
    rw [hw.path_eq, hleaves, List.flatMap_append, List.flatMap_singleton, hbodies, hbody, orRoot, if_neg (by simp)]
    simp
  refine meansItsPath_of_query hw hreadable hpath ?_
    (QuerySplit.ofSource_slash_query (fun s hs => (hsources s hs).1) fun s hs => (hsources s hs).2.2) fun target => ?_
  · have hsplit := splitPath_writtenPath (fun s hs => (hsources s hs).1.slash) fun s hs => (hsources s hs).2.1
    rw [writtenPath, splitPath_orRoot] at hsplit
    rw [splitPath_append_slash, hsplit, splitPath_nil, List.append_nil]
  · have hsteps := layout_of_last hw hleaves hitems hempty hlast
    rw [Item.stepsFrom_append] at hsteps
    exact accept_of_idle idle_separator hsteps target

end

theorem meansItsPath_of_isRegular (hw : r.pattern.Woven composed) (h : r.pattern.isRegular = true) :
    r.MeansItsPath := by
  have hleaf : ∀ q ∈ r.pattern.leaves, q.Woven composed ∧ q.isEmptyLiteral = false := fun q hq =>
    ⟨hw.of_mem_leaves q hq, by simpa using (List.mem_filter.mp hq).2⟩
  obtain ⟨hfront, hlast⟩ := Bool.and_eq_true_iff.mp h
  obtain hnil | ⟨front, last, hleaves⟩ := List.eq_nil_or_concat' r.pattern.leaves
  · refine meansItsPath_of_items hw (List.forall_mem_nil _) ?_ ?_
    · rw [hw.path_eq, hnil]
      rfl
    · exact Pattern.AllDenote.layout (hnil ▸ .nil) (hw.collect_leaves Pattern.additive_groups 0)
  · rw [hleaves] at hfront hlast hleaf
    obtain ⟨hleaf, hown⟩ := List.forall_mem_append.mp hleaf
    obtain ⟨hlastWoven, hempty⟩ := List.forall_mem_singleton.mp hown
    have hregular : ∀ q ∈ front, q.Woven composed ∧ q.isEmptyLiteral = false ∧ q.item?.any Item.isRegular := by
      intro q hq
      refine ⟨(hleaf q hq).1, (hleaf q hq).2, ?_⟩
      simp only [List.dropLast_concat, List.all_eq_true] at hfront
      exact hfront q hq
    obtain ⟨items, hitems, hreadable, hbodies⟩ := Pattern.exists_items hregular
    rw [List.getLast?_concat] at hlast
    obtain ⟨i, hi, hclosing⟩ := (Option.any_eq_true _ _).mp (show last.item?.any Item.isClosing = true from hlast)
    have hdenotes := Pattern.denotes_of_item? hi
    obtain hown | ⟨name, m, rfl, hm⟩ | rfl := Item.closing_cases hclosing
    · exact meansItsPath_of_regular hw hleaves hitems hempty hreadable hbodies hdenotes
        (hdenotes.readable hlastWoven hempty hown)
    · exact meansItsPath_of_twice hw hleaves hitems hempty hreadable hbodies hdenotes (hdenotes.plain hlastWoven) hm
    · exact meansItsPath_of_separator hw hleaves hitems hempty hreadable hbodies hdenotes

end Route

end RoutePattern
