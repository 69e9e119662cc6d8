import RoutePattern.Proofs.Matching
import RoutePattern.Proofs.Reading.Steps

/-!
Segments behind a repetition. A repetition takes all that is left, and what has to be there behind it is
not. It leaves the segments where they are only if it has a lead, may be left out, and meets a segment
that does not begin with its lead: the one way past a repetition that was warned about.
-/

namespace RoutePattern

variable {σ : Type}

namespace Cursor

theorem head?_of_isExhausted {c : Cursor} (h : c.isExhausted) : c.head? = none := by
  have hle : (c.segments.length : Int) ≤ c.index := by simpa [isExhausted] using h
  have hnonneg : 0 ≤ c.index := by omega
  have hplace : placeOf c.segments c.index = some c.index.toNat := if_pos hnonneg
  have hlength : c.segments.length ≤ c.index.toNat := by omega
  rw [head?, hplace, Option.bind_some, List.getElem?_eq_none hlength]
  rfl

theorem isExhausted_of_head? {c : Cursor} (h : c.head? = none) (hbefore : c.isBefore = false) :
    c.isExhausted := by
  obtain ⟨i, hi⟩ := Option.ne_none_iff_exists'.mp fun hnone : placeOf c.segments c.index = none => by
    simp [isBefore, hnone] at hbefore
  have hlength : c.segments.length ≤ i := by simpa [head?, hi] using h
  unfold placeOf at hi
  split at hi
  next hnonneg =>
    obtain rfl := Option.some.inj hi
    simp only [isExhausted, decide_eq_true_eq]
    omega
  next =>
    split at hi
    next hwithin =>
      obtain rfl := Option.some.inj hi
      omega
    next => cases hi

theorem isExhausted_exhaust (c : Cursor) : c.exhaust.isExhausted := by
  simp [exhaust, isExhausted]

end Cursor

/-- Whether a step has a part that may not be left out. Nested patterns are not looked into. -/
def Step.demands : Step → Bool
  | .single part => !part.isOptional
  | .compound parts => parts.any (!·.isOptional)
  | _ => false

mutual

/-- Where no segment is left, a step that matches stays there, and none of its parts had to be there. -/
theorem Step.run_exhausted {query : Query} {cursor last : Cursor} {params : Params}
    (hc : cursor.isExhausted) : (step : Step) → step.run query cursor = some (params, last) →
    last = cursor ∧ step.demands = false
  | .single (.literal text loose), h => by
    simp only [Step.run, matchSingle, Cursor.head?_of_isExhausted hc] at h
    cases loose with
    | false => simp at h
    | true => exact ⟨(Prod.mk.inj (Option.some.inj h)).2.symm, rfl⟩
  | .single (.capture c), h => by
    simp only [Step.run, matchSingle, matchCapture, Cursor.head?_of_isExhausted hc, Option.bind_none] at h
    split at h
    next ho => exact ⟨(Prod.mk.inj (Option.some.inj h)).2.symm, by simp [Step.demands, Part.isOptional, ho]⟩
    next => cases h
  | .compound parts, h => by
    simp only [Step.run, matchCompound, Cursor.head?_of_isExhausted hc] at h
    split at h
    next hall =>
      refine ⟨(Prod.mk.inj (Option.some.inj h)).2.symm, List.any_eq_false.mpr fun part hpart => ?_⟩
      simp [List.all_eq_true.mp hall part hpart]
    next => cases h
  | .query _, h => by
    obtain ⟨found, -, heq⟩ := Option.map_eq_some_iff.mp h
    exact ⟨(Prod.mk.inj heq).2.symm, rfl⟩
  | .nested loose steps, h => by
    simp only [Step.run] at h
    split at h
    next result hrun =>
      obtain rfl := Option.some.inj h
      exact ⟨(runSteps_exhausted hc steps hrun).1, rfl⟩
    next =>
      split at h
      · exact ⟨(Prod.mk.inj (Option.some.inj h)).2.symm, rfl⟩
      · cases h

theorem runSteps_exhausted {query : Query} {cursor last : Cursor} {params : Params}
    (hc : cursor.isExhausted) : (steps : List Step) → runSteps query cursor steps = some (params, last) →
    last = cursor ∧ steps.any Step.demands = false
  | [], h => ⟨(Prod.mk.inj (Option.some.inj h)).2.symm, rfl⟩
  | step :: rest, h => by
    obtain ⟨⟨first, next⟩, hstep, h⟩ := Option.bind_eq_some_iff.mp h
    obtain ⟨⟨others, _⟩, hrest, heq⟩ := Option.map_eq_some_iff.mp h
    obtain ⟨-, rfl⟩ := Prod.mk.inj heq
    obtain ⟨rfl, hfirst⟩ := Step.run_exhausted hc step hstep
    obtain ⟨rfl, hothers⟩ := runSteps_exhausted hc rest hrest
    exact ⟨rfl, by rw [List.any_cons, hfirst, hothers]; rfl⟩

end

/-- A repetition takes all segments, or it is left out and takes none. -/
theorem matchCapture_multiple {c : Capture} (hm : c.multiple = true) {cursor last : Cursor}
    {params : Params} (h : matchCapture c cursor = some (params, last)) :
    last.isExhausted ∨ c.optional = true ∧ cursor.head?.bind (Text.after? c.lead) = none ∧
      params = [(c.key, .many [])] ∧ last = cursor := by
  unfold matchCapture at h
  split at h
  next hnone =>
    split at h
    next ho =>
      obtain ⟨rfl, rfl⟩ := Prod.mk.inj (Option.some.inj h)
      exact .inr ⟨ho, hnone, rfl, rfl⟩
    next => cases h
  next =>
    simp only [hm, if_true] at h
    split at h
    next => cases h
    next =>
      obtain ⟨-, rfl⟩ := Prod.mk.inj (Option.some.inj h)
      exact .inl (Cursor.isExhausted_exhaust _)

theorem matchCapture_left_out {c : Capture} (hm : c.multiple = true) (ho : c.optional = true)
    {cursor : Cursor} (h : cursor.head?.bind (Text.after? c.lead) = none) :
    matchCapture c cursor = some ([(c.key, .many [])], cursor) := by
  rw [matchCapture, h]
  simp only [ho, hm, if_true]

/-- A whole match in which the repetition `c` is left out: the steps before it stop at a segment that does
not begin with its lead, and those behind it go on from there. -/
structure LeftOut (c : Capture) (before behind : List Step) (atEnd : Bool) (segments : List Text)
    (query : Query) (params : Params) : Prop where
  optional : c.optional = true
  run : ∃ first middle segment second last,
    runSteps query (.start segments) before = some (first, middle) ∧
    middle.head? = some segment ∧ Text.after? c.lead segment = none ∧
    runSteps query middle behind = some (second, last) ∧ (atEnd = true → last.isExhausted = true) ∧
    params = Table.putAll first (Table.putAll [(c.key, .many [])] second)

/-- Past a repetition, steps with a part that has to be there match only where it is left out. -/
theorem accept_repetition_iff {c : Capture} {before behind : List Step} {atEnd : Bool}
    (hm : c.multiple = true) (hbehind : behind.any Step.demands = true) {segments : List Text}
    {query : Query} {params : Params} :
    (⟨before ++ .single (.capture c) :: behind, atEnd⟩ : Matcher).accept segments query = some params ↔
      LeftOut c before behind atEnd segments query params := by
  constructor
  · intro h
    obtain ⟨⟨_, last⟩, hrun, rfl⟩ := Option.map_eq_some_iff.mp h
    obtain ⟨hrun, hend⟩ := Matcher.run_eq_some.mp hrun
    rw [runSteps_append] at hrun
    obtain ⟨⟨first, middle⟩, hfirst, hrun⟩ := Option.bind_eq_some_iff.mp hrun
    simp only at hrun
    obtain ⟨⟨_, _⟩, hrest, heq⟩ := Option.map_eq_some_iff.mp hrun
    obtain ⟨rfl, rfl⟩ := Prod.mk.inj heq
    obtain ⟨⟨taken, next⟩, htaken, hrest⟩ := Option.bind_eq_some_iff.mp hrest
    obtain ⟨⟨second, _⟩, hsecond, heq⟩ := Option.map_eq_some_iff.mp hrest
    obtain ⟨rfl, rfl⟩ := Prod.mk.inj heq
    -- the steps behind do not all match where nothing is left
    have hleft : ¬ next.isExhausted := by
      intro hexhausted
      have hnone := (runSteps_exhausted hexhausted behind hsecond).2
      rw [hbehind] at hnone
      cases hnone
    obtain hexhausted | ⟨ho, hlead, rfl, rfl⟩ := matchCapture_multiple hm htaken
    · exact absurd hexhausted hleft
    · have hbefore : next.isBefore = false := isBefore_runSteps before hfirst rfl
      cases hhead : next.head? with
      | none => exact absurd (Cursor.isExhausted_of_head? hhead hbefore) hleft
      | some segment =>
        have hlead : Text.after? c.lead segment = none := by simpa [hhead] using hlead
        exact ⟨ho, first, next, segment, second, _, hfirst, hhead, hlead, hsecond, hend, rfl⟩
  · rintro ⟨ho, first, middle, segment, second, last, hfirst, hhead, hlead, hsecond, hend, rfl⟩
    have hnone : middle.head?.bind (Text.after? c.lead) = none := by rw [hhead, Option.bind_some, hlead]
    have htaken : (Step.single (.capture c)).run query middle = some ([(c.key, .many [])], middle) :=
      matchCapture_left_out hm ho hnone
    have hrun : runSteps query (.start segments) (before ++ .single (.capture c) :: behind) =
        some (Table.putAll first (Table.putAll [(c.key, .many [])] second), last) := by
      rw [runSteps_append, hfirst, Option.bind_some]
      simp only [runSteps_of_run behind htaken, hsecond, Option.map_some]
    rw [Matcher.accept, Matcher.run_eq_some.mpr ⟨hrun, hend⟩]
    rfl

namespace Group

/-- What a group is warned about: a repetition alone in its segment that is not the last, or what stands
in a nested pattern. -/
theorem mem_warnings_layout {whole : Pattern σ} {last : Bool} {g : Group σ} {steps : List Step}
    (h : g.steps = .ok steps) {w : RepetitionWarning σ} :
    w ∈ (g.layout whole last).warnings ↔
      (∃ hasLead c, g = .segment [(w.repetition, .part hasLead (.capture c))] ∧ c.multiple = true ∧
        last = false ∧ w.whole = whole) ∨
      ∃ node optional core inner, g = .segment [(node, .composite optional false core inner)] ∧
        w ∈ inner.warnings := by
  obtain ⟨repetition, named⟩ := w
  match g, h with
  | query _ _, _ => simp [layout]
  | segment [], _ => simp [layout]
  | segment (first :: second :: rest), _ =>
    have hnil : ((segment (first :: second :: rest)).layout whole last).warnings = [] := by
      simp only [layout]
      split <;> rfl
    simp [hnil]
  | segment [(_, .composite _ true _ _)], h => simp [Group.steps, layout, layoutSingle] at h
  | segment [(node, .composite loose false core inner)], _ =>
    have hwarnings : ((segment [(node, .composite loose false core inner)]).layout whole last).warnings =
        inner.warnings := rfl
    rw [hwarnings]
    constructor
    · exact fun hw => .inr ⟨node, loose, core, inner, rfl, hw⟩
    · rintro (⟨_, _, heq, -⟩ | ⟨_, _, _, _, heq, hw⟩)
      · simp at heq
      · simp only [segment.injEq, List.cons.injEq, Prod.mk.injEq, Member.composite.injEq] at heq
        obtain ⟨⟨-, -, -, -, rfl⟩, -⟩ := heq
        exact hw
  | segment [(node, .part hasLead part)], _ =>
    have hwarnings : ((segment [(node, .part hasLead part)]).layout whole last).warnings =
        if part.isMultiple && !last then [⟨node, whole⟩] else [] := rfl
    rw [hwarnings]
    constructor
    · intro hw
      split at hw
      next hm =>
        obtain ⟨rfl, rfl⟩ := RepetitionWarning.mk.inj (List.mem_singleton.mp hw)
        obtain ⟨hc, hlast⟩ := Bool.and_eq_true_iff.mp hm
        cases part with
        | literal text loose => cases hc
        | capture c => exact .inl ⟨hasLead, c, rfl, hc, by simpa using hlast, rfl⟩
      next => cases hw
    · rintro (⟨_, c, heq, hc, rfl, rfl⟩ | ⟨_, _, _, _, heq, -⟩)
      · simp only [segment.injEq, List.cons.injEq, Prod.mk.injEq, Member.part.injEq] at heq
        obtain ⟨⟨rfl, rfl, rfl⟩, -⟩ := heq
        have hmultiple : (Part.capture c).isMultiple = true := hc
        rw [hmultiple]
        exact List.mem_singleton_self _
      · simp at heq

theorem mem_warnings_layoutAll {whole : Pattern σ} {gs : List (Group σ)} {steps : List Step}
    (h : (layoutAll whole gs).steps = .ok steps) {w : RepetitionWarning σ} :
    w ∈ (layoutAll whole gs).warnings ↔ ∃ front g back, gs = front ++ g :: back ∧
      w ∈ (g.layout whole (!back.any isSegment)).warnings := by
  induction gs generalizing steps with
  | nil => simp [layoutAll]
  | cons g rest ih =>
    obtain ⟨own, others, hown, hothers, -⟩ := layoutAll_cons_ok.mp h
    have hsteps : (g.layout whole (!rest.any isSegment)).steps = .ok own := by rw [layout_steps, hown]
    have hwarnings : (layoutAll whole (g :: rest)).warnings =
        (g.layout whole (!rest.any isSegment)).warnings ++ (layoutAll whole rest).warnings := by
      rw [layoutAll, Layout.append]
      simp only [hsteps]
    rw [hwarnings, List.mem_append, ih hothers]
    constructor
    · rintro (hw | ⟨front, g', back, rfl, hw⟩)
      · exact ⟨[], g, rest, rfl, hw⟩
      · exact ⟨g :: front, g', back, rfl, hw⟩
    · rintro ⟨front, g', back, heq, hw⟩
      cases front with
      | nil =>
        obtain ⟨rfl, rfl⟩ := List.cons.inj heq
        exact .inl hw
      | cons first front =>
        obtain ⟨rfl, rfl⟩ := List.cons.inj heq
        exact .inr ⟨front, g', back, rfl, hw⟩

theorem any_demands {g : Group σ} {steps : List Step} (h : g.steps = .ok steps) {part : Part}
    (hpart : part ∈ g.parts) (hrequired : part.isOptional = false) : steps.any Step.demands = true := by
  cases g with
  | query node entries => cases hpart
  | segment members =>
    obtain ⟨m, hm, hmpart⟩ := List.mem_filterMap.mp hpart
    obtain ⟨node, hasLead, own, rfl, rfl⟩ | ⟨node, loose, core, inner, own, rfl, -, rfl⟩ |
      ⟨parts, hparts, rfl⟩ := steps_segment_ok h
    · obtain rfl := List.mem_singleton.mp hm
      obtain rfl := Option.some.inj hmpart
      simp [Step.demands, hrequired]
    · obtain rfl := List.mem_singleton.mp hm
      cases hmpart
    · have hmem : part ∈ parts := by
        have hflat := flatMap_of_mapM_eq_some (g := fun m : Pattern σ × Member σ => m.2.part?.toList)
          (k := fun part => [part]) (by simp +contextual) hparts
        have hm : part ∈ members.flatMap fun m => m.2.part?.toList :=
          List.mem_flatMap.mpr ⟨m, hm, by simp [hmpart]⟩
        rw [hflat] at hm
        simpa using hm
      have hdemands : (Step.compound parts).demands = true :=
        List.any_eq_true.mpr ⟨part, hmem, by rw [hrequired]; rfl⟩
      rw [List.any_cons, hdemands, Bool.true_or]

theorem layoutAll_any_demands {whole : Pattern σ} {gs : List (Group σ)} {steps : List Step}
    (h : (layoutAll whole gs).steps = .ok steps) {g : Group σ} (hg : g ∈ gs) {part : Part}
    (hpart : part ∈ g.parts) (hrequired : part.isOptional = false) : steps.any Step.demands = true := by
  induction gs generalizing steps with
  | nil => cases hg
  | cons first rest ih =>
    obtain ⟨own, others, hown, hothers, rfl⟩ := layoutAll_cons_ok.mp h
    rw [List.any_append, Bool.or_eq_true]
    rcases List.mem_cons.mp hg with rfl | hg
    · exact .inl (any_demands hown hpart hrequired)
    · exact .inr (ih hothers hg)

end Group

namespace Pattern

/-- Between the groups `front` and `back` the pattern has the repetition `c`, alone in its segment, and
there is a segment behind it. -/
structure Overtakes (p node : Pattern σ) (c : Capture) (front back : List (Group σ)) : Prop where
  groups : ∃ hasLead, p.groups = front ++ .segment [(node, .part hasLead (.capture c))] :: back
  multiple : c.multiple = true
  followed : back.any Group.isSegment = true

theorem toldWarnings_of_layout {p : Pattern σ} {steps : List Step} (h : p.layout.steps = .ok steps) :
    p.layout.toldWarnings = p.layout.warnings := by
  have hstray := (ready_of_layout h).strayParam?
  have htold : p.layout.Tellable := Group.tellable_gather hstray (by simp) (tellable_stops 0 false p hstray)
  exact List.takeWhile_eq_self_iff.mpr fun w hw => by simp [htold w hw]

/-- The warnings of a pattern are about the repetitions that it has before other segments, and those of
its nested patterns. -/
theorem mem_toldWarnings_iff {p : Pattern σ} {steps : List Step} (h : p.layout.steps = .ok steps)
    {w : RepetitionWarning σ} :
    w ∈ p.layout.toldWarnings ↔
      (∃ c front back, p.Overtakes w.repetition c front back ∧ w.whole = p) ∨
      ∃ node optional core inner, .segment [(node, .composite optional false core inner)] ∈ p.groups ∧
        w ∈ inner.warnings := by
  have hsteps : (Group.layoutAll p p.groups).steps = .ok steps := h
  rw [toldWarnings_of_layout h, layout, Group.mem_warnings_layoutAll hsteps]
  constructor
  · rintro ⟨front, g, back, hgroups, hw⟩
    rw [hgroups] at hsteps
    obtain ⟨_, _, _, hrest, -⟩ := Group.layoutAll_append_ok.mp hsteps
    obtain ⟨own, _, hown, -, -⟩ := Group.layoutAll_cons_ok.mp hrest
    obtain ⟨hasLead, c, rfl, hm, hlast, hwhole⟩ | ⟨node, optional, core, inner, rfl, hw⟩ :=
      (Group.mem_warnings_layout hown).mp hw
    · exact .inl ⟨c, front, back, ⟨⟨hasLead, hgroups⟩, hm, by simpa using hlast⟩, hwhole⟩
    · exact .inr ⟨node, optional, core, inner, by simp [hgroups], hw⟩
  · rintro (⟨c, front, back, ⟨⟨hasLead, hgroups⟩, hm, hfollowed⟩, hwhole⟩ |
      ⟨node, optional, core, inner, hg, hw⟩)
    · refine ⟨front, _, back, hgroups, (Group.mem_warnings_layout rfl).mpr (.inl ?_)⟩
      exact ⟨hasLead, c, rfl, hm, by rw [hfollowed]; rfl, hwhole⟩
    · obtain ⟨front, back, hgroups⟩ := List.append_of_mem hg
      exact ⟨front, _, back, hgroups, hw⟩

theorem composite_notMem_groups {source : Text} {p : Pattern σ} (h : ofText source = .ok p)
    (node : Pattern σ) (optional multiple : Bool) (core : Pattern σ) (inner : Layout σ) :
    .segment [(node, .composite optional multiple core inner)] ∉ p.groups := by
  intro hg
  rw [groups_eq] at hg
  rcases List.mem_append.mp hg with hg | hg
  · obtain ⟨members, heq, hparts⟩ := ((ofText_eq_ok_iff.mp h).readPath.simple.1 _ hg).members
    obtain rfl := Group.segment.inj heq
    cases hparts
  · have hsegment := isSegment_of_mem_blockGroups p _ hg
    cases hsegment

/-- A repetition before other segments is warned about, and nothing else is, nested patterns apart. What
the warning says of the segments behind it holds of a repetition that may not be left out, and of one
without a lead: where one of these segments has to be there, the pattern matches nothing. A repetition
with a lead that may be left out is no obstacle where the segment before it does not begin with the lead;
and this is the only way to match. -/
theorem accept_overtaken {p : Pattern σ} {atEnd : Bool} {m : Matcher} (h : p.matcher atEnd = .ok m) :
    (∀ w, w ∈ p.layout.toldWarnings ↔
      (∃ c front back, p.Overtakes w.repetition c front back ∧ w.whole = p) ∨
      ∃ node optional core inner, .segment [(node, .composite optional false core inner)] ∈ p.groups ∧
        w ∈ inner.warnings) ∧
    (∀ source, ofText source = .ok p → ∀ w ∈ p.layout.toldWarnings,
      ∃ c front back, p.Overtakes w.repetition c front back ∧ w.whole = p) ∧
    ∀ node c front back, p.Overtakes node c front back →
      (∃ g ∈ back, ∃ part ∈ g.parts, part.isOptional = false) →
      (∃ before behind, (Group.layoutAll p front).steps = .ok before ∧
        (Group.layoutAll p back).steps = .ok behind ∧ ∀ segments query params,
          m.accept segments query = some params ↔ LeftOut c before behind atEnd segments query params) ∧
      (c.optional = false ∨ c.lead = [] → ∀ segments query, m.accept segments query = none) := by
  obtain ⟨hlayout, hatEnd⟩ := layout_of_matcher h
  refine ⟨fun w => mem_toldWarnings_iff hlayout, fun source hread w hw => ?_, ?_⟩
  · obtain hown | ⟨node, optional, core, inner, hg, -⟩ := (mem_toldWarnings_iff hlayout).mp hw
    · exact hown
    · exact absurd hg (composite_notMem_groups hread node optional false core inner)
  rintro node c front back ⟨⟨hasLead, hgroups⟩, hm, -⟩ ⟨g, hg, part, hpart, hrequired⟩
  have hsteps : (Group.layoutAll p p.groups).steps = .ok m.steps := hlayout
  rw [hgroups] at hsteps
  obtain ⟨before, rest, hbefore, hrest, hrow⟩ := Group.layoutAll_append_ok.mp hsteps
  obtain ⟨own, behind, hown, hbehind, rfl⟩ := Group.layoutAll_cons_ok.mp hrest
  obtain rfl : [Step.single (.capture c)] = own := Except.ok.inj hown
  have hmatcher : m = ⟨before ++ .single (.capture c) :: behind, atEnd⟩ := by
    cases m
    simp only [Matcher.mk.injEq]
    exact ⟨hrow.symm, hatEnd⟩
  have hdemands := Group.layoutAll_any_demands hbehind hg hpart hrequired
  have haccept : ∀ segments query params, m.accept segments query = some params ↔
      LeftOut c before behind atEnd segments query params := by
    intro segments query params
    rw [hmatcher]
    exact accept_repetition_iff hm hdemands
  refine ⟨⟨before, behind, hbefore, hbehind, haccept⟩, fun hkept segments query => ?_⟩
  cases hparams : m.accept segments query with
  | none => rfl
  | some params =>
    obtain ⟨ho, _, _, segment, _, _, -, -, hlead, -⟩ := (haccept segments query params).mp hparams
    rcases hkept with hrequired | hnil
    · rw [ho] at hrequired
      cases hrequired
    · -- every segment begins with a lead that is empty
      have hbegins := Text.after?_append [] segment
      rw [hnil] at hlead
      rw [List.nil_append, hlead] at hbegins
      cases hbegins

/-- A repetition that takes at least one segment keeps the pattern from matching; one that is left out
does not. -/
theorem accept_overtaken_files :
    let taking : Pattern Schema :=
      .concat (.concat (.literal "files") (.modified .oneOrMore (.param "path")) false) (.literal "raw") false
    let leaving : Pattern Schema :=
      .concat (.concat (.literal "files") (.prefixed "v" (.modified .zeroOrMore (.param "path"))) false)
        (.literal "raw") false
    ofText "/files/:path+/raw" = .ok taking ∧ ofText "/files/{v:path*}/raw" = .ok leaving ∧
    (∃ m, taking.matcher true = .ok m ∧ ∀ segments query, m.accept segments query = none) ∧
    ∃ m, leaving.matcher true = .ok m ∧
      m.accept ["files", "raw"] (Query.ofPairs []) = some [(.name "path", .many [])] := by
  intro taking leaving
  have htaking : taking.Overtakes (.modified .oneOrMore (.param "path"))
      ⟨.name "path", [], false, true⟩ [.segment [(.literal "files", .part false (.literal "files" false))]]
      [.segment [(.literal "raw", .part false (.literal "raw" false))]] := ⟨⟨false, rfl⟩, rfl, rfl⟩
  have hleaving : leaving.Overtakes (.prefixed "v" (.modified .zeroOrMore (.param "path")))
      ⟨.name "path", "v", true, true⟩ [.segment [(.literal "files", .part false (.literal "files" false))]]
      [.segment [(.literal "raw", .part false (.literal "raw" false))]] := ⟨⟨true, rfl⟩, rfl, rfl⟩
  have hraw : ∃ g ∈ [Group.segment [((.literal "raw" : Pattern Schema), .part false (.literal "raw" false))]],
      ∃ part ∈ g.parts, part.isOptional = false :=
    ⟨_, List.mem_singleton_self _, _, List.mem_singleton_self _, rfl⟩
  have hmatcher : leaving.matcher true = .ok _ := rfl
  refine ⟨rfl, rfl, ⟨_, rfl, ?_⟩, ⟨_, hmatcher, ?_⟩⟩
  · exact ((accept_overtaken (p := taking) rfl).2.2 _ _ _ _ htaking hraw).2 (.inl rfl)
  · obtain ⟨⟨before, behind, hbefore, hbehind, haccept⟩, -⟩ :=
      (accept_overtaken hmatcher).2.2 _ _ _ _ hleaving hraw
    obtain rfl := Except.ok.inj hbefore
    obtain rfl := Except.ok.inj hbehind
    exact (haccept _ _ _).mpr ⟨rfl, [], ⟨["files", "raw"], 1, 0⟩, "raw", [], ⟨["files", "raw"], 2, 0⟩,
      rfl, rfl, rfl, rfl, fun _ => rfl, rfl⟩

/-- The warning is told of a pattern that does match: the repetition takes nothing of a segment that does
not begin with its lead. -/
theorem warned_and_matched :
    ∃ (p : Pattern Schema) (m : Matcher), ofText "/{v:rest*}/tail" = .ok p ∧ p.matcher true = .ok m ∧
      ⟨.prefixed "v" (.modified .zeroOrMore (.param "rest")), p⟩ ∈ p.layout.toldWarnings ∧
      (∃ c back, p.Overtakes (.prefixed "v" (.modified .zeroOrMore (.param "rest"))) c [] back ∧
        ∃ g ∈ back, ∃ part ∈ g.parts, part.isOptional = false) ∧
      m.accept ["tail"] (Query.ofPairs []) = some [(.name "rest", .many [])] := by
  refine ⟨.concat (.prefixed "v" (.modified .zeroOrMore (.param "rest"))) (.literal "tail") false, _,
    rfl, rfl, ?_, ?_, rfl⟩
  · exact List.mem_singleton_self _
  · exact ⟨⟨.name "rest", "v", true, true⟩,
      [.segment [(.literal "tail", .part false (.literal "tail" false))]],
      ⟨⟨true, rfl⟩, rfl, rfl⟩, _, List.mem_singleton_self _, _, List.mem_singleton_self _, rfl⟩

end Pattern

end RoutePattern
