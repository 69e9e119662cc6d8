import RoutePattern.Matcher
import RoutePattern.Proofs.Grouping
import RoutePattern.Proofs.Results

/-!
Patterns that can be laid out. Nothing in them is refused, their steps are those of their groups one
after the other, and what can be rendered can be matched as well: no warning stands in the way.
-/

namespace RoutePattern

variable {σ : Type}

theorem Layout.append_steps_ok {l m : Layout σ} {steps : List Step} :
    (l.append m).steps = .ok steps ↔
      ∃ front back, l.steps = .ok front ∧ m.steps = .ok back ∧ front ++ back = steps := by
  obtain ⟨ws, ls⟩ := l
  obtain ⟨vs, ms⟩ := m
  cases ls <;> cases ms <;> simp [append, Except.map]

namespace Group

/-- The steps of a group. Neither the pattern around it nor what follows it bears on them. -/
def steps (g : Group σ) : Except (LayoutError σ) (List Step) := (g.layout .root true).steps

theorem layout_steps (whole : Pattern σ) (last : Bool) (g : Group σ) :
    (g.layout whole last).steps = g.steps := by
  match g with
  | segment [] => rfl
  | segment [(_, .part _ _)] => rfl
  | segment [(_, .composite _ multiple _ _)] => cases multiple <;> rfl
  | segment (first :: second :: rest) => simp only [steps, layout]
  | query _ _ => rfl

theorem layoutAll_cons_ok {whole : Pattern σ} {g : Group σ} {rest : List (Group σ)}
    {steps : List Step} :
    (layoutAll whole (g :: rest)).steps = .ok steps ↔
      ∃ front back, g.steps = .ok front ∧ (layoutAll whole rest).steps = .ok back ∧
        front ++ back = steps := by
  rw [layoutAll, Layout.append_steps_ok, layout_steps]

theorem layoutAll_append_ok {whole : Pattern σ} {gs hs : List (Group σ)} {steps : List Step} :
    (layoutAll whole (gs ++ hs)).steps = .ok steps ↔
      ∃ front back, (layoutAll whole gs).steps = .ok front ∧
        (layoutAll whole hs).steps = .ok back ∧ front ++ back = steps := by
  induction gs generalizing steps with
  | nil => simp [layoutAll]
  | cons g rest ih =>
    rw [List.cons_append, layoutAll_cons_ok]
    constructor
    · rintro ⟨own, others, hg, hrest, rfl⟩
      obtain ⟨front, back, hfront, hback, rfl⟩ := ih.mp hrest
      exact ⟨own ++ front, back, layoutAll_cons_ok.mpr ⟨own, front, hg, hfront, rfl⟩, hback,
        List.append_assoc ..⟩
    · rintro ⟨front, back, hfront, hback, rfl⟩
      obtain ⟨own, others, hg, hrest, rfl⟩ := layoutAll_cons_ok.mp hfront
      exact ⟨own, others ++ back, hg, ih.mpr ⟨others, back, hrest, hback, rfl⟩,
        (List.append_assoc ..).symm⟩

theorem layoutAll_ok_of_whole {whole : Pattern σ} (other : Pattern σ) {gs : List (Group σ)}
    {steps : List Step} (h : (layoutAll whole gs).steps = .ok steps) :
    (layoutAll other gs).steps = .ok steps := by
  induction gs generalizing steps with
  | nil => exact h
  | cons g rest ih =>
    obtain ⟨own, others, hg, hrest, rfl⟩ := layoutAll_cons_ok.mp h
    exact layoutAll_cons_ok.mpr ⟨own, others, hg, ih hrest, rfl⟩

end Group

/-- A part always has its step; a composite has one unless it repeats or has no layout itself. -/
def Member.Ready : Member σ → Prop
  | part _ _ => True
  | composite _ multiple _ layout => multiple = false ∧ ∃ steps, layout.steps = .ok steps

theorem Member.ready_of_part? {m : Member σ} {part : Part} (h : m.part? = some part) : m.Ready := by
  cases m with
  | part => trivial
  | composite => simp [part?] at h

def Stop.Ready : Stop σ → Prop
  | member _ _ m => m.Ready
  | gap _ => True
  | query _ entries => ∀ entry ∈ entries, entry.2.isSome

theorem Stop.ready_of_part? {stop : Stop σ} {part : Part} (h : stop.part? = some part) :
    stop.Ready := by
  cases stop with
  | member joined node m => exact Member.ready_of_part? h
  | gap text => trivial
  | query => simp [part?] at h

namespace Group

theorem steps_segment_ok {members : List (Pattern σ × Member σ)} {steps : List Step}
    (h : (segment members).steps = .ok steps) :
    (∃ node hasLead part, members = [(node, .part hasLead part)] ∧ steps = [.single part]) ∨
    (∃ node loose core inner own, members = [(node, .composite loose false core inner)] ∧
      inner.steps = .ok own ∧ steps = [.nested loose own]) ∨
    (∃ parts, members.mapM (fun m => m.2.part?) = some parts ∧ steps = [.compound parts]) := by
  match members, h with
  | [], h =>
    obtain rfl : [Step.compound []] = steps := Except.ok.inj h
    exact .inr (.inr ⟨[], rfl, rfl⟩)
  | [(node, .part hasLead part)], h =>
    obtain rfl : [Step.single part] = steps := Except.ok.inj h
    exact .inl ⟨node, hasLead, part, rfl, rfl⟩
  | [(_, .composite _ true _ _)], h => simp [Group.steps, layout, layoutSingle] at h
  | [(node, .composite loose false core inner)], h =>
    cases hown : inner.steps with
    | error e => simp [Group.steps, layout, layoutSingle, hown, Except.map] at h
    | ok own =>
      obtain rfl : [Step.nested loose own] = steps := by
        simpa [Group.steps, layout, layoutSingle, hown, Except.map] using h
      exact .inr (.inl ⟨node, loose, core, inner, own, rfl, hown, rfl⟩)
  | first :: second :: rest, h =>
    cases hparts : (first :: second :: rest).mapM fun m => m.2.part? with
    | none => simp [Group.steps, layout, hparts] at h
    | some parts =>
      obtain rfl : [Step.compound parts] = steps := by
        simpa [Group.steps, layout, hparts] using h
      exact .inr (.inr ⟨parts, rfl, rfl⟩)

theorem ready_of_steps {members : List (Pattern σ × Member σ)} {steps : List Step}
    (h : (segment members).steps = .ok steps) : ∀ m ∈ members, m.2.Ready := by
  obtain ⟨node, hasLead, part, rfl, -⟩ | ⟨node, loose, core, inner, own, rfl, hown, -⟩ |
    ⟨parts, hparts, -⟩ := steps_segment_ok h
  · simp [Member.Ready]
  · simp [Member.Ready, hown]
  · intro m hm
    obtain ⟨part, hpart⟩ := mem_of_mapM_eq_some hparts m hm
    exact Member.ready_of_part? hpart

theorem layoutEntries_ok {entries : List (Text × Option (List Part))}
    {out : List (Text × List Part)} (h : layoutEntries (σ := σ) entries = .ok out) :
    entries = out.map fun entry => (entry.1, some entry.2) := by
  induction entries generalizing out with
  | nil =>
    obtain rfl : [] = out := Except.ok.inj h
    rfl
  | cons entry rest ih =>
    obtain ⟨key, parts⟩ := entry
    cases parts with
    | none => simp [layoutEntries] at h
    | some parts =>
      cases hrest : layoutEntries (σ := σ) rest with
      | error e => simp [layoutEntries, hrest, Except.map] at h
      | ok others =>
        simp only [layoutEntries, hrest, Except.map, Except.ok.injEq] at h
        simp [← h, ih hrest]

theorem steps_query_ok {node : Pattern σ} {entries : List (Text × Option (List Part))}
    {steps : List Step} (h : (query node entries).steps = .ok steps) :
    ∃ out, entries = out.map (fun entry => (entry.1, some entry.2)) ∧ steps = [.query out] := by
  cases hout : layoutEntries (σ := σ) entries with
  | error e => simp [Group.steps, layout, hout, Except.map] at h
  | ok out =>
    refine ⟨out, layoutEntries_ok hout, ?_⟩
    simpa [Group.steps, layout, hout, Except.map] using h.symm

/-- What is gathered from stops can be laid out only if all of them are ready. -/
theorem ready_of_gather {whole : Pattern σ} {stops : List (Stop σ)}
    {current : List (Pattern σ × Member σ)} {steps : List Step}
    (h : (layoutAll whole (gather current stops)).steps = .ok steps) :
    (∀ m ∈ current, m.2.Ready) ∧ ∀ stop ∈ stops, stop.Ready := by
  have hclose : ∀ {members : List (Pattern σ × Member σ)} {front : List Step},
      (layoutAll whole (close members)).steps = .ok front → ∀ m ∈ members, m.2.Ready := by
    intro members front hfront
    match members with
    | [] => simp
    | first :: rest =>
      obtain ⟨own, _, hown, -, -⟩ := layoutAll_cons_ok.mp hfront
      exact ready_of_steps hown
  induction stops generalizing current steps with
  | nil => exact ⟨hclose h, by simp⟩
  | cons stop rest ih =>
    cases stop with
    | gap text =>
      obtain ⟨front, back, hfront, hback, -⟩ := layoutAll_append_ok.mp h
      have hrest := (ih hback).2
      exact ⟨hclose hfront, List.forall_mem_cons.mpr ⟨trivial, hrest⟩⟩
    | query node entries =>
      obtain ⟨front, back, hfront, hback, -⟩ := layoutAll_append_ok.mp h
      obtain ⟨own, others, hown, hothers, -⟩ := layoutAll_cons_ok.mp hback
      obtain ⟨out, rfl, -⟩ := steps_query_ok hown
      have hentries : (Stop.query node (out.map fun entry => (entry.1, some entry.2))).Ready := by
        intro entry hentry
        obtain ⟨e, -, rfl⟩ := List.mem_map.mp hentry
        rfl
      exact ⟨hclose hfront, List.forall_mem_cons.mpr ⟨hentries, (ih hothers).2⟩⟩
    | member joined node m =>
      cases joined with
      | true =>
        obtain ⟨hmembers, hrest⟩ := ih h
        obtain ⟨hcurrent, hm⟩ := List.forall_mem_append.mp hmembers
        exact ⟨hcurrent, List.forall_mem_cons.mpr ⟨hm _ (List.mem_singleton_self _), hrest⟩⟩
      | false =>
        obtain ⟨front, back, hfront, hback, -⟩ := layoutAll_append_ok.mp h
        obtain ⟨hm, hrest⟩ := ih hback
        exact ⟨hclose hfront, List.forall_mem_cons.mpr ⟨hm _ (List.mem_singleton_self _), hrest⟩⟩

end Group

namespace Pattern

/-- Whether a pattern is a part of a segment, and none of several segments. -/
def isPart (p : Pattern σ) : Bool := (p.member 0).part?.isSome

theorem isSome_part?_member (first : Nat) (p : Pattern σ) :
    (p.member first).part?.isSome = p.isPart := by
  have h := member_add 0 first p
  rw [Nat.zero_add] at h
  simp [h, isPart]

mutual

/-- Only parts are repeated or put behind a lead, and no query entry stands outside a block. -/
def Ready : Pattern σ → Prop
  | modified m inner => inner.Ready ∧ (m.allowsMany = true → inner.isPart = true)
  | prefixed _ inner => inner.Ready ∧ inner.isPart = true
  | concat left right _ => left.Ready ∧ right.Ready
  | queryParam _ _ => False
  | queryParams previous entries => previous.Ready ∧ EntriesReady entries
  | withSchema inner _ => inner.Ready
  | _ => True

def EntriesReady : List (Text × Pattern σ) → Prop
  | [] => True
  | (_, value) :: rest => value.Ready ∧ EntriesReady rest

end

theorem ready_modified {first : Nat} {m : Modifier} {inner : Pattern σ}
    (ih : (inner.member first).Ready → inner.Ready)
    (h : ((modified m inner).member first).Ready) : (modified m inner).Ready := by
  rw [member] at h
  cases hm : inner.member first with
  | part hasLead part =>
    have hinner : (inner.member first).Ready := by simp [hm, Member.Ready]
    have hpart : inner.isPart = true := by
      rw [← isSome_part?_member first, hm]
      rfl
    exact ⟨ih hinner, fun _ => hpart⟩
  | composite optional multiple core layout =>
    rw [hm] at h
    obtain ⟨hmultiple, hsteps⟩ := h
    obtain ⟨hown, hmany⟩ := Bool.or_eq_false_iff.mp hmultiple
    have hinner : (inner.member first).Ready := by
      rw [hm]
      exact ⟨hown, hsteps⟩
    exact ⟨ih hinner, by simp [hmany]⟩

theorem exists_part_of_prefixed {first : Nat} {lead : Text} {inner : Pattern σ}
    (h : ((prefixed lead inner).member first).Ready) :
    ∃ part, inner.member first = .part false part := by
  rw [member] at h
  match hm : inner.member first with
  | .part false part => exact ⟨part, rfl⟩
  | .part true part =>
    rw [hm] at h
    obtain ⟨-, _, hsteps⟩ := h
    cases hsteps
  | .composite .. =>
    rw [hm] at h
    obtain ⟨-, _, hsteps⟩ := h
    cases hsteps

theorem ready_prefixed {first : Nat} {lead : Text} {inner : Pattern σ}
    (ih : (inner.member first).Ready → inner.Ready)
    (h : ((prefixed lead inner).member first).Ready) : (prefixed lead inner).Ready := by
  obtain ⟨part, hm⟩ := exists_part_of_prefixed h
  have hinner : (inner.member first).Ready := by simp [hm, Member.Ready]
  have hpart : inner.isPart = true := by
    rw [← isSome_part?_member first, hm]
    rfl
  exact ⟨ih hinner, hpart⟩

mutual

theorem ready_of_stops (first : Nat) (joined : Bool) : (p : Pattern σ) →
    (∀ stop ∈ p.stops first joined, stop.Ready) → p.Ready
  | literal _, _ => trivial
  | param _, _ => trivial
  | unnamed, _ => trivial
  | modified m inner, h =>
    ready_modified (m := m) (ready_of_member first inner) (h _ (List.mem_singleton_self _))
  | prefixed lead inner, h =>
    ready_prefixed (ready_of_member first inner) (h _ (List.mem_singleton_self _))
  | concat left right _, h => by
    obtain ⟨hl, hr⟩ := List.forall_mem_append.mp h
    exact ⟨ready_of_stops _ _ left hl, ready_of_stops _ _ right hr⟩
  | queryParam key value, h => by
    obtain ⟨-, _, hsteps⟩ := h _ (List.mem_singleton_self _)
    cases hsteps
  | queryParams previous entries, h => by
    obtain ⟨hp, hq⟩ := List.forall_mem_append.mp h
    exact ⟨ready_of_stops _ _ previous hp,
      ready_of_entryParts _ entries (hq _ (List.mem_singleton_self _))⟩
  | withSchema inner _, h => ready_of_stops first joined inner h

theorem ready_of_entryParts (first : Nat) : (entries : List (Text × Pattern σ)) →
    (∀ entry ∈ entryParts first entries, entry.2.isSome) → EntriesReady entries
  | [], _ => trivial
  | (key, value) :: rest, h => by
    obtain ⟨hvalue, hrest⟩ := List.forall_mem_cons.mp h
    obtain ⟨parts, hparts⟩ := Option.isSome_iff_exists.mp hvalue
    have hstops : ∀ stop ∈ value.stops first false, stop.Ready := by
      intro stop hstop
      obtain ⟨part, hpart⟩ := mem_of_mapM_eq_some hparts stop hstop
      exact Stop.ready_of_part? hpart
    exact ⟨ready_of_stops first false value hstops, ready_of_entryParts _ rest hrest⟩

theorem ready_of_member (first : Nat) : (p : Pattern σ) → (p.member first).Ready → p.Ready
  | literal _, _ => trivial
  | param _, _ => trivial
  | unnamed, _ => trivial
  | modified m inner, h => ready_modified (m := m) (ready_of_member first inner) h
  | prefixed lead inner, h => ready_prefixed (ready_of_member first inner) h
  | concat left right glued, h => by
    obtain ⟨-, steps, hsteps⟩ := h
    obtain ⟨hl, hr⟩ := List.forall_mem_append.mp (Group.ready_of_gather hsteps).2
    exact ⟨ready_of_stops _ _ left hl, ready_of_stops _ _ right hr⟩
  | queryParam key value, h => by
    obtain ⟨-, _, hsteps⟩ := h
    cases hsteps
  | queryParams previous entries, h => by
    obtain ⟨-, steps, hsteps⟩ := h
    obtain ⟨hp, hq⟩ := List.forall_mem_append.mp (Group.ready_of_gather hsteps).2
    exact ⟨ready_of_stops _ _ previous hp,
      ready_of_entryParts _ entries (hq _ (List.mem_singleton_self _))⟩
  | withSchema inner _, h => ready_of_member first inner h

end

theorem stops_ready_of_layout {p : Pattern σ} {steps : List Step} (h : p.layout.steps = .ok steps) :
    ∀ stop ∈ p.stops 0 false, stop.Ready :=
  (Group.ready_of_gather h).2

theorem ready_of_layout {p : Pattern σ} {steps : List Step} (h : p.layout.steps = .ok steps) :
    p.Ready :=
  ready_of_stops 0 false p (stops_ready_of_layout h)

mutual

theorem Ready.strayParam? : (p : Pattern σ) → p.Ready → p.strayParam? = none
  | literal _, _ => rfl
  | param _, _ => rfl
  | unnamed, _ => rfl
  | modified _ inner, h => Ready.strayParam? inner h.1
  | prefixed _ inner, h => Ready.strayParam? inner h.1
  | concat left right _, h => by
    rw [Pattern.strayParam?, Ready.strayParam? left h.1, Ready.strayParam? right h.2]
    rfl
  | queryParams previous entries, h => by
    rw [Pattern.strayParam?, Ready.strayInEntries entries h.2, Ready.strayParam? previous h.1]
    rfl
  | withSchema inner _, h => Ready.strayParam? inner h

theorem Ready.strayInEntries : (entries : List (Text × Pattern σ)) → EntriesReady entries →
    Pattern.strayInEntries entries = none
  | [], _ => rfl
  | (_, value) :: rest, h => by
    rw [Pattern.strayInEntries, Ready.strayParam? value h.1, Ready.strayInEntries rest h.2]
    rfl

end

end Pattern

/-- Every warning is about a pattern that can be written down. -/
def Layout.Tellable (l : Layout σ) : Prop := ∀ w ∈ l.warnings, w.whole.strayParam? = none

theorem Layout.Tellable.append {l m : Layout σ} (hl : l.Tellable) (hm : m.Tellable) :
    (l.append m).Tellable := by
  intro w hw
  unfold Layout.append at hw
  split at hw
  · exact hl w hw
  · rcases List.mem_append.mp hw with hw | hw
    · exact hl w hw
    · exact hm w hw

theorem Layout.Tellable.toldSteps {l : Layout σ} (h : l.Tellable) : l.toldSteps = l.steps := by
  have hnone : l.warnings.findSome? (fun w => w.whole.strayParam?) = none :=
    List.findSome?_eq_none_iff.mpr h
  rw [Layout.toldSteps, hnone]

def Member.Tellable : Member σ → Prop
  | part _ _ => True
  | composite _ _ _ layout => layout.Tellable

def Stop.Tellable : Stop σ → Prop
  | member _ _ m => m.Tellable
  | _ => True

namespace Group

theorem tellable_layout {whole : Pattern σ} (hw : whole.strayParam? = none) (last : Bool) :
    (members : List (Pattern σ × Member σ)) → (∀ m ∈ members, m.2.Tellable) →
    ((segment members).layout whole last).Tellable
  | [], _ => by simp [layout, Layout.Tellable]
  | [(node, .part _ p)], _ => by
    intro w hmem
    have hmem : w ∈ if p.isMultiple && !last then [⟨node, whole⟩] else [] := hmem
    split at hmem
    · obtain rfl := List.mem_singleton.mp hmem
      exact hw
    · simp at hmem
  | [(_, .composite _ multiple _ inner)], h => by
    have hinner : inner.Tellable := h _ (List.mem_singleton_self _)
    cases multiple with
    | true => simp [layout, layoutSingle, Layout.Tellable]
    | false => exact hinner
  | first :: second :: rest, _ => by
    simp only [layout]
    split <;> simp [Layout.Tellable]

theorem tellable_gather {whole : Pattern σ} (hw : whole.strayParam? = none) {stops : List (Stop σ)}
    {current : List (Pattern σ × Member σ)} (hcurrent : ∀ m ∈ current, m.2.Tellable)
    (h : ∀ stop ∈ stops, stop.Tellable) : (layoutAll whole (gather current stops)).Tellable := by
  have hclose : ∀ {gs : List (Group σ)} {members : List (Pattern σ × Member σ)},
      (∀ m ∈ members, m.2.Tellable) → (layoutAll whole gs).Tellable →
      (layoutAll whole (close members ++ gs)).Tellable := by
    intro gs members hmembers hgs
    cases members with
    | nil => exact hgs
    | cons first rest => exact (tellable_layout hw _ _ hmembers).append hgs
  induction stops generalizing current with
  | nil =>
    have hnil : (layoutAll whole ([] : List (Group σ))).Tellable := by
      simp [layoutAll, Layout.Tellable]
    simpa [gather] using hclose hcurrent hnil
  | cons stop rest ih =>
    obtain ⟨hstop, hrest⟩ := List.forall_mem_cons.mp h
    cases stop with
    | gap text => exact hclose hcurrent (ih (by simp) hrest)
    | query node entries =>
      have hquery : ((query node entries).layout whole (!(gather [] rest).any isSegment)).Tellable := by
        simp [layout, Layout.Tellable]
      exact hclose hcurrent (hquery.append (ih (by simp) hrest))
    | member joined node m =>
      have hm : m.Tellable := hstop
      cases joined with
      | true => exact ih (List.forall_mem_append.mpr ⟨hcurrent, by simpa using hm⟩) hrest
      | false => exact hclose hcurrent (ih (by simpa using hm) hrest)

end Group

namespace Pattern

theorem tellable_modified {first : Nat} {m : Modifier} {inner : Pattern σ}
    (h : (inner.member first).Tellable) : ((modified m inner).member first).Tellable := by
  rw [member]
  cases hm : inner.member first with
  | part hasLead part => trivial
  | composite optional multiple core layout =>
    rw [hm] at h
    exact h

theorem tellable_prefixed (first : Nat) (lead : Text) (inner : Pattern σ) :
    ((prefixed lead inner).member first).Tellable := by
  rw [member]
  match inner.member first with
  | .part false _ => trivial
  | .part true _ => simp [Member.prefixed, Member.refused, Member.Tellable, Layout.Tellable]
  | .composite .. => simp [Member.prefixed, Member.refused, Member.Tellable, Layout.Tellable]

-- the composites among the members have warnings of their own, about patterns within this one
mutual

theorem tellable_stops (first : Nat) (joined : Bool) : (p : Pattern σ) → p.strayParam? = none →
    ∀ stop ∈ p.stops first joined, stop.Tellable
  | literal text, _ => by
    simp only [stops]
    split <;> simp [Stop.Tellable, Member.Tellable]
  | param _, _ => by simp [stops, Stop.Tellable, Member.Tellable]
  | unnamed, _ => by simp [stops, Stop.Tellable, Member.Tellable]
  | modified m inner, h => by
    intro stop hstop
    obtain rfl := List.mem_singleton.mp hstop
    exact tellable_modified (m := m) (tellable_member first inner h)
  | prefixed lead inner, _ => by
    intro stop hstop
    obtain rfl := List.mem_singleton.mp hstop
    exact tellable_prefixed first lead inner
  | concat left right _, h => by
    obtain ⟨hl, hr⟩ := Option.or_eq_none_iff.mp h
    exact List.forall_mem_append.mpr ⟨tellable_stops _ _ left hl, tellable_stops _ _ right hr⟩
  | queryParams previous _, h => by
    obtain ⟨-, hp⟩ := Option.or_eq_none_iff.mp h
    refine List.forall_mem_append.mpr ⟨tellable_stops _ _ previous hp, ?_⟩
    simp [Stop.Tellable]
  | withSchema inner _, h => tellable_stops first joined inner h

theorem tellable_member (first : Nat) : (p : Pattern σ) → p.strayParam? = none →
    (p.member first).Tellable
  | literal _, _ => trivial
  | param _, _ => trivial
  | unnamed, _ => trivial
  | modified m inner, h => tellable_modified (m := m) (tellable_member first inner h)
  | prefixed lead inner, _ => tellable_prefixed first lead inner
  | concat left right glued, h => by
    obtain ⟨hl, hr⟩ := Option.or_eq_none_iff.mp h
    exact Group.tellable_gather h (by simp)
      (List.forall_mem_append.mpr ⟨tellable_stops _ _ left hl, tellable_stops _ _ right hr⟩)
  | queryParams previous entries, h => by
    obtain ⟨-, hp⟩ := Option.or_eq_none_iff.mp h
    refine Group.tellable_gather h (by simp)
      (List.forall_mem_append.mpr ⟨tellable_stops _ _ previous hp, ?_⟩)
    simp [Stop.Tellable]
  | withSchema inner _, h => tellable_member first inner h

end

/-- A pattern with a layout has a matcher and a renderer, both with the steps of the layout. -/
theorem matcher_of_layout {p : Pattern σ} {steps : List Step} (h : p.layout.steps = .ok steps)
    (atEnd : Bool) : p.matcher atEnd = .ok ⟨steps, atEnd⟩ := by
  have hstray := (ready_of_layout h).strayParam?
  have htold : p.layout.Tellable := Group.tellable_gather hstray (by simp) (tellable_stops 0 false p hstray)
  rw [matcher, htold.toldSteps, h]
  rfl

theorem layout_of_matcher {p : Pattern σ} {atEnd : Bool} {m : Matcher} (h : p.matcher atEnd = .ok m) :
    p.layout.steps = .ok m.steps ∧ m.atEnd = atEnd := by
  unfold matcher Layout.toldSteps at h
  split at h
  · cases h
  · cases hsteps : p.layout.steps with
    | error e =>
      rw [hsteps] at h
      cases h
    | ok steps =>
      rw [hsteps] at h
      obtain rfl := Except.ok.inj h
      exact ⟨rfl, rfl⟩

end Pattern

end RoutePattern
