import RoutePattern.Proofs.Cursors
import RoutePattern.Proofs.LaidOut
import RoutePattern.Proofs.Tables

/-!
The captures of steps. A layout takes over the captures of its pattern, in their order, and matching
gives values to no other keys.
-/

namespace RoutePattern

variable {σ : Type}

/-- A required capture needs a value, and a value is one or a list of texts that are not empty. -/
def Capture.Fits (c : Capture) : Option Captured → Prop
  | none => c.optional = true
  | some (.one t) => c.multiple = false ∧ t ≠ []
  | some (.many ts) => c.multiple = true ∧ (∀ t ∈ ts, t ≠ []) ∧ (ts = [] → c.optional = true)

instance (c : Capture) : DecidablePred c.Fits
  | none => inferInstanceAs (Decidable (_ = true))
  | some (.one _) => inferInstanceAs (Decidable (_ ∧ _))
  | some (.many _) => inferInstanceAs (Decidable (_ ∧ _ ∧ _))

theorem Capture.Fits.cases {c : Capture} {captured : Option Captured} (h : c.Fits captured) :
    (captured = none ∧ c.optional = true) ∨
    (∃ t, captured = some (.one t) ∧ c.multiple = false ∧ t ≠ []) ∨
    ∃ ts, captured = some (.many ts) ∧ c.multiple = true ∧ (∀ t ∈ ts, t ≠ []) ∧
      (ts = [] → c.optional = true) := by
  cases captured with
  | none => exact .inl ⟨rfl, h⟩
  | some captured =>
    cases captured with
    | one t => exact .inr (.inl ⟨t, rfl, h⟩)
    | many ts => exact .inr (.inr ⟨ts, rfl, h⟩)

/-- The capture of a part; with `optional` it may be left out. -/
def Part.captured (optional : Bool) : Part → List Capture
  | literal _ _ => []
  | capture c => [⟨c.key, c.lead, c.optional || optional, c.multiple⟩]

theorem Part.map_partCaptures (optional : Bool) (part : Part) :
    (Pattern.captures.partCaptures optional part).map (·.1) = part.captured optional := by
  cases part <;> rfl

mutual

def Step.captures (optional : Bool) : Step → List Capture
  | .single part => part.captured optional
  | .compound parts => parts.flatMap (Part.captured optional)
  | .nested loose steps => stepCaptures (optional || loose) steps
  | .query entries => entries.flatMap fun entry => entry.2.flatMap (Part.captured optional)

def stepCaptures (optional : Bool) : List Step → List Capture
  | [] => []
  | step :: rest => step.captures optional ++ stepCaptures optional rest

end

theorem stepCaptures_append (optional : Bool) (front back : List Step) :
    stepCaptures optional (front ++ back) =
      stepCaptures optional front ++ stepCaptures optional back := by
  induction front with
  | nil => rfl
  | cons step rest ih => simp [stepCaptures, ih]

theorem stepCaptures_singleton (optional : Bool) (step : Step) :
    stepCaptures optional [step] = step.captures optional := by
  simp [stepCaptures]

def Member.captures (optional : Bool) : Member σ → List Capture
  | part _ p => p.captured optional
  | composite loose _ _ layout =>
    match layout.steps with
    | .ok steps => stepCaptures (optional || loose) steps
    | .error _ => []

def Stop.captures (optional : Bool) : Stop σ → List Capture
  | member _ _ m => m.captures optional
  | gap _ => []
  | query _ entries => entries.flatMap fun entry => (entry.2.getD []).flatMap (Part.captured optional)

theorem Member.captures_of_part? {m : Member σ} {part : Part} (optional : Bool)
    (h : m.part? = some part) : m.captures optional = part.captured optional := by
  cases m with
  | part hasLead p =>
    obtain rfl : p = part := Option.some.inj h
    rfl
  | composite => simp [part?] at h

theorem Stop.captures_of_part? {stop : Stop σ} {part : Part} (optional : Bool)
    (h : stop.part? = some part) : stop.captures optional = part.captured optional := by
  cases stop with
  | member joined node m => exact Member.captures_of_part? optional h
  | gap text =>
    obtain rfl := Option.some.inj h
    rfl
  | query => simp [part?] at h

theorem flatMap_of_mapM_eq_some {α β γ : Type} {f : α → Option β} {g : α → List γ} {k : β → List γ}
    (hg : ∀ {x y}, f x = some y → g x = k y) {xs : List α} {ys : List β}
    (h : xs.mapM f = some ys) : xs.flatMap g = ys.flatMap k := by
  induction xs generalizing ys with
  | nil =>
    obtain rfl : [] = ys := Option.some.inj h
    rfl
  | cons x rest ih =>
    rw [List.mapM_cons] at h
    obtain ⟨y, hy, h⟩ := Option.bind_eq_some_iff.mp h
    obtain ⟨others, hrest, h⟩ := Option.bind_eq_some_iff.mp h
    obtain rfl := Option.some.inj h
    rw [List.flatMap_cons, List.flatMap_cons, hg hy, ih hrest]

namespace Group

theorem stepCaptures_segment {members : List (Pattern σ × Member σ)} {steps : List Step}
    (optional : Bool) (h : (segment members).steps = .ok steps) :
    stepCaptures optional steps = members.flatMap fun m => m.2.captures optional := by
  obtain ⟨node, hasLead, part, rfl, rfl⟩ | ⟨node, loose, core, inner, own, rfl, hown, rfl⟩ |
    ⟨parts, hparts, rfl⟩ := steps_segment_ok h
  · simp [stepCaptures, Step.captures, Member.captures]
  · simp [stepCaptures, Step.captures, Member.captures, hown]
  · rw [stepCaptures_singleton, Step.captures]
    exact (flatMap_of_mapM_eq_some (Member.captures_of_part? optional) hparts).symm

theorem stepCaptures_gather {whole : Pattern σ} (optional : Bool) {stops : List (Stop σ)}
    {current : List (Pattern σ × Member σ)} {steps : List Step}
    (h : (layoutAll whole (gather current stops)).steps = .ok steps) :
    stepCaptures optional steps =
      current.flatMap (fun m => m.2.captures optional) ++ stops.flatMap (Stop.captures optional) := by
  have hclose : ∀ {members : List (Pattern σ × Member σ)} {front : List Step},
      (layoutAll whole (close members)).steps = .ok front →
      stepCaptures optional front = members.flatMap fun m => m.2.captures optional := by
    intro members front hfront
    match members with
    | [] =>
      obtain rfl : [] = front := Except.ok.inj hfront
      rfl
    | first :: rest =>
      obtain ⟨own, others, hown, hnil, rfl⟩ := layoutAll_cons_ok.mp hfront
      obtain rfl : [] = others := Except.ok.inj hnil
      rw [List.append_nil, stepCaptures_segment optional hown]
  induction stops generalizing current steps with
  | nil => rw [hclose h, List.flatMap_nil, List.append_nil]
  | cons stop rest ih =>
    cases stop with
    | gap text =>
      obtain ⟨front, back, hfront, hback, rfl⟩ := layoutAll_append_ok.mp h
      simp [stepCaptures_append, hclose hfront, ih hback, Stop.captures]
    | query node entries =>
      obtain ⟨front, back, hfront, hback, rfl⟩ := layoutAll_append_ok.mp h
      obtain ⟨own, others, hown, hothers, rfl⟩ := layoutAll_cons_ok.mp hback
      obtain ⟨out, rfl, rfl⟩ := steps_query_ok hown
      rw [stepCaptures_append, stepCaptures_append, stepCaptures_singleton, hclose hfront, ih hothers]
      simp [Stop.captures, Step.captures, List.flatMap_map]
    | member joined node m =>
      cases joined with
      | true =>
        have hrest := ih h
        rw [hrest]
        simp [Stop.captures]
      | false =>
        obtain ⟨front, back, hfront, hback, rfl⟩ := layoutAll_append_ok.mp h
        simp [stepCaptures_append, hclose hfront, ih hback, Stop.captures]

end Group

namespace Pattern

theorem captures_of_part? (first : Nat) (optional : Bool) : (p : Pattern σ) → {part : Part} →
    (p.member first).part? = some part → (p.captures first optional).map (·.1) = part.captured optional
  | literal _, _, h => by
    obtain rfl := Option.some.inj h
    rfl
  | param _, _, h => by
    obtain rfl := Option.some.inj h
    rfl
  | unnamed, _, h => by
    obtain rfl := Option.some.inj h
    rfl
  | modified m inner, part, h => by
    rw [captures, h]
    exact part.map_partCaptures optional
  | prefixed lead inner, part, h => by
    rw [captures, h]
    exact part.map_partCaptures optional
  | withSchema inner _, _, h => captures_of_part? first optional inner h

theorem captures_modified {first : Nat} {m : Modifier} {inner : Pattern σ} (optional : Bool)
    (ih : (inner.member first).Ready → (inner.member first).captures (optional || m.allowsNone) =
      (inner.captures first (optional || m.allowsNone)).map (·.1))
    (h : ((modified m inner).member first).Ready) :
    ((modified m inner).member first).captures optional =
      ((modified m inner).captures first optional).map (·.1) := by
  cases hm : inner.member first with
  | part hasLead part =>
    have hpart : ((modified m inner).member first).part? =
        some (part.loosen m.allowsNone m.allowsMany) := by
      rw [member, hm]
      rfl
    rw [captures_of_part? first optional _ hpart, Member.captures_of_part? optional hpart]
  | composite loose multiple core layout =>
    have hmember : (modified m inner).member first =
        .composite (loose || m.allowsNone) (multiple || m.allowsMany) core layout := by
      rw [member, hm]
      rfl
    rw [hmember] at h
    obtain ⟨hmultiple, steps, hsteps⟩ := h
    have hinner : (inner.member first).Ready := by
      rw [hm]
      exact ⟨(Bool.or_eq_false_iff.mp hmultiple).1, steps, hsteps⟩
    have ih := ih hinner
    simp only [hm, Member.captures, hsteps] at ih
    have hloose : (optional || (loose || m.allowsNone)) = (optional || m.allowsNone || loose) := by
      cases optional <;> cases loose <;> simp
    rw [hmember, captures, hmember]
    simp only [Member.captures, Member.part?, hsteps, hloose]
    exact ih

theorem captures_prefixed {first : Nat} {lead : Text} {inner : Pattern σ} (optional : Bool)
    (h : ((prefixed lead inner).member first).Ready) :
    ((prefixed lead inner).member first).captures optional =
      ((prefixed lead inner).captures first optional).map (·.1) := by
  obtain ⟨part, hm⟩ := exists_part_of_prefixed h
  have hpart : ((prefixed lead inner).member first).part? = some (part.withLead lead) := by
    rw [member, hm]
    rfl
  rw [captures_of_part? first optional _ hpart, Member.captures_of_part? optional hpart]

-- stops, entries and members are read off one another, so that one induction is for all three
mutual

theorem captures_stops (first : Nat) (joined optional : Bool) : (p : Pattern σ) →
    (∀ stop ∈ p.stops first joined, stop.Ready) →
    (p.stops first joined).flatMap (Stop.captures optional) = (p.captures first optional).map (·.1)
  | literal text, _ => by
    have hnil : ((literal text : Pattern σ).captures first optional).map (·.1) = [] := rfl
    rw [hnil, stops]
    split <;> rfl
  | param _, _ => rfl
  | unnamed, _ => rfl
  | modified m inner, h => by
    rw [stops, List.flatMap_cons, List.flatMap_nil, List.append_nil]
    exact captures_modified optional (captures_member first _ inner) (h _ (List.mem_singleton_self _))
  | prefixed lead inner, h => by
    rw [stops, List.flatMap_cons, List.flatMap_nil, List.append_nil]
    exact captures_prefixed optional (h _ (List.mem_singleton_self _))
  | concat left right glued, h => by
    obtain ⟨hl, hr⟩ := List.forall_mem_append.mp h
    rw [stops, List.flatMap_append, captures_stops first joined optional left hl,
      captures_stops _ glued optional right hr, captures, List.map_append]
  | queryParam key value, h => by
    obtain ⟨-, _, hsteps⟩ := h _ (List.mem_singleton_self _)
    cases hsteps
  | queryParams previous entries, h => by
    obtain ⟨hp, hq⟩ := List.forall_mem_append.mp h
    rw [stops, List.flatMap_append, captures_stops first false optional previous hp, captures,
      List.map_append, List.flatMap_cons, List.flatMap_nil, List.append_nil, Stop.captures,
      captures_entryParts _ optional entries (hq _ (List.mem_singleton_self _))]
  | withSchema inner _, h => captures_stops first joined optional inner h

theorem captures_entryParts (first : Nat) (optional : Bool) : (entries : List (Text × Pattern σ)) →
    (∀ entry ∈ entryParts first entries, entry.2.isSome) →
    ((entryParts first entries).flatMap fun entry =>
      (entry.2.getD []).flatMap (Part.captured optional)) =
    (captures.entryCaptures first optional entries).map (·.1)
  | [], _ => rfl
  | (key, value) :: rest, h => by
    obtain ⟨hvalue, hrest⟩ := List.forall_mem_cons.mp h
    obtain ⟨parts, hparts⟩ := Option.isSome_iff_exists.mp hvalue
    have hparts : (value.stops first false).mapM Stop.part? = some parts := hparts
    have hstops : ∀ stop ∈ value.stops first false, stop.Ready := by
      intro stop hstop
      obtain ⟨part, hpart⟩ := mem_of_mapM_eq_some hparts stop hstop
      exact Stop.ready_of_part? hpart
    have hown : parts.flatMap (Part.captured optional) = (value.captures first optional).map (·.1) := by
      rw [← captures_stops first false optional value hstops]
      exact (flatMap_of_mapM_eq_some (Stop.captures_of_part? optional) hparts).symm
    rw [entryParts, hparts, List.flatMap_cons, captures_entryParts _ optional rest hrest,
      captures.entryCaptures, List.map_append, List.map_map]
    exact congrArg (· ++ _) hown

theorem captures_member (first : Nat) (optional : Bool) : (p : Pattern σ) → (p.member first).Ready →
    (p.member first).captures optional = (p.captures first optional).map (·.1)
  | literal _, _ => rfl
  | param _, _ => rfl
  | unnamed, _ => rfl
  | modified m inner, h => captures_modified optional (captures_member first _ inner) h
  | prefixed lead inner, h => captures_prefixed optional h
  | concat left right glued, h => by
    obtain ⟨-, steps, hsteps⟩ := h
    obtain ⟨hl, hr⟩ := List.forall_mem_append.mp (Group.ready_of_gather hsteps).2
    have hcaptures := Group.stepCaptures_gather optional hsteps
    rw [List.flatMap_nil, List.nil_append, List.flatMap_append,
      captures_stops first false optional left hl, captures_stops _ glued optional right hr] at hcaptures
    rw [captures, List.map_append, ← hcaptures]
    simp [member, Member.captures, hsteps]
  | queryParam key value, h => by
    obtain ⟨-, _, hsteps⟩ := h
    cases hsteps
  | queryParams previous entries, h => by
    obtain ⟨-, steps, hsteps⟩ := h
    obtain ⟨hp, hq⟩ := List.forall_mem_append.mp (Group.ready_of_gather hsteps).2
    have hcaptures := Group.stepCaptures_gather optional hsteps
    rw [List.flatMap_nil, List.nil_append, List.flatMap_append,
      captures_stops first false optional previous hp, List.flatMap_cons, List.flatMap_nil,
      List.append_nil, Stop.captures,
      captures_entryParts _ optional entries (hq _ (List.mem_singleton_self _))] at hcaptures
    rw [captures, List.map_append, ← hcaptures]
    simp [member, Member.captures, hsteps]
  | withSchema inner _, h => captures_member first optional inner h

end

theorem captures_of_layout {p : Pattern σ} {steps : List Step} (h : p.layout.steps = .ok steps) :
    stepCaptures false steps = (p.captures 0 false).map (·.1) := by
  rw [Group.stepCaptures_gather false h, captures_stops 0 false false p (stops_ready_of_layout h)]
  rfl

end Pattern

/-- Parameters that were put together from values of captures. -/
inductive Collected (cs : List Capture) : Params → Prop where
  | nil : Collected cs []
  | single {c : Capture} (hc : c ∈ cs) (captured : Captured) : Collected cs [(c.key, captured)]
  | putAll {first second : Params} : Collected cs first → Collected cs second →
      Collected cs (Table.putAll first second)

namespace Collected

theorem mono {cs ds : List Capture} {params : Params} (h : Collected cs params) (hsub : cs ⊆ ds) :
    Collected ds params := by
  induction h with
  | nil => exact .nil
  | single hc captured => exact .single (hsub hc) captured
  | putAll _ _ ih₁ ih₂ => exact ih₁.putAll ih₂

theorem append {cs ds : List Capture} {first second : Params} (h : Collected cs first)
    (h' : Collected ds second) : Collected (cs ++ ds) (Table.putAll first second) :=
  (h.mono (List.subset_append_left cs ds)).putAll (h'.mono (List.subset_append_right cs ds))

theorem right {ds : List Capture} {params : Params} (cs : List Capture) (h : Collected ds params) :
    Collected (cs ++ ds) params :=
  h.mono (List.subset_append_right cs ds)

theorem mem_keys {cs : List Capture} {params : Params} (h : Collected cs params) :
    ∀ entry ∈ params, entry.1 ∈ cs.map Capture.key := by
  induction h with
  | nil => simp
  | single hc captured =>
    intro entry hentry
    obtain rfl := List.mem_singleton.mp hentry
    exact List.mem_map_of_mem hc
  | putAll _ _ ih₁ ih₂ =>
    intro entry hentry
    rcases Table.mem_keys_putAll.mp (List.mem_map_of_mem hentry) with hkey | hkey
    · obtain ⟨e, he, hkey⟩ := List.mem_map.mp hkey
      exact hkey ▸ ih₁ e he
    · obtain ⟨e, he, hkey⟩ := List.mem_map.mp hkey
      exact hkey ▸ ih₂ e he

theorem nodup_keys {cs : List Capture} {params : Params} (h : Collected cs params) :
    (params.map (·.1)).Nodup := by
  induction h with
  | nil => exact List.nodup_nil
  | single _ _ => exact by simp
  | putAll _ _ ih _ => exact Table.nodup_keys_putAll ih

end Collected

theorem Part.collected_single (optional : Bool) (c : Capture) (captured : Captured) :
    Collected ((Part.capture c).captured optional) [(c.key, captured)] :=
  .single (c := ⟨c.key, c.lead, c.optional || optional, c.multiple⟩) (List.mem_singleton_self _) captured

section Collecting

variable {query : Query} {cursor last : Cursor} {params : Params} (optional : Bool)

theorem Shares.collected {parts : List Part} {text : Text} (h : Shares parts text params) :
    Collected (parts.flatMap (Part.captured optional)) params := by
  induction h with
  | done => exact .nil
  | literal _ _ _ ih => exact ih
  | missing _ _ ih => exact ih
  | absent _ _ ih => exact ih.right _
  | void _ _ ih => exact ih.right _
  | taken _ _ ih => exact (Part.collected_single optional _ _).append ih

/-- What a capture takes, and where it leaves the cursor. -/
theorem matchCapture_cases {c : Capture} (h : matchCapture c cursor = some (params, last)) :
    (∃ captured, c.Fits captured ∧ params = captured.toList.map (c.key, ·)) ∧
      (last = cursor ∨ last = (cursor.strip c.lead.length).advance 1 ∨
        last = (cursor.strip c.lead.length).exhaust) := by
  unfold matchCapture at h
  split at h
  next =>
    split at h
    next ho =>
      obtain ⟨rfl, rfl⟩ := Prod.mk.inj (Option.some.inj h)
      refine ⟨?_, .inl rfl⟩
      cases hm : c.multiple with
      | false => exact ⟨none, ho, by simp⟩
      | true => exact ⟨some (.many []), ⟨hm, by simp, fun _ => ho⟩, by simp⟩
    next => cases h
  next =>
    simp only at h
    split at h
    next hm =>
      split at h
      next => cases h
      next hgiven =>
        obtain ⟨rfl, rfl⟩ := Prod.mk.inj (Option.some.inj h)
        refine ⟨⟨some (.many _), ⟨hm, ?_, ?_⟩, rfl⟩, .inr (.inr rfl)⟩
        · intro t ht
          simpa using (List.mem_filter.mp ht).2
        · intro hnil
          simpa [hnil] using hgiven
    next hm =>
      have hm : c.multiple = false := by simpa using hm
      split at h
      next =>
        split at h
        next ho =>
          obtain ⟨rfl, rfl⟩ := Prod.mk.inj (Option.some.inj h)
          exact ⟨⟨none, ho, rfl⟩, .inr (.inl rfl)⟩
        next => cases h
      next hvalue =>
        obtain ⟨rfl, rfl⟩ := Prod.mk.inj (Option.some.inj h)
        exact ⟨⟨some (.one _), ⟨hm, by simpa using hvalue⟩, rfl⟩, .inr (.inl rfl)⟩

theorem collected_matchCapture {c : Capture} (h : matchCapture c cursor = some (params, last)) :
    Collected ((Part.capture c).captured optional) params := by
  obtain ⟨⟨captured, -, rfl⟩, -⟩ := matchCapture_cases h
  cases captured with
  | none => exact .nil
  | some captured => exact Part.collected_single optional c captured

theorem collected_matchValues {part : Part} {values : List Text}
    (h : matchValues part values = some params) : Collected (part.captured optional) params := by
  cases part with
  | literal text loose =>
    simp only [matchValues] at h
    split at h <;> split at h
    · obtain rfl := Option.some.inj h
      exact .nil
    · cases h
    · obtain rfl := Option.some.inj h
      exact .nil
    · cases h
  | capture c =>
    have hsingle := Part.collected_single optional c
    obtain ⟨bodies, -, h⟩ := Option.bind_eq_some_iff.mp h
    split at h
    · split at h
      · obtain rfl := Option.some.inj h
        split
        · exact hsingle _
        · exact .nil
      · cases h
    · obtain rfl := Option.some.inj h
      exact hsingle _

theorem collected_matchEntry {parts : List Part} {values : List Text}
    (h : matchEntry parts values = some params) :
    Collected (parts.flatMap (Part.captured optional)) params := by
  unfold matchEntry at h
  split at h
  · simpa using collected_matchValues optional h
  · split at h
    · split at h
      · obtain rfl := Option.some.inj h
        exact .nil
      · cases h
    · exact (shares_of_matchText h).collected optional

theorem collected_matchQuery {entries : List (Text × List Part)}
    (h : matchQuery query entries = some params) :
    Collected (entries.flatMap fun entry => entry.2.flatMap (Part.captured optional)) params := by
  induction entries generalizing params with
  | nil =>
    obtain rfl : [] = params := Option.some.inj h
    exact .nil
  | cons entry rest ih =>
    obtain ⟨first, hfirst, h⟩ := Option.bind_eq_some_iff.mp h
    obtain ⟨others, hrest, rfl⟩ := Option.map_eq_some_iff.mp h
    exact (collected_matchEntry optional hfirst).append (ih hrest)

mutual

theorem Step.collected_run (optional : Bool) {cursor last : Cursor} {params : Params} : (step : Step) →
    step.run query cursor = some (params, last) → Collected (step.captures optional) params
  | .single (.literal _ _), h => by
    have hnil : params = [] := by
      simp only [Step.run, matchSingle] at h
      split at h
      · exact (Prod.mk.inj (Option.some.inj h)).1.symm
      · split at h
        · exact (Prod.mk.inj (Option.some.inj h)).1.symm
        · cases h
    rw [hnil]
    exact .nil
  | .single (.capture c), h => collected_matchCapture optional h
  | .compound parts, h => by
    simp only [Step.run, matchCompound] at h
    split at h
    · split at h
      · obtain ⟨rfl, -⟩ := Prod.mk.inj (Option.some.inj h)
        exact .nil
      · cases h
    · obtain ⟨found, hfound, heq⟩ := Option.map_eq_some_iff.mp h
      obtain ⟨rfl, -⟩ := Prod.mk.inj heq
      exact (shares_of_matchText hfound).collected optional
  | .query entries, h => by
    obtain ⟨found, hfound, heq⟩ := Option.map_eq_some_iff.mp h
    obtain ⟨rfl, -⟩ := Prod.mk.inj heq
    exact collected_matchQuery optional hfound
  | .nested loose steps, h => by
    simp only [Step.run] at h
    split at h
    next result hrun =>
      obtain rfl := Option.some.inj h
      exact collected_runSteps (optional || loose) steps hrun
    next =>
      split at h
      · obtain ⟨rfl, -⟩ := Prod.mk.inj (Option.some.inj h)
        exact .nil
      · cases h

theorem collected_runSteps (optional : Bool) {cursor last : Cursor} {params : Params} :
    (steps : List Step) → runSteps query cursor steps = some (params, last) →
    Collected (stepCaptures optional steps) params
  | [], h => by
    obtain ⟨rfl, -⟩ := Prod.mk.inj (Option.some.inj h)
    exact .nil
  | step :: rest, h => by
    obtain ⟨⟨first, next⟩, hstep, h⟩ := Option.bind_eq_some_iff.mp h
    obtain ⟨⟨others, _⟩, hrest, heq⟩ := Option.map_eq_some_iff.mp h
    obtain ⟨rfl, -⟩ := Prod.mk.inj heq
    exact (step.collected_run optional hstep).append (collected_runSteps optional rest hrest)

end

end Collecting

theorem Matcher.run_eq_some {m : Matcher} {query : Query} {cursor last : Cursor} {params : Params} :
    m.run query cursor = some (params, last) ↔
      runSteps query cursor m.steps = some (params, last) ∧ (m.atEnd = true → last.isExhausted = true) := by
  unfold run
  cases runSteps query cursor m.steps with
  | none => simp
  | some result =>
    obtain ⟨own, next⟩ := result
    have hite : (if (m.atEnd && !next.isExhausted) = true then none else some (own, next)) =
          some (params, last) ↔
        some (own, next) = some (params, last) ∧ (m.atEnd = true → next.isExhausted = true) := by
      cases m.atEnd <;> cases next.isExhausted <;> simp
    refine hite.trans (and_congr_right fun h => ?_)
    obtain ⟨-, rfl⟩ := Prod.mk.inj (Option.some.inj h)
    rfl

theorem Matcher.collected_run {m : Matcher} {query : Query} {cursor last : Cursor} {params : Params}
    (h : m.run query cursor = some (params, last)) : Collected (stepCaptures false m.steps) params :=
  collected_runSteps false m.steps (run_eq_some.mp h).1

end RoutePattern
