import RoutePattern.Description
import RoutePattern.Proofs.LaidOut

/-!
Erasure. Schemas are seen neither by the written form of a pattern nor by its layout, wherever they
stand, so that a pattern without its schemas matches and renders as before.
-/

namespace RoutePattern

variable {σ τ : Type}

namespace Pattern

mutual

theorem strayParam?_erase : (p : Pattern σ) →
    (p.erase : Pattern τ).strayParam? = p.strayParam?.map erase
  | literal _ => rfl
  | param _ => rfl
  | unnamed => rfl
  | modified _ inner => strayParam?_erase inner
  | prefixed _ inner => strayParam?_erase inner
  | concat left right _ => by
    simp only [erase, strayParam?, strayParam?_erase left, strayParam?_erase right, Option.map_or]
  | queryParam _ _ => rfl
  | queryParams previous entries => by
    simp only [erase, strayParam?, strayParam?_erase previous, strayInEntries_erase entries,
      Option.map_or]
  | withSchema inner _ => strayParam?_erase inner

theorem strayInEntries_erase : (entries : List (Text × Pattern σ)) →
    strayInEntries (eraseEntries entries : List (Text × Pattern τ)) =
      (strayInEntries entries).map erase
  | [] => rfl
  | (_, value) :: rest => by
    simp only [eraseEntries, strayInEntries, strayParam?_erase value, strayInEntries_erase rest,
      Option.map_or]

end

mutual

theorem body_erase : (p : Pattern σ) → (p.erase : Pattern τ).body = p.body
  | literal _ => rfl
  | param _ => rfl
  | unnamed => rfl
  | modified m inner => by simp only [erase, body, body_erase inner]
  | prefixed lead inner => by simp only [erase, body, body_erase inner]
  | concat left right _ => by simp only [erase, body, body_erase left, body_erase right]
  | queryParam key value => by simp only [erase, body, body_erase value]
  | queryParams previous entries => by
    simp only [erase, body, body_erase previous, entryBodies_erase entries]
  | withSchema inner _ => body_erase inner

theorem entryBodies_erase : (entries : List (Text × Pattern σ)) →
    entryBodies (eraseEntries entries : List (Text × Pattern τ)) = entryBodies entries
  | [] => rfl
  | (_, value) :: rest => by
    simp only [eraseEntries, entryBodies, body_erase value, entryBodies_erase rest]

end

theorem queryBlock?_erase : (p : Pattern σ) →
    (p.erase : Pattern τ).queryBlock? = p.queryBlock?.map eraseEntries
  | literal _ => rfl
  | param _ => rfl
  | unnamed => rfl
  | modified _ _ => rfl
  | prefixed _ _ => rfl
  | concat _ right _ => queryBlock?_erase right
  | queryParam _ _ => rfl
  | queryParams _ _ => rfl
  | withSchema inner _ => queryBlock?_erase inner

theorem path_erase (p : Pattern σ) : (p.erase : Pattern τ).path = p.path := by
  rw [path, path, queryBlock?_erase, body_erase, Option.isSome_map]

mutual

theorem unnamedCount_erase : (p : Pattern σ) → (p.erase : Pattern τ).unnamedCount = p.unnamedCount
  | literal _ => rfl
  | param _ => rfl
  | unnamed => rfl
  | modified _ inner => unnamedCount_erase inner
  | prefixed _ inner => unnamedCount_erase inner
  | concat left right _ => by
    simp only [erase, unnamedCount, unnamedCount_erase left, unnamedCount_erase right]
  | queryParam _ _ => rfl
  | queryParams previous entries => by
    simp only [erase, unnamedCount, unnamedCount_erase previous, unnamedInEntries_erase entries]
  | withSchema inner _ => unnamedCount_erase inner

theorem unnamedInEntries_erase : (entries : List (Text × Pattern σ)) →
    unnamedInEntries (eraseEntries entries : List (Text × Pattern τ)) = unnamedInEntries entries
  | [] => rfl
  | (_, value) :: rest => by
    simp only [eraseEntries, unnamedInEntries, unnamedCount_erase value, unnamedInEntries_erase rest]

end

theorem unnamedInPath_erase : (p : Pattern σ) →
    (p.erase : Pattern τ).unnamedInPath = p.unnamedInPath
  | literal _ => rfl
  | param _ => rfl
  | unnamed => rfl
  | modified _ inner => unnamedInPath_erase inner
  | prefixed _ inner => unnamedInPath_erase inner
  | concat left right _ => by
    simp only [erase, unnamedInPath, unnamedInPath_erase left, unnamedInPath_erase right]
  | queryParam _ _ => rfl
  | queryParams previous _ => unnamedInPath_erase previous
  | withSchema inner _ => unnamedInPath_erase inner

theorem templateBody_erase (first : Nat) : (p : Pattern σ) →
    (p.erase : Pattern τ).templateBody first = p.templateBody first
  | literal _ => rfl
  | param _ => rfl
  | unnamed => rfl
  | modified _ inner => templateBody_erase first inner
  | prefixed lead inner => by simp only [erase, templateBody, templateBody_erase first inner]
  | concat left right _ => by
    simp only [erase, templateBody, unnamedInPath_erase left, templateBody_erase first left,
      templateBody_erase (first + left.unnamedInPath) right]
  | queryParam _ _ => rfl
  | queryParams previous _ => templateBody_erase first previous
  | withSchema inner _ => templateBody_erase first inner

theorem template_erase (p : Pattern σ) : (p.erase : Pattern τ).template = p.template := by
  rw [template, template, templateBody_erase]

theorem strayInPath?_erase : (p : Pattern σ) →
    (p.erase : Pattern τ).strayInPath? = p.strayInPath?.map erase
  | literal _ => rfl
  | param _ => rfl
  | unnamed => rfl
  | modified _ inner => strayInPath?_erase inner
  | prefixed _ inner => strayInPath?_erase inner
  | concat left right _ => by
    simp only [erase, strayInPath?, strayInPath?_erase left, strayInPath?_erase right, Option.map_or]
  | queryParam _ _ => rfl
  | queryParams previous _ => strayInPath?_erase previous
  | withSchema inner _ => strayInPath?_erase inner

theorem strayInPath?_eq_none : (p : Pattern σ) → p.strayParam? = none → p.strayInPath? = none
  | literal _, _ => rfl
  | param _, _ => rfl
  | unnamed, _ => rfl
  | modified _ inner, h => strayInPath?_eq_none inner h
  | prefixed _ inner, h => strayInPath?_eq_none inner h
  | concat left right _, h => by
    obtain ⟨hl, hr⟩ := Option.or_eq_none_iff.mp h
    exact Option.or_eq_none_iff.mpr ⟨strayInPath?_eq_none left hl, strayInPath?_eq_none right hr⟩
  | queryParam _ _, h => by cases h
  | queryParams previous _, h => strayInPath?_eq_none previous (Option.or_eq_none_iff.mp h).2
  | withSchema inner _, h => strayInPath?_eq_none inner h

end Pattern

def LayoutError.erase : LayoutError σ → LayoutError τ
  | fault f => fault f
  | unwritable stray => unwritable stray.erase

theorem LayoutError.repeated_erase (core : Pattern σ) :
    (repeated core.erase : LayoutError τ) = (repeated core).erase := by
  rw [repeated, repeated, Pattern.strayParam?_erase, Pattern.path_erase]
  cases core.strayParam? <;> rfl

def RepetitionWarning.erase (w : RepetitionWarning σ) : RepetitionWarning τ :=
  ⟨w.repetition.erase, w.whole.erase⟩

namespace Layout

def erase (l : Layout σ) : Layout τ :=
  ⟨l.warnings.map RepetitionWarning.erase, l.steps.mapError LayoutError.erase⟩

theorem append_erase (first second : Layout σ) :
    ((first.append second).erase : Layout τ) = first.erase.append second.erase := by
  obtain ⟨ws, steps⟩ := first
  obtain ⟨vs, others⟩ := second
  cases steps with
  | error e => rfl
  | ok steps => cases others <;> simp [append, erase, Except.map, Except.mapError]

end Layout

namespace Member

def erase : Member σ → Member τ
  | part hasLead p => part hasLead p
  | composite optional multiple core layout => composite optional multiple core.erase layout.erase

theorem modified_erase (m : Modifier) (member : Member σ) :
    ((member.modified m).erase : Member τ) = member.erase.modified m := by
  cases member <;> rfl

theorem prefixed_erase (lead : Text) (whole : Pattern σ) (member : Member σ) :
    ((member.prefixed lead whole).erase : Member τ) = member.erase.prefixed lead whole.erase := by
  cases member with
  | part hasLead p => cases hasLead <;> rfl
  | composite => rfl

theorem part?_erase (member : Member σ) : (member.erase : Member τ).part? = member.part? := by
  cases member <;> rfl

end Member

namespace Stop

def erase : Stop σ → Stop τ
  | member joined node m => member joined node.erase m.erase
  | gap text => gap text
  | query node entries => query node.erase entries

theorem part?_erase (stop : Stop σ) : (stop.erase : Stop τ).part? = stop.part? := by
  cases stop with
  | member joined node m => exact m.part?_erase
  | gap text => rfl
  | query node entries => rfl

end Stop

namespace Group

def eraseMember (m : Pattern σ × Member σ) : Pattern τ × Member τ := (m.1.erase, m.2.erase)

def erase : Group σ → Group τ
  | segment members => segment (members.map eraseMember)
  | query node entries => query node.erase entries

theorem isSegment_erase (g : Group σ) : (g.erase : Group τ).isSegment = g.isSegment := by
  cases g <;> rfl

theorem close_erase (members : List (Pattern σ × Member σ)) :
    (close (members.map eraseMember) : List (Group τ)) = (close members).map erase := by
  cases members <;> rfl

theorem gather_erase (stops : List (Stop σ)) (current : List (Pattern σ × Member σ)) :
    (gather (current.map eraseMember) (stops.map Stop.erase) : List (Group τ)) =
      (gather current stops).map erase := by
  induction stops generalizing current with
  | nil => exact close_erase current
  | cons stop rest ih =>
    have hnil : (gather [] (rest.map Stop.erase) : List (Group τ)) = (gather [] rest).map erase := ih []
    cases stop with
    | gap text => simp [gather, Stop.erase, close_erase, hnil]
    | query node entries => simp [gather, Stop.erase, close_erase, hnil, erase]
    | member joined node m =>
      cases joined with
      | false =>
        have h := ih [(node, m)]
        simp only [List.map_cons, List.map_nil, eraseMember] at h
        simp [gather, Stop.erase, close_erase, h]
      | true =>
        have h := ih (current ++ [(node, m)])
        simp only [List.map_append, List.map_cons, List.map_nil, eraseMember] at h
        simpa [gather, Stop.erase, eraseMember] using h

theorem layoutSingle_erase (whole : Pattern σ) (last : Bool) (node : Pattern σ) (m : Member σ) :
    (layoutSingle whole.erase last node.erase m.erase : Layout τ) =
      (layoutSingle whole last node m).erase := by
  cases m with
  | part hasLead p =>
    simp only [layoutSingle, Member.erase, Layout.erase]
    split <;> rfl
  | composite optional multiple core layout =>
    cases multiple with
    | true => simp [layoutSingle, Member.erase, Layout.erase, Except.mapError, LayoutError.repeated_erase]
    | false =>
      obtain ⟨ws, steps⟩ := layout
      cases steps <;> rfl

theorem layoutEntries_erase (entries : List (Text × Option (List Part))) :
    layoutEntries (σ := τ) entries =
      (layoutEntries (σ := σ) entries).mapError LayoutError.erase := by
  induction entries with
  | nil => rfl
  | cons entry rest ih =>
    obtain ⟨key, parts⟩ := entry
    cases parts with
    | none => rfl
    | some parts =>
      simp only [layoutEntries, ih]
      cases layoutEntries (σ := σ) rest <;> rfl

theorem layout_erase (whole : Pattern σ) (last : Bool) (g : Group σ) :
    ((g.erase : Group τ).layout whole.erase last) = (g.layout whole last).erase := by
  cases g with
  | query node entries =>
    simp only [erase, layout, layoutEntries_erase (σ := σ) (τ := τ), Layout.erase]
    cases layoutEntries (σ := σ) entries <;> rfl
  | segment members =>
    rcases members with _ | ⟨first, _ | ⟨second, rest⟩⟩
    · rfl
    · exact layoutSingle_erase whole last first.1 first.2
    · have hparts : ((first :: second :: rest).map (eraseMember (τ := τ))).mapM (fun m => m.2.part?) =
          (first :: second :: rest).mapM fun m => m.2.part? := by
        rw [List.mapM_map]
        exact congrArg (List.mapM · _) (funext fun m => m.2.part?_erase)
      simp only [List.map_cons] at hparts
      simp only [erase, List.map_cons, layout, hparts]
      cases (first :: second :: rest).mapM fun m => m.2.part? <;> rfl

theorem layoutAll_erase (whole : Pattern σ) (gs : List (Group σ)) :
    (layoutAll whole.erase (gs.map erase) : Layout τ) = (layoutAll whole gs).erase := by
  induction gs with
  | nil => rfl
  | cons g rest ih =>
    have hlast : (rest.map (erase (τ := τ))).any isSegment = rest.any isSegment := by
      simp [List.any_map, Function.comp_def, isSegment_erase]
    simp only [List.map_cons, layoutAll, ih, hlast, layout_erase, Layout.append_erase]

end Group

namespace Pattern

-- one induction for stops, entries and members, which are read off one another
mutual

theorem stops_erase (first : Nat) (joined : Bool) : (p : Pattern σ) →
    (p.erase : Pattern τ).stops first joined = (p.stops first joined).map Stop.erase
  | literal text => by
    simp only [erase, stops]
    split <;> rfl
  | param _ => rfl
  | unnamed => rfl
  | modified m inner => by
    simp [erase, stops, Stop.erase, member_erase first inner, Member.modified_erase]
  | prefixed lead inner => by
    simp [erase, stops, Stop.erase, member_erase first inner, Member.prefixed_erase]
  | concat left right glued => by
    simp [erase, stops, unnamedCount_erase, stops_erase first joined left,
      stops_erase (first + left.unnamedCount) glued right]
  | queryParam key value => rfl
  | queryParams previous entries => by
    simp [erase, stops, unnamedCount_erase, stops_erase first false previous,
      entryParts_erase (first + previous.unnamedCount) entries, Stop.erase]
  | withSchema inner _ => stops_erase first joined inner

theorem entryParts_erase (first : Nat) : (entries : List (Text × Pattern σ)) →
    entryParts first (eraseEntries entries : List (Text × Pattern τ)) = entryParts first entries
  | [] => rfl
  | (key, value) :: rest => by
    have hparts : ((value.erase : Pattern τ).stops first false).mapM Stop.part? =
        (value.stops first false).mapM Stop.part? := by
      rw [stops_erase first false value, List.mapM_map]
      exact congrArg (List.mapM · _) (funext Stop.part?_erase)
    simp only [eraseEntries, entryParts, hparts, unnamedCount_erase,
      entryParts_erase (first + value.unnamedCount) rest]

theorem member_erase (first : Nat) : (p : Pattern σ) →
    (p.erase : Pattern τ).member first = (p.member first).erase
  | literal _ => rfl
  | param _ => rfl
  | unnamed => rfl
  | modified m inner => by simp [erase, member, member_erase first inner, Member.modified_erase]
  | prefixed lead inner => by
    simp [erase, member, member_erase first inner, Member.prefixed_erase]
  | concat left right glued => by
    have hgather := Group.gather_erase (τ := τ)
      (left.stops first false ++ right.stops (first + left.unnamedCount) glued) []
    have hlayout := Group.layoutAll_erase (τ := τ) (concat left right glued) (Group.gather []
      (left.stops first false ++ right.stops (first + left.unnamedCount) glued))
    simp only [List.map_nil, List.map_append] at hgather
    simp only [erase] at hlayout
    simp [erase, member, unnamedCount_erase, stops_erase first false left,
      stops_erase (first + left.unnamedCount) glued right, hgather, hlayout, Member.erase]
  | queryParam _ _ => rfl
  | queryParams previous entries => by
    have hgather := Group.gather_erase (τ := τ) (previous.stops first false ++
      [.query (queryParams previous entries)
        (entryParts (first + previous.unnamedCount) entries)]) []
    have hlayout := Group.layoutAll_erase (τ := τ) (queryParams previous entries) (Group.gather []
      (previous.stops first false ++
        [.query (queryParams previous entries)
          (entryParts (first + previous.unnamedCount) entries)]))
    simp only [List.map_nil, List.map_append, List.map_cons, Stop.erase, erase] at hgather
    simp only [erase] at hlayout
    simp [erase, member, unnamedCount_erase, stops_erase first false previous,
      entryParts_erase (first + previous.unnamedCount) entries, hgather, hlayout, Member.erase]
  | withSchema inner _ => member_erase first inner

end

theorem layout_erase (p : Pattern σ) : (p.erase : Pattern τ).layout = p.layout.erase := by
  have hgather := Group.gather_erase (τ := τ) (p.stops 0 false) []
  rw [List.map_nil] at hgather
  rw [layout, groups, stops_erase, hgather, Group.layoutAll_erase]
  rfl

theorem part?_member_erase (first : Nat) (p : Pattern σ) :
    ((p.erase : Pattern τ).member first).part? = (p.member first).part? := by
  rw [member_erase, Member.part?_erase]

mutual

theorem captures_erase (first : Nat) (optional : Bool) : (p : Pattern σ) →
    (p.erase : Pattern τ).captures first optional = p.captures first optional
  | literal _ => rfl
  | param _ => rfl
  | unnamed => rfl
  | modified m inner => by
    have hpart : ((modified m inner.erase : Pattern τ).member first).part? =
        ((modified m inner).member first).part? := part?_member_erase first (modified m inner)
    rw [erase, captures, captures, hpart, captures_erase first _ inner]
  | prefixed lead inner => by
    have hpart : ((prefixed lead inner.erase : Pattern τ).member first).part? =
        ((prefixed lead inner).member first).part? := part?_member_erase first (prefixed lead inner)
    rw [erase, captures, captures, hpart, captures_erase first _ inner]
  | concat left right _ => by
    simp only [erase, captures, unnamedCount_erase, captures_erase first optional left,
      captures_erase (first + left.unnamedCount) optional right]
  | queryParam _ _ => rfl
  | queryParams previous entries => by
    simp only [erase, captures, unnamedCount_erase, captures_erase first optional previous,
      entryCaptures_erase (first + previous.unnamedCount) optional entries]
  | withSchema inner _ => captures_erase first optional inner

theorem entryCaptures_erase (first : Nat) (optional : Bool) : (entries : List (Text × Pattern σ)) →
    captures.entryCaptures first optional (eraseEntries entries : List (Text × Pattern τ)) =
      captures.entryCaptures first optional entries
  | [] => rfl
  | (_, value) :: rest => by
    simp only [eraseEntries, captures.entryCaptures, unnamedCount_erase,
      captures_erase first optional value,
      entryCaptures_erase (first + value.unnamedCount) optional rest]

end

/-- What can be laid out can still be laid out without its schemas, in the same steps. -/
theorem layout_steps_erase {p : Pattern σ} {steps : List Step} (h : p.layout.steps = .ok steps) :
    (p.erase : Pattern τ).layout.steps = .ok steps := by
  rw [layout_erase, Layout.erase, h]
  rfl

/-- A pattern that can be matched and rendered is the same without its schemas: it is written alike,
it matches and renders by the same steps, so that no segments, query or values tell the two apart, and
it has the same captures and the same path template. -/
theorem erase_unseen {p : Pattern Schema} {atEnd : Bool} {m : Matcher} {r : Renderer}
    (hm : p.matcher atEnd = .ok m) (hr : p.renderer = .ok r) :
    let bare : Pattern Schema := p.erase
    (∃ text, p.path? = .ok text ∧ bare.path? = .ok text) ∧
    (∀ ending, ∃ n, p.matcher ending = .ok n ∧ bare.matcher ending = .ok n) ∧
    bare.renderer = .ok r ∧
    bare.captures 0 false = p.captures 0 false ∧
    ∃ text, ∀ ending, Route.template? ⟨p, ending⟩ = .ok text ∧
      Route.template? ⟨bare, ending⟩ = .ok text := by
  intro bare
  obtain ⟨hsteps, -⟩ := layout_of_matcher hm
  have hbare : bare.layout.steps = .ok m.steps := layout_steps_erase hsteps
  have hstray : p.strayParam? = none := (ready_of_layout hsteps).strayParam?
  have hpath : p.strayInPath? = none := strayInPath?_eq_none p hstray
  refine ⟨⟨p.path, ?_, ?_⟩, fun ending => ?_, ?_, captures_erase 0 false p, p.template,
    fun ending => ⟨?_, ?_⟩⟩
  · rw [path?, hstray]
  · rw [path?, strayParam?_erase, hstray, path_erase]
    rfl
  · exact ⟨_, matcher_of_layout hsteps ending, matcher_of_layout hbare ending⟩
  · rw [renderer, hsteps] at hr
    rw [renderer, hbare, captures_erase]
    exact hr
  · rw [Route.template?, hpath]
  · rw [Route.template?, strayInPath?_erase, hpath, template_erase]
    rfl

/-- Schemas under and over modifiers, in a composite, under a lead and in a query value. -/
theorem erase_unseen_nested :
    let s : Schema := .struct "S" []
    let p : Pattern Schema := .withSchema (.queryParams
      (.concat
        (.modified .optional (.withSchema (.concat (.literal "v") (.withSchema .unnamed s) false) s))
        (.withSchema (.prefixed "-" (.modified .optional (.withSchema .unnamed s))) s) false)
      [("q", .withSchema (.modified .zeroOrMore (.withSchema .unnamed s)) s)]) s
    let bare : Pattern Schema := .queryParams
      (.concat (.modified .optional (.concat (.literal "v") .unnamed false))
        (.prefixed "-" (.modified .optional .unnamed)) false)
      [("q", .modified .zeroOrMore .unnamed)]
    p.erase = bare ∧ (∃ text, p.path? = .ok text ∧ bare.path? = .ok text) ∧
      (∃ m, p.matcher true = .ok m ∧ bare.matcher true = .ok m) ∧
      (∃ r, p.renderer = .ok r ∧ bare.renderer = .ok r) ∧
      bare.captures 0 false = p.captures 0 false := by
  intro s p bare
  have hm : p.matcher true = .ok
      ⟨[.nested true [.single (.literal "v" false), .single (.capture ⟨.index 0, [], false, false⟩)],
        .single (.capture ⟨.index 1, "-", true, false⟩),
        .query [("q", [.capture ⟨.index 2, [], true, true⟩])]], true⟩ := by rfl
  have hr : p.renderer = .ok
      ⟨[.nested true [.single (.literal "v" false), .single (.capture ⟨.index 0, [], false, false⟩)],
        .single (.capture ⟨.index 1, "-", true, false⟩),
        .query [("q", [.capture ⟨.index 2, [], true, true⟩])]], false⟩ := by rfl
  obtain ⟨hpath, hmatcher, hrenderer, hcaptures, -⟩ := erase_unseen hm hr
  exact ⟨by rfl, hpath, hmatcher true, ⟨_, hr, hrenderer⟩, hcaptures⟩

end Pattern

end RoutePattern
