import RoutePattern.Proofs.StepCaptures

/-!
Matching steps in a row. The steps behind others go on where these leave the cursor, and steps whose
positions were moved up give their values to the positions moved up.
-/

namespace RoutePattern

theorem Key.shift_injective (count : Nat) : Function.Injective (Key.shift count) := by
  intro k l h
  cases k <;> cases l <;> simp_all [Key.shift]

def shiftParams (count : Nat) (params : Params) : Params :=
  params.map fun entry => (entry.1.shift count, entry.2)

theorem putAll_shiftParams (count : Nat) (first second : Params) :
    Table.putAll (shiftParams count first) (shiftParams count second) =
      shiftParams count (Table.putAll first second) := by
  have hkeys : ∀ k l : Key, (k.shift count == l.shift count) = (k == l) := fun k l => by
    rw [Bool.eq_iff_iff, beq_iff_eq, beq_iff_eq, (Key.shift_injective count).eq_iff]
  exact Table.putAll_map hkeys id first second

section Shifting

variable (count : Nat)

theorem nextLeading_shift (parts : List Part) :
    nextLeading (parts.map (Part.shift count)) = nextLeading parts := by
  match parts with
  | [] => rfl
  | .literal _ _ :: _ => rfl
  | .capture _ :: _ => rfl

theorem isOptional_shift (part : Part) : (part.shift count).isOptional = part.isOptional := by
  cases part <;> rfl

theorem all_isOptional_shift (parts : List Part) :
    (parts.map (Part.shift count)).all Part.isOptional = parts.all Part.isOptional := by
  simp [List.all_map, Function.comp_def, isOptional_shift]

theorem matchText_shift (parts : List Part) (text : Text) :
    matchText (parts.map (Part.shift count)) text = (matchText parts text).map (shiftParams count) := by
  induction parts generalizing text with
  | nil =>
    simp only [List.map_nil, matchText]
    split <;> rfl
  | cons part rest ih =>
    cases part with
    | literal literal loose =>
      simp only [List.map_cons, Part.shift, matchText]
      split
      · exact ih _
      · split
        · exact ih _
        · rfl
    | capture c =>
      simp only [List.map_cons, Part.shift, matchText, nextLeading_shift]
      split
      · split
        · exact ih _
        · rfl
      · split
        · split
          · exact ih _
          · rfl
        · rw [ih, Option.map_map, Option.map_map]
          exact congrArg (Option.map · _) (funext fun params =>
            putAll_shiftParams count [(c.key, _)] params)

theorem matchCapture_shift (c : Capture) (cursor : Cursor) :
    matchCapture ⟨c.key.shift count, c.lead, c.optional, c.multiple⟩ cursor =
      (matchCapture c cursor).map (Prod.map (shiftParams count) id) := by
  unfold matchCapture
  cases cursor.head?.bind (Text.after? c.lead) with
  | none =>
    simp only
    split
    · split <;> rfl
    · rfl
  | some body =>
    simp only
    split
    · split <;> rfl
    · split
      · split <;> rfl
      · rfl

theorem matchValues_shift (part : Part) (values : List Text) :
    matchValues (part.shift count) values = (matchValues part values).map (shiftParams count) := by
  cases part with
  | literal text loose =>
    simp only [Part.shift, matchValues]
    split <;> split <;> rfl
  | capture c =>
    simp only [Part.shift, matchValues]
    cases values.mapM (Text.after? c.lead) with
    | none => rfl
    | some bodies =>
      simp only [Option.bind_some]
      split
      · split
        · split <;> rfl
        · rfl
      · rfl

theorem matchEntry_shift (parts : List Part) (values : List Text) :
    matchEntry (parts.map (Part.shift count)) values =
      (matchEntry parts values).map (shiftParams count) := by
  have hnone : ∀ ps : List Part,
      (if (ps.map (Part.shift count)).all Part.isOptional then some [] else none) =
        (if ps.all Part.isOptional then some ([] : Params) else none).map (shiftParams count) := by
    intro ps
    rw [all_isOptional_shift]
    split <;> rfl
  cases parts with
  | nil =>
    cases values with
    | nil => exact hnone []
    | cons value _ => exact matchText_shift count [] value
  | cons first rest =>
    cases rest with
    | nil => exact matchValues_shift count first values
    | cons second rest =>
      cases values with
      | nil => exact hnone (first :: second :: rest)
      | cons value _ => exact matchText_shift count (first :: second :: rest) value

theorem matchQuery_shift (query : Query) (entries : List (Text × List Part)) :
    matchQuery query (entries.map fun entry => (entry.1, entry.2.map (Part.shift count))) =
      (matchQuery query entries).map (shiftParams count) := by
  induction entries with
  | nil => rfl
  | cons entry rest ih =>
    simp only [List.map_cons, matchQuery, ih, matchEntry_shift]
    cases matchEntry entry.2 (query.all entry.1) with
    | none => rfl
    | some first =>
      cases matchQuery query rest with
      | none => rfl
      | some others => exact congrArg some (putAll_shiftParams count first others)

mutual

theorem Step.run_shift (query : Query) (cursor : Cursor) : (step : Step) →
    (step.shift count).run query cursor =
      (step.run query cursor).map (Prod.map (shiftParams count) id)
  | .single (.literal text loose) => by
    simp only [Step.shift, Part.shift, Step.run, matchSingle]
    split
    · rfl
    · split <;> rfl
  | .single (.capture c) => matchCapture_shift count c cursor
  | .compound parts => by
    simp only [Step.shift, Step.run, matchCompound, all_isOptional_shift, matchText_shift]
    split
    · split <;> rfl
    · rw [Option.map_map, Option.map_map]
      rfl
  | .query entries => by
    simp only [Step.shift, Step.run, matchQuery_shift, Option.map_map]
    rfl
  | .nested loose steps => by
    simp only [Step.shift, Step.run, runSteps_shift query cursor steps]
    cases runSteps query cursor steps with
    | some result => rfl
    | none => cases loose <;> rfl

theorem runSteps_shift (query : Query) (cursor : Cursor) : (steps : List Step) →
    runSteps query cursor (shiftSteps count steps) =
      (runSteps query cursor steps).map (Prod.map (shiftParams count) id)
  | [] => rfl
  | step :: rest => by
    simp only [shiftSteps, runSteps, Step.run_shift query cursor step]
    cases step.run query cursor with
    | none => rfl
    | some result =>
      obtain ⟨first, next⟩ := result
      simp only [Option.map_some, Option.bind_some, Prod.map, id, runSteps_shift query next rest]
      cases runSteps query next rest with
      | none => rfl
      | some result =>
        obtain ⟨others, last⟩ := result
        exact congrArg some (Prod.ext (putAll_shiftParams count first others) rfl)

end

mutual

theorem Step.readsSegment?_shift (query : Query) : (step : Step) →
    (step.shift count).readsSegment? query = step.readsSegment? query
  | .single _ => rfl
  | .compound _ => rfl
  | .query entries => by
    simp only [Step.shift, Step.readsSegment?, matchQuery_shift, Option.map_map]
    rfl
  | .nested loose steps => by
    simp only [Step.shift, Step.readsSegment?, readSegment?_shift query steps]

theorem readSegment?_shift (query : Query) : (steps : List Step) →
    readSegment? query (shiftSteps count steps) = readSegment? query steps
  | [] => rfl
  | step :: rest => by
    simp only [shiftSteps, readSegment?, Step.readsSegment?_shift query step,
      readSegment?_shift query rest]

end

end Shifting

theorem runSteps_of_run {query : Query} {cursor next : Cursor} {first : Params} {step : Step}
    (rest : List Step) (h : step.run query cursor = some (first, next)) :
    runSteps query cursor (step :: rest) =
      (runSteps query next rest).map fun (params, last) => (Table.putAll first params, last) := by
  rw [runSteps, h]
  rfl

theorem runSteps_append (query : Query) (cursor : Cursor) (front back : List Step) :
    runSteps query cursor (front ++ back) =
      (runSteps query cursor front).bind fun (first, next) =>
        (runSteps query next back).map fun (second, last) => (Table.putAll first second, last) := by
  induction front generalizing cursor with
  | nil =>
    rw [List.nil_append]
    simp only [runSteps, Option.bind_some]
    cases hback : runSteps query cursor back with
    | none => rfl
    | some result =>
      obtain ⟨second, last⟩ := result
      have hnil : Table.putAll [] second = second :=
        Table.putAll_nil (collected_runSteps false back hback).nodup_keys
      rw [Option.map_some, hnil]
  | cons step rest ih =>
    rw [List.cons_append, runSteps, runSteps]
    cases step.run query cursor with
    | none => rfl
    | some result =>
      obtain ⟨own, next⟩ := result
      simp only [Option.bind_some, ih]
      cases hrest : runSteps query next rest with
      | none => rfl
      | some result =>
        obtain ⟨others, between⟩ := result
        have hassoc : ∀ second : Params, Table.putAll own (Table.putAll others second) =
            Table.putAll (Table.putAll own others) second := fun second =>
          Table.putAll_putAll (collected_runSteps false rest hrest).nodup_keys
        simp only [Option.bind_some, Option.map_some, Option.map_map, Function.comp_def, hassoc]

theorem readSegment?_append (query : Query) (front back : List Step) :
    readSegment? query (front ++ back) =
      (readSegment? query front).bind fun reads =>
        if reads then some true else readSegment? query back := by
  induction front with
  | nil => rfl
  | cons step rest ih =>
    rw [List.cons_append, readSegment?, readSegment?]
    cases step.readsSegment? query with
    | none => rfl
    | some reads =>
      cases reads with
      | true => rfl
      | false => simpa using ih

mutual

theorem Step.run_eq_none (query : Query) (cursor : Cursor) : (step : Step) →
    step.readsSegment? query = none → step.run query cursor = none
  | .single _, h => by cases h
  | .compound _, h => by cases h
  | .query entries, h => by
    have hquery : matchQuery query entries = none := Option.map_eq_none_iff.mp h
    rw [Step.run, hquery]
    rfl
  | .nested loose steps, h => by
    rw [Step.readsSegment?] at h
    cases hreads : readSegment? query steps with
    | some reads => simp [hreads] at h
    | none =>
      cases loose with
      | true => simp [hreads] at h
      | false =>
        rw [Step.run, runSteps_eq_none query cursor steps hreads]
        rfl

theorem runSteps_eq_none (query : Query) (cursor : Cursor) : (steps : List Step) →
    readSegment? query steps = none → runSteps query cursor steps = none
  | [], h => by cases h
  | step :: rest, h => by
    rw [readSegment?] at h
    cases hstep : step.readsSegment? query with
    | none =>
      rw [runSteps, Step.run_eq_none query cursor step hstep]
      rfl
    | some reads =>
      cases reads with
      | true => simp [hstep] at h
      | false =>
        have hrest : readSegment? query rest = none := by simpa [hstep] using h
        cases hrun : step.run query cursor with
        | none =>
          rw [runSteps, hrun]
          rfl
        | some result =>
          obtain ⟨first, next⟩ := result
          rw [runSteps_of_run rest hrun, runSteps_eq_none query next rest hrest]
          rfl

end

mutual

theorem Step.run_of_reads_none {query : Query} (cursor : Cursor) : (step : Step) →
    step.readsSegment? query = some false → ∃ params, step.run query cursor = some (params, cursor)
  | .single _, h => by cases h
  | .compound _, h => by cases h
  | .query entries, h => by
    obtain ⟨params, hquery, -⟩ := Option.map_eq_some_iff.mp h
    exact ⟨params, by rw [Step.run, hquery]; rfl⟩
  | .nested loose steps, h => by
    rw [Step.readsSegment?] at h
    cases hreads : readSegment? query steps with
    | some reads =>
      obtain rfl : reads = false := by simpa [hreads] using h
      obtain ⟨params, hrun⟩ := runSteps_of_reads_none cursor steps hreads
      exact ⟨params, by rw [Step.run, hrun]⟩
    | none =>
      cases loose with
      | false => simp [hreads] at h
      | true => exact ⟨[], by rw [Step.run, runSteps_eq_none query cursor steps hreads]; rfl⟩

theorem runSteps_of_reads_none {query : Query} (cursor : Cursor) : (steps : List Step) →
    readSegment? query steps = some false → ∃ params, runSteps query cursor steps = some (params, cursor)
  | [], _ => ⟨[], rfl⟩
  | step :: rest, h => by
    rw [readSegment?] at h
    cases hstep : step.readsSegment? query with
    | none => simp [hstep] at h
    | some reads =>
      cases reads with
      | true => simp [hstep] at h
      | false =>
        have hrest : readSegment? query rest = some false := by simpa [hstep] using h
        obtain ⟨first, hfirst⟩ := Step.run_of_reads_none cursor step hstep
        obtain ⟨others, hothers⟩ := runSteps_of_reads_none cursor rest hrest
        exact ⟨Table.putAll first others, by rw [runSteps_of_run rest hfirst, hothers]; rfl⟩

end

namespace Cursor

theorem isBefore_eq_false_iff (c : Cursor) :
    c.isBefore = false ↔ 0 ≤ c.index ∨ c.index.natAbs ≤ c.segments.length := by
  unfold isBefore placeOf
  split
  · simp [*]
  · split <;> simp [*]

theorem isBefore_advance {c : Cursor} {count : Int} (hcount : 0 ≤ count) (h : c.isBefore = false) :
    (c.advance count).isBefore = false := by
  rw [isBefore_eq_false_iff] at h ⊢
  simp only [advance]
  omega

theorem isBefore_strip (c : Cursor) (count : Int) : (c.strip count).isBefore = c.isBefore := rfl

theorem isBefore_exhaust (c : Cursor) : c.exhaust.isBefore = false := by
  rw [isBefore_eq_false_iff]
  simp only [exhaust]
  omega

end Cursor

theorem isBefore_matchCapture {c : Capture} {cursor last : Cursor} {params : Params}
    (h : matchCapture c cursor = some (params, last)) (hcursor : cursor.isBefore = false) :
    last.isBefore = false := by
  obtain ⟨-, rfl | rfl | rfl⟩ := matchCapture_cases h
  · exact hcursor
  · exact Cursor.isBefore_advance (by decide) ((cursor.isBefore_strip _).trans hcursor)
  · exact Cursor.isBefore_exhaust _

mutual

/-- A match never moves the cursor before the segments. -/
theorem Step.isBefore_run {query : Query} {cursor last : Cursor} {params : Params} : (step : Step) →
    step.run query cursor = some (params, last) → cursor.isBefore = false → last.isBefore = false
  | .single (.literal text loose), h, hcursor => by
    simp only [Step.run, matchSingle] at h
    split at h
    · obtain ⟨-, rfl⟩ := Prod.mk.inj (Option.some.inj h)
      exact Cursor.isBefore_advance (by decide) hcursor
    · split at h
      · obtain ⟨-, rfl⟩ := Prod.mk.inj (Option.some.inj h)
        exact hcursor
      · cases h
  | .single (.capture c), h, hcursor => isBefore_matchCapture h hcursor
  | .compound parts, h, hcursor => by
    simp only [Step.run, matchCompound] at h
    split at h
    · split at h
      · obtain ⟨-, rfl⟩ := Prod.mk.inj (Option.some.inj h)
        exact hcursor
      · cases h
    · obtain ⟨found, -, heq⟩ := Option.map_eq_some_iff.mp h
      obtain ⟨-, rfl⟩ := Prod.mk.inj heq
      exact Cursor.isBefore_advance (by decide) hcursor
  | .query entries, h, hcursor => by
    obtain ⟨found, -, heq⟩ := Option.map_eq_some_iff.mp h
    obtain ⟨-, rfl⟩ := Prod.mk.inj heq
    exact hcursor
  | .nested loose steps, h, hcursor => by
    simp only [Step.run] at h
    split at h
    next result hrun =>
      obtain rfl := Option.some.inj h
      exact isBefore_runSteps steps hrun hcursor
    next =>
      split at h
      · obtain ⟨-, rfl⟩ := Prod.mk.inj (Option.some.inj h)
        exact hcursor
      · cases h

theorem isBefore_runSteps {query : Query} {cursor last : Cursor} {params : Params} :
    (steps : List Step) → runSteps query cursor steps = some (params, last) →
    cursor.isBefore = false → last.isBefore = false
  | [], h, hcursor => by
    obtain ⟨-, rfl⟩ := Prod.mk.inj (Option.some.inj h)
    exact hcursor
  | step :: rest, h, hcursor => by
    obtain ⟨⟨first, next⟩, hstep, h⟩ := Option.bind_eq_some_iff.mp h
    obtain ⟨⟨others, _⟩, hrest, heq⟩ := Option.map_eq_some_iff.mp h
    obtain ⟨-, rfl⟩ := Prod.mk.inj heq
    exact isBefore_runSteps rest hrest (Step.isBefore_run step hstep hcursor)

end

namespace Matcher

theorem run_open (steps : List Step) (query : Query) (cursor : Cursor) :
    (⟨steps, false⟩ : Matcher).run query cursor = runSteps query cursor steps := by
  unfold run
  cases runSteps query cursor steps <;> rfl

/-- Steps in front of others: the match goes on where they leave it, with the positions of the others
moved up. -/
theorem resume_append (front back : List Step) (count : Nat) (query : Query) (cursor : Cursor) :
    (⟨front ++ shiftSteps count back, false⟩ : Matcher).resume query cursor =
      match (⟨front, false⟩ : Matcher).resume query cursor with
      | .error r => .error r
      | .ok none => .ok none
      | .ok (some (first, next)) =>
        ((⟨back, false⟩ : Matcher).resume query next).map fun found =>
          found.map fun (second, last) => (Table.putAll first (shiftParams count second), last) := by
  have hrun : runSteps query cursor (front ++ shiftSteps count back) =
      (runSteps query cursor front).bind fun (first, next) =>
        (runSteps query next back).map fun (second, last) =>
          (Table.putAll first (shiftParams count second), last) := by
    simp only [runSteps_append, runSteps_shift, Option.map_map]
    rfl
  simp only [resume, run_open, hrun, readSegment?_append, readSegment?_shift]
  cases hbefore : cursor.isBefore with
  | false =>
    cases hfront : runSteps query cursor front with
    | none => rfl
    | some result =>
      obtain ⟨first, next⟩ := result
      have hnext : next.isBefore = false := isBefore_runSteps front hfront hbefore
      simp [hnext, Except.map]
  | true =>
    cases hreads : readSegment? query front with
    | none =>
      have hnone := runSteps_eq_none query cursor front hreads
      simp [hnone]
    | some reads =>
      cases reads with
      | true => simp
      | false =>
        obtain ⟨first, hfirst⟩ := runSteps_of_reads_none cursor front hreads
        cases readSegment? query back with
        | none => simp [hfirst, hbefore, Except.map]
        | some reads => cases reads <;> simp [hfirst, hbefore, Except.map]

end Matcher

end RoutePattern
