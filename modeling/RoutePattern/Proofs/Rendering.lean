import RoutePattern.Proofs.StepCaptures
import RoutePattern.Renderer

/-!
What rendering depends on: the values that are given for the captures of the steps, and nothing else.
Steps whose positions were moved up write what they wrote before, for values that were moved along.
-/

namespace RoutePattern

namespace RenderError

def shift (count : Nat) : RenderError → RenderError
  | fault f => fault ⟨f.cause, f.key.shift count⟩
  | refusal r => refusal r

end RenderError

theorem Part.forall_captured {c : Capture} {optional : Bool} {P : Key → Prop}
    (h : ∀ d ∈ (Part.capture c).captured optional, P d.key) : P c.key :=
  h ⟨c.key, c.lead, c.optional || optional, c.multiple⟩ (List.mem_singleton_self _)

/-- What `given` holds for a key moved up is what `own` holds for the key. -/
def Answers (count : Nat) (given own : Arguments) (key : Key) : Prop :=
  argument (key.shift count) given = (argument key own).mapError (RenderError.shift count)

section Shifting

variable {count : Nat} {given own : Arguments}

theorem repeatedTexts_shift {c : Capture} (h : Answers count given own c.key) :
    repeatedTexts ⟨c.key.shift count, c.lead, c.optional, c.multiple⟩ given =
      (repeatedTexts c own).mapError (RenderError.shift count) := by
  have h : argument (c.key.shift count) given =
      (argument c.key own).mapError (RenderError.shift count) := h
  unfold repeatedTexts
  simp only [h, Except.mapError_bind]
  refine congrArg _ (funext fun v => ?_)
  have hchecked : ∀ texts : List Text,
      (if texts.isEmpty && !c.optional then .error (.fault ⟨.noValues, c.key.shift count⟩)
        else pure texts : Except RenderError (List Text)) =
      (if texts.isEmpty && !c.optional then .error (.fault ⟨.noValues, c.key⟩)
        else pure texts : Except RenderError (List Text)).mapError (RenderError.shift count) := by
    intro texts
    cases texts.isEmpty && !c.optional <;> rfl
  have hitems : ∀ items : List Value,
      ((itemTexts items).mapError RenderError.refusal >>= fun texts =>
        if texts.isEmpty && !c.optional then .error (.fault ⟨.noValues, c.key.shift count⟩)
        else pure texts) =
      ((itemTexts items).mapError RenderError.refusal >>= fun texts =>
        if texts.isEmpty && !c.optional then .error (.fault ⟨.noValues, c.key⟩)
        else pure texts).mapError (RenderError.shift count) := by
    intro items
    cases itemTexts items with
    | error r => rfl
    | ok texts => exact hchecked texts
  cases v with
  | null => cases c.optional <;> rfl
  | list items => exact hitems items
  | tuple items => exact hitems items
  | _ => rfl

theorem singleText_shift {c : Capture} (h : Answers count given own c.key) :
    singleText ⟨c.key.shift count, c.lead, c.optional, c.multiple⟩ given =
      (singleText c own).mapError (RenderError.shift count) := by
  have h : argument (c.key.shift count) given =
      (argument c.key own).mapError (RenderError.shift count) := h
  unfold singleText
  simp only [h, Except.mapError_bind]
  refine congrArg _ (funext fun v => ?_)
  have habsent : (if c.optional then .ok none else .error (.fault ⟨.missing, c.key.shift count⟩) :
        Except RenderError (Option Text)) =
      (if c.optional then .ok none else .error (.fault ⟨.missing, c.key⟩) :
        Except RenderError (Option Text)).mapError (RenderError.shift count) := by
    cases c.optional <;> rfl
  split
  · exact habsent
  · cases v.items?.isSome with
    | true => rfl
    | false =>
      simp only [Bool.false_eq_true, if_false, Except.mapError_bind]
      cases v.textOf with
      | error r => rfl
      | ok text =>
        cases hempty : text.isEmpty with
        | true => simpa [Except.mapError, bind, Except.bind, hempty] using habsent
        | false => simp [Except.mapError, bind, Except.bind, hempty, pure, Except.pure]

theorem renderPart_shift {part : Part} (optional : Bool)
    (h : ∀ c ∈ part.captured optional, Answers count given own c.key) :
    renderPart given (part.shift count) = (renderPart own part).mapError (RenderError.shift count) := by
  cases part with
  | literal text loose => rfl
  | capture c =>
    have hkey : Answers count given own c.key := Part.forall_captured h
    cases hm : c.multiple with
    | true =>
      have hrepeated := repeatedTexts_shift hkey
      simp only [Part.shift, renderPart, hm, if_true, Except.mapError_map] at hrepeated ⊢
      rw [hrepeated]
    | false =>
      have hsingle := singleText_shift hkey
      simp only [Part.shift, renderPart, hm, Bool.false_eq_true, if_false, Except.mapError_map]
        at hsingle ⊢
      rw [hsingle]

theorem renderParts_shift {parts : List Part} (optional : Bool)
    (h : ∀ c ∈ parts.flatMap (Part.captured optional), Answers count given own c.key) :
    renderParts given (parts.map (Part.shift count)) =
      (renderParts own parts).mapError (RenderError.shift count) := by
  induction parts with
  | nil => rfl
  | cons part rest ih =>
    rw [List.flatMap_cons] at h
    obtain ⟨hpart, hrest⟩ := List.forall_mem_append.mp h
    simp only [List.map_cons, renderParts, Except.mapError_bind, renderPart_shift optional hpart,
      ih hrest]
    rfl

theorem renderEntry_shift (key : Text) {parts : List Part} (optional : Bool)
    (h : ∀ c ∈ parts.flatMap (Part.captured optional), Answers count given own c.key) :
    renderEntry given key (parts.map (Part.shift count)) =
      (renderEntry own key parts).mapError (RenderError.shift count) := by
  have hjoined : (renderParts given (parts.map (Part.shift count))).map
        (fun text => if text.isEmpty then [] else [key ++ '=' :: text]) =
      ((renderParts own parts).map
        fun text => if text.isEmpty then [] else [key ++ '=' :: text]).mapError
          (RenderError.shift count) := by
    rw [renderParts_shift optional h, Except.mapError_map]
  match parts, h, hjoined with
  | [], _, hjoined => exact hjoined
  | [.literal _ _], _, hjoined => exact hjoined
  | first :: second :: rest, _, hjoined => cases first <;> exact hjoined
  | [.capture c], h, hjoined =>
    rw [List.flatMap_singleton] at h
    have hkey : Answers count given own c.key := Part.forall_captured h
    cases hm : c.multiple with
    | true =>
      have hrepeated := repeatedTexts_shift hkey
      simp only [List.map_cons, List.map_nil, Part.shift, renderEntry, hm, if_true,
        Except.mapError_map] at hrepeated ⊢
      rw [hrepeated]
    | false =>
      simp only [List.map_cons, List.map_nil, Part.shift, renderEntry, hm, Bool.false_eq_true,
        if_false]
      simpa [Part.shift, hm] using hjoined

theorem renderQuery_shift {entries : List (Text × List Part)} (optional : Bool)
    (h : ∀ c ∈ entries.flatMap fun entry => entry.2.flatMap (Part.captured optional),
      Answers count given own c.key) :
    renderQuery given (entries.map fun entry => (entry.1, entry.2.map (Part.shift count))) =
      (renderQuery own entries).mapError (RenderError.shift count) := by
  induction entries with
  | nil => rfl
  | cons entry rest ih =>
    rw [List.flatMap_cons] at h
    obtain ⟨hentry, hrest⟩ := List.forall_mem_append.mp h
    simp only [List.map_cons, renderQuery, Except.mapError_bind,
      renderEntry_shift entry.1 optional hentry, ih hrest]
    rfl

theorem captures_subset_stepCaptures (optional : Bool) {step : Step} {steps : List Step}
    (h : step ∈ steps) : step.captures optional ⊆ stepCaptures optional steps := by
  obtain ⟨front, back, rfl⟩ := List.append_of_mem h
  rw [stepCaptures_append, stepCaptures]
  exact List.subset_append_of_subset_right _ (List.subset_append_left _ _)

def queryBlocks (steps : List Step) : List (List (Text × List Part)) :=
  steps.filterMap fun
    | .query entries => some entries
    | _ => none

theorem queryBlocks_shift (count : Nat) (steps : List Step) :
    queryBlocks (shiftSteps count steps) = (queryBlocks steps).map fun entries =>
      entries.map fun entry => (entry.1, entry.2.map (Part.shift count)) := by
  induction steps with
  | nil => rfl
  | cons step rest ih =>
    unfold queryBlocks at ih
    cases step <;> simp [queryBlocks, shiftSteps, Step.shift, ih]

theorem renderLastQuery_eq (args : Arguments) (steps : List Step) :
    renderLastQuery args steps =
      (queryBlocks steps).getLast?.elim (.ok []) fun entries =>
        (renderQuery args entries).map (Text.join ['&']) := by
  unfold renderLastQuery
  simp only
  split
  next entries h =>
    have hlast : (queryBlocks steps).getLast? = some entries := h
    rw [hlast]
    rfl
  next h =>
    have hlast : (queryBlocks steps).getLast? = none := h
    rw [hlast]
    rfl

theorem renderLastQuery_shift {steps : List Step} (optional : Bool)
    (h : ∀ c ∈ stepCaptures optional steps, Answers count given own c.key) :
    renderLastQuery given (shiftSteps count steps) =
      (renderLastQuery own steps).mapError (RenderError.shift count) := by
  rw [renderLastQuery_eq, renderLastQuery_eq, queryBlocks_shift, List.getLast?_map]
  cases hlast : (queryBlocks steps).getLast? with
  | none => rfl
  | some entries =>
    have hstep : Step.query entries ∈ steps := by
      obtain ⟨step, hstep, hentries⟩ := List.mem_filterMap.mp (List.mem_of_getLast? hlast)
      cases step <;> simp_all
    have hquery := renderQuery_shift optional fun c hc =>
      h c (captures_subset_stepCaptures optional hstep hc)
    simp only [Option.map_some, Option.elim_some, hquery, Except.mapError_map]

mutual

theorem renderPaths_shift (optional : Bool) : (steps : List Step) →
    (∀ c ∈ stepCaptures optional steps, Answers count given own c.key) →
    renderPaths given (shiftSteps count steps) =
      (renderPaths own steps).mapError (RenderError.shift count)
  | [], _ => rfl
  | step :: rest, h => by
    obtain ⟨hstep, hrest⟩ := List.forall_mem_append.mp h
    simp only [shiftSteps, renderPaths, Except.mapError_bind, Step.render_shift optional step hstep,
      renderPaths_shift optional rest hrest]
    rfl

theorem Step.render_shift (optional : Bool) : (step : Step) →
    (∀ c ∈ step.captures optional, Answers count given own c.key) →
    (step.shift count).render given = (step.render own).mapError (RenderError.shift count)
  | .single part, h => by
    simp only [Step.shift, Step.render, Except.mapError_map, renderPart_shift optional h]
  | .compound parts, h => by
    simp only [Step.shift, Step.render, Except.mapError_map, renderParts_shift optional h]
  | .query entries, _ => rfl
  | .nested loose steps, h => by
    have hpaths := renderPaths_shift (optional || loose) steps h
    have hquery := renderLastQuery_shift (optional || loose) h
    simp only [Step.shift, Step.render, hpaths, hquery]
    cases renderPaths own steps with
    | error e => cases e <;> cases loose <;> rfl
    | ok paths =>
      cases renderLastQuery own steps with
      | error e => cases e <;> cases loose <;> rfl
      | ok query => rfl

end

theorem renderSteps_shift {steps : List Step} (optional : Bool)
    (h : ∀ c ∈ stepCaptures optional steps, Answers count given own c.key) :
    renderSteps given (shiftSteps count steps) =
      (renderSteps own steps).mapError (RenderError.shift count) := by
  simp only [renderSteps, Except.mapError_bind, renderPaths_shift optional steps h,
    renderLastQuery_shift optional h]
  rfl

end Shifting

theorem Part.shift_zero (part : Part) : part.shift 0 = part := by
  match part with
  | .literal _ _ => rfl
  | .capture ⟨.name _, _, _, _⟩ => rfl
  | .capture ⟨.index _, _, _, _⟩ => rfl

theorem map_part_shift_zero (parts : List Part) : parts.map (Part.shift 0) = parts := by
  have hid : Part.shift 0 = id := funext Part.shift_zero
  rw [hid, List.map_id]

mutual

theorem Step.shift_zero : (step : Step) → step.shift 0 = step
  | .single part => by rw [Step.shift, part.shift_zero]
  | .compound parts => by rw [Step.shift, map_part_shift_zero]
  | .nested _ steps => by rw [Step.shift, shiftSteps_zero steps]
  | .query entries => by simp [Step.shift, map_part_shift_zero]

theorem shiftSteps_zero : (steps : List Step) → shiftSteps 0 steps = steps
  | [] => rfl
  | step :: rest => by rw [shiftSteps, step.shift_zero, shiftSteps_zero rest]

end

theorem renderSteps_congr {steps : List Step} {given own : Arguments}
    (h : ∀ c ∈ stepCaptures false steps, argument c.key given = argument c.key own) :
    renderSteps given steps = renderSteps own steps := by
  have hid : ∀ {α : Type} (x : Except RenderError α), x.mapError (RenderError.shift 0) = x := by
    intro α x
    match x with
    | .ok _ => rfl
    | .error (.refusal _) => rfl
    | .error (.fault ⟨_, .name _⟩) => rfl
    | .error (.fault ⟨_, .index _⟩) => rfl
  have hanswers : ∀ c ∈ stepCaptures false steps, Answers 0 given own c.key := by
    intro c hc
    have hkey : c.key.shift 0 = c.key := by cases c.key <;> rfl
    rw [Answers, hkey, hid, h c hc]
  have hshift := renderSteps_shift false hanswers
  rwa [shiftSteps_zero, hid] at hshift

theorem Renderer.run_map (r : Renderer) (entries : List (Value × Value)) :
    r.run (.map entries) = renderRoute (.map entries) r.steps := by
  cases entries with
  | nil => rfl
  | cons e rest => rfl

end RoutePattern
