import RoutePattern.Proofs.DecodeIssues
import RoutePattern.Proofs.EncodingFaults

/-!
What a route says of what it does not decode or encode. Where its codecs and functions report what they do not
take, it gives an answer or a fault with issues, whatever target or value it is given. A number with too many
digits is then the only thing that it does not cope with.
-/

namespace RoutePattern

/-- The error is a fault at one of some keys, and no refusal. -/
def RenderError.IsFaultAt (K : Key → Prop) (e : RenderError) : Prop := ∃ f, e = .fault f ∧ K f.key

section Rendering

variable {params : Params} {e : RenderError} {K : Key → Prop}

theorem exists_itemTexts (ts : List Text) : ∃ out, itemTexts (ts.map .text) = .ok out := by
  induction ts with
  | nil => exact ⟨[], rfl⟩
  | cons t rest ih =>
    obtain ⟨out, hout⟩ := ih
    refine ⟨if t.isEmpty then out else t :: out, ?_⟩
    rw [List.map_cons, itemTexts, hout]
    · rfl
    · simp

theorem repeatedTexts_fault {c : Capture} (hK : K c.key)
    (h : repeatedTexts c (argumentsOf params) = .error e) : e.IsFaultAt K := by
  unfold repeatedTexts at h
  rw [argument_eq] at h
  cases hget : Table.get? c.key params with
  | none =>
    simp only [hget, bind, Except.bind, Option.map_none, Option.getD_none] at h
    split at h
    · cases h
    · exact ⟨_, (Except.error.inj h).symm, hK⟩
  | some captured =>
    cases captured with
    | one t =>
      simp only [hget, bind, Except.bind, Option.map_some, Option.getD_some, Captured.value, Value.items?] at h
      exact ⟨_, (Except.error.inj h).symm, hK⟩
    | many ts =>
      obtain ⟨out, hout⟩ := exists_itemTexts ts
      simp only [hget, bind, Except.bind, Option.map_some, Option.getD_some, Captured.value, Value.items?,
        hout, Except.mapError] at h
      split at h
      · exact ⟨_, (Except.error.inj h).symm, hK⟩
      · cases h

theorem singleText_fault {c : Capture} (hK : K c.key)
    (h : singleText c (argumentsOf params) = .error e) : e.IsFaultAt K := by
  have habsent : ∀ {x : Except RenderError (Option Text)},
      x = (if c.optional then .ok none else .error (.fault ⟨.missing, c.key⟩)) → x = .error e →
      e.IsFaultAt K := by
    rintro _ rfl hx
    split at hx
    · cases hx
    · exact ⟨_, (Except.error.inj hx).symm, hK⟩
  unfold singleText at h
  rw [argument_eq] at h
  cases hget : Table.get? c.key params with
  | none =>
    simp only [hget, bind, Except.bind, Option.map_none, Option.getD_none] at h
    exact habsent rfl h
  | some captured =>
    cases captured with
    | one t =>
      simp only [hget, bind, Except.bind, Option.map_some, Option.getD_some, Captured.value, Value.items?,
        Option.isSome_none, Bool.false_eq_true, if_false, Schema.textOf_text, Except.mapError] at h
      split at h
      · exact habsent rfl h
      · cases h
    | many ts =>
      simp only [hget, bind, Except.bind, Option.map_some, Option.getD_some, Captured.value, Value.items?,
        Option.isSome_some, if_true] at h
      exact ⟨_, (Except.error.inj h).symm, hK⟩

theorem renderPart_fault {part : Part} (optional : Bool) (hK : ∀ c ∈ part.captured optional, K c.key)
    (h : renderPart (argumentsOf params) part = .error e) : e.IsFaultAt K := by
  cases part with
  | literal _ _ => cases h
  | capture c =>
    have hkey : K c.key := Part.forall_captured hK
    simp only [renderPart] at h
    split at h
    · exact repeatedTexts_fault hkey (Except.map_eq_error.mp h)
    · exact singleText_fault hkey (Except.map_eq_error.mp h)

theorem renderParts_fault {parts : List Part} (optional : Bool)
    (hK : ∀ c ∈ parts.flatMap (Part.captured optional), K c.key)
    (h : renderParts (argumentsOf params) parts = .error e) : e.IsFaultAt K := by
  induction parts with
  | nil => cases h
  | cons part rest ih =>
    rw [List.flatMap_cons] at hK
    obtain ⟨hpart, hrest⟩ := List.forall_mem_append.mp hK
    rcases Except.bind_eq_error.mp h with h | ⟨_, -, h⟩
    · exact renderPart_fault optional hpart h
    · exact ih hrest (Except.map_eq_error.mp h)

theorem renderEntry_fault {key : Text} {parts : List Part} (optional : Bool)
    (hK : ∀ c ∈ parts.flatMap (Part.captured optional), K c.key)
    (h : renderEntry (argumentsOf params) key parts = .error e) : e.IsFaultAt K := by
  have hjoined : (renderParts (argumentsOf params) parts).map
      (fun text => if text.isEmpty then [] else [key ++ '=' :: text]) = .error e → e.IsFaultAt K :=
    fun h => renderParts_fault optional hK (Except.map_eq_error.mp h)
  unfold renderEntry at h
  split at h
  next c =>
    split at h
    · have hkey : K c.key := Part.forall_captured (by simpa using hK)
      exact repeatedTexts_fault hkey (Except.map_eq_error.mp h)
    · exact hjoined h
  · exact hjoined h

theorem renderQuery_fault {entries : List (Text × List Part)} (optional : Bool)
    (hK : ∀ c ∈ entries.flatMap fun entry => entry.2.flatMap (Part.captured optional), K c.key)
    (h : renderQuery (argumentsOf params) entries = .error e) : e.IsFaultAt K := by
  induction entries with
  | nil => cases h
  | cons entry rest ih =>
    rw [List.flatMap_cons] at hK
    obtain ⟨hentry, hrest⟩ := List.forall_mem_append.mp hK
    rcases Except.bind_eq_error.mp h with h | ⟨_, -, h⟩
    · exact renderEntry_fault optional hentry h
    · exact ih hrest (Except.map_eq_error.mp h)

theorem renderLastQuery_fault {steps : List Step} (optional : Bool)
    (hK : ∀ c ∈ stepCaptures optional steps, K c.key)
    (h : renderLastQuery (argumentsOf params) steps = .error e) : e.IsFaultAt K := by
  rw [renderLastQuery_eq] at h
  cases hlast : (queryBlocks steps).getLast? with
  | none =>
    rw [hlast] at h
    cases h
  | some entries =>
    rw [hlast] at h
    have hstep : Step.query entries ∈ steps := by
      obtain ⟨step, hstep, hentries⟩ := List.mem_filterMap.mp (List.mem_of_getLast? hlast)
      cases step <;> simp_all
    exact renderQuery_fault optional (fun c hc => hK c (captures_subset_stepCaptures optional hstep hc))
      (Except.map_eq_error.mp h)

theorem renderSteps_fault {steps : List Step} (optional : Bool)
    (hK : ∀ c ∈ stepCaptures optional steps, K c.key)
    (hpaths : ∀ {d : RenderError}, renderPaths (argumentsOf params) steps = .error d → d.IsFaultAt K)
    (h : renderSteps (argumentsOf params) steps = .error e) : e.IsFaultAt K := by
  rcases Except.bind_eq_error.mp h with h | ⟨_, -, h⟩
  · exact hpaths h
  · exact renderLastQuery_fault optional hK (Except.map_eq_error.mp h)

mutual

theorem renderPaths_fault {e : RenderError} (optional : Bool) (steps : List Step)
    (hK : ∀ c ∈ stepCaptures optional steps, K c.key)
    (h : renderPaths (argumentsOf params) steps = .error e) : e.IsFaultAt K := by
  match steps with
  | [] => cases h
  | step :: rest =>
    obtain ⟨hstep, hrest⟩ := List.forall_mem_append.mp hK
    rcases Except.bind_eq_error.mp h with h | ⟨_, -, h⟩
    · exact Step.render_fault optional step hstep h
    · exact renderPaths_fault optional rest hrest (Except.map_eq_error.mp h)

theorem Step.render_fault {e : RenderError} (optional : Bool) (step : Step)
    (hK : ∀ c ∈ step.captures optional, K c.key) (h : step.render (argumentsOf params) = .error e) :
    e.IsFaultAt K := by
  match step with
  | .single part => exact renderPart_fault optional hK (Except.map_eq_error.mp h)
  | .compound parts => exact renderParts_fault optional hK (Except.map_eq_error.mp h)
  | .query _ => cases h
  | .nested loose steps =>
    have hwhole : ∀ {d : RenderError}, renderSteps (argumentsOf params) steps = .error d → d.IsFaultAt K :=
      renderSteps_fault (optional || loose) hK (renderPaths_fault (optional || loose) steps hK)
    have hrender : (Step.nested loose steps).render (argumentsOf params) =
        match renderSteps (argumentsOf params) steps with
        | .ok text => .ok [text]
        | .error (.fault f) => if loose then .ok [[]] else .error (.fault f)
        | .error d => .error d := rfl
    rw [hrender] at h
    split at h
    · cases h
    next f hf =>
      split at h
      · cases h
      · exact Except.error.inj h ▸ hwhole hf
    next d _ hd => exact Except.error.inj h ▸ hwhole hd

end

end Rendering

namespace Schema

variable {short : Prop}

theorem itemsReport_append {front back : List (SchemaItem Schema)} (hfront : ItemsReport short front)
    (hback : ItemsReport short back) : ItemsReport short (front ++ back) := by
  induction front with
  | nil => exact hback
  | cons item rest ih =>
    cases item with
    | bare c => exact ⟨hfront.1, ih hfront.2⟩
    | attached s cs keys => exact ⟨hfront.1, ih hfront.2⟩

end Schema

namespace Pattern

open Schema

variable {short : Prop}

theorem shortKeys_withSchema {inner : Pattern Schema} (hready : inner.Ready) {first : Nat}
    (hcount : short → ∀ n < first + inner.unnamedCount, Whole.Short n) (optional multiple : Bool) :
    ShortKeys short
      (((inner.captures first false).map (·.1)).map fun c =>
        ⟨c.key, c.lead, c.optional || optional, c.multiple || multiple⟩)
      (Table.ofEntries (((inner.captures first false).map (·.1)).zipWith (fun c d => (c.key, d.key))
        ((inner.captures 0 false).map (·.1)))) := by
  intro hshort
  refine ⟨fun c hc => ?_, ?_⟩
  · obtain ⟨d, hd, rfl⟩ := List.mem_map.mp hc
    have hkey : d.key.value.Short := short_key hready (hcount hshort) hd
    exact hkey
  · refine Table.forall_ofEntries (K := fun key : Key => key.value.Short)
      (V := fun key : Key => key.value.Short) fun e he => ?_
    rw [← List.map_uncurry_zip_eq_zipWith] at he
    obtain ⟨⟨c, d⟩, hpair, rfl⟩ := List.mem_map.mp he
    obtain ⟨hc, hd⟩ := List.of_mem_zip hpair
    refine ⟨short_key hready (hcount hshort) hc, short_key hready (fun n hn => ?_) hd⟩
    exact hcount hshort n (by omega)

mutual

theorem itemsReport_schemaItems (first : Nat) (optional multiple : Bool) : (p : Pattern Schema) → p.Ready →
    (short → ∀ n < first + p.unnamedCount, Whole.Short n) → (∀ s ∈ p.outerSchemas, s.Reports short) →
    ItemsReport short (p.schemaItems first optional multiple)
  | literal _, _, _, _ => trivial
  | queryParam _ _, _, _, _ => trivial
  | param _, _, _, _ => ⟨fun _ => ⟨List.forall_mem_singleton.mpr trivial, nofun⟩, trivial⟩
  | unnamed, _, hcount, _ =>
    ⟨fun hshort => ⟨List.forall_mem_singleton.mpr (hcount hshort first (Nat.lt_succ_self first)), nofun⟩,
      trivial⟩
  | modified _ inner, hready, hcount, hs => itemsReport_schemaItems first _ _ inner hready.1 hcount hs
  | prefixed _ inner, hready, hcount, hs => itemsReport_schemaItems first _ _ inner hready.1 hcount hs
  | concat left right _, hready, hcount, hs => by
    obtain ⟨hleft, hright⟩ := List.forall_mem_append.mp hs
    rw [unnamedCount] at hcount
    exact itemsReport_append
      (itemsReport_schemaItems first _ _ left hready.1 (fun h n hn => hcount h n (by omega)) hleft)
      (itemsReport_schemaItems _ _ _ right hready.2 (fun h n hn => hcount h n (by omega)) hright)
  | queryParams previous entries, hready, hcount, hs => by
    obtain ⟨hprevious, hentries⟩ := List.forall_mem_append.mp hs
    rw [unnamedCount] at hcount
    exact itemsReport_append
      (itemsReport_schemaItems first _ _ previous hready.1 (fun h n hn => hcount h n (by omega)) hprevious)
      (itemsReport_entryItems _ _ _ entries hready.2 (fun h n hn => hcount h n (by omega)) hentries)
  | withSchema inner s, hready, hcount, hs =>
    ⟨⟨hs s (List.mem_singleton_self s), shortKeys_withSchema hready hcount optional multiple⟩, trivial⟩

theorem itemsReport_entryItems (first : Nat) (optional multiple : Bool) :
    (entries : List (Text × Pattern Schema)) → EntriesReady entries →
    (short → ∀ n < first + unnamedInEntries entries, Whole.Short n) →
    (∀ s ∈ outerInEntries entries, s.Reports short) →
    ItemsReport short (entryItems first optional multiple entries)
  | [], _, _, _ => trivial
  | (_, value) :: rest, hready, hcount, hs => by
    obtain ⟨hvalue, hrest⟩ := List.forall_mem_append.mp hs
    rw [unnamedInEntries] at hcount
    exact itemsReport_append
      (itemsReport_schemaItems first _ _ value hready.1 (fun h n hn => hcount h n (by omega)) hvalue)
      (itemsReport_entryItems _ _ _ rest hready.2 (fun h n hn => hcount h n (by omega)) hrest)

end

end Pattern

namespace Route

open Schema Pattern

/-- Decoding a target gives a value, or the fault that it is not matched, or one with issues. -/
def AnswersTarget (r : Route) (target : Text) : Prop :=
  (∃ v, r.decode target = .ok (.ok v)) ∨
  r.decode target = .ok (.error (.notMatched (some r.pattern.path) target)) ∨
  ∃ issues f, issues ≠ [] ∧
    RoutingFault.decodeFailed (some r.pattern.path) (issues.map .issue) = .ok f ∧
    r.decode target = .ok (.error f)

/-- Encoding a value gives a text or a fault with issues. -/
def AnswersValue (r : Route) (v : Value) : Prop :=
  (∃ text, r.encode v = .ok (.ok text)) ∨
  ∃ issues f, issues ≠ [] ∧
    RoutingFault.encodeFailed (some r.pattern.path) (issues.map .issue) = .ok f ∧
    r.encode v = .ok (.error f)

section Answers

variable {short : Prop} {r : Route} {m : Matcher}

theorem itemsReport_of_matcher (hm : r.matcher = .ok m)
    (hs : ∀ s ∈ r.pattern.outerSchemas, s.Reports short)
    (hcount : short → ∀ n < r.pattern.unnamedCount, Whole.Short n) :
    ItemsReport short (r.pattern.schemaItems 0 false false) :=
  itemsReport_schemaItems 0 false false r.pattern (ready_of_layout (steps_of_matcher hm))
    (fun hshort n hn => hcount hshort n (by omega)) hs

theorem answersTarget_or_refusal (hm : r.matcher = .ok m)
    (hitems : ItemsReport short (r.pattern.schemaItems 0 false false)) {target : Text}
    (htarget : short → ∀ params, r.accept target = .ok (some params) →
      (Value.map (paramEntries params)).Short) :
    r.AnswersTarget target ∨
      (¬ short ∧ r.decode target = .error (.refusal (.digits .tooLongToWrite))) := by
  have hpath := path_of_matcher hm
  obtain ⟨found, haccept⟩ : ∃ found, r.accept target = .ok found := ⟨_, by rw [accept, hm]; rfl⟩
  cases found with
  | none =>
    refine .inl (.inr (.inl ?_))
    simp only [decode, haccept, hpath, bind, Except.bind, Except.mapError]
    rfl
  | some params =>
    have hcaptures : Captures short (paramEntries params) := by
      refine ⟨fun e he => ?_, fun hshort => htarget hshort params haccept⟩
      rw [paramEntries_eq_map] at he
      obtain ⟨entry, -, rfl⟩ := List.mem_map.mp he
      exact ⟨⟨_, rfl⟩, _, rfl⟩
    have hyields : Yields (Escapes short) (Issue.Sound short) (fun _ => True)
        (r.schema.decode (argumentsOf params)) := yields_decode hcaptures r.schema hitems
    cases hdecode : r.schema.decode (argumentsOf params) with
    | ok v => exact .inl (.inl ⟨v, decode_eq_ok_iff.mpr ⟨params, haccept, hdecode⟩⟩)
    | error f =>
      rw [hdecode] at hyields
      cases f with
      | refusal e =>
        obtain ⟨rfl, hlong⟩ := hyields
        refine .inr ⟨hlong, ?_⟩
        have hdecode : r.schema.decode (.map (paramEntries params)) = _ := hdecode
        simp only [decode, haccept, hdecode, bind, Except.bind]
      | issues issues =>
        obtain ⟨hne, hsound⟩ := hyields
        have hdecode := decode_of_issues haccept hpath hdecode
        rw [RoutingFault.decodeFailed] at hdecode
        rcases RoutingFault.ofNotes_cases "RouteDecodeError" "ROUTE_DECODE_ERROR"
          "Route parameters failed to decode" (some r.pattern.path) issues with ⟨f, hf, -⟩ | ⟨hf, hlong⟩
        · rw [hf] at hdecode
          exact .inl (.inr (.inr ⟨issues, f, hne, hf, hdecode⟩))
        · rw [hf] at hdecode
          exact .inr ⟨fun hshort => hlong fun i hi => (hsound i hi).2 hshort, hdecode⟩

theorem answersValue_of_issues (hm : r.matcher = .ok m) {v : Value} {issues : List Issue}
    (hne : issues ≠ []) (hsound : ∀ i ∈ issues, i.Sound short)
    (h : r.encode v = (r.encodeFault issues).map .error) :
    r.AnswersValue v ∨ (¬ short ∧ r.encode v = .error (.refusal (.digits .tooLongToWrite))) := by
  have hfault : r.encodeFault issues =
      (RoutingFault.encodeFailed (some r.pattern.path) (issues.map .issue)).mapError .refusal := by
    simp only [encodeFault, path_of_matcher hm, Except.mapError, bind, Except.bind]
  rw [hfault, RoutingFault.encodeFailed] at h
  rcases RoutingFault.ofNotes_cases "RouteEncodeError" "ROUTE_ENCODE_ERROR" "Value failed to encode"
    (some r.pattern.path) issues with ⟨f, hf, -⟩ | ⟨hf, hlong⟩
  · rw [hf] at h
    exact .inl (.inr ⟨issues, f, hne, hf, h⟩)
  · rw [hf] at h
    exact .inr ⟨fun hshort => hlong fun i hi => (hsound i hi).2 hshort, h⟩

/-- Texts and lists of texts are rendered unless they do not fit one of the captures. -/
theorem render_cases (hm : r.matcher = .ok m)
    (hcount : short → ∀ n < r.pattern.unnamedCount, Whole.Short n) (own : Params) :
    (∃ text, r.render (argumentsOf own) = .ok text) ∨
      ∃ f, (short → f.key.value.Short) ∧ r.render (argumentsOf own) = .error (.interpolation f) := by
  have hsteps := steps_of_matcher hm
  have hkeys : ∀ c ∈ stepCaptures false m.steps, short → c.key.value.Short := by
    rw [captures_of_layout hsteps]
    intro c hc hshort
    exact short_key (ready_of_layout hsteps) (fun n hn => hcount hshort n (by omega)) hc
  have hrenderer : r.renderer = .ok ⟨m.steps, (r.pattern.captures 0 false).isEmpty⟩ := by
    rw [renderer, Pattern.renderer, hsteps]
    rfl
  rw [argumentsOf]
  cases hrun : renderRoute (.map (paramEntries own)) m.steps with
  | ok text =>
    refine .inl ⟨text, ?_⟩
    simp only [render, hrenderer, bind, Except.bind, Renderer.run_map, hrun, Except.mapError]
  | error e =>
    obtain ⟨f, rfl, hkey⟩ := renderSteps_fault (K := fun key => short → key.value.Short) false hkeys
      (renderPaths_fault false m.steps hkeys) (Except.map_eq_error.mp hrun)
    refine .inr ⟨f, hkey, ?_⟩
    simp only [render, hrenderer, bind, Except.bind, Renderer.run_map, hrun, Except.mapError]

theorem answersValue_or_refusal (hm : r.matcher = .ok m)
    (hitems : ItemsReport short (r.pattern.schemaItems 0 false false))
    (hcount : short → ∀ n < r.pattern.unnamedCount, Whole.Short n) {v : Value} (hv : short → v.Short) :
    r.AnswersValue v ∨ (¬ short ∧ r.encode v = .error (.refusal (.digits .tooLongToWrite))) := by
  have hyields : Yields (Escapes short) (Issue.Sound short) (IsArguments short) (r.schema.encode v) :=
    yields_encodeRoute hitems hv (yields_encodeSole _ hitems v hv) (within_encodeItems _ hitems)
  cases hencode : r.schema.encode v with
  | error f =>
    rw [hencode] at hyields
    cases f with
    | refusal e =>
      obtain ⟨rfl, hlong⟩ := hyields
      exact .inr ⟨hlong, by simp only [encode, hencode]⟩
    | issues issues =>
      obtain ⟨hne, hsound⟩ := hyields
      exact answersValue_of_issues hm hne hsound (by simp only [encode, hencode])
  | ok w =>
    rw [hencode] at hyields
    obtain ⟨⟨own, rfl⟩, -⟩ := hyields
    -- only texts are left to be rendered, so that no number is written any more
    rcases render_cases hm hcount own with ⟨text, htext⟩ | ⟨f, hkey, hf⟩
    · exact .inl (.inl ⟨text, by simp only [encode, hencode, htext]⟩)
    · exact answersValue_of_issues hm (by simp)
        (List.forall_mem_singleton.mpr (Issue.sound_of_key hkey .invalid f.message))
        (by simp only [encode, hencode, hf])

end Answers

/-- Every target is decoded and every value encoded to an answer or to a fault. A fault tells at least one
issue, or that the target is not matched. The schemas of the route may be nested as they like, over codecs and
functions that report what they do not take. Only a number that has too many digits to be written makes an
exception: then there is a refusal and no fault. Where there are no such numbers, there are answers and
faults only. -/
theorem faults_told {r : Route} {m : Matcher} (hm : r.matcher = .ok m)
    (hs : ∀ s ∈ r.pattern.outerSchemas, s.Reports False) :
    (∀ target, r.AnswersTarget target ∨ r.decode target = .error (.refusal (.digits .tooLongToWrite))) ∧
    (∀ v, r.AnswersValue v ∨ r.encode v = .error (.refusal (.digits .tooLongToWrite))) ∧
    ((∀ s ∈ r.pattern.outerSchemas, s.Reports True) → r.pattern.unnamedCount ≤ 10 ^ Whole.digitLimit →
      (∀ target, (∀ params, r.accept target = .ok (some params) → ∀ key texts,
        (key, Captured.many texts) ∈ params → texts.length ≤ 10 ^ Whole.digitLimit) →
        r.AnswersTarget target) ∧
      ∀ v, v.Short → r.AnswersValue v) := by
  have hitems := itemsReport_of_matcher hm hs False.elim
  refine ⟨fun target => ?_, fun v => ?_, fun hs hcount => ?_⟩
  · exact (answersTarget_or_refusal hm hitems False.elim).imp_right And.right
  · exact (answersValue_or_refusal hm hitems False.elim False.elim).imp_right And.right
  · have hcount : True → ∀ n < r.pattern.unnamedCount, Whole.Short n :=
      fun _ n hn => Whole.short_of_lt hn hcount
    have hitems := itemsReport_of_matcher hm hs hcount
    refine ⟨fun target hlists => ?_, fun v hv => ?_⟩
    · have htarget := answersTarget_or_refusal hm hitems fun _ params haccept =>
        short_of_accept hm (hcount trivial) (hlists params haccept) haccept
      exact htarget.resolve_right fun h => h.1 trivial
    · have hvalue := answersValue_or_refusal hm hitems hcount fun _ => hv
      exact hvalue.resolve_right fun h => h.1 trivial

/-- A number that is tagged: it is told where it is wrong and written where it is right. -/
theorem faults_told_tagged :
    let number : Schema := .struct "Number" [(.text "n", .int)]
    let r := (param "n" true).withSchema (number.tagged "number" "_tag")
    r.AnswersTarget "/x" ∧ r.AnswersValue (.map [(.text "n", .list [])]) ∧
      r.AnswersValue (.map [(.text "_tag", .text "number"), (.text "n", .int 7)]) := by
  intro number r
  obtain ⟨m, hm⟩ : ∃ m, r.matcher = .ok m := ⟨_, rfl⟩
  have hnumber : ∀ short, (number.tagged "number" "_tag").Reports short := by
    intro short
    refine reports_tagged (reports_struct ?_ ?_) "number" "_tag"
    · exact List.forall_mem_singleton.mpr ⟨"int", rfl⟩
    · exact fun _ => List.forall_mem_singleton.mpr trivial
  have hs : ∀ short, ∀ s ∈ r.pattern.outerSchemas, s.Reports short := by
    intro short
    exact List.forall_mem_singleton.mpr (hnumber short)
  obtain ⟨-, -, hshort⟩ := faults_told hm (hs False)
  obtain ⟨htargets, hvalues⟩ := hshort (hs True) (Nat.zero_le _)
  have haccept : r.accept "/x" = .ok (some [(.name "n", .one "x")]) := by rfl
  refine ⟨htargets "/x" fun params hparams key texts hmem => ?_, hvalues _ ?_, hvalues _ ?_⟩
  · rw [haccept] at hparams
    obtain rfl := Option.some.inj (Except.ok.inj hparams)
    simp at hmem
  · exact ⟨⟨trivial, nofun, trivial⟩, trivial⟩
  · have hseven : Whole.Short (7 : Nat) := Whole.short_of_lt (by decide) Whole.ten_le_limit
    exact ⟨⟨trivial, trivial⟩, ⟨trivial, hseven⟩, trivial⟩

theorem encode_long_number {n : Int} (hn : ¬ Whole.Short n) :
    (param "id" true).encode (.map [(.text "id", .int n)]) =
      .error (.refusal (.digits .tooLongToWrite)) := by
  have hshape : shapeOf ⟨.name "id", [], false, false⟩ (.int n) = .refused (.digits .tooLongToWrite) := by
    have htext : (Value.int n).textOf = (Whole.write n).mapError .digits := rfl
    simp only [shapeOf, Value.items?, htext, Whole.write_eq_error.mpr ⟨rfl, hn⟩, Except.mapError]
    rfl
  have hshapes : shapes [(.text "id", .int n)] [⟨.name "id", [], false, false⟩] =
      .refused (.digits .tooLongToWrite) := by
    have hfirst : shapes [(.text "id", .int n)] [⟨.name "id", [], false, false⟩] =
        shapeOf ⟨.name "id", [], false, false⟩ (.int n) >>= fun out =>
          pure ((out.map (Value.text "id", ·)).toList ++ []) := rfl
    rw [hfirst, hshape]
    rfl
  have hschema : (param "id" true).schema.encode (.map [(.text "id", .int n)]) =
      .error (.refusal (.digits .tooLongToWrite)) := by
    have hcheck : (param "id" true).schema.encode (.map [(.text "id", .int n)]) =
        checkShape [⟨.name "id", [], false, false⟩] (.map [(.text "id", .int n)]) := rfl
    rw [hcheck]
    simp only [checkShape, hshapes]
    rfl
  simp only [encode, hschema]

/-- Two things are not reported: a number that has too many digits to be written, where no codec takes it, and
an issue of a function that is under something that cannot be a key. -/
theorem faults_untold :
    let r := param "id" true
    let v : Value := .map [(.text "id", .int (10 ^ Whole.digitLimit))]
    let told : SchemaFault := .issues [⟨.invalid, [.list [.text "a"]], "m"⟩]
    let failing := r.transform ⟨fun _ => .error told, fun _ => .error told⟩
    r.encode v = .error (.refusal (.digits .tooLongToWrite)) ∧ ¬ r.AnswersValue v ∧
      failing.decode "/x" = .error (.refusal (.raised .badType "unhashable type: 'list'")) ∧
      ¬ failing.AnswersTarget "/x" := by
  intro r v told failing
  have hv : r.encode v = .error (.refusal (.digits .tooLongToWrite)) :=
    encode_long_number (by simp [Whole.Short, Int.natAbs_pow])
  have htarget : failing.decode "/x" =
      .error (.refusal (.raised .badType "unhashable type: 'list'")) := by rfl
  refine ⟨hv, ?_, htarget, ?_⟩
  · rintro (⟨text, h⟩ | ⟨_, f, -, -, h⟩) <;>
    · rw [hv] at h
      cases h
  · rintro (⟨w, h⟩ | h | ⟨_, f, -, -, h⟩) <;>
    · rw [htarget] at h
      cases h

end Route

end RoutePattern
