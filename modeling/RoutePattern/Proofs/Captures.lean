import RoutePattern.Proofs.Rendering
import RoutePattern.Schema

/-!
The captures of a pattern, as four walks over it see them: the captures themselves, the schema, the
steps that match and the steps that render.
-/

namespace RoutePattern

/-- What is told of a capture: its key, whether it may be left out, and whether it repeats. -/
def Capture.signature (c : Capture) : Key × Bool × Bool := (c.key, c.optional, c.multiple)

def Capture.loosen (optional multiple : Bool) (c : Capture) : Capture :=
  ⟨c.key, c.lead, c.optional || optional, c.multiple || multiple⟩

def Key.index? : Key → Option Nat
  | name _ => none
  | index n => some n

theorem Part.captured_or (optional loose : Bool) (part : Part) :
    part.captured (optional || loose) = (part.captured optional).map (Capture.loosen loose false) := by
  cases part <;> simp [Part.captured, Capture.loosen, Bool.or_assoc]

theorem Part.captured_loosen (optional loose multiple : Bool) (part : Part) :
    (part.loosen loose multiple).captured optional =
      (part.captured (optional || loose)).map (Capture.loosen false multiple) := by
  cases part with
  | literal => rfl
  | capture c =>
    have hcomm : (c.optional || loose || optional) = (c.optional || (optional || loose)) := by
      rw [Bool.or_assoc, Bool.or_comm loose]
    simp [Part.loosen, Part.captured, Capture.loosen, hcomm]

namespace Pattern

variable {σ : Type}

theorem captures_or_of_part? {first : Nat} {p : Pattern σ} {part : Part} (optional loose : Bool)
    (h : (p.member first).part? = some part) :
    (p.captures first (optional || loose)).map (·.1) =
      ((p.captures first optional).map (·.1)).map (Capture.loosen loose false) := by
  rw [captures_of_part? first _ p h, captures_of_part? first _ p h, Part.captured_or]

mutual

theorem captures_or (first : Nat) (optional loose : Bool) : (p : Pattern σ) →
    (p.captures first (optional || loose)).map (·.1) =
      ((p.captures first optional).map (·.1)).map (Capture.loosen loose false)
  | literal _ => rfl
  | param _ => captures_or_of_part? optional loose rfl
  | unnamed => captures_or_of_part? optional loose rfl
  | modified m inner => by
    cases hpart : ((modified m inner).member first).part? with
    | some part => exact captures_or_of_part? optional loose hpart
    | none =>
      have hcomm : (optional || loose || m.allowsNone) = (optional || m.allowsNone || loose) :=
        Bool.or_right_comm _ _ _
      simp only [captures, hpart, hcomm]
      exact captures_or first (optional || m.allowsNone) loose inner
  | prefixed lead inner => by
    cases hpart : ((prefixed lead inner).member first).part? with
    | some part => exact captures_or_of_part? optional loose hpart
    | none =>
      simp only [captures, hpart]
      exact captures_or first optional loose inner
  | concat left right _ => by
    simp only [captures, List.map_append]
    rw [captures_or first optional loose left, captures_or _ optional loose right]
  | queryParam _ _ => rfl
  | queryParams previous entries => by
    simp only [captures, List.map_append]
    rw [captures_or first optional loose previous, entryCaptures_or _ optional loose entries]
  | withSchema inner _ => captures_or first optional loose inner

theorem entryCaptures_or (first : Nat) (optional loose : Bool) : (entries : List (Text × Pattern σ)) →
    (captures.entryCaptures first (optional || loose) entries).map (·.1) =
      ((captures.entryCaptures first optional entries).map (·.1)).map (Capture.loosen loose false)
  | [] => rfl
  | (_, value) :: rest => by
    have hvalue := captures_or first optional loose value
    have hrest := entryCaptures_or (first + value.unnamedCount) optional loose rest
    simp only [captures.entryCaptures, List.map_append, hrest]
    simpa [Function.comp_def] using hvalue

end

theorem Ready.captures_modified {m : Modifier} {inner : Pattern σ}
    (h : (modified m inner).Ready) (first : Nat) (optional : Bool) :
    ((modified m inner).captures first optional).map (·.1) =
      ((inner.captures first (optional || m.allowsNone)).map (·.1)).map
        (Capture.loosen false m.allowsMany) := by
  cases hpart : (inner.member first).part? with
  | some part =>
    have hmodified : ((modified m inner).member first).part? =
        some (part.loosen m.allowsNone m.allowsMany) := by
      rw [member]
      cases hm : inner.member first with
      | part hasLead p =>
        obtain rfl : p = part := by simpa [hm, Member.part?] using hpart
        rfl
      | composite => simp [hm, Member.part?] at hpart
    rw [captures_of_part? first _ _ hmodified, captures_of_part? first _ _ hpart,
      Part.captured_loosen]
  | none =>
    have hmodified : ((modified m inner).member first).part? = none := by
      rw [member]
      cases hm : inner.member first with
      | part => simp [hm, Member.part?] at hpart
      | composite => rfl
    have hmany : m.allowsMany = false := by
      cases hmany : m.allowsMany with
      | false => rfl
      | true =>
        have hinner := h.2 hmany
        rw [← isSome_part?_member first, hpart] at hinner
        cases hinner
    have hid : Capture.loosen false false = id := funext fun c => by simp [Capture.loosen]
    rw [hmany, hid, List.map_id, captures, hmodified]

theorem Ready.captures_prefixed {lead : Text} {inner : Pattern σ}
    (h : (prefixed lead inner).Ready) (first : Nat) (optional : Bool) :
    ((prefixed lead inner).captures first optional).map (·.1.signature) =
      (inner.captures first optional).map (·.1.signature) := by
  have hsig : ∀ p : Pattern σ, (p.captures first optional).map (·.1.signature) =
      ((p.captures first optional).map (·.1)).map Capture.signature := by simp
  cases hm : inner.member first with
  | composite =>
    have hinner := h.2
    rw [← isSome_part?_member first, hm] at hinner
    cases hinner
  | part hasLead part =>
    have hpart : (inner.member first).part? = some part := by rw [hm]; rfl
    cases hasLead with
    | true =>
      have hnone : ((prefixed lead inner).member first).part? = none := by
        rw [member, hm]
        rfl
      rw [captures, hnone]
    | false =>
      have hsome : ((prefixed lead inner).member first).part? = some (part.withLead lead) := by
        rw [member, hm]
        rfl
      rw [hsig, hsig, captures_of_part? first _ _ hsome, captures_of_part? first _ _ hpart]
      cases part <;> rfl

theorem indices_eq_of_keys {cs ds : List (Capture × Bool)}
    (h : cs.map (·.1.key) = ds.map (·.1.key)) :
    cs.filterMap (·.1.key.index?) = ds.filterMap (·.1.key.index?) := by
  have hkeys := congrArg (List.filterMap Key.index?) h
  simpa [List.filterMap_map, Function.comp_def] using hkeys

mutual

/-- The unnamed captures are numbered from the left, without a gap. -/
theorem Ready.indices (first : Nat) (optional : Bool) : (p : Pattern σ) → p.Ready →
    (p.captures first optional).filterMap (·.1.key.index?) = List.range' first p.unnamedCount
  | literal _, _ => rfl
  | param _, _ => rfl
  | unnamed, _ => rfl
  | modified m inner, h => by
    have hkeys : ((modified m inner).captures first optional).map (·.1.key) =
        (inner.captures first (optional || m.allowsNone)).map (·.1.key) := by
      have hcaptures := congrArg (List.map Capture.key) (h.captures_modified first optional)
      simpa [Capture.loosen, Function.comp_def] using hcaptures
    rw [indices_eq_of_keys hkeys, Ready.indices first _ inner h.1, unnamedCount]
  | prefixed lead inner, h => by
    have hkeys : ((prefixed lead inner).captures first optional).map (·.1.key) =
        (inner.captures first optional).map (·.1.key) := by
      have hcaptures := congrArg (List.map Prod.fst) (h.captures_prefixed first optional)
      simpa [Capture.signature, Function.comp_def] using hcaptures
    rw [indices_eq_of_keys hkeys, Ready.indices first optional inner h.1, unnamedCount]
  | concat left right _, h => by
    rw [captures, List.filterMap_append, Ready.indices first optional left h.1,
      Ready.indices _ optional right h.2, List.range'_append_1, unnamedCount]
  | queryParams previous entries, h => by
    rw [captures, List.filterMap_append, Ready.indices first optional previous h.1,
      Ready.indices_entries _ optional entries h.2, List.range'_append_1, unnamedCount]
  | withSchema inner _, h => Ready.indices first optional inner h

theorem Ready.indices_entries (first : Nat) (optional : Bool) : (entries : List (Text × Pattern σ)) →
    EntriesReady entries →
    (captures.entryCaptures first optional entries).filterMap (·.1.key.index?) =
      List.range' first (unnamedInEntries entries)
  | [], _ => rfl
  | (_, value) :: rest, h => by
    have hvalue := Ready.indices first optional value h.1
    rw [captures.entryCaptures, List.filterMap_append, List.filterMap_map,
      Ready.indices_entries _ optional rest h.2, unnamedInEntries, ← List.range'_append_1]
    exact congrArg (· ++ _) hvalue

end

mutual

theorem Ready.signatures_schemaItems (first : Nat) (optional multiple : Bool) :
    (p : Pattern Schema) → p.Ready →
    ((p.schemaItems first optional multiple).flatMap SchemaItem.captures).map Capture.signature =
      ((p.captures first optional).map (·.1)).map fun c => (c.loosen false multiple).signature
  | literal _, _ => rfl
  | param name, _ => by
    rw [captures_of_part? first optional (param name) rfl]
    simp [schemaItems, SchemaItem.captures, Part.captured, Capture.loosen, Capture.signature]
  | unnamed, _ => by
    rw [captures_of_part? first optional unnamed rfl]
    simp [schemaItems, SchemaItem.captures, Part.captured, Capture.loosen, Capture.signature]
  | modified m inner, h => by
    have ih := Ready.signatures_schemaItems first (optional || m.allowsNone)
      (multiple || m.allowsMany) inner h.1
    have hloosen : ∀ c : Capture, ((c.loosen false m.allowsMany).loosen false multiple).signature =
        (c.loosen false (multiple || m.allowsMany)).signature := by
      intro c
      have hcomm : (c.multiple || m.allowsMany || multiple) =
          (c.multiple || (multiple || m.allowsMany)) := by
        rw [Bool.or_assoc, Bool.or_comm m.allowsMany]
      simp [Capture.loosen, Capture.signature, hcomm]
    rw [schemaItems, ih, h.captures_modified, List.map_map (g := fun c : Capture =>
      (c.loosen false multiple).signature)]
    exact List.map_congr_left fun c _ => (hloosen c).symm
  | prefixed lead inner, h => by
    have ih := Ready.signatures_schemaItems first optional multiple inner h.1
    have hloosen : ∀ c : Capture, (c.loosen false multiple).signature =
        (c.signature.1, c.signature.2.1, c.signature.2.2 || multiple) := by
      intro c
      simp [Capture.loosen, Capture.signature]
    have hprefixed := congrArg
      (List.map fun s : Key × Bool × Bool => (s.1, s.2.1, s.2.2 || multiple))
      (h.captures_prefixed first optional)
    simp only [List.map_map, Function.comp_def] at hprefixed
    rw [schemaItems, ih]
    simp only [List.map_map, Function.comp_def, hloosen, hprefixed]
  | concat left right _, h => by
    simp only [schemaItems, captures, List.flatMap_append, List.map_append]
    rw [Ready.signatures_schemaItems first optional multiple left h.1,
      Ready.signatures_schemaItems _ optional multiple right h.2]
  | queryParams previous entries, h => by
    simp only [schemaItems, captures, List.flatMap_append, List.map_append]
    rw [Ready.signatures_schemaItems first optional multiple previous h.1,
      Ready.signatures_entryItems _ optional multiple entries h.2]
  | withSchema inner _, _ => by
    have hor := captures_or first false optional inner
    rw [Bool.false_or] at hor
    rw [captures, hor]
    simp [schemaItems, SchemaItem.captures, Capture.loosen, Capture.signature]

theorem Ready.signatures_entryItems (first : Nat) (optional multiple : Bool) :
    (entries : List (Text × Pattern Schema)) → EntriesReady entries →
    ((entryItems first optional multiple entries).flatMap SchemaItem.captures).map Capture.signature =
      ((captures.entryCaptures first optional entries).map (·.1)).map
        fun c => (c.loosen false multiple).signature
  | [], _ => rfl
  | (_, value) :: rest, h => by
    have hvalue := Ready.signatures_schemaItems first optional multiple value h.1
    have hrest := Ready.signatures_entryItems (first + value.unnamedCount) optional multiple rest h.2
    simp only [entryItems, captures.entryCaptures, List.flatMap_append, List.map_append, hvalue, hrest]
    simp

end

theorem Ready.signatures_schema {p : Pattern Schema} (h : p.Ready) :
    p.schema.captures.map Capture.signature = (p.captures 0 false).map (·.1.signature) := by
  have hitems := h.signatures_schemaItems 0 false false
  have hid : ∀ c : Capture, (c.loosen false false).signature = c.signature := by
    intro c
    simp [Capture.loosen, Capture.signature]
  simpa [schema, Schema.captures, hid, Function.comp_def] using hitems

/-- The captures of a pattern that can be matched and rendered: its schema has the same ones, the
positions among their keys count from zero, a match gives values to these keys only, and rendering
looks at nothing but what these keys are given. -/
theorem captures_agree {p : Pattern Schema} {atEnd : Bool} {m : Matcher} {r : Renderer}
    (hm : p.matcher atEnd = .ok m) (hr : p.renderer = .ok r) :
    p.schema.captures.map Capture.signature = (p.captures 0 false).map (·.1.signature) ∧
    (p.captures 0 false).filterMap (·.1.key.index?) = List.range p.unnamedCount ∧
    (∀ query cursor params last, m.run query cursor = some (params, last) →
      ∀ entry ∈ params, entry.1 ∈ (p.captures 0 false).map (·.1.key)) ∧
    (∀ entries others, (∀ c ∈ p.captures 0 false,
        Table.get? c.1.key.value entries = Table.get? c.1.key.value others) →
      r.run (.map entries) = r.run (.map others)) := by
  obtain ⟨hsteps, -⟩ := layout_of_matcher hm
  have hready := ready_of_layout hsteps
  have hcaptures := captures_of_layout hsteps
  refine ⟨hready.signatures_schema, ?_, ?_, ?_⟩
  · rw [hready.indices 0 false, List.range_eq_range']
  · intro query cursor params last hrun entry hentry
    have hkey := (Matcher.collected_run hrun).mem_keys entry hentry
    rw [hcaptures, List.map_map] at hkey
    exact hkey
  · intro entries others hagree
    obtain rfl : (⟨m.steps, (p.captures 0 false).isEmpty⟩ : Renderer) = r := by
      rw [renderer, hsteps] at hr
      exact Except.ok.inj hr
    have hanswers : ∀ c ∈ stepCaptures false m.steps,
        argument c.key (.map entries) = argument c.key (.map others) := by
      intro c hc
      rw [hcaptures] at hc
      obtain ⟨d, hd, rfl⟩ := List.mem_map.mp hc
      rw [argument, argument, hagree d hd]
    rw [Renderer.run_map, Renderer.run_map, renderRoute, renderRoute, renderSteps_congr hanswers]

/-- Captures of an optional composite, behind a lead under a schema, and of a query entry. -/
theorem captures_agree_nested :
    let p : Pattern Schema := .queryParams
      (.concat (.modified .optional (.concat (.literal "v") .unnamed false))
        (.withSchema (.prefixed "-" .unnamed) (.struct "S" [])) false)
      [("q", .modified .zeroOrMore .unnamed)]
    ∃ m r, p.matcher true = .ok m ∧ p.renderer = .ok r ∧
      p.schema.captures.map Capture.signature =
        [(.index 0, true, false), (.index 1, false, false), (.index 2, true, true)] ∧
      r.run (.map [(.int 1, .text "b")]) = r.run (.map [(.text "x", .null), (.int 1, .text "b")]) := by
  intro p
  have hm : p.matcher true = .ok
      ⟨[.nested true [.single (.literal "v" false), .single (.capture ⟨.index 0, [], false, false⟩)],
        .single (.capture ⟨.index 1, "-", false, false⟩),
        .query [("q", [.capture ⟨.index 2, [], true, true⟩])]], true⟩ := by rfl
  have hr : p.renderer = .ok
      ⟨[.nested true [.single (.literal "v" false), .single (.capture ⟨.index 0, [], false, false⟩)],
        .single (.capture ⟨.index 1, "-", false, false⟩),
        .query [("q", [.capture ⟨.index 2, [], true, true⟩])]], false⟩ := by rfl
  obtain ⟨hschema, -, -, hrun⟩ := captures_agree hm hr
  refine ⟨_, _, hm, hr, hschema.trans (by rfl), hrun _ _ fun c hc => ?_⟩
  have hcaptures : p.captures 0 false = [(⟨.index 0, [], true, false⟩, false),
      (⟨.index 1, "-", false, false⟩, false), (⟨.index 2, [], true, true⟩, true)] := by rfl
  rw [hcaptures] at hc
  simp only [List.mem_cons, List.not_mem_nil, or_false] at hc
  rcases hc with rfl | rfl | rfl <;> rfl

end Pattern

end RoutePattern
