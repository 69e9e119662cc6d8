import RoutePattern.Proofs.Given
import RoutePattern.Proofs.Reading.Bare
import RoutePattern.Proofs.RoundTrip.Written
import RoutePattern.Proofs.Tagging

/-!
What a pattern that was read can be used for: it is matched and rendered, and what it matches it decodes,
checks, encodes and renders without a fault.
-/

namespace RoutePattern

theorem paramEntries_eq_map (params : Params) :
    Route.paramEntries params = params.map fun entry => (entry.1.value, entry.2.value) := by
  refine List.map_congr_left fun entry _ => ?_
  obtain ⟨key, captured⟩ := entry
  cases captured <;> rfl

theorem paramEntries_append (first second : Params) :
    Route.paramEntries (first ++ second) = Route.paramEntries first ++ Route.paramEntries second :=
  List.map_append

theorem paramEntries_captured (key : Key) (captured : Option Captured) :
    Route.paramEntries (captured.toList.map (key, ·)) =
      ((captured.map Captured.value).map (key.value, ·)).toList := by
  match captured with
  | none => rfl
  | some (.one _) => rfl
  | some (.many _) => rfl

theorem putAll_paramEntries (params others : Params) :
    Table.putAll (Route.paramEntries params) (Route.paramEntries others) =
      Route.paramEntries (Table.putAll params others) := by
  simp only [paramEntries_eq_map]
  exact Table.putAll_map Key.value_beq Captured.value params others

theorem ofEntries_paramEntries {params : Params} (hkeys : (params.map (·.1)).Nodup) :
    Table.ofEntries (Route.paramEntries params) = Route.paramEntries params := by
  have hputAll := putAll_paramEntries [] params
  rw [Table.putAll_nil hkeys] at hputAll
  exact hputAll

namespace Schema

open Outcome

theorem gives_ownEntry (c : Capture) (params : Params) :
    (ownEntry c (argumentsOf params)).Gives
      (Route.paramEntries ((Table.get? c.key params).toList.map (c.key, ·))) := by
  rw [ownEntry, gives_ofExcept, argumentsOf, Value.lookUp, get?_paramEntries, paramEntries_captured]
  rfl

theorem gives_decodeItems (params : Params) (cs : List Capture) :
    (decodeItems (argumentsOf params) (cs.map .bare)).Gives
      (Route.paramEntries (cs.flatMap fun c => (Table.get? c.key params).toList.map (c.key, ·))) := by
  induction cs with
  | nil => rfl
  | cons c rest ih =>
    rw [List.flatMap_cons, paramEntries_append]
    exact gives_bind.mpr ⟨_, gives_ownEntry c params, gives_bind.mpr ⟨_, ih, gives_pure.mpr rfl⟩⟩

theorem encodeItems_bare (arguments : Value) (cs : List Capture) :
    encodeItems arguments (cs.map .bare) = decodeItems arguments (cs.map .bare) := by
  induction cs with
  | nil => rfl
  | cons c rest ih => simp only [List.map_cons, encodeItems, decodeItems, ih]

theorem decodeSole_bare (arguments : Value) (cs : List Capture) :
    decodeSole arguments (cs.map .bare) = none := by
  match cs with
  | [] => rfl
  | [_] => rfl
  | _ :: _ :: _ => rfl

theorem encodeSole_bare (arguments : Value) (cs : List Capture) :
    encodeSole arguments (cs.map .bare) = none := by
  match cs with
  | [] => rfl
  | [_] => rfl
  | _ :: _ :: _ => rfl

theorem gives_shapes {params : Params} {cs : List Capture}
    (hfits : ∀ c ∈ cs, c.Fits (Table.get? c.key params)) :
    (shapes (Route.paramEntries params) cs).Gives (Route.paramEntries (cs.flatMap fun c =>
      ((Table.get? c.key params).bind Captured.given?).toList.map (c.key, ·))) := by
  induction cs with
  | nil => rfl
  | cons c rest ih =>
    obtain ⟨hc, hrest⟩ := List.forall_mem_cons.mp hfits
    have hlook : (Table.get? c.key.value (Route.paramEntries params)).getD .null =
        ((Table.get? c.key params).map Captured.value).getD .null := by
      rw [get?_paramEntries]
    rw [gives_shapes_cons hlook, List.flatMap_cons, paramEntries_append, paramEntries_captured]
    exact ⟨hc.given.accepts, _, ih hrest, rfl⟩

section

variable {cs : List Capture} {params : Params}

theorem checkShape_given (h : Given cs params) (hkeys : (cs.map Capture.key).Nodup) :
    checkShape cs (argumentsOf params) = .ok (argumentsOf (withoutEmpty params)) := by
  cases cs with
  | nil =>
    cases h
    rfl
  | cons c rest =>
    have hgives := gives_shapes (h.fits hkeys)
    rw [← h.withoutEmpty_eq hkeys] at hgives
    have hnodup : ((withoutEmpty params).map (·.1)).Nodup :=
      (h.nodup_keys hkeys).sublist (List.filter_sublist.map _)
    exact finish_eq_ok.mpr ⟨_, gives_bind.mpr ⟨_, hgives, gives_pure.mpr rfl⟩,
      by rw [argumentsOf, ofEntries_paramEntries hnodup]⟩

theorem decode_given (h : Given cs params) (hkeys : (cs.map Capture.key).Nodup) :
    (route (cs.map .bare)).decode (argumentsOf params) = .ok (argumentsOf params) := by
  have hgives := gives_decodeItems params cs
  rw [← h.eq_flatMap hkeys] at hgives
  rw [decode, decodeSole_bare]
  exact finish_eq_ok.mpr ⟨_, gives_bind.mpr ⟨_, hgives, gives_pure.mpr rfl⟩,
    by rw [argumentsOf, ofEntries_paramEntries (h.nodup_keys hkeys)]⟩

theorem encode_given (h : Given cs params) (hkeys : (cs.map Capture.key).Nodup) :
    (route (cs.map .bare)).encode (argumentsOf params) = .ok (argumentsOf (withoutEmpty params)) := by
  have hcaptures : (cs.map SchemaItem.bare : List (SchemaItem Schema)).flatMap SchemaItem.captures =
      cs := by
    simp [List.flatMap_map, SchemaItem.captures]
  have hgives : encodeItems (argumentsOf params) (cs.map .bare) =
      .ok (Route.paramEntries params, []) := by
    conv_rhs => rw [h.eq_flatMap hkeys]
    rw [encodeItems_bare]
    exact gives_decodeItems params cs
  rw [argumentsOf] at hgives
  rw [argumentsOf, encode, encodeSole_bare, hcaptures]
  simp only [hgives, Value.ofEntries, ofEntries_paramEntries (h.nodup_keys hkeys)]
  exact checkShape_given h hkeys

end

end Schema

theorem Capture.Fits.of_signature {c d : Capture} {captured : Option Captured} (h : c.Fits captured)
    (heq : c.signature = d.signature) : d.Fits captured := by
  obtain ⟨-, ho, hm⟩ : c.key = d.key ∧ c.optional = d.optional ∧ c.multiple = d.multiple := by
    simpa [Capture.signature] using heq
  match captured with
  | none => exact ho.symm.trans h
  | some (.one _) => exact ⟨hm ▸ h.1, h.2⟩
  | some (.many _) => exact ⟨hm ▸ h.1, h.2.1, fun hnil => ho ▸ h.2.2 hnil⟩

theorem Given.of_signatures {cs ds : List Capture} {params : Params} (h : Given cs params)
    (heq : cs.map Capture.signature = ds.map Capture.signature) : Given ds params := by
  induction h generalizing ds with
  | nil =>
    obtain rfl : ds = [] := by simpa using heq.symm
    exact .nil
  | @cons c captured rest params hfits _ ih =>
    cases ds with
    | nil => simp at heq
    | cons d others =>
      obtain ⟨hd, hothers⟩ : c.signature = d.signature ∧
          rest.map Capture.signature = others.map Capture.signature := by simpa using heq
      have hkey : c.key = d.key := congrArg Prod.fst hd
      rw [hkey]
      exact .cons (hfits.of_signature hd) (ih hothers)

section

variable {params : Params} (hkeys : (params.map (·.1)).Nodup)

include hkeys

theorem texts_withoutEmpty (key : Key) :
    ((Table.get? key (withoutEmpty params)).map Captured.texts).getD [] =
      ((Table.get? key params).map Captured.texts).getD [] := by
  rw [get?_withoutEmpty hkeys]
  cases Table.get? key params with
  | none => rfl
  | some captured => by_cases h : captured = .many [] <;> simp [Option.filter_some, h, Captured.texts]

theorem text_withoutEmpty : Part.text (withoutEmpty params) = Part.text params := by
  have htext : ∀ (params : Params) (c : Capture), (Part.capture c).text params =
      if ((Table.get? c.key params).map Captured.texts).getD [] = [] then []
      else c.lead ++ Text.join ['/'] (((Table.get? c.key params).map Captured.texts).getD []) := by
    intro params c
    rw [Part.text]
    cases Table.get? c.key params <;> rfl
  funext part
  cases part with
  | literal _ _ => rfl
  | capture c => rw [htext, htext, texts_withoutEmpty hkeys]

theorem entryTexts_withoutEmpty (parts : List Part) :
    entryTexts (withoutEmpty params) parts = entryTexts params parts := by
  match parts with
  | [.capture c] => simp only [entryTexts, Part.values, texts_withoutEmpty hkeys]
  | [] => rfl
  | [.literal _ _] => rfl
  | .literal _ _ :: _ :: _ => simp only [entryTexts, text_withoutEmpty hkeys]
  | .capture _ :: _ :: _ => simp only [entryTexts, text_withoutEmpty hkeys]

end

namespace Route

open Pattern

section

variable {r : Route} {steps : List Step} (h : r.pattern.layout.steps = .ok steps)

include h

theorem accept_of_layout (target : Text) :
    r.accept target = .ok ((⟨steps, r.atEnd⟩ : Matcher).accept (Target.ofText target).segments
      (Target.ofText target).query) := by
  rw [accept, matcher, matcher_of_layout h]
  rfl

theorem render_eq_ok_iff {params : Params} {text : Text} :
    r.render (argumentsOf params) = .ok text ↔ renderRoute (argumentsOf params) steps = .ok text := by
  have hrenderer : r.renderer = .ok ⟨steps, (r.pattern.captures 0 false).isEmpty⟩ := by
    rw [renderer, Pattern.renderer, h]
    rfl
  simp only [render, hrenderer, bind, Except.bind, argumentsOf, Renderer.run_map, Except.mapError_eq_ok]

end

section

variable {split : QuerySplit} {r : Route} {params : Params} (h : ReadSplit split r.pattern)

include h

theorem matcher_of_read : r.matcher = .ok ⟨r.pattern.readSteps, r.atEnd⟩ := by
  rw [matcher, h.matcher_eq]
  rfl

theorem renderer_of_read :
    r.renderer = .ok ⟨r.pattern.readSteps, (r.pattern.captures 0 false).isEmpty⟩ := by
  rw [renderer, h.renderer_eq]
  rfl

theorem render_of_fits
    (hfits : ∀ c ∈ r.pattern.captures 0 false, c.1.Fits (Table.get? c.1.key params)) :
    r.render (argumentsOf params) =
      .ok (orRoot (withQuery (r.pattern.pathText params) (r.pattern.queryText params))) := by
  have hroute : renderRoute (argumentsOf params) r.pattern.readSteps =
      .ok (orRoot (withQuery (r.pattern.pathText params) (r.pattern.queryText params))) := by
    rw [renderRoute, h.renderSteps_readSteps hfits]
    rfl
  simp only [render, renderer_of_read h, bind, Except.bind, argumentsOf, Renderer.run_map]
  rw [← argumentsOf, hroute]
  rfl

theorem render_withoutEmpty (hkeys : (params.map (·.1)).Nodup)
    (hfits : ∀ c ∈ r.pattern.captures 0 false, c.1.Fits (Table.get? c.1.key params)) :
    r.render (argumentsOf (withoutEmpty params)) = r.render (argumentsOf params) := by
  have hfits' : ∀ c ∈ r.pattern.captures 0 false,
      c.1.Fits (Table.get? c.1.key (withoutEmpty params)) := by
    intro c hc
    rw [get?_withoutEmpty hkeys, (hfits c hc).filter_eq]
    exact (hfits c hc).given
  rw [render_of_fits h hfits', render_of_fits h hfits, pathText, queryText, entryPieces]
  simp only [text_withoutEmpty hkeys, entryTexts_withoutEmpty hkeys]
  rfl

/-- What a target is matched with is given to the captures of the pattern. -/
theorem given_accept {target : Text}
    (hkeys : ((r.pattern.captures 0 false).map (·.1.key)).Nodup)
    (haccept : r.accept target = .ok (some params)) :
    Given ((r.pattern.captures 0 false).map (·.1)) params := by
  rw [accept, matcher_of_read h] at haccept
  obtain ⟨⟨_, last⟩, hrun, rfl⟩ := Option.map_eq_some_iff.mp (Except.ok.inj haccept)
  exact given_run (h.matcher_eq r.atEnd) hkeys hrun

end

/-- A pattern that was read can be matched and rendered, and its schema has its captures. Where these
have different keys, whatever a target is matched with fits them: it is what decoding gives, it has the
right shape once empty lists are left out, it is rendered, and encoding gives the text that is rendered. -/
theorem usable_of_parse {source : Text} {atEnd : Bool} {r : Route}
    (h : parse source atEnd = .ok r) :
    (∃ m, r.matcher = .ok m) ∧ (∃ renderer, r.renderer = .ok renderer) ∧
    r.schema.captures.map Capture.signature = (r.pattern.captures 0 false).map (·.1.signature) ∧
    (((r.pattern.captures 0 false).map (·.1.key)).Nodup →
      ∀ target params, r.accept target = .ok (some params) →
        (∀ c ∈ r.pattern.captures 0 false, c.1.Fits (Table.get? c.1.key params)) ∧
        r.decode target = .ok (.ok (.map (paramEntries params))) ∧
        Schema.checkShape r.schema.captures (.map (paramEntries params)) =
          .ok (.map (paramEntries (withoutEmpty params))) ∧
        ∃ text, r.render (.map (paramEntries params)) = .ok text ∧
          r.encode (.map (paramEntries params)) = .ok (.ok text)) := by
  have hread := parse_eq_ok h
  have hsignatures := (ready_of_layout hread.layout_steps).signatures_schema
  refine ⟨⟨_, matcher_of_read hread⟩, ⟨_, renderer_of_read hread⟩, hsignatures,
    fun hkeys target params haccept => ?_⟩
  have hgiven := given_accept hread hkeys haccept
  have hnodup : (((r.pattern.captures 0 false).map (·.1)).map Capture.key).Nodup := by
    rw [List.map_map]
    exact hkeys
  have hfits : ∀ c ∈ r.pattern.captures 0 false, c.1.Fits (Table.get? c.1.key params) := fun c hc =>
    hgiven.fits hnodup c.1 (List.mem_map_of_mem hc)
  -- the schema knows the same captures, but for their leads
  have hschema : Given r.schema.captures params := hgiven.of_signatures (by
    rw [List.map_map]
    exact hsignatures.symm)
  have hschemaKeys : (r.schema.captures.map Capture.key).Nodup := by
    have hfst := congrArg (List.map Prod.fst) hsignatures
    rw [List.map_map, List.map_map] at hfst
    exact hfst ▸ hkeys
  have hdecode := Schema.decode_given hschema hschemaKeys
  have hencode := Schema.encode_given hschema hschemaKeys
  rw [schema, ← hread.schema_eq] at hdecode hencode
  have hrender := render_of_fits hread hfits
  refine ⟨hfits, decode_eq_ok_iff.mpr ⟨params, haccept, hdecode⟩,
    Schema.checkShape_given hschema hschemaKeys, _, hrender, ?_⟩
  refine encode_eq_ok_iff.mpr ⟨_, hencode, ?_⟩
  rw [render_withoutEmpty hread (hgiven.nodup_keys hnodup) hfits, hrender]

/-- A repetition that matches nothing is found as an empty list, which is rendered as nothing. -/
theorem usable_of_parse_left_out :
    let source : Text := "/u/{v:major}{.:minor}/:rest*?q=:q&tag={t-:tags+}"
    let target : Text := "/u/v1.2?tag=t-x&q=a+b"
    let params : Params :=
      [(.name "major", .one "1"), (.name "minor", .one "2"), (.name "rest", .many []),
        (.name "q", .one "a b"), (.name "tags", .many ["x"])]
    ∃ r, parse source true = .ok r ∧ r.accept target = .ok (some params) ∧
      r.decode target = .ok (.ok (.map (paramEntries params))) ∧
      Schema.checkShape r.schema.captures (.map (paramEntries params)) = .ok (.map
        [(.text "major", .text "1"), (.text "minor", .text "2"), (.text "q", .text "a b"),
          (.text "tags", .list [.text "x"])]) ∧
      r.render (.map (paramEntries params)) = .ok ("/u/v1.2?q=a b&tag=t-x" : Text) ∧
      r.encode (.map (paramEntries params)) = .ok (.ok "/u/v1.2?q=a b&tag=t-x") := by
  intro source target params
  let pattern : Pattern Schema := .queryParams
    (.concat (.concat (.literal "u")
        (.concat (.prefixed "v" (.param "major")) (.prefixed "." (.param "minor")) true) false)
      (.modified .zeroOrMore (.param "rest")) false)
    [("q", .param "q"), ("tag", .prefixed "t-" (.modified .oneOrMore (.param "tags")))]
  have hr : parse source true = .ok ⟨pattern, true⟩ := by rfl
  have haccept : (⟨pattern, true⟩ : Route).accept target = .ok (some params) := by rfl
  obtain ⟨-, -, -, husable⟩ := usable_of_parse hr
  obtain ⟨-, hdecode, hshape, text, hrender, hencode⟩ := husable (by decide) target params haccept
  obtain rfl : text = ("/u/v1.2?q=a b&tag=t-x" : Text) := (Except.ok.inj hrender).symm.trans rfl
  exact ⟨⟨pattern, true⟩, hr, haccept, hdecode, hshape, hrender, hencode⟩

end Route

end RoutePattern
