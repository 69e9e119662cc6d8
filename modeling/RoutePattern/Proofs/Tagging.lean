import RoutePattern.Proofs.Codecs
import RoutePattern.Proofs.Conversions
import RoutePattern.Proofs.Rendering
import RoutePattern.Route

/-!
Tags and modifiers. A tag keeps the schema of the route as it was when it was added, and with it what
the capture was then: a modifier that comes later changes what is matched, but not what can be encoded.
-/

namespace RoutePattern

/-- A named capture without a lead. -/
def Capture.named (name : Text) (optional multiple : Bool) : Capture :=
  ⟨.name name, [], optional, multiple⟩

def soleParams (name : Text) (captured : Option Captured) : Params :=
  captured.toList.map (Key.name name, ·)

theorem get?_soleParams (name : Text) (captured : Option Captured) :
    Table.get? (.name name) (soleParams name captured) = captured := by
  cases captured <;> simp [soleParams, Table.get?]

theorem paramEntries_soleParams (name : Text) (captured : Option Captured) :
    Route.paramEntries (soleParams name captured) =
      (captured.map fun c => (Value.text name, c.value)).toList := by
  match captured with
  | none => rfl
  | some (.one _) => rfl
  | some (.many _) => rfl

theorem fits_of_accept {c : Capture} {atEnd : Bool} {segments : List Text} {query : Query}
    {params : Params}
    (h : (Matcher.mk [.single (.capture c)] atEnd).accept segments query = some params) :
    ∃ captured, c.Fits captured ∧ params = captured.toList.map (c.key, ·) := by
  obtain ⟨⟨_, last⟩, hrun, rfl⟩ := Option.map_eq_some_iff.mp h
  obtain ⟨⟨first, next⟩, hfirst, hrest⟩ := Option.bind_eq_some_iff.mp (Matcher.run_eq_some.mp hrun).1
  obtain ⟨rfl, -⟩ := Prod.mk.inj (Option.some.inj hrest)
  exact (matchCapture_cases hfirst).1

namespace Schema

theorem encodeField_eq_ok {codec : Codec} {v w : Value} :
    encodeField codec v = .ok w ↔ ∃ t, codec.encode v = .ok t ∧ .text t = w :=
  Except.map_eq_ok

theorem texts_of_encodeField {codec : Codec} {vs ws : List Value}
    (h : List.Forall₂ (fun v w => encodeField codec v = .ok w) vs ws) :
    ∃ ts : List Text, ws = ts.map .text := by
  induction h with
  | nil => exact ⟨[], rfl⟩
  | cons hfirst _ ih =>
    obtain ⟨t, -, rfl⟩ := encodeField_eq_ok.mp hfirst
    obtain ⟨ts, rfl⟩ := ih
    exact ⟨t :: ts, rfl⟩

theorem Converts.exists_captured {codec : Codec} {v w : Value}
    (h : Converts (encodeField codec) v w) :
    ∃ captured : Option Captured, w = (captured.map Captured.value).getD .null := by
  cases h with
  | absent => exact ⟨none, rfl⟩
  | items _ hws =>
    obtain ⟨ts, rfl⟩ := texts_of_encodeField hws
    exact ⟨some (.many ts), rfl⟩
  | one _ _ hw =>
    obtain ⟨t, -, rfl⟩ := encodeField_eq_ok.mp hw
    exact ⟨some (.one t), rfl⟩

theorem reencode_items {codec : Codec} (hcodec : codec.Reencodes) {ts : List Text} {vs : List Value}
    (hts : ∀ t ∈ ts, t ≠ [])
    (h : List.Forall₂ (fun v w => codec.apply v = .ok w) (ts.map .text) vs) :
    ∃ us : List Text, List.Forall₂ (fun v w => encodeField codec v = .ok w) vs (us.map .text) ∧
      (∀ u ∈ us, u ≠ []) ∧ us.length = ts.length := by
  induction ts generalizing vs with
  | nil =>
    obtain rfl := List.forall₂_nil_left_iff.mp h
    exact ⟨[], .nil, by simp, rfl⟩
  | cons t rest ih =>
    obtain ⟨v, others, hv, hothers, rfl⟩ := List.forall₂_cons_left_iff.mp h
    obtain ⟨ht, hrest⟩ := List.forall_mem_cons.mp hts
    obtain ⟨-, -, u, hencode, hu⟩ := hcodec t v ht hv
    obtain ⟨us, hus, hne, hlength⟩ := ih hrest hothers
    exact ⟨u :: us, .cons (encodeField_eq_ok.mpr ⟨u, hencode, rfl⟩) hus,
      List.forall_mem_cons.mpr ⟨hu, hne⟩, by simp [hlength]⟩

theorem Converts.reencode {codec : Codec} (hcodec : codec.Reencodes) {c : Capture} {captured : Captured}
    (hfits : c.Fits (some captured)) {v : Value} (h : Converts codec.apply captured.value v) :
    ∃ other : Captured, c.Fits (some other) ∧ Converts (encodeField codec) v other.value := by
  cases captured with
  | one t =>
    obtain ⟨hm, ht⟩ := hfits
    cases h with
    | items hvs _ => cases hvs
    | one _ _ hv =>
      obtain ⟨hnull, hone, u, hencode, hu⟩ := hcodec t v ht hv
      exact ⟨.one u, ⟨hm, hu⟩, .one hnull hone (encodeField_eq_ok.mpr ⟨u, hencode, rfl⟩)⟩
  | many ts =>
    obtain ⟨hm, hne, hnil⟩ := hfits
    cases h with
    | items hts hvs =>
      obtain rfl := Option.some.inj hts
      obtain ⟨us, hus, hune, hlength⟩ := reencode_items hcodec hne hvs
      refine ⟨.many us, ⟨hm, hune, fun husnil => hnil ?_⟩, .items rfl hus⟩
      exact List.eq_nil_of_length_eq_zero (by rw [← hlength, husnil, List.length_nil])
    | one _ hone _ => cases hone

/-- The schema of a route of one capture that a codec decodes. -/
def field (name : Text) (codec : Codec) : Schema := .struct codec.name [(.text name, codec)]

def soleKeys (name : Text) : Table Key Key := [(.name name, .name name)]

/-- The schema of such a route with a tag, whose capture was `inner` when the tag was added and is
`outer` by now. -/
def taggedField (name tag key : Text) (codec : Codec) (inner outer : Capture) : Schema :=
  .route [.attached
    ((route [.attached (field name codec) [inner] (soleKeys name)]).tagged tag key)
    [outer] (soleKeys name)]

/-- What the codec writes for a value without its tag is what is given for the capture. -/
def Writes (name tag key : Text) (codec : Codec) (v : Value) (given : Option Captured) : Prop :=
  ∃ w made, ∃ captured : Option Captured, (tagging tag key).encode v = .ok w ∧
    (field name codec).encode w = .ok (.map made) ∧
    (Table.get? (.text name) (Table.ofEntries made)).getD .null =
      (captured.map Captured.value).getD .null ∧
    given = captured.bind Captured.given?

section

variable {name tag key : Text} {codec : Codec} {inner outer : Capture}

theorem Writes.ne_nil {v : Value} {t : Text} (h : Writes name tag key codec v (some (.one t))) :
    t ≠ [] := by
  obtain ⟨_, _, captured, -, -, -, hgiven⟩ := h
  obtain ⟨own, -, hown⟩ := Option.bind_eq_some_iff.mp hgiven.symm
  obtain rfl := Captured.eq_of_given? hown
  rintro rfl
  cases hown

theorem convertsField_sole {convert : Codec → Value → Except Refusal Value} {v w : Value} :
    ConvertsField [(.text name, codec)] convert (.text name, v) (.text name, w) ↔
      Converts (convert codec) v w := by
  simp [ConvertsField, Table.get?]

theorem exists_captured_of_mem {given made : Table Value Value} {w : Value}
    (h : List.Forall₂ (ConvertsField [(.text name, codec)] encodeField) given made)
    (hmem : (.text name, w) ∈ made) :
    ∃ captured : Option Captured, w = (captured.map Captured.value).getD .null := by
  obtain ⟨⟨k, v⟩, -, hentry⟩ := exists_of_mem_right h hmem
  obtain rfl : .text name = k := hentry.1
  exact Converts.exists_captured (convertsField_sole.mp hentry)

theorem exists_captured_of_encode_field {w : Value} {made : Table Value Value}
    (h : (field name codec).encode w = .ok (.map made)) :
    ∃ captured : Option Captured, (Table.get? (.text name) (Table.ofEntries made)).getD .null =
      (captured.map Captured.value).getD .null := by
  obtain ⟨entries, _, -, hmade, hconverts⟩ := encode_struct_eq_ok.mp h
  obtain rfl := Value.map.inj hmade
  cases hget : Table.get? (.text name) (Table.ofEntries made) with
  | none => exact ⟨none, rfl⟩
  | some v => exact exists_captured_of_mem hconverts (Table.mem_of_get?_ofEntries hget)

theorem checkShape_made {c : Capture} (hkey : c.key = .name name) {made : Table Value Value}
    {captured : Option Captured} {params : Value}
    (h : (Table.get? (.text name) (Table.ofEntries made)).getD .null =
      (captured.map Captured.value).getD .null) :
    checkShape [c] (.map (SchemaItem.globalize (soleKeys name) made)) = .ok params ↔
      c.Accepts (captured.bind Captured.given?) ∧
        params = argumentsOf (soleParams name (captured.bind Captured.given?)) := by
  have hget : (Table.get? c.key.value (Table.ofEntries made)).getD .null =
      (captured.map Captured.value).getD .null := by
    rw [hkey]
    exact h
  rw [soleKeys, SchemaItem.globalize_self, checkShape_eq_ok hget, hkey]
  rfl

theorem encode_taggedField_eq_ok {v params : Value} (hinner : inner.key = .name name)
    (houter : outer.key = .name name) :
    (taggedField name tag key codec inner outer).encode v = .ok params ↔
      ∃ given, Writes name tag key codec v given ∧ inner.Accepts given ∧ outer.Accepts given ∧
        params = argumentsOf (soleParams name given) := by
  -- what passed the first check is given to the second one as it is
  have hagain : ∀ captured : Option Captured,
      checkShape [outer] (.map (SchemaItem.globalize (soleKeys name)
          ((argumentsOf (soleParams name (captured.bind Captured.given?))).entries?.getD []))) =
        .ok params ↔
      outer.Accepts (captured.bind Captured.given?) ∧
        params = argumentsOf (soleParams name (captured.bind Captured.given?)) := by
    intro captured
    have hgiven : (Table.get? (.text name) (Table.ofEntries (Route.paramEntries
          (soleParams name (captured.bind Captured.given?))))).getD .null =
        ((captured.bind Captured.given?).map Captured.value).getD .null := by
      rw [paramEntries_soleParams]
      cases captured.bind Captured.given? with
      | none => rfl
      | some given => simp [Table.ofEntries, Table.putAll, Table.put, Table.get?]
    have hcheck := @checkShape_made name outer houter _ _ params hgiven
    rw [Captured.bind_given?_bind] at hcheck
    exact hcheck
  simp only [taggedField, encode_sole_eq_ok, tagged, encode_transform_eq_ok]
  constructor
  · rintro ⟨own, ⟨w, hw, fields, hfield, hown⟩, hparams⟩
    obtain ⟨entries, made, rfl, rfl, -⟩ := encode_struct_eq_ok.mp hfield
    obtain ⟨captured, hcaptured⟩ := exists_captured_of_encode_field hfield
    obtain ⟨hin, rfl⟩ := (checkShape_made hinner hcaptured).mp hown
    obtain ⟨hout, rfl⟩ := (hagain captured).mp hparams
    exact ⟨_, ⟨_, made, captured, hw, hfield, hcaptured, rfl⟩, hin, hout, rfl⟩
  · rintro ⟨_, ⟨w, made, captured, hw, hfield, hcaptured, rfl⟩, hin, hout, rfl⟩
    exact ⟨_, ⟨w, hw, .map made, hfield, (checkShape_made hinner hcaptured).mpr ⟨hin, rfl⟩⟩,
      (hagain captured).mpr ⟨hout, rfl⟩⟩

theorem localize_soleParams (captured : Option Captured) :
    SchemaItem.localize (argumentsOf (soleParams name captured)) (soleKeys name) =
      .ok (Route.paramEntries (soleParams name captured)) := by
  have hget : Table.get? (Key.name name).value (Route.paramEntries (soleParams name captured)) =
      captured.map Captured.value := by
    rw [get?_paramEntries, get?_soleParams]
  simp only [argumentsOf, soleKeys, SchemaItem.localize, Value.lookUp, hget]
  rw [paramEntries_soleParams]
  cases captured <;> rfl

theorem decode_taggedField_eq_ok {captured : Option Captured} {v : Value} :
    (taggedField name tag key codec inner outer).decode (argumentsOf (soleParams name captured)) =
        .ok v ↔
      ∃ read, (field name codec).decode (argumentsOf (soleParams name captured)) = .ok (.map read) ∧
        v = .map (Table.put (.text key) (.text tag) read) := by
  have hargs : Value.map (Route.paramEntries (soleParams name captured)) =
      argumentsOf (soleParams name captured) := rfl
  simp only [taggedField, decode_sole_eq_ok, tagged, decode_transform_eq_ok, localize_soleParams,
    decode_tagging_eq_ok, Except.ok.injEq, exists_eq_left', hargs]
  constructor
  · rintro ⟨_, hread, read, rfl, rfl⟩
    exact ⟨read, hread, rfl⟩
  · rintro ⟨read, hread, rfl⟩
    exact ⟨.map read, hread, read, rfl, rfl⟩

theorem decode_field_eq_ok {captured : Option Captured} {v : Value} :
    (field name codec).decode (argumentsOf (soleParams name captured)) = .ok v ↔
      (captured = none ∧ v = .map []) ∨
      ∃ own w, captured = some own ∧ Converts codec.apply own.value w ∧
        v = .map [(.text name, w)] := by
  rw [field, decode_struct_eq_ok, argumentsOf, paramEntries_soleParams]
  cases captured with
  | none =>
    constructor
    · rintro ⟨_, made, hgiven, rfl, hmade⟩
      obtain rfl := Value.map.inj hgiven
      obtain rfl := List.forall₂_nil_left_iff.mp hmade
      exact .inl ⟨rfl, rfl⟩
    · rintro (⟨-, rfl⟩ | ⟨_, _, hown, -⟩)
      · exact ⟨[], [], rfl, rfl, .nil⟩
      · cases hown
  | some own =>
    constructor
    · rintro ⟨_, made, hgiven, rfl, hmade⟩
      obtain rfl := Value.map.inj hgiven
      obtain ⟨⟨k, w⟩, _, hentry, hnil, rfl⟩ := List.forall₂_cons_left_iff.mp hmade
      obtain rfl := List.forall₂_nil_left_iff.mp hnil
      obtain rfl : k = .text name := hentry.1
      exact .inr ⟨own, w, rfl, convertsField_sole.mp hentry, rfl⟩
    · rintro (⟨hown, -⟩ | ⟨_, w, hown, hw, rfl⟩)
      · cases hown
      · obtain rfl := Option.some.inj hown
        exact ⟨_, _, rfl, rfl, .cons (convertsField_sole.mpr hw) .nil⟩

theorem encode_field_of_converts {w u : Value} (h : Converts (encodeField codec) w u) :
    (field name codec).encode (.map [(.text name, w)]) = .ok (.map [(.text name, u)]) :=
  encode_struct_eq_ok.mpr ⟨_, _, rfl, rfl, .cons (convertsField_sole.mpr h) .nil⟩

theorem writes_of_decode (hcodec : codec.Reencodes) (hkey : key ≠ name) {c : Capture}
    {captured : Option Captured} (hfits : c.Fits captured) {v : Value}
    (h : (taggedField name tag key codec inner outer).decode
      (argumentsOf (soleParams name captured)) = .ok v) :
    ∃ given, Writes name tag key codec v given ∧ c.Fits given := by
  have hbeq : (Value.text name == Value.text key) = false := by
    rw [Bool.eq_false_iff]
    intro hname
    exact hkey (Value.text.inj (Value.beq_text.mp hname)).symm
  obtain ⟨read, hread, rfl⟩ := decode_taggedField_eq_ok.mp h
  rcases decode_field_eq_ok.mp hread with ⟨rfl, hnone⟩ | ⟨own, w, rfl, hw, hsome⟩
  · obtain rfl := Value.map.inj hnone
    have hempty : (field name codec).encode (.map []) = .ok (.map []) := rfl
    exact ⟨none, ⟨_, [], none, encode_tagging_put rfl, hempty, rfl, rfl⟩, hfits⟩
  · obtain rfl := Value.map.inj hsome
    obtain ⟨other, hother, hwrite⟩ := Converts.reencode hcodec hfits hw
    refine ⟨_, ⟨_, _, some other, encode_tagging_put ?_, encode_field_of_converts hwrite, ?_, rfl⟩,
      hother.given⟩
    · simp [Table.get?, hbeq]
    · simp [Table.ofEntries, Table.putAll, Table.put, Table.get?]

end

end Schema

namespace Route

theorem encode_eq_ok_iff {r : Route} {v : Value} {text : Text} :
    r.encode v = .ok (.ok text) ↔
      ∃ params, r.schema.encode v = .ok params ∧ r.render params = .ok text := by
  have hfault : ∀ issues, (r.encodeFault issues).map .error ≠
      (.ok (.ok text) : Except RouteError (Except RoutingFault Text)) := by
    intro issues h
    cases hfault : r.encodeFault issues <;> simp [hfault, Except.map] at h
  unfold encode
  constructor
  · intro h
    split at h
    · cases h
    · exact absurd h (hfault _)
    next params hparams =>
      split at h
      next rendered hrendered =>
        obtain rfl := Except.ok.inj (Except.ok.inj h)
        exact ⟨params, hparams, hrendered⟩
      · exact absurd h (hfault _)
      · cases h
  · rintro ⟨params, hparams, hrendered⟩
    simp only [hparams, hrendered]

theorem decode_eq_ok_iff {r : Route} {target : Text} {v : Value} :
    r.decode target = .ok (.ok v) ↔
      ∃ params, r.accept target = .ok (some params) ∧
        r.schema.decode (argumentsOf params) = .ok v := by
  unfold decode
  cases haccept : r.accept target with
  | error e => simp [bind, Except.bind]
  | ok found =>
    cases found with
    | none =>
      cases hpath : r.path? <;> simp [bind, Except.bind, pure, Except.pure, Except.mapError]
    | some params =>
      have hargs : Value.map (paramEntries params) = argumentsOf params := rfl
      simp only [bind, Except.bind, hargs, Except.ok.injEq, Option.some.injEq, exists_eq_left']
      cases hdecode : r.schema.decode (argumentsOf params) with
      | ok w => simp [pure, Except.pure]
      | error fault =>
        cases fault with
        | refusal refusal => simp
        | issues issues =>
          cases r.path? with
          | error refusal => simp [Except.mapError]
          | ok path =>
            cases hfault : RoutingFault.decodeFailed (some path) (issues.map .issue) <;>
              simp [Except.mapError, hfault, pure, Except.pure]

/-- The route has one capture, which was `inner` when the route was tagged and is `outer` by now. -/
structure TaggedCapture (name tag key : Text) (codec : Codec) (atEnd : Bool) (inner outer : Capture)
    (r : Route) : Prop where
  innerKey : inner.key = .name name
  outerKey : outer.key = .name name
  outerLead : outer.lead = []
  schema : r.schema = .taggedField name tag key codec inner outer
  matcher : r.matcher = .ok ⟨[.single (.capture outer)], atEnd⟩
  renderer : r.renderer = .ok ⟨[.single (.capture outer)], false⟩

section

variable (name tag key : Text) (codec : Codec) (atEnd : Bool) (m : Modifier)

theorem taggedCapture_addTag :
    TaggedCapture name tag key codec atEnd (.named name false false) (.named name false false)
      ((paramWith name codec atEnd).addTag tag key) :=
  ⟨rfl, rfl, rfl, rfl, rfl, rfl⟩

theorem taggedCapture_addTag_modified :
    TaggedCapture name tag key codec atEnd (.named name false false)
      (.named name m.allowsNone m.allowsMany)
      (((paramWith name codec atEnd).addTag tag key).modified m) := by
  cases m <;> exact ⟨rfl, rfl, rfl, rfl, rfl, rfl⟩

theorem taggedCapture_modified_addTag :
    TaggedCapture name tag key codec atEnd (.named name m.allowsNone m.allowsMany)
      (.named name m.allowsNone m.allowsMany)
      (((paramWith name codec atEnd).modified m).addTag tag key) := by
  cases m <;> exact ⟨rfl, rfl, rfl, rfl, rfl, rfl⟩

end

namespace TaggedCapture

variable {name tag key : Text} {codec : Codec} {atEnd : Bool} {inner outer : Capture} {r : Route}

theorem render_eq (h : TaggedCapture name tag key codec atEnd inner outer r)
    {given : Option Captured} (hfits : outer.Fits given) :
    r.render (argumentsOf (soleParams name given)) =
      .ok (orRoot (joinPath [(Part.capture outer).text (soleParams name given)])) := by
  have hpart : (Part.capture outer).Fits (soleParams name given) := by
    rw [Part.Fits, h.outerKey, get?_soleParams]
    exact hfits
  have hsteps : renderRoute (argumentsOf (soleParams name given)) [.single (.capture outer)] =
      .ok (orRoot (joinPath [(Part.capture outer).text (soleParams name given)])) := by
    simp [renderRoute, renderSteps, renderPaths, Step.render, renderPart_eq hpart, renderLastQuery,
      withQuery, Except.map, bind, Except.bind, pure, Except.pure]
  simp only [Route.render, h.renderer, bind, Except.bind, argumentsOf, Renderer.run_map]
  rw [← argumentsOf, hsteps]
  rfl

theorem encode_iff (h : TaggedCapture name tag key codec atEnd inner outer r) {v : Value}
    {text : Text} :
    r.encode v = .ok (.ok text) ↔
      ∃ given, Schema.Writes name tag key codec v given ∧ inner.Accepts given ∧ outer.Accepts given ∧
        r.render (argumentsOf (soleParams name given)) = .ok text := by
  rw [encode_eq_ok_iff, h.schema]
  simp only [Schema.encode_taggedField_eq_ok h.innerKey h.outerKey]
  constructor
  · rintro ⟨_, ⟨given, hwrites, hin, hout, rfl⟩, hrender⟩
    exact ⟨given, hwrites, hin, hout, hrender⟩
  · rintro ⟨given, hwrites, hin, hout, hrender⟩
    exact ⟨_, ⟨given, hwrites, hin, hout, rfl⟩, hrender⟩

theorem encode_one (h : TaggedCapture name tag key codec atEnd inner outer r)
    (hin : inner.multiple = false) (hout : outer.multiple = false) {v : Value} {t : Text}
    (hwrites : Schema.Writes name tag key codec v (some (.one t))) (ht : t ≠ []) :
    r.encode v = .ok (.ok (orRoot (joinPath [t]))) := by
  have htext : (Part.capture outer).text (soleParams name (some (.one t))) = t := by
    simp [Part.text, h.outerKey, h.outerLead, get?_soleParams, Captured.texts, Text.join]
  have hfits : outer.Fits (some (.one t)) := ⟨hout, ht⟩
  refine h.encode_iff.mpr ⟨_, hwrites, hin, hout, ?_⟩
  rw [h.render_eq hfits, htext]

/-- Nothing else is encoded where the capture was required and single when the route was tagged. -/
theorem exists_one_of_encode (h : TaggedCapture name tag key codec atEnd inner outer r)
    (hrequired : inner.optional = false) (hsingle : inner.multiple = false) {v : Value} {text : Text}
    (hencode : r.encode v = .ok (.ok text)) :
    outer.multiple = false ∧
      ∃ t, t ≠ [] ∧ Schema.Writes name tag key codec v (some (.one t)) ∧
        text = orRoot (joinPath [t]) := by
  obtain ⟨given, hwrites, hin, hout, -⟩ := h.encode_iff.mp hencode
  match given with
  | none => simp [Capture.Accepts, hrequired] at hin
  | some (.many _) => simp [Capture.Accepts, hsingle] at hin
  | some (.one t) =>
    have ht : t ≠ [] := hwrites.ne_nil
    have hone := h.encode_one hsingle hout hwrites ht
    rw [hencode] at hone
    exact ⟨hout, t, ht, hwrites, Except.ok.inj (Except.ok.inj hone)⟩

/-- What is decoded can be encoded where the capture has not changed since the route was tagged. -/
theorem exists_encode_of_decode (h : TaggedCapture name tag key codec atEnd outer outer r)
    (hcodec : codec.Reencodes) (hkey : key ≠ name) {target : Text} {v : Value}
    (hdecode : r.decode target = .ok (.ok v)) : ∃ text, r.encode v = .ok (.ok text) := by
  obtain ⟨params, haccept, hparams⟩ := decode_eq_ok_iff.mp hdecode
  simp only [accept, h.matcher, Except.map, Except.ok.injEq] at haccept
  obtain ⟨captured, hfits, rfl⟩ := fits_of_accept haccept
  rw [h.outerKey, h.schema] at hparams
  obtain ⟨given, hwrites, hgiven⟩ := Schema.writes_of_decode hcodec hkey hfits hparams
  exact ⟨_, h.encode_iff.mpr ⟨given, hwrites, hgiven.accepts, hgiven.accepts, h.render_eq hgiven⟩⟩

end TaggedCapture

/-- A tag before and after a modifier. Both orders decode alike. With the tag first, nothing is encoded
but what is without the modifier, and nothing at all where the capture repeats now; with the tag last,
the same is encoded, and all else that is decoded as well. -/
theorem tag_modified {kind name tag key : Text} {codec : Codec}
    (hcodec : Registry.standard.find kind = .ok codec) (hkey : key ≠ name) (atEnd : Bool)
    (m : Modifier) :
    (∀ target, (((paramWith name codec atEnd).addTag tag key).modified m).decode target =
      (((paramWith name codec atEnd).modified m).addTag tag key).decode target) ∧
    (∀ v text, (((paramWith name codec atEnd).addTag tag key).modified m).encode v = .ok (.ok text) ↔
      m.allowsMany = false ∧ ((paramWith name codec atEnd).addTag tag key).encode v = .ok (.ok text)) ∧
    (∀ v text, (((paramWith name codec atEnd).addTag tag key).modified m).encode v = .ok (.ok text) →
      (((paramWith name codec atEnd).modified m).addTag tag key).encode v = .ok (.ok text)) ∧
    (∀ target v, (((paramWith name codec atEnd).modified m).addTag tag key).decode target =
        .ok (.ok v) →
      ∃ text, (((paramWith name codec atEnd).modified m).addTag tag key).encode v =
        .ok (.ok text)) := by
  have hbase := taggedCapture_addTag name tag key codec atEnd
  have hinside := taggedCapture_addTag_modified name tag key codec atEnd m
  have houtside := taggedCapture_modified_addTag name tag key codec atEnd m
  refine ⟨?_, ?_, ?_, ?_⟩
  · intro target
    cases m <;> rfl
  · intro v text
    constructor
    · intro h
      obtain ⟨hsingle, t, ht, hwrites, rfl⟩ := hinside.exists_one_of_encode rfl rfl h
      exact ⟨hsingle, hbase.encode_one rfl rfl hwrites ht⟩
    · rintro ⟨hsingle, h⟩
      obtain ⟨-, t, ht, hwrites, rfl⟩ := hbase.exists_one_of_encode rfl rfl h
      exact hinside.encode_one rfl hsingle hwrites ht
  · intro v text h
    obtain ⟨hsingle, t, ht, hwrites, rfl⟩ := hinside.exists_one_of_encode rfl rfl h
    exact houtside.encode_one hsingle hsingle hwrites ht
  · intro target v h
    exact houtside.exists_encode_of_decode (Codec.reencodes_standard hcodec) hkey h

theorem tag_modified_left_out :
    let outside := ((paramWith "n" .int false).modified .optional).addTag "t" "_tag"
    let v : Value := .map [(.text "_tag", .text "t")]
    Registry.standard.find "int" = .ok .int ∧ ("_tag".toList ≠ "n".toList) ∧
      outside.decode "/" = .ok (.ok v) ∧ ∃ text, outside.encode v = .ok (.ok text) := by
  intro outside v
  have hcodec : Registry.standard.find "int" = .ok .int := by rfl
  have hkey : "_tag".toList ≠ "n".toList := by decide
  have hdecode : outside.decode "/" = .ok (.ok v) := by rfl
  obtain ⟨-, -, -, hencode⟩ := @tag_modified "int" "n" "t" "_tag" .int hcodec hkey false .optional
  exact ⟨hcodec, hkey, hdecode, hencode "/" v hdecode⟩

/-- With the tag first, what is left out is decoded but not encoded. -/
theorem tagged_first_not_encoded :
    let inside := ((paramWith "n" .int false).addTag "t" "_tag").modified .optional
    let outside := ((paramWith "n" .int false).modified .optional).addTag "t" "_tag"
    let v : Value := .map [(.text "_tag", .text "t")]
    inside.decode "/" = .ok (.ok v) ∧ (∃ fault, inside.encode v = .ok (.error fault)) ∧
      outside.encode v = .ok (.ok "/") :=
  ⟨rfl, ⟨_, rfl⟩, rfl⟩

end Route

end RoutePattern
