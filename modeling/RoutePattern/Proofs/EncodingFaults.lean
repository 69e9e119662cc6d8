import RoutePattern.Proofs.ReportedFaults

/-!
What schemas say of what they do not encode. Encoding gives a mapping or at least one issue, whatever it is
given, and a whole route gives texts and lists of texts.
-/

namespace RoutePattern

theorem Value.length_textsOf {vs : List Value} {ts : List Text} (h : textsOf vs = .ok ts) :
    ts.length = vs.length := by
  induction vs generalizing ts with
  | nil =>
    obtain rfl := Except.ok.inj h
    rfl
  | cons v rest ih =>
    obtain ⟨t, -, h⟩ := Except.bind_eq_ok.mp h
    obtain ⟨others, hothers, rfl⟩ := Except.map_eq_ok.mp h
    rw [List.length_cons, List.length_cons, ih hothers]

namespace Schema

open SchemaItem

variable {short : Prop}

/-- A mapping, which is short where all is. -/
def IsMapping (short : Prop) (w : Value) : Prop := (∃ es, w = .map es) ∧ (short → w.Short)

/-- Texts and lists of texts under keys of captures. -/
def IsArguments (short : Prop) (w : Value) : Prop := (∃ own : Params, w = argumentsOf own) ∧ (short → w.Short)

theorem IsArguments.isMapping {w : Value} (h : IsArguments short w) : IsMapping short w := by
  obtain ⟨⟨own, rfl⟩, hshort⟩ := h
  exact ⟨⟨_, rfl⟩, hshort⟩

theorem exists_text_of_encodeField {c : Codec} {v w : Value} (h : encodeField c v = .ok w) :
    ∃ t, w = .text t := by
  obtain ⟨t, -, rfl⟩ := Except.map_eq_ok.mp h
  exact ⟨t, rfl⟩

theorem short_of_converts {c : Codec} {v w : Value} (h : Converts (encodeField c) v w) (hv : v.Short) :
    w.Short := by
  cases h with
  | absent => trivial
  | @items _ vs ws hitems hws =>
    refine Value.short_list_iff.mpr ⟨?_, fun w hw => ?_⟩
    · rw [← hws.length_eq]
      exact (Value.short_of_items? hitems hv).1
    · obtain ⟨v, -, hencode⟩ := exists_of_mem_right hws hw
      obtain ⟨t, rfl⟩ := exists_text_of_encodeField hencode
      trivial
  | one _ _ hw =>
    obtain ⟨t, rfl⟩ := exists_text_of_encodeField hw
    trivial

theorem short_of_convertsFields {fields : Table Value Codec} {given made : Table Value Value}
    (h : List.Forall₂ (ConvertsField fields encodeField) given made) (hgiven : (Value.map given).Short) :
    (Value.map made).Short := by
  refine Value.short_map_iff.mpr fun e he => ?_
  obtain ⟨d, hd, hkey, hvalue⟩ := exists_of_mem_right h he
  obtain ⟨hshortKey, hshort⟩ := Value.short_map_iff.mp hgiven d hd
  refine ⟨hkey ▸ hshortKey, ?_⟩
  split at hvalue
  · exact hvalue ▸ hshort
  · exact short_of_converts hvalue hshort

theorem yields_encodeStruct {name : Text} {fields : Table Value Codec}
    (hfields : ∀ e ∈ fields, e.2.ReportsWrite) {entries : Table Value Value}
    (h : short → (Value.map entries).Short) :
    Yields (Escapes short) (Issue.Sound short) (IsMapping short)
      ((struct name fields).encode (.map entries)) := by
  have hwithin : (convertFields fields encodeField "encode" entries).Within (Escapes short)
      (Issue.Sound short) fun _ => True := by
    refine within_convertFields (fun e he c hc w _ r hr hnot => ?_) fun e he c hc rest message hrest => ?_
    · obtain ⟨k, hk, -⟩ := Table.exists_beq_of_get? hc
      exact absurd (hfields _ hk w r (Except.map_eq_error.mp hr)) hnot
    · obtain ⟨k, -, hkey⟩ := Table.exists_beq_of_get? hc
      exact sound_of_isPlaceIn h he (Value.asKey_of_same k e.1 hkey) hrest _ message
  have hfaults := yields_finish hwithin
  cases hresult : (struct name fields).encode (.map entries) with
  | error f =>
    have hresult : finish (convertFields fields encodeField "encode" entries) = .error f := hresult
    rw [hresult] at hfaults
    exact hfaults
  | ok w =>
    obtain ⟨given, made, hgiven, rfl, hconverts⟩ := encode_struct_eq_ok.mp hresult
    obtain rfl := Value.map.inj hgiven
    exact ⟨⟨made, rfl⟩, fun hshort => short_of_convertsFields hconverts (h hshort)⟩

section Shapes

variable {c : Capture} {cs : List Capture} {entries : Table Value Value}

theorem within_shapeOf (hkey : short → c.key.value.Short) {v : Value} (hv : short → v.Short) :
    (shapeOf c v).Within (Escapes short) (Issue.Sound short)
      fun out => ∃ captured : Option Captured, out = captured.map Captured.value ∧
        (short → ∀ w ∈ out, w.Short) := by
  have hreport : ∀ message, Outcome.Within (Escapes short) (Issue.Sound short)
      (fun out => ∃ captured : Option Captured, out = captured.map Captured.value ∧
        (short → ∀ w ∈ out, w.Short)) (Outcome.report [⟨.type, [c.key.value], message⟩]) :=
    fun message => ⟨List.forall_mem_singleton.mpr (Issue.sound_of_key hkey _ message), none, rfl, nofun⟩
  unfold shapeOf
  split
  next items hitems =>
    split
    · refine Outcome.within_ofExcept (fun r hr => ?_) fun out hout => ?_
      · exact escapes_of_textsOf (fun hshort => (Value.short_of_items? hitems (hv hshort)).2)
          (Except.map_eq_error.mp hr)
      · obtain ⟨texts, htexts, rfl⟩ := Except.map_eq_ok.mp hout
        refine ⟨some (.many texts), rfl, fun hshort w hw => ?_⟩
        obtain rfl := Option.some.inj hw
        refine Value.short_texts ?_
        rw [Value.length_textsOf htexts]
        exact (Value.short_of_items? hitems (hv hshort)).1
    · exact hreport _
  next hitems =>
    split
    · exact hreport _
    · refine Outcome.within_ofExcept (fun r hr => escapes_of_textOf hv (Except.map_eq_error.mp hr))
        fun out hout => ?_
      obtain ⟨text, -, rfl⟩ := Except.map_eq_ok.mp hout
      refine ⟨some (.one text), rfl, fun _ w hw => ?_⟩
      obtain rfl := Option.some.inj hw
      trivial

theorem within_shapes (hentries : short → (Value.map entries).Short)
    (hkeys : short → ∀ c ∈ cs, c.key.value.Short) :
    (shapes entries cs).Within (Escapes short) (Issue.Sound short)
      fun es => ∃ own : Params, es = Route.paramEntries own ∧ (short → (Value.map es).Short) := by
  induction cs with
  | nil => exact Outcome.within_pure ⟨[], rfl, fun _ => trivial⟩
  | cons c rest ih =>
    have hkey : short → c.key.value.Short := fun hshort => hkeys hshort c List.mem_cons_self
    have hvalue : short → ((Table.get? c.key.value entries).getD .null).Short := by
      intro hshort
      cases hget : Table.get? c.key.value entries with
      | none => trivial
      | some v =>
        obtain ⟨k, hk⟩ := Table.exists_mem_of_get? hget
        exact (Value.short_map_iff.mp (hentries hshort) _ hk).2
    rw [shapes_cons]
    refine Outcome.Within.bind (V := fun out => ∃ captured : Option Captured,
      out = captured.map Captured.value ∧ (short → ∀ w ∈ out, w.Short)) ?_ ?_
    · split
      · split
        · exact Outcome.within_pure ⟨none, rfl, nofun⟩
        · exact ⟨List.forall_mem_singleton.mpr (Issue.sound_of_key hkey _ _), none, rfl, nofun⟩
      · exact within_shapeOf hkey hvalue
    · rintro _ ⟨captured, rfl, hfirst⟩
      refine (ih fun hshort d hd => hkeys hshort d (List.mem_cons_of_mem c hd)).bind ?_
      rintro _ ⟨own, rfl, hrest⟩
      refine Outcome.within_pure ⟨captured.toList.map (c.key, ·) ++ own, ?_, fun hshort => ?_⟩
      · rw [paramEntries_append, paramEntries_captured]
      · refine Value.short_map_iff.mpr (List.forall_mem_append.mpr ⟨fun e he => ?_, ?_⟩)
        · obtain ⟨w, hw, rfl⟩ := Option.map_eq_some_iff.mp (Option.mem_toList.mp he)
          exact ⟨hkey hshort, hfirst hshort w hw⟩
        · exact Value.short_map_iff.mp (hrest hshort)

theorem yields_checkShape (hkeys : short → ∀ c ∈ cs, c.key.value.Short) {v : Value}
    (hv : IsMapping short v) :
    Yields (Escapes short) (Issue.Sound short) (IsArguments short) (checkShape cs v) := by
  obtain ⟨⟨entries, rfl⟩, hshort⟩ := hv
  cases cs with
  | nil => exact ⟨⟨[], rfl⟩, fun _ => trivial⟩
  | cons c rest =>
    have hshapes : (shapes entries (c :: rest) >>= fun es => pure (Table.ofEntries es)).Within
        (Escapes short) (Issue.Sound short) fun es => IsArguments short (.map es) := by
      refine (within_shapes hshort hkeys).bind ?_
      rintro _ ⟨own, rfl, hown⟩
      have htable : Table.ofEntries (Route.paramEntries own) = Route.paramEntries (Table.ofEntries own) :=
        putAll_paramEntries [] own
      refine Outcome.within_pure ⟨⟨Table.ofEntries own, congrArg Value.map htable⟩, fun hs => ?_⟩
      exact Value.short_map_iff.mpr (Table.forall_ofEntries (Value.short_map_iff.mp (hown hs)))
    exact (yields_finish hshapes).mono fun _ ⟨_, heq, h⟩ => heq ▸ h

end Shapes

theorem short_captures {items : List (SchemaItem Schema)} (hshort : short) (hs : ItemsReport short items) :
    ∀ c ∈ items.flatMap SchemaItem.captures, c.key.value.Short := by
  induction items with
  | nil => simp
  | cons item rest ih =>
    rw [List.flatMap_cons]
    cases item with
    | bare c => exact List.forall_mem_append.mpr ⟨(hs.1 hshort).1, ih hs.2⟩
    | attached s cs keys => exact List.forall_mem_append.mpr ⟨(hs.1.2 hshort).1, ih hs.2⟩

theorem within_append {x y : Outcome (Table Value Value)}
    (hx : x.Within (Escapes short) (Issue.Sound short) fun es => short → (Value.map es).Short)
    (hy : y.Within (Escapes short) (Issue.Sound short) fun es => short → (Value.map es).Short) :
    (x >>= fun first => y >>= fun others => pure (first ++ others)).Within (Escapes short) (Issue.Sound short)
      fun es => short → (Value.map es).Short := by
  refine hx.bind fun first hfirst => hy.bind fun others hothers => Outcome.within_pure fun hshort => ?_
  exact Value.short_map_iff.mpr (List.forall_mem_append.mpr
    ⟨Value.short_map_iff.mp (hfirst hshort), Value.short_map_iff.mp (hothers hshort)⟩)

/-- A route encodes to arguments what its parts encode to mappings. -/
theorem yields_encodeRoute {items : List (SchemaItem Schema)} (hitems : ItemsReport short items) {v : Value}
    (hv : short → v.Short)
    (hsole : ∀ result, encodeSole v items = some result →
      Yields (Escapes short) (Issue.Sound short) (IsMapping short) result)
    (hparts : ∀ entries, (short → (Value.map entries).Short) →
      (encodeItems (.map entries) items).Within (Escapes short) (Issue.Sound short)
        fun es => short → (Value.map es).Short) :
    Yields (Escapes short) (Issue.Sound short) (IsArguments short) ((route items).encode v) := by
  have hkeys : short → ∀ c ∈ items.flatMap SchemaItem.captures, c.key.value.Short :=
    fun hshort => short_captures hshort hitems
  cases hresult : encodeSole v items with
  | some result =>
    have hencode : (route items).encode v =
        result.bind (checkShape (items.flatMap SchemaItem.captures)) := by
      cases v <;> simp only [encode, hresult]
    rw [hencode]
    exact (hsole result hresult).bind fun w hw => yields_checkShape hkeys hw
  | none =>
    cases v with
    | map es =>
      have hwithin := hparts es hv
      simp only [encode, hresult]
      cases hencoded : encodeItems (.map es) items with
      | refused r =>
        rw [hencoded] at hwithin
        exact hwithin
      | made entries issues =>
        rw [hencoded] at hwithin
        cases issues with
        | nil =>
          refine yields_checkShape hkeys ⟨⟨_, rfl⟩, fun hshort => ?_⟩
          exact Value.short_map_iff.mpr
            (Table.forall_ofEntries (Value.short_map_iff.mp (hwithin.2 hshort)))
        | cons issue more => exact ⟨by simp, hwithin.1⟩
    | _ =>
      simp only [encode, hresult]
      exact yields_single .type (Issue.sound_of_no_path ..)

mutual

theorem yields_encode : (s : Schema) → s.Reports short → (v : Value) → (short → v.Short) →
    Yields (Escapes short) (Issue.Sound short) (IsMapping short) (s.encode v)
  | struct name fields, hs, v, hv => by
    cases v with
    | map es => exact yields_encodeStruct (fun e he => (hs e he).2.1) hv
    | _ => exact yields_single .type (Issue.sound_of_no_path ..)
  | transform _ inner conversion, hs, v, hv => by
    have hconversion : Yields (Escapes short) (Issue.Sound short) (fun w => short → w.Short)
        (applied (conversion.encode v)) :=
      yields_applied (hs.2.encode v hv) (Issue.sound_of_no_path short .transform)
    exact hconversion.bind fun w hw => yields_encode inner hs.1 w hw
  | route items, hs, v, hv => by
    have hroute := yields_encodeRoute hs hv (yields_encodeSole items hs v hv) (within_encodeItems items hs)
    exact hroute.mono fun _ hw => hw.isMapping

theorem yields_encodeSole : (items : List (SchemaItem Schema)) → ItemsReport short items → (v : Value) →
    (short → v.Short) → ∀ result, encodeSole v items = some result →
    Yields (Escapes short) (Issue.Sound short) (IsMapping short) result
  | [.attached s cs keys], hs, v, hv, result, hresult => by
    obtain ⟨⟨hs, hkeys⟩, -⟩ := hs
    have hencode := yields_rekeyFault hkeys (yields_encode s hs v hv)
    simp only [encodeSole, Option.some.injEq] at hresult
    rw [← hresult]
    cases hmoved : (s.encode v).mapError (rekeyFault keys) with
    | error f =>
      rw [hmoved] at hencode
      exact hencode
    | ok w =>
      rw [hmoved] at hencode
      obtain ⟨⟨es, rfl⟩, hshort⟩ := hencode
      exact ⟨⟨_, rfl⟩, short_globalize hkeys hshort⟩
  | [], _, _, _, _, hresult => by cases hresult
  | [.bare _], _, _, _, _, hresult => by cases hresult
  | .bare _ :: _ :: _, _, _, _, _, hresult => by cases hresult
  | .attached .. :: _ :: _, _, _, _, _, hresult => by cases hresult

theorem within_encodeItems : (items : List (SchemaItem Schema)) → ItemsReport short items →
    (entries : Table Value Value) → (short → (Value.map entries).Short) →
    (encodeItems (.map entries) items).Within (Escapes short) (Issue.Sound short)
      fun es => short → (Value.map es).Short
  | [], _, _, _ => Outcome.within_pure fun _ => trivial
  | .bare c :: rest, hs, entries, hentries => by
    have hown : (ownEntry c (.map entries)).Within (Escapes short) (Issue.Sound short)
        fun es => short → (Value.map es).Short := by
      refine within_ownEntry c fun es hes hshort => Value.short_map_iff.mpr fun e he => ?_
      obtain ⟨hkey, given, hgiven, hvalue⟩ := hes e he
      rw [hkey, hvalue]
      exact ⟨(hs.1 hshort).1 c (List.mem_singleton_self c),
        (Value.short_map_iff.mp (hentries hshort) given hgiven).2⟩
    exact within_append hown (within_encodeItems rest hs.2 entries hentries)
  | .attached s cs keys :: rest, hs, entries, hentries => by
    obtain ⟨⟨hs, hkeys⟩, hrest⟩ := hs
    obtain ⟨own, hlocal, hown⟩ := exists_localize entries keys
    have hencode := yields_encode s hs (.map own) (short_localized hkeys hentries hown)
    have hattached : (attachedOutcome keys s.text (s.encode (.map own))).Within (Escapes short)
        (Issue.Sound short) fun es => short → (Value.map es).Short :=
      within_attachedOutcome hkeys (fun _ => escapes_of_text s hs) (fun _ => trivial)
        (hencode.mono fun _ hw es hes => short_globalize hkeys (hes ▸ hw.2))
    have hpure : Outcome.ofExcept (localize (.map entries) keys) = pure own := by
      rw [hlocal]
      rfl
    rw [encodeItems, hpure, pure_bind]
    exact within_append hattached (within_encodeItems rest hrest entries hentries)

end

end Schema

end RoutePattern
