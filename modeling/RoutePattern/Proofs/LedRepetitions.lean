import RoutePattern.Proofs.Lossless
import RoutePattern.Proofs.Shadowing
import RoutePattern.Proofs.Usable

/-!
One repetition behind a lead as a whole route. It writes its lead together with its first value, so that a
path comes back as it was matched unless its first segment is the bare lead: that segment is then dropped,
and what follows it is glued to the lead.
-/

namespace RoutePattern

open Cursor (behind)

/-- The segments that values make behind a lead: the first value shares its segment with the lead. -/
def ledSegments (lead : Text) : List Text → List Text
  | [] => []
  | value :: others => (lead ++ value) :: others

theorem join_ledSegments (lead : Text) {values : List Text} (h : values ≠ []) :
    Text.join ['/'] (ledSegments lead values) = lead ++ Text.join ['/'] values := by
  cases values with
  | nil => contradiction
  | cons value others =>
    cases others with
    | nil => simp [ledSegments, Text.join]
    | cons next rest => simp [ledSegments, Text.join_cons]

theorem ledSegments_ne_cons (lead : Text) (values : List Text) :
    ledSegments lead values ≠ lead :: values := by
  intro h
  have hlength := congrArg List.length h
  cases values with
  | nil => cases hlength
  | cons value others =>
    simp only [ledSegments, List.length_cons] at hlength
    omega

theorem Clean.ledSegments {lead : Text} {segments values : List Text} (h : Clean segments)
    (hvalues : ledSegments lead values = segments ∨ segments = lead :: values) :
    Clean (ledSegments lead values) := by
  obtain rfl | rfl := hvalues
  · exact h
  · obtain ⟨hlead, hothers⟩ := List.forall_mem_cons.mp h
    cases values with
    | nil => exact List.forall_mem_nil _
    | cons value others =>
      obtain ⟨hvalue, hrest⟩ := List.forall_mem_cons.mp hothers
      have hslash : '/' ∉ lead ++ value := by
        rw [List.mem_append]
        exact not_or.mpr ⟨hlead.2, hvalue.2⟩
      exact List.forall_mem_cons.mpr ⟨⟨List.append_ne_nil_of_right_ne_nil lead hvalue.1, hslash⟩, hrest⟩

/-- Values fill the first segment behind a lead, so they are not dropped, unless it is the bare lead. -/
theorem filter_values {value : Text} {others : List Text} (h : ∀ text ∈ others, text ≠ []) :
    (value :: others).filter (!·.isEmpty) = if value = [] then others else value :: others := by
  have hothers : others.filter (!·.isEmpty) = others :=
    List.filter_eq_self.mpr fun t ht => by simpa using h t ht
  by_cases hvalue : value = []
  · rw [if_pos hvalue, hvalue, List.filter_cons_of_neg (by simp), hothers]
  · rw [if_neg hvalue, List.filter_cons_of_pos (by simpa using hvalue), hothers]

/-- What a repetition takes to the end is all segments as they are, unless the first one is its lead. -/
theorem Capture.Takes.eq_many {c : Capture} {segments : List Text} {params : Params}
    (h : c.Takes segments [] params) (hm : c.multiple = true) (hclean : Clean segments) :
    ∃ values, params = [(c.key, .many values)] ∧ (∀ value ∈ values, value ≠ []) ∧
      (values = [] → c.optional = true) ∧
      (segments.head? ≠ some c.lead ∧ ledSegments c.lead values = segments ∨ segments = c.lead :: values) := by
  cases h with
  | absent ho _ => exact ⟨[], by rw [if_pos hm], by simp, fun _ => ho, .inl ⟨by simp, rfl⟩⟩
  | void _ hsingle _ => simp [hm] at hsingle
  | one hsingle _ _ => simp [hm] at hsingle
  | @many segment value others _ hlead hgiven =>
    obtain ⟨-, hothers⟩ := List.forall_mem_cons.mp hclean
    have hne : ∀ text ∈ others, text ≠ [] := fun text ht => (hothers text ht).1
    obtain rfl := Text.after?_eq_some.mp hlead
    refine ⟨_, rfl, fun text ht => by simpa using (List.mem_filter.mp ht).2, hgiven, ?_⟩
    rw [filter_values hne]
    by_cases hvalue : value = []
    · exact .inr (by rw [if_pos hvalue, hvalue, List.append_nil])
    · rw [if_neg hvalue]
      exact .inl ⟨by simpa using hvalue, rfl⟩

theorem takes_of_accept {c : Capture} {segments : List Text} {query : Query} {params : Params}
    (h : (⟨[.single (.capture c)], true⟩ : Matcher).accept segments query = some params) :
    c.Takes segments [] params := by
  obtain ⟨⟨_, last⟩, hrun, rfl⟩ := Option.map_eq_some_iff.mp h
  obtain ⟨hrun, hexhausted⟩ := Matcher.run_eq_some.mp hrun
  obtain ⟨⟨first, next⟩, hfirst, hrun⟩ := Option.bind_eq_some_iff.mp hrun
  obtain ⟨rfl, rfl⟩ := Prod.mk.inj (Option.some.inj hrun)
  obtain ⟨used, left, rfl, rfl, htakes⟩ :=
    takes_of_matchCapture (show matchCapture c (behind [] segments) = some (first, next) from hfirst)
  obtain rfl := Cursor.isExhausted_behind_iff.mp (hexhausted rfl)
  rw [List.append_nil]
  exact htakes

theorem render_repetition {c : Capture} {values : List Text} (hm : c.multiple = true)
    (hne : ∀ value ∈ values, value ≠ []) (ho : values = [] → c.optional = true)
    (hclean : Clean (ledSegments c.lead values)) :
    renderRoute (argumentsOf [(c.key, .many values)]) [.single (.capture c)] =
      .ok (writtenPath (ledSegments c.lead values)) := by
  have hget : Table.get? c.key ([(c.key, .many values)] : Params) = some (.many values) := by
    simp [Table.get?]
  have hfits : (Part.capture c).Fits [(c.key, .many values)] := by
    rw [Part.Fits, hget]
    exact ⟨hm, hne, ho⟩
  have htext : joinPath [(Part.capture c).text [(c.key, .many values)]] =
      (ledSegments c.lead values).flatMap ('/' :: ·) := by
    by_cases hvalues : values = []
    · rw [Part.text, hget, hvalues]
      rfl
    · rw [Part.text_of_get? hget hvalues, Captured.texts, ← join_ledSegments c.lead hvalues,
        hclean.joinPath_join, joinPath_of_clean hclean]
  have hpaths : renderPaths (argumentsOf [(c.key, .many values)]) [.single (.capture c)] =
      .ok [(Part.capture c).text [(c.key, .many values)]] := by
    rw [renderPaths, Step.render, renderPart_eq hfits]
    rfl
  rw [renderRoute, renderSteps, hpaths, writtenPath, ← htext]
  rfl

theorem writtenPath_inj {segments others : List Text} (h : Clean segments) (h' : Clean others) :
    writtenPath segments = writtenPath others ↔ segments = others := by
  constructor
  · intro heq
    rw [← splitPath_writtenPath (fun text ht => (h text ht).2) (fun text ht => (h text ht).1), heq,
      splitPath_writtenPath (fun text ht => (h' text ht).2) (fun text ht => (h' text ht).1)]
  · rintro rfl
    rfl

namespace Route

theorem steps_repetition {lead : Text} {m : Modifier} {core p : Pattern Schema}
    (hcore : core = .unnamed ∨ ∃ name, core = .param name)
    (hp : p = .prefixed lead (.modified m core) ∨ p = .modified m (.prefixed lead core)) :
    ∃ key, p.layout.steps = .ok [.single (.capture ⟨key, lead, m.allowsNone, m.allowsMany⟩)] := by
  obtain rfl | ⟨name, rfl⟩ := hcore
  · refine ⟨.index 0, ?_⟩
    obtain rfl | rfl := hp <;>
      simp [Pattern.layout, Pattern.groups, Pattern.stops, Pattern.member, Member.modified, Member.prefixed,
        Part.loosen, Part.withLead, Group.gather, Group.close, Group.layoutAll, Group.layout,
        Group.layoutSingle, Layout.append, Except.map]
  · refine ⟨.name name, ?_⟩
    obtain rfl | rfl := hp <;>
      simp [Pattern.layout, Pattern.groups, Pattern.stops, Pattern.member, Member.modified, Member.prefixed,
        Part.loosen, Part.withLead, Group.gather, Group.close, Group.layoutAll, Group.layout,
        Group.layoutSingle, Layout.append, Except.map]

/-- A route of nothing but one repetition behind a lead, which has to take the whole path, renders what it
matched as the same path if and only if the first segment is not the bare lead. A bare lead is no value:
it is dropped where nothing follows, and glued to the segment that follows it. -/
theorem render_repetition_iff {lead : Text} {m : Modifier} {core : Pattern Schema} {r : Route}
    {segments : List Text} {params : Params} (hm : m.allowsMany = true)
    (hcore : core = .unnamed ∨ ∃ name, core = .param name)
    (hp : r.pattern = .prefixed lead (.modified m core) ∨ r.pattern = .modified m (.prefixed lead core))
    (hend : r.atEnd = true) (hsegments : ∀ text ∈ segments, TargetSegment text)
    (h : r.accept (writtenPath segments) = .ok (some params)) :
    (r.render (.map (paramEntries params)) = .ok (writtenPath segments) ↔ segments.head? ≠ some lead) ∧
    ∀ rest, segments = lead :: rest →
      r.render (.map (paramEntries params)) = .ok (writtenPath (ledSegments lead rest)) := by
  obtain ⟨key, hsteps⟩ := steps_repetition hcore hp
  rw [hm] at hsteps
  let c : Capture := ⟨key, lead, m.allowsNone, true⟩
  have hclean : Clean segments := fun text ht => ⟨(hsegments text ht).1, (hsegments text ht).2.1⟩
  rw [accept_of_layout hsteps, segments_ofText_writtenPath hsegments, hend] at h
  have haccept : (⟨[.single (.capture c)], true⟩ : Matcher).accept segments
      (Target.ofText (writtenPath segments)).query = some params := Except.ok.inj h
  obtain ⟨values, rfl, hne, ho, hvalues⟩ := (takes_of_accept haccept).eq_many rfl hclean
  have hled : Clean (ledSegments lead values) := hclean.ledSegments (hvalues.imp_left And.right)
  have hrender : r.render (argumentsOf [(key, .many values)]) = .ok (writtenPath (ledSegments lead values)) :=
    (render_eq_ok_iff hsteps).mpr (render_repetition (c := c) rfl hne ho hled)
  rw [← argumentsOf, hrender, Except.ok.injEq, writtenPath_inj hled hclean]
  obtain ⟨hhead, hsame⟩ | hbare := hvalues
  · refine ⟨⟨fun _ => hhead, fun _ => hsame⟩, fun rest hrest => ?_⟩
    rw [hrest] at hhead
    exact absurd rfl hhead
  · have hbare : segments = lead :: values := hbare
    refine ⟨⟨fun hsame => ?_, fun hhead => ?_⟩, fun rest hrest => ?_⟩
    · rw [hbare] at hsame
      exact absurd hsame (ledSegments_ne_cons lead values)
    · rw [hbare] at hhead
      exact absurd rfl hhead
    · obtain rfl : values = rest := by
        rw [hbare] at hrest
        exact (List.cons.inj hrest).2
      rfl

theorem render_repetition_iff_version :
    let r : Route := ⟨.prefixed "v" (.modified .oneOrMore (.param "x")), true⟩
    r.accept "/v1/b" = .ok (some [(.name "x", .many ["1", "b"])]) ∧
      r.render (.map (paramEntries [(.name "x", .many ["1", "b"])])) = .ok ("/v1/b" : Text) := by
  intro r
  have h : r.accept (writtenPath ["v1", "b"]) = .ok (some [(.name "x", .many ["1", "b"])]) := by rfl
  refine ⟨h, ?_⟩
  have hiff := (render_repetition_iff rfl (.inr ⟨"x", rfl⟩) (.inl rfl) rfl (by decide) h).1
  exact hiff.mpr (by decide)

/-- The bare lead in front of a value is lost. -/
theorem bare_lead_dropped :
    ∃ r : Route, parse "/{v:x+}" true = .ok r ∧
      r.accept "/v/b" = .ok (some [(.name "x", .many ["b"])]) ∧
      r.render (.map (paramEntries [(.name "x", .many ["b"])])) = .ok ("/vb" : Text) :=
  ⟨⟨.prefixed "v" (.modified .oneOrMore (.param "x")), true⟩, by rfl, by rfl, by rfl⟩

end Route

end RoutePattern
