import RoutePattern.Proofs.FixedPaths
import RoutePattern.Proofs.SideBySide

/-!
Paths of one segment that captures with leads share, some of which may be left out. What is rendered comes back
just where a target can hold it and the captures with a value stand side by side.
-/

namespace RoutePattern

variable {σ : Type}

open Cursor (behind)

theorem Matcher.accept_step (step : Step) (segments : List Text) (query : Query) :
    (Matcher.mk [step] true).accept segments query =
      (step.run query (.start segments)).bind fun found => if found.2.isExhausted then some found.1 else none := by
  rw [accept, run, runSteps]
  cases step.run query (.start segments) with
  | none => rfl
  | some found => cases hend : found.2.isExhausted <;> simp [runSteps, Table.putAll, hend]

section

variable {text : Text} (query : Query)

theorem accept_compound (parts : List Part) :
    (Matcher.mk [.compound parts] true).accept [text] query = matchText parts text := by
  have hstart : Cursor.start [text] = behind [] [text] := rfl
  rw [Matcher.accept_step, hstart, Step.run, matchCompound, Cursor.head?_behind_cons]
  cases hmatch : matchText parts text <;>
    simp [hmatch, Cursor.advance_behind, Cursor.isExhausted_behind]

theorem accept_literal (literal : Text) :
    (Matcher.mk [.single (.literal literal false)] true).accept [text] query =
      matchText [.literal literal false] text := by
  have hstart : Cursor.start [text] = behind [] [text] := rfl
  rw [Matcher.accept_step, hstart, Step.run, matchSingle, Cursor.head?_behind_cons, matchText]
  cases hafter : Text.after? literal text with
  | none =>
    have hne : text ≠ literal := by
      rintro rfl
      have hself := Text.after?_append text []
      rw [List.append_nil, hafter] at hself
      cases hself
    simp [hne]
  | some rest =>
    obtain rfl := Text.after?_eq_some.mp hafter
    cases rest with
    | nil => simp [matchText, Cursor.advance_behind, Cursor.isExhausted_behind]
    | cons c more => simp [matchText]

theorem accept_capture {c : Capture} (hm : c.multiple = false) (hne : text ≠ []) :
    (Matcher.mk [.single (.capture c)] true).accept [text] query = matchText [.capture c] text := by
  have hstart : Cursor.start [text] = behind [] [text] := rfl
  have hopen : (behind [] [text]).isExhausted = false := by
    rw [← Bool.not_eq_true, Cursor.isExhausted_behind_iff]
    simp
  have hcut : ∀ value, cutValue (nextLeading []) value = (value, []) := by simp [cutValue, nextLeading]
  rw [Matcher.accept_step, hstart, Step.run, matchSingle, matchCapture, Cursor.head?_behind_cons, matchText,
    Option.bind_some]
  cases hafter : Text.after? c.lead text with
  | none => cases c.optional <;> simp [hopen, matchText, hne]
  | some body =>
    have hbody := drop_of_after? hafter
    by_cases hnil : body = []
    · cases c.optional <;>
        simp [hm, hnil, hbody, matchText, hcut, Cursor.head?_strip, Cursor.advance_strip,
          Cursor.isExhausted_behind]
    · simp [hm, hnil, hbody, matchText, hcut, Cursor.head?_strip, Cursor.advance_strip,
        Cursor.isExhausted_behind, Table.putAll]

theorem accept_segment {parts : List Part} (hsound : ∀ part ∈ parts, part.Sound)
    (hsingle : ∀ part ∈ parts, part.isMultiple = false) (hne : text ≠ []) :
    (Matcher.mk [Step.ofParts parts] true).accept [text] query = matchText parts text := by
  match parts with
  | [.literal literal loose] =>
    obtain rfl : loose = false := (hsound _ (List.mem_singleton_self _)).2
    exact accept_literal query literal
  | [.capture c] => exact accept_capture query (hsingle (.capture c) (List.mem_singleton_self _)) hne
  | [] => exact accept_compound query []
  | first :: second :: rest => exact accept_compound query (first :: second :: rest)

end

theorem shares_nil {parts : List Part} (h : parts.all Part.isOptional) : Shares parts [] [] := by
  induction parts with
  | nil => exact .done
  | cons part rest ih =>
    obtain ⟨hpart, hrest⟩ : part.isOptional = true ∧ rest.all Part.isOptional = true := by
      simpa using h
    cases part with
    | literal text loose =>
      obtain rfl : loose = true := hpart
      exact .missing text (ih hrest)
    | capture c => exact .absent hpart (ih hrest)

/-- Without a segment nothing is matched, unless all parts may be left out. -/
theorem accept_no_segment {parts : List Part} (hsingle : ∀ part ∈ parts, part.isMultiple = false)
    (query : Query) :
    (Matcher.mk [Step.ofParts parts] true).accept [] query =
      if parts.all Part.isOptional then some [] else none := by
  have hstart : Cursor.start [] = behind [] [] := rfl
  have hcompound : (((Step.compound parts).run query (behind [] [])).bind fun found =>
      if found.2.isExhausted then some found.1 else none) =
        if parts.all Part.isOptional then some [] else none := by
    rw [Step.run, matchCompound, Cursor.head?_behind_nil]
    cases parts.all Part.isOptional <;> rfl
  rw [Matcher.accept_step, hstart]
  match parts with
  | [.literal literal loose] =>
    cases loose <;>
      simp [Step.ofParts, Step.run, matchSingle, Cursor.head?_behind_nil, Cursor.isExhausted_behind,
        Part.isOptional]
  | [.capture c] =>
    have hm : c.multiple = false := hsingle _ (List.mem_singleton_self _)
    cases ho : c.optional <;>
      simp [Step.ofParts, Step.run, matchSingle, matchCapture, Cursor.head?_behind_nil,
        Cursor.isExhausted_behind, Part.isOptional, hm, ho]
  | [] => exact hcompound
  | _ :: _ :: _ => exact hcompound

theorem shares_of_accept {parts : List Part} {text : Text} {query : Query} {result : Params}
    (hsound : ∀ part ∈ parts, part.Sound) (hsingle : ∀ part ∈ parts, part.isMultiple = false)
    (hslash : '/' ∉ text)
    (h : (Matcher.mk [Step.ofParts parts] true).accept (splitPath text) query = some result) :
    Shares parts text result := by
  by_cases hnil : text = []
  · rw [hnil, splitPath_nil, accept_no_segment hsingle] at h
    split at h
    next hall =>
      obtain rfl := Option.some.inj h
      exact hnil ▸ shares_nil hall
    next => cases h
  · rw [splitPath_of_notMem hnil hslash, accept_segment query hsound hsingle hnil] at h
    exact shares_of_matchText h

/-- What a target reads of a text as its path. -/
def pathIn (text : Text) : Text := (text.takeWhile (· != '#')).takeWhile (· != '?')

theorem pathIn_isPrefix (text : Text) : pathIn text <+: text :=
  (List.takeWhile_prefix _).trans (List.takeWhile_prefix _)

theorem takeWhile_ne_eq_self_iff {c : Char} {text : Text} : text.takeWhile (· != c) = text ↔ c ∉ text := by
  rw [List.takeWhile_eq_self_iff]
  constructor
  · intro h hmem
    simpa using h c hmem
  · intro h x hx
    rw [bne_iff_ne]
    exact ne_of_mem_of_not_mem hx h

theorem pathIn_eq_self_iff {text : Text} : pathIn text = text ↔ '?' ∉ text ∧ '#' ∉ text := by
  constructor
  · intro h
    have hfragment : text.takeWhile (· != '#') = text := by
      refine (List.takeWhile_prefix _).eq_of_length_le ?_
      conv_lhs => rw [← h]
      exact (List.takeWhile_prefix _).length_le
    rw [pathIn, hfragment] at h
    exact ⟨takeWhile_ne_eq_self_iff.mp h, takeWhile_ne_eq_self_iff.mp hfragment⟩
  · rintro ⟨hquestion, hhash⟩
    rw [pathIn, takeWhile_ne_eq_self_iff.mpr hhash, takeWhile_ne_eq_self_iff.mpr hquestion]

theorem Target.segments_slash_cons (text : Text) : (ofText ('/' :: text)).segments = splitPath (pathIn text) := by
  have hpath : pathIn ('/' :: text) = '/' :: pathIn text := by simp [pathIn]
  show splitPath (pathIn ('/' :: text)) = _
  rw [hpath, splitPath_slash_cons]

namespace Pattern

/-- A path of one segment: a literal or a capture, and behind it captures with leads. None of the captures
repeats, and no two have the same key. -/
structure LedCaptures (p : Pattern σ) (first : Part) (rest : List Capture) : Prop where
  query : p.queryBlock? = none
  path : p.pathParts = [first :: rest.map .capture]
  single : ∀ c ∈ p.captures 0 false, c.1.multiple = false
  leads : ∀ c ∈ rest, c.lead ≠ []
  keys : ((p.captures 0 false).map (·.1.key)).Nodup

/-- A text for each capture that may not be left out, and for any of the others. No character of the fixed
text stands in it, nor one that ends a segment. -/
structure ForeignValues (p : Pattern σ) (params : Params) : Prop where
  known : ∀ key ∈ params.map (·.1), key ∈ (p.captures 0 false).map (·.1.key)
  required : ∀ c ∈ p.captures 0 false, c.1.optional = false → Table.has c.1.key params
  values : ∀ e ∈ params, ∃ t, e.2 = .one t ∧ t ≠ [] ∧ ∀ x ∈ t,
    x ∉ ['/', '?', '#'] ∧ ∀ parts ∈ p.pathParts, ∀ part ∈ parts, x ∉ part.leading

theorem ForeignValues.optional_of_none {p : Pattern σ} {params : Params} (hv : p.ForeignValues params)
    {c : Capture × Bool} (hc : c ∈ p.captures 0 false) (hnone : Table.get? c.1.key params = none) :
    c.1.optional = true := by
  rw [← Bool.not_eq_false]
  intro ho
  simpa [Table.has, hnone] using hv.required c hc ho

namespace LedCaptures

variable {split : QuerySplit} {p : Pattern σ} {params : Params} {first : Part} {rest : List Capture}
  (h : ReadSplit split p) (hp : p.LedCaptures first rest) (hv : p.ForeignValues params)

include h hp

theorem queryParts_eq_nil : p.queryParts = [] := by
  have hquery := hp.query
  rw [h.blockAtRoot.queryBlock?_eq] at hquery
  exact h.queryParts_eq_nil hquery

theorem captures_eq :
    (p.captures 0 false).map (·.1) = (first :: rest.map .capture).filterMap Part.capture? := by
  rw [h.captures_eq_allParts, allParts, hp.path, hp.queryParts_eq_nil h]
  simp

theorem sound : ∀ part ∈ first :: rest.map .capture, part.Sound :=
  (h.sound_of_mem _ (by simp [hp.path])).2

theorem isMultiple_eq_false : ∀ part ∈ first :: rest.map .capture, part.isMultiple = false := by
  intro part hpart
  cases part with
  | literal _ _ => rfl
  | capture c =>
    have hc : c ∈ (p.captures 0 false).map (·.1) := by
      rw [hp.captures_eq h]
      exact mem_filterMap_capture?.mpr hpart
    obtain ⟨d, hd, rfl⟩ := List.mem_map.mp hc
    exact hp.single d hd

theorem readSteps_eq : p.readSteps = [Step.ofParts (first :: rest.map .capture)] := by
  rw [h.readSteps_of_queryless hp.query, hp.path]
  rfl

include hv

theorem spread (hfirst : ∀ c, first = .capture c → c.lead = [] → Table.has c.key params) :
    Spread params ((first :: rest.map .capture).filterMap Part.capture?) where
  keys := by
    rw [← hp.captures_eq h, List.map_map]
    exact hp.keys
  single := by
    rw [← hp.captures_eq h]
    exact List.forall_mem_map.mpr hp.single
  values := by
    intro c hc
    obtain ⟨d, hd, rfl⟩ : ∃ d ∈ p.captures 0 false, d.1 = c := by
      rw [← hp.captures_eq h] at hc
      exact List.mem_map.mp hc
    cases hget : Table.get? d.1.key params with
    | none =>
      refine .inl ⟨rfl, hv.optional_of_none hd hget, fun hlead => ?_⟩
      rcases List.mem_cons.mp (mem_filterMap_capture?.mp hc) with heq | hrest
      · simpa [Table.has, hget] using hfirst d.1 heq.symm hlead
      · exact hp.leads d.1 (by simpa using hrest) hlead
    | some captured =>
      obtain ⟨t, rfl, hne, hforeign⟩ := hv.values _ (Table.mem_of_get? hget)
      refine .inr ⟨t, rfl, hne, fun e he x hx => ?_⟩
      exact (hforeign x hx).2 _ (by simp [hp.path]) (.capture e) (mem_filterMap_capture?.mp he)
  leads := by
    intro c hc
    refine hp.leads c ?_
    cases first with
    | literal _ _ =>
      rw [List.filterMap_cons_none rfl, capture?_captures] at hc
      exact List.mem_of_mem_tail hc
    | capture d =>
      have hcons : (Part.capture d :: rest.map .capture).filterMap Part.capture? = d :: rest :=
        capture?_captures (d :: rest)
      rwa [hcons] at hc

omit h in
theorem fits : ∀ c ∈ p.captures 0 false, c.1.Fits (Table.get? c.1.key params) := by
  intro c hc
  cases hget : Table.get? c.1.key params with
  | none => exact hv.optional_of_none hc hget
  | some captured =>
    obtain ⟨t, rfl, hne, -⟩ := hv.values _ (Table.mem_of_get? hget)
    exact ⟨hp.single c hc, hne⟩

theorem slash_notMem : '/' ∉ (first :: rest.map .capture).flatMap (Part.text params) := by
  intro hmem
  obtain ⟨part, hpart, hmem⟩ := List.mem_flatMap.mp hmem
  have hleading := h.slash_notMem _ (by simp [hp.path]) part hpart
  cases part with
  | literal text loose => exact hleading hmem
  | capture c =>
    rw [Part.text] at hmem
    split at hmem
    next => simp at hmem
    next captured hget =>
      obtain ⟨t, rfl, -, hforeign⟩ := hv.values _ (Table.mem_of_get? hget)
      have hvalue : '/' ∈ c.lead ∨ '/' ∈ t := by
        split at hmem
        next => simp at hmem
        next => simpa [Captured.texts, Text.join] using hmem
      exact hvalue.elim hleading fun hslash => (hforeign '/' hslash).1 (by simp)

end LedCaptures

end Pattern

namespace Route

open Pattern

section

variable {split : QuerySplit} {r : Route} {params : Params} {first : Part} {rest : List Capture}
  (h : ReadSplit split r.pattern) (hp : r.pattern.LedCaptures first rest)

include h hp

theorem render_segment (hv : r.pattern.ForeignValues params)
    (hne : (first :: rest.map .capture).flatMap (Part.text params) ≠ []) :
    r.render (argumentsOf params) = .ok ('/' :: (first :: rest.map .capture).flatMap (Part.text params)) := by
  have hquery : r.pattern.queryText params = [] := by
    rw [queryText, hp.queryParts_eq_nil h]
    rfl
  have hpath : r.pattern.pathText params = '/' :: (first :: rest.map .capture).flatMap (Part.text params) := by
    have hclean : ∀ text ∈ [(first :: rest.map .capture).flatMap (Part.text params)],
        text ≠ [] ∧ '/' ∉ text :=
      List.forall_mem_singleton.mpr ⟨hne, hp.slash_notMem h hv⟩
    rw [pathText, hp.path, List.map_singleton, joinPath_of_clean hclean]
    simp
  rw [render_of_fits h (hp.fits hv), hquery, hpath]
  rfl

theorem accept_slash_cons (hend : r.atEnd = true) (text : Text) :
    r.accept ('/' :: text) = .ok ((Matcher.mk [Step.ofParts (first :: rest.map .capture)] true).accept
      (splitPath (pathIn text)) (Target.ofText ('/' :: text)).query) := by
  rw [accept, matcher_of_read h, hp.readSteps_eq h, hend, ← Target.segments_slash_cons]
  rfl

end

/-- What stands behind the literal that a segment begins with is matched by the captures. -/
theorem matchText_cons_captures (params : Params) (first : Part) (rest : List Capture) :
    matchText (first :: rest.map .capture) ((first :: rest.map .capture).flatMap (Part.text params)) =
      matchText (((first :: rest.map .capture).filterMap Part.capture?).map .capture)
        (writtenBy params ((first :: rest.map .capture).filterMap Part.capture?)) := by
  cases first with
  | literal text loose =>
    have htext : (Part.literal text loose).text params = text := rfl
    rw [List.filterMap_cons_none rfl, capture?_captures, List.flatMap_cons, htext, matchText,
      Text.after?_append]
    rfl
  | capture c =>
    have hcons : (Part.capture c :: rest.map .capture).filterMap Part.capture? = c :: rest :=
      capture?_captures (c :: rest)
    rw [hcons]
    rfl

/-- Values of captures in one segment come back just where the target can hold what is rendered and the
captures that are given one stand side by side. -/
theorem accept_sideBySide_iff {source : Text} {r : Route} {params : Params} {first : Part} {rest : List Capture}
    (hr : parse source true = .ok r) (hp : r.pattern.LedCaptures first rest)
    (hv : r.pattern.ForeignValues params)
    (hwritten : ∃ part ∈ first :: rest.map .capture, part.text params ≠ [])
    (hfirst : ∀ c, first = .capture c → c.lead = [] → Table.has c.key params) :
    ∃ target, r.render (.map (paramEntries params)) = .ok target ∧
      ((∃ result, r.accept target = .ok (some result) ∧ (result.map (·.1)).Nodup ∧
          ∀ key, Table.get? key result = Table.get? key params) ↔
        ('?' ∉ target ∧ '#' ∉ target) ∧ SideBySide params ((r.pattern.captures 0 false).map (·.1))) := by
  have h := parse_eq_ok hr
  have hend : r.atEnd = true := by
    obtain ⟨p, -, rfl⟩ := Except.map_eq_ok.mp hr
    rfl
  have hspread := hp.spread h hv hfirst
  have hne : (first :: rest.map .capture).flatMap (Part.text params) ≠ [] := by
    obtain ⟨part, hpart, htext⟩ := hwritten
    exact fun hnil => htext (List.flatMap_eq_nil_iff.mp hnil part hpart)
  refine ⟨_, render_segment h hp hv hne, ?_⟩
  rw [accept_slash_cons h hp hend, hp.captures_eq h, ← matchText_iff_sideBySide hspread,
    ← matchText_cons_captures]
  have hsound := hp.sound h
  have hsingle := hp.isMultiple_eq_false h
  have hslash := hp.slash_notMem h hv
  generalize hsegment : (first :: rest.map .capture).flatMap (Part.text params) = segment at hne hslash ⊢
  have hmarks : ('?' ∉ '/' :: segment ∧ '#' ∉ '/' :: segment) ↔ pathIn segment = segment := by
    rw [pathIn_eq_self_iff]
    simp
  have haccept : ∀ query, (Matcher.mk [Step.ofParts (first :: rest.map .capture)] true).accept
      (splitPath segment) query = matchText (first :: rest.map .capture) segment := by
    rw [splitPath_of_notMem hne hslash]
    exact fun query => accept_segment query hsound hsingle hne
  rw [hmarks]
  constructor
  · rintro ⟨result, hresult, -, hget⟩
    have hshares := shares_of_accept hsound hsingle
      (fun hmem => hslash ((pathIn_isPrefix segment).subset hmem)) (Except.ok.inj hresult)
    -- what was given is not written in less than the whole segment
    have hwhole : pathIn segment = segment := by
      have hlength := hshares.length_written_le hsound hspread.keys fun c _ => (hget c.key).symm
      exact (pathIn_isPrefix segment).eq_of_length_le (hsegment ▸ hlength)
    rw [hwhole, haccept] at hresult
    refine ⟨hwhole, ?_⟩
    rw [Except.ok.inj hresult, hspread.eq_answersOf (hshares.given_captures hspread.keys) hget]
  · rintro ⟨hwhole, hmatch⟩
    rw [hwhole, haccept, hmatch]
    refine ⟨_, rfl, nodup_answers params hspread.keys, fun key => ?_⟩
    by_cases hkey : key ∈ ((first :: rest.map .capture).filterMap Part.capture?).map Capture.key
    · obtain ⟨c, hc, rfl⟩ := List.mem_map.mp hkey
      exact hspread.get?_answersOf hc
    · rw [get?_answersOf_of_notMem hkey, eq_comm, Table.get?_eq_none_iff]
      intro hmem
      refine hkey ?_
      rw [← hp.captures_eq h, List.map_map]
      exact hv.known key hmem

/-- Captures that are left out before and behind the one that is given. -/
theorem accept_sideBySide_iff_left_out :
    let source : Text := "/v{-:a?}{.:b}{~:c?}"
    let params : Params := [(.name "b", .one "2")]
    ∃ r target result, parse source true = .ok r ∧ r.render (.map (paramEntries params)) = .ok target ∧
      target = ("/v.2" : Text) ∧ r.accept target = .ok (some result) ∧
      ∀ key, Table.get? key result = Table.get? key params := by
  intro source params
  let pattern : Pattern Schema := .concat (.concat (.concat (.literal "v")
    (.prefixed "-" (.modified .optional (.param "a"))) true) (.prefixed "." (.param "b")) true)
    (.prefixed "~" (.modified .optional (.param "c"))) true
  let a : Capture := ⟨.name "a", "-", true, false⟩
  let b : Capture := ⟨.name "b", ".", false, false⟩
  let c : Capture := ⟨.name "c", "~", true, false⟩
  have hr : parse source true = .ok ⟨pattern, true⟩ := by rfl
  have hpath : pattern.pathParts = [[.literal "v" false, .capture a, .capture b, .capture c]] := by rfl
  have hcaptures : (pattern.captures 0 false).map (·.1) = [a, b, c] := by rfl
  have hp : pattern.LedCaptures (.literal "v" false) [a, b, c] :=
    ⟨rfl, hpath, by decide, by decide, by decide⟩
  have hv : pattern.ForeignValues params := by
    refine ⟨by decide, by decide, ?_⟩
    rw [hpath]
    exact List.forall_mem_singleton.mpr ⟨['2'], rfl, by decide, List.forall_mem_singleton.mpr (by decide)⟩
  obtain ⟨target, hrender, hiff⟩ := accept_sideBySide_iff hr hp hv ⟨.literal "v" false, by simp, by decide⟩
    (by simp)
  obtain rfl : target = ("/v.2" : Text) := (Except.ok.inj hrender).symm.trans rfl
  obtain ⟨result, haccept, -, hget⟩ := hiff.mpr
    ⟨by decide, [a], [b], [c], hcaptures, by decide, by decide, by decide⟩
  exact ⟨⟨pattern, true⟩, _, result, hr, hrender, rfl, haccept, hget⟩

/-- A capture ends only where the one right behind it would begin, so that one in between that is left out
joins what stands before it to what stands behind it. -/
theorem accept_sideBySide_gap :
    let source : Text := "/:a{-:b?}{.:c}"
    let params : Params := [(.name "a", .one "x"), (.name "c", .one "y")]
    ∃ (r : Route) (rest : List Capture), parse source true = .ok r ∧
      r.pattern.LedCaptures (.capture ⟨.name "a", [], false, false⟩) rest ∧ r.pattern.ForeignValues params ∧
      r.render (.map (paramEntries params)) = .ok ("/x.y" : Text) ∧ r.accept "/x.y" = .ok none := by
  intro source params
  let pattern : Pattern Schema := .concat (.concat (.param "a")
    (.prefixed "-" (.modified .optional (.param "b"))) true) (.prefixed "." (.param "c")) true
  let a : Capture := ⟨.name "a", [], false, false⟩
  let b : Capture := ⟨.name "b", "-", true, false⟩
  let c : Capture := ⟨.name "c", ".", false, false⟩
  have hpath : pattern.pathParts = [[.capture a, .capture b, .capture c]] := by rfl
  have hp : pattern.LedCaptures (.capture a) [b, c] := ⟨rfl, hpath, by decide, by decide, by decide⟩
  have hv : pattern.ForeignValues params := by
    refine ⟨by decide, by decide, ?_⟩
    rw [hpath]
    exact List.forall_mem_cons.mpr
      ⟨⟨['x'], rfl, by decide, List.forall_mem_singleton.mpr (by decide)⟩,
        List.forall_mem_singleton.mpr ⟨['y'], rfl, by decide, List.forall_mem_singleton.mpr (by decide)⟩⟩
  exact ⟨⟨pattern, true⟩, [b, c], rfl, hp, hv, rfl, rfl⟩

end Route

end RoutePattern
