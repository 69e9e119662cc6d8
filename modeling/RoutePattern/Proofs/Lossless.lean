import RoutePattern.Proofs.Cursors
import RoutePattern.Proofs.Given
import RoutePattern.Proofs.Rendering
import RoutePattern.Proofs.RoundTrip.Written

/-!
Rendering undoes matching. Where every capture takes some text, and no repetition of whole segments has a
lead that it could drop without a value behind it, the values of a match say all about the segments that
were taken: they are written again as they were.
-/

namespace RoutePattern

open Cursor (behind)

/-- Segments as a path has them between its slashes. -/
def Clean (segments : List Text) : Prop := ∀ segment ∈ segments, segment ≠ [] ∧ '/' ∉ segment

instance : DecidablePred Clean := fun segments =>
  inferInstanceAs (Decidable (∀ segment ∈ segments, segment ≠ [] ∧ '/' ∉ segment))

/-- A slash in front of every segment, or one in front of all and the others between them. -/
theorem flatMap_slash (segment : Text) (others : List Text) :
    (segment :: others).flatMap ('/' :: ·) = '/' :: Text.join ['/'] (segment :: others) := by
  induction others generalizing segment with
  | nil => simp [Text.join]
  | cons next rest ih =>
    rw [List.flatMap_cons, ih, Text.join_cons (List.cons_ne_nil _ _), List.append_assoc]
    rfl

theorem Clean.joinPath_join {segments : List Text} (h : Clean segments) :
    joinPath [Text.join ['/'] segments] = joinPath segments := by
  cases segments with
  | nil => rfl
  | cons segment others =>
    have hslash : ∀ text, joinPath ['/' :: text] = joinPath [text] := fun text => by
      rw [joinPath_singleton, joinPath_singleton, Text.trim_cons_self]
    rw [← hslash, ← flatMap_slash, ← joinPath_of_clean h, joinPath_joinPath]

theorem Clean.splitPath_join {segments : List Text} (h : Clean segments) :
    splitPath (Text.join ['/'] segments) = segments := by
  have hjoin := splitPath_joinPath [Text.join ['/'] segments]
  have hown : segments.flatMap splitPath = segments.flatMap fun segment => [segment] :=
    List.flatMap_congr fun segment hs => splitPath_of_notMem (h segment hs).1 (h segment hs).2
  rw [h.joinPath_join, splitPath_joinPath, hown] at hjoin
  simpa using hjoin.symm

theorem Part.text_of_get? {c : Capture} {params : Params} {captured : Captured}
    (h : Table.get? c.key params = some captured) (hne : captured.texts ≠ []) :
    (Part.capture c).text params = c.lead ++ Text.join ['/'] captured.texts := by
  simp [Part.text, h, hne]

/-- The values that `full` holds are those of a match. -/
def Holds (full params : Params) : Prop := ∀ entry ∈ params, Table.get? entry.1 full = some entry.2

/-- Parts that each take some text of one segment share it among them, and leave nothing of it out. -/
theorem Shares.text_eq {full params : Params} {parts : List Part} {text : Text}
    (h : Shares parts text params) (hrequired : ∀ part ∈ parts, part.isOptional = false)
    (hkeys : ((parts.flatMap (Part.captured false)).map Capture.key).Nodup)
    (hfull : Holds full params) : parts.flatMap (Part.text full) = text := by
  induction h with
  | done => rfl
  | literal text _ _ ih =>
    rw [List.flatMap_cons, ih (List.forall_mem_cons.mp hrequired).2 hkeys hfull]
    rfl
  | missing => cases (List.forall_mem_cons.mp hrequired).1
  | absent ho => exact absurd (List.forall_mem_cons.mp hrequired).1 (by simp [Part.isOptional, ho])
  | void ho => exact absurd (List.forall_mem_cons.mp hrequired).1 (by simp [Part.isOptional, ho])
  | @taken c rest value more others hne hshares ih =>
    have hrest := Part.nodup_captured_tail false hkeys
    have hput := (Part.given_captured false (c.fits_value hne)).putAll_eq (hshares.given false hrest)
      hkeys
    simp only [Option.toList_some, List.map_cons, List.map_nil] at hput
    rw [hput] at hfull
    obtain ⟨hown, hfull⟩ := List.forall_mem_append.mp hfull
    have htext : (Part.capture c).text full = c.lead ++ value := by
      rw [Part.text_of_get? (hown _ (List.mem_singleton_self _))]
      · split <;> simp [Captured.texts, Text.join]
      · split <;> simp [Captured.texts]
    rw [List.flatMap_cons, htext, ih (List.forall_mem_cons.mp hrequired).2 hrest hfull]

theorem Capture.Takes.joinPath_text {c : Capture} {used left : List Text} {full params : Params}
    (h : c.Takes used left params) (hrequired : c.optional = false)
    (hlead : c.multiple = true → c.lead = []) (hclean : Clean used) (hfull : Holds full params) :
    joinPath [(Part.capture c).text full] = used.flatMap ('/' :: ·) := by
  cases h with
  | absent ho _ => simp [hrequired] at ho
  | void ho _ _ => simp [hrequired] at ho
  | @one segment value _ hm hafter _ =>
    have hget := hfull _ (List.mem_singleton_self _)
    have htext : (Part.capture c).text full = segment := by
      rw [Part.text_of_get? hget (by simp [Captured.texts]), Text.after?_eq_some.mp hafter]
      simp [Captured.texts, Text.join]
    rw [htext, joinPath_of_clean hclean]
  | @many segment value others hm hafter _ =>
    have hget := hfull _ (List.mem_singleton_self _)
    obtain rfl : segment = value := by
      rw [Text.after?_eq_some.mp hafter, hlead hm, List.nil_append]
    have hfilter : (segment :: others).filter (!·.isEmpty) = segment :: others :=
      List.filter_eq_self.mpr fun t ht => by simpa using (hclean t ht).1
    rw [hfilter] at hget
    rw [Part.text_of_get? hget (by simp [Captured.texts]), hlead hm, List.nil_append, Captured.texts,
      hclean.joinPath_join, joinPath_of_clean hclean]

/-- A repetition of whole segments has no lead. -/
def Unled : List Part → Prop
  | [.capture c] => c.multiple = true → c.lead = []
  | _ => True

instance : DecidablePred Unled
  | [.capture _] => inferInstanceAs (Decidable (_ → _))
  | [] => isTrue trivial
  | [.literal _ _] => isTrue trivial
  | .literal _ _ :: _ :: _ => isTrue trivial
  | .capture _ :: _ :: _ => isTrue trivial

/-- The parts of a segment of which none may be left out write the segments that they took. -/
theorem run_ofParts {full params : Params} {parts : List Part} {query : Query}
    {done rest : List Text} {last : Cursor} (hne : parts ≠ [])
    (hrequired : ∀ part ∈ parts, part.isOptional = false) (hlead : Unled parts)
    (hkeys : ((parts.flatMap (Part.captured false)).map Capture.key).Nodup) (hclean : Clean rest)
    (h : (Step.ofParts parts).run query (behind done rest) = some (params, last))
    (hfull : Holds full params) :
    ∃ used left, rest = used ++ left ∧ last = behind (done ++ used) left ∧
      joinPath [parts.flatMap (Part.text full)] = used.flatMap ('/' :: ·) := by
  match parts with
  | [] => contradiction
  | [.literal text loose] =>
    obtain rfl : loose = false := hrequired (.literal text loose) (by simp)
    simp only [Step.ofParts, Step.run, matchSingle] at h
    split at h
    next hhead =>
      obtain ⟨-, rfl⟩ := Prod.mk.inj (Option.some.inj h)
      cases rest with
      | nil => simp [Cursor.head?_behind_nil] at hhead
      | cons segment left =>
        obtain rfl : segment = text := by simpa [Cursor.head?_behind_cons] using hhead
        refine ⟨[segment], left, rfl, Cursor.advance_behind .., ?_⟩
        have htext : [Part.literal segment false].flatMap (Part.text full) = segment := by
          simp [Part.text]
        rw [htext, joinPath_of_clean]
        simpa using hclean segment (by simp)
    next => simp at h
  | [.capture c] =>
    obtain ⟨used, left, rfl, rfl, htakes⟩ := takes_of_matchCapture h
    have htext : [Part.capture c].flatMap (Part.text full) = (Part.capture c).text full := by simp
    refine ⟨used, left, rfl, rfl, ?_⟩
    rw [htext]
    exact htakes.joinPath_text (hrequired _ (List.mem_singleton_self _)) hlead
      (List.forall_mem_append.mp hclean).1 hfull
  | first :: second :: others =>
    simp only [Step.ofParts, Step.run, matchCompound] at h
    cases rest with
    | nil =>
      have hall : (first :: second :: others).all Part.isOptional = false := by
        simp [hrequired first (by simp)]
      simp [Cursor.head?_behind_nil, hall] at h
    | cons segment left =>
      rw [Cursor.head?_behind_cons] at h
      obtain ⟨found, hfound, heq⟩ := Option.map_eq_some_iff.mp h
      obtain ⟨rfl, rfl⟩ := Prod.mk.inj heq
      refine ⟨[segment], left, rfl, Cursor.advance_behind .., ?_⟩
      rw [(shares_of_matchText hfound).text_eq hrequired hkeys hfull, joinPath_of_clean]
      simpa using hclean segment (by simp)

theorem captures_ofParts (parts : List Part) :
    (Step.ofParts parts).captures false = parts.flatMap (Part.captured false) := by
  match parts with
  | [] => rfl
  | [part] => simp [Step.ofParts, Step.captures]
  | _ :: _ :: _ => rfl

theorem runSteps_ofParts {full params : Params} {pss : List (List Part)} {query : Query}
    {done rest : List Text} {last : Cursor}
    (htight : ∀ parts ∈ pss, parts ≠ [] ∧ (∀ part ∈ parts, part.isOptional = false) ∧ Unled parts)
    (hkeys : ((stepCaptures false (pss.map Step.ofParts)).map Capture.key).Nodup)
    (hclean : Clean rest)
    (h : runSteps query (behind done rest) (pss.map Step.ofParts) = some (params, last))
    (hfull : Holds full params) :
    ∃ used left, rest = used ++ left ∧ last = behind (done ++ used) left ∧
      joinPath (pss.map fun parts => parts.flatMap (Part.text full)) = used.flatMap ('/' :: ·) := by
  induction pss generalizing done rest params with
  | nil =>
    obtain ⟨-, rfl⟩ := Prod.mk.inj (Option.some.inj h)
    exact ⟨[], rest, rfl, by simp, rfl⟩
  | cons parts others ih =>
    obtain ⟨⟨hne, hrequired, hlead⟩, hothers⟩ := List.forall_mem_cons.mp htight
    obtain ⟨⟨first, next⟩, hfirst, h⟩ := Option.bind_eq_some_iff.mp h
    obtain ⟨⟨second, _⟩, hsecond, heq⟩ := Option.map_eq_some_iff.mp h
    obtain ⟨rfl, rfl⟩ := Prod.mk.inj heq
    rw [List.map_cons, stepCaptures] at hkeys
    have hnodup := hkeys
    rw [List.map_append] at hnodup
    obtain ⟨hown, hrest, -⟩ := List.nodup_append.mp hnodup
    have hput := (Step.given_run false _ hown hfirst).putAll_eq (given_runSteps false _ hrest hsecond)
      hkeys
    rw [hput] at hfull
    obtain ⟨hfull, hfulls⟩ := List.forall_mem_append.mp hfull
    rw [captures_ofParts] at hown
    obtain ⟨used, _, rfl, rfl, hpath⟩ := run_ofParts hne hrequired hlead hown hclean hfirst hfull
    obtain ⟨more, left, rfl, rfl, hpaths⟩ := ih hothers hrest (List.forall_mem_append.mp hclean).2
      hsecond hfulls
    refine ⟨used ++ more, left, by simp, by simp, ?_⟩
    rw [List.map_cons, joinPath_cons, hpath, hpaths, List.flatMap_append]

namespace Pattern

variable {σ : Type}

/-- A pattern whose matches say all about the segments that they take. -/
structure Lossless (p : Pattern σ) : Prop where
  queryless : p.queryBlock? = none
  keys : ((p.captures 0 false).map (·.1.key)).Nodup
  required : ∀ c ∈ p.captures 0 false, c.1.optional = false
  unled : ∀ parts ∈ p.pathParts, Unled parts

instance (p : Pattern σ) : Decidable p.Lossless :=
  decidable_of_iff
    (p.queryBlock?.isNone ∧ ((p.captures 0 false).map (·.1.key)).Nodup ∧
      (∀ c ∈ p.captures 0 false, c.1.optional = false) ∧ ∀ parts ∈ p.pathParts, Unled parts)
    ⟨fun h => ⟨Option.isNone_iff_eq_none.mp h.1, h.2.1, h.2.2.1, h.2.2.2⟩,
      fun h => ⟨Option.isNone_iff_eq_none.mpr h.queryless, h.keys, h.required, h.unled⟩⟩

namespace ReadSplit

variable {split : QuerySplit} {p : Pattern σ}

theorem readSteps_of_queryless (h : ReadSplit split p) (hnone : p.queryBlock? = none) :
    p.readSteps = p.pathParts.map Step.ofParts := by
  rw [h.blockAtRoot.queryBlock?_eq] at hnone
  simp [readSteps, blockSteps, hnone]

theorem tight (h : ReadSplit split p) (hl : p.Lossless) :
    ∀ parts ∈ p.pathParts,
      parts ≠ [] ∧ (∀ part ∈ parts, part.isOptional = false) ∧ Unled parts := by
  intro parts hparts
  obtain ⟨hne, hsound⟩ := h.sound_of_mem parts hparts
  refine ⟨hne, fun part hpart => ?_, hl.unled parts hparts⟩
  cases part with
  | literal text optional => exact (hsound _ hpart).2
  | capture c =>
    have hc : .capture c ∈ p.allParts :=
      List.mem_append_left _ (List.mem_flatten.mpr ⟨parts, hparts, hpart⟩)
    obtain ⟨d, hd, rfl⟩ := List.mem_map.mp (h.mem_captures hc)
    exact hl.required d hd

theorem render_of_runSteps (h : ReadSplit split p) (hl : p.Lossless) {segments : List Text}
    {query : Query} {params : Params} {last : Cursor} (hclean : Clean segments)
    (hrun : runSteps query (.start segments) p.readSteps = some (params, last)) :
    ∃ used left, segments = used ++ left ∧ last = behind used left ∧
      renderRoute (argumentsOf params) p.readSteps = .ok ('/' :: Text.join ['/'] used) := by
  have hsteps := h.readSteps_of_queryless hl.queryless
  have hgiven : Given ((p.captures 0 false).map (·.1)) params :=
    given_run (h.matcher_eq false) hl.keys (by rwa [Matcher.run_open])
  have hnodup : (((p.captures 0 false).map (·.1)).map Capture.key).Nodup := by
    rw [List.map_map]
    exact hl.keys
  have hkeys : ((stepCaptures false (p.pathParts.map Step.ofParts)).map Capture.key).Nodup := by
    rwa [← hsteps, captures_of_layout h.layout_steps]
  have hholds : Holds params params := fun e he => Table.get?_of_mem (hgiven.nodup_keys hnodup) he
  have hfits : ∀ c ∈ p.captures 0 false, c.1.Fits (Table.get? c.1.key params) := fun c hc =>
    hgiven.fits hnodup c.1 (List.mem_map_of_mem hc)
  have hempty : p.queryText params = [] := by
    have hblock := hl.queryless
    rw [h.blockAtRoot.queryBlock?_eq] at hblock
    rw [queryText, h.queryParts_eq_nil hblock]
    rfl
  rw [hsteps, show Cursor.start segments = behind [] segments from rfl] at hrun
  obtain ⟨used, left, rfl, rfl, hpath⟩ := runSteps_ofParts (h.tight hl) hkeys hclean hrun hholds
  refine ⟨used, left, rfl, rfl, ?_⟩
  rw [renderRoute, h.renderSteps_readSteps hfits, hempty, pathText, hpath]
  cases used with
  | nil => rfl
  | cons segment others =>
    rw [flatMap_slash]
    rfl

end ReadSplit

/-- Rendering undoes matching. Where every capture of a pattern that was read takes some text and the
match says which, the values of a match are rendered as the segments that it took, so that no two paths
are matched to the end with the same values. -/
theorem render_accepted {source : Text} {p : Pattern σ} (h : ofText source = .ok p)
    (hl : p.Lossless) :
    ∃ loose strict r, p.matcher false = .ok loose ∧ p.matcher true = .ok strict ∧
      p.renderer = .ok r ∧
      (∀ segments query params last, Clean segments →
        loose.run query (.start segments) = some (params, last) →
        ∃ k : Nat, last = ⟨segments, k, 0⟩ ∧
          r.run (.map (Route.paramEntries params)) =
            .ok ('/' :: Text.join ['/'] (segments.take k))) ∧
      ∀ segments others query query' params params', Clean segments → Clean others →
        strict.accept segments query = some params → strict.accept others query' = some params' →
        (∀ key, Table.get? key params = Table.get? key params') → segments = others := by
  have hread := ofText_eq_ok_iff.mp h
  refine ⟨_, _, _, hread.matcher_eq false, hread.matcher_eq true, hread.renderer_eq, ?_, ?_⟩
  · intro segments query params last hclean hrun
    rw [Matcher.run_open] at hrun
    obtain ⟨used, left, rfl, rfl, hrender⟩ := hread.render_of_runSteps hl hclean hrun
    refine ⟨used.length, rfl, ?_⟩
    rw [Renderer.run_map, List.take_left]
    exact hrender
  · intro segments others query query' params params' hclean hclean' haccept haccept' hsame
    have hwhole : ∀ {segments query params}, Clean segments →
        (⟨p.readSteps, true⟩ : Matcher).accept segments query = some params →
        renderRoute (argumentsOf params) p.readSteps = .ok ('/' :: Text.join ['/'] segments) := by
      intro segments query params hclean haccept
      obtain ⟨⟨_, last⟩, hrun, rfl⟩ := Option.map_eq_some_iff.mp haccept
      obtain ⟨hrun, hend⟩ := Matcher.run_eq_some.mp hrun
      obtain ⟨used, left, rfl, rfl, hrender⟩ := hread.render_of_runSteps hl hclean hrun
      obtain rfl := Cursor.isExhausted_behind_iff.mp (hend rfl)
      rwa [List.append_nil]
    have hrender : renderRoute (argumentsOf params) p.readSteps =
        renderRoute (argumentsOf params') p.readSteps := by
      rw [renderRoute, renderRoute, renderSteps_congr fun c _ => ?_]
      rw [argument_eq, argument_eq, hsame]
    rw [hwhole hclean haccept, hwhole hclean' haccept', Except.ok.injEq, List.cons.injEq] at hrender
    rw [← hclean.splitPath_join, hrender.2, hclean'.splitPath_join]

/-- Two captures in one segment, of which the second one holds the text that ends the first, and a
repetition. -/
theorem render_accepted_version :
    let source : Text := "/u/{v:major}{.:minor}/:rest+"
    let segments : List Text := ["u", "v1.2.3", "a", "b"]
    let params : Params :=
      [(.name "major", .one "1"), (.name "minor", .one "2.3"), (.name "rest", .many ["a", "b"])]
    ∃ (p : Pattern Schema) (loose : Matcher) (r : Renderer), ofText source = .ok p ∧ p.Lossless ∧
      p.matcher false = .ok loose ∧ p.renderer = .ok r ∧
      loose.run [] (.start segments) = some (params, ⟨segments, 4, 0⟩) ∧
      r.run (.map (Route.paramEntries params)) = .ok ("/u/v1.2.3/a/b" : Text) := by
  intro source segments params
  let p : Pattern Schema := .concat (.concat (.literal "u")
      (.concat (.prefixed "v" (.param "major")) (.prefixed "." (.param "minor")) true) false)
    (.modified .oneOrMore (.param "rest")) false
  have h : ofText source = .ok p := by rfl
  have hl : p.Lossless := by decide
  obtain ⟨loose, strict, r, hloose, -, hr, hrender, -⟩ := render_accepted h hl
  have hrun : loose.run [] (.start segments) = some (params, ⟨segments, 4, 0⟩) := by
    cases hloose
    rfl
  obtain ⟨k, hlast, htext⟩ := hrender segments [] params _ (by decide) hrun
  obtain rfl : k = 4 := Int.ofNat.inj (congrArg Cursor.index hlast).symm
  exact ⟨p, loose, r, h, hl, hloose, hr, hrun, htext⟩

end Pattern

end RoutePattern
