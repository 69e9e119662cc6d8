import RoutePattern.Proofs.OuterStructs
import RoutePattern.Proofs.ReportingCodecs
import RoutePattern.Proofs.ShortValues

/-!
What decoding says of a match. Every text that was captured is read by the codec that is declared for its
capture. The value has what was read in place of the texts, or there is an issue for each text that could not
be read, under the key that it was captured under.
-/

namespace RoutePattern

namespace Codec

/-- What was captured as it is read, if all of it is read. -/
def read? (c : Codec) : Captured → Option Value
  | .one t => (c.decode t).toOption
  | .many ts => (ts.mapM fun t => (c.decode t).toOption).map .list

/-- The issue of a text that is not read. -/
def rejected? (c : Codec) (path : List Value) (t : Text) : Option Issue :=
  match c.decode t with
  | .ok _ => none
  | .error r => some ⟨.invalid, path, "Cannot decode " ++ c.name ++ ": " ++ r.message⟩

/-- The issues of what was captured under a key: one for every text that is not read, with its index where
there is a list. -/
def rejections (c : Codec) (key : Key) : Captured → List Issue
  | .one t => (c.rejected? [key.value] t).toList
  | .many ts => ts.zipIdx.filterMap fun entry => c.rejected? [key.value, .int entry.2] entry.1

def kept (c : Codec) : Captured → Option Value
  | .one t => (c.decode t).toOption
  | .many ts => some (.list (ts.filterMap fun t => (c.decode t).toOption))

theorem rejected?_eq_none_iff {c : Codec} {path : List Value} {t : Text} :
    c.rejected? path t = none ↔ ∃ v, (c.decode t).toOption = some v := by
  unfold rejected?
  cases c.decode t <;> simp [Except.toOption]

theorem mapM_read_cases (c : Codec) (key : Value) (index : Nat) (ts : List Text) :
    let rejections := (ts.zipIdx index).filterMap fun entry => c.rejected? [key, .int entry.2] entry.1
    (∃ vs, ts.mapM (fun t => (c.decode t).toOption) = some vs ∧
      ts.filterMap (fun t => (c.decode t).toOption) = vs ∧ rejections = []) ∨
    (ts.mapM (fun t => (c.decode t).toOption) = none ∧ rejections ≠ []) := by
  induction ts generalizing index with
  | nil => exact .inl ⟨[], rfl, rfl, rfl⟩
  | cons t rest ih =>
    simp only [List.mapM_cons, List.zipIdx_cons, List.filterMap_cons]
    cases hread : (c.decode t).toOption with
    | none =>
      have hrejected : ∃ i, c.rejected? [key, .int index] t = some i := by
        rw [← Option.ne_none_iff_exists', ne_eq, rejected?_eq_none_iff]
        simp [hread]
      obtain ⟨i, hi⟩ := hrejected
      exact .inr ⟨rfl, by simp [hi]⟩
    | some v =>
      have hnone : c.rejected? [key, .int index] t = none := rejected?_eq_none_iff.mpr ⟨v, hread⟩
      rw [hnone]
      rcases ih (index + 1) with ⟨vs, hvs, hfilter, hnil⟩ | ⟨hvs, hne⟩
      · exact .inl ⟨v :: vs, by simp [hvs], by simp [hfilter], hnil⟩
      · exact .inr ⟨by simp [hvs], hne⟩

theorem read?_cases (c : Codec) (key : Key) (captured : Captured) :
    (∃ v, c.read? captured = some v ∧ c.kept captured = some v ∧ c.rejections key captured = []) ∨
    (c.read? captured = none ∧ c.rejections key captured ≠ []) := by
  cases captured with
  | one t =>
    simp only [read?, kept, rejections]
    cases hread : (c.decode t).toOption with
    | some v =>
      have hnone : c.rejected? [key.value] t = none := rejected?_eq_none_iff.mpr ⟨v, hread⟩
      exact .inl ⟨v, rfl, rfl, by simp [hnone]⟩
    | none =>
      refine .inr ⟨rfl, fun hnil => ?_⟩
      obtain ⟨v, hv⟩ := rejected?_eq_none_iff.mp (Option.toList_eq_nil_iff.mp hnil)
      simp [hread] at hv
  | many ts =>
    rcases c.mapM_read_cases key.value 0 ts with ⟨vs, hvs, hfilter, hnil⟩ | ⟨hvs, hne⟩
    · exact .inl ⟨.list vs, by simp [read?, hvs], by simp [kept, hfilter], hnil⟩
    · exact .inr ⟨by simp [read?, hvs], hne⟩

end Codec

namespace Schema

open Outcome

section

variable {c : Codec} (hc : c.ReportsRead)

include hc

theorem convertOne_read (path : List Value) (t : Text) :
    convertOne c.apply ("Cannot decode " ++ c.name ++ ": ") path (.text t) =
      made (c.decode t).toOption (c.rejected? path t).toList := by
  cases ht : c.decode t with
  | ok v =>
    have happly : c.apply (.text t) = .ok v := ht
    rw [convertOne_of_ok happly]
    simp [Codec.rejected?, ht, Except.toOption, pure_eq]
  | error r =>
    have happly : c.apply (.text t) = .error r := ht
    rw [convertOne_of_reported happly (hc t r ht)]
    simp [Codec.rejected?, ht, Except.toOption]

theorem convertItems_read (key : Value) (index : Nat) (ts : List Text) :
    convertItems c.apply ("Cannot decode " ++ c.name ++ ": ") key index (ts.map .text) =
      made (ts.filterMap fun t => (c.decode t).toOption)
        ((ts.zipIdx index).filterMap fun entry => c.rejected? [key, .int entry.2] entry.1) := by
  induction ts generalizing index with
  | nil => rfl
  | cons t rest ih =>
    rw [List.map_cons, convertItems, convertOne_read hc, ih (index + 1), List.zipIdx_cons]
    refine (made_bind_made _ (made_bind_pure _ _ _)).trans ?_
    cases hread : (c.decode t).toOption <;> cases hrejected : c.rejected? [key, .int index] t <;>
      simp [hread, hrejected]

theorem convertEntry_read (key : Key) (captured : Captured) :
    convertEntry c.apply ("Cannot decode " ++ c.name ++ ": ") key.value captured.value =
      made (c.kept captured) (c.rejections key captured) := by
  cases captured with
  | one t => exact convertOne_read hc [key.value] t
  | many ts =>
    have hitems : convertEntry c.apply ("Cannot decode " ++ c.name ++ ": ") key.value
        (Captured.many ts).value =
        convertItems c.apply ("Cannot decode " ++ c.name ++ ": ") key.value 0 (ts.map .text) >>= fun vs =>
          pure (some (.list vs)) := rfl
    rw [hitems, convertItems_read hc, made_bind_pure]
    rfl

end

/-- An entry as it is read: one that no codec is declared for stays. -/
def readCaptured? (s : Schema) (entry : Key × Captured) : Option (Value × Value) :=
  match s.codecFor entry.1.value with
  | none => some (entry.1.value, entry.2.value)
  | some c => (c.read? entry.2).map (entry.1.value, ·)

def entryRejections (s : Schema) (entry : Key × Captured) : List Issue :=
  match s.codecFor entry.1.value with
  | none => []
  | some c => c.rejections entry.1 entry.2

/-- The issues of a match, in the order in which its texts were captured. -/
def rejections (s : Schema) (params : Params) : List Issue := params.flatMap s.entryRejections

variable {s : Schema} {fields : Table Value Codec} {params : Params}

theorem convertSingle_read {entry : Key × Captured}
    (hfield : Table.get? entry.1.value fields = s.codecFor entry.1.value)
    (hreports : ∀ c ∈ s.codecFor entry.1.value, c.ReportsRead) :
    ∃ es, convertSingle fields Codec.apply "decode" (entry.1.value, entry.2.value) =
        made es (s.entryRejections entry) ∧
      ((∃ e, s.readCaptured? entry = some e ∧ es = [e] ∧ s.entryRejections entry = []) ∨
        (s.readCaptured? entry = none ∧ s.entryRejections entry ≠ [])) := by
  obtain ⟨key, captured⟩ := entry
  simp only [readCaptured?, entryRejections] at hfield hreports ⊢
  cases hcodec : s.codecFor key.value with
  | none =>
    refine ⟨[(key.value, captured.value)], ?_, .inl ⟨_, rfl, rfl, rfl⟩⟩
    simp only [convertSingle, convertField, hfield, hcodec]
    rfl
  | some c =>
    have hentry := convertEntry_read (hreports c hcodec) key captured
    have hconvert : convertField fields Codec.apply "decode" key.value captured.value =
        made (c.kept captured) (c.rejections key captured) := by
      rw [← hentry]
      cases captured <;> simp only [convertField, hfield, hcodec, Captured.value] <;> rfl
    refine ⟨((c.kept captured).map (key.value, ·)).toList, by rw [convertSingle, hconvert, made_bind_pure], ?_⟩
    rcases c.read?_cases key captured with ⟨v, hread, hkept, hnone⟩ | ⟨hread, hsome⟩
    · exact .inl ⟨(key.value, v), by simp [hread], by simp [hkept], hnone⟩
    · exact .inr ⟨by simp [hread], hsome⟩

/-- Either all of a match is read, and the fields are what was read, or something of it is rejected. -/
theorem convertFields_read
    (hfields : ∀ entry ∈ params, Table.get? entry.1.value fields = s.codecFor entry.1.value)
    (hreports : ∀ entry ∈ params, ∀ c ∈ s.codecFor entry.1.value, c.ReportsRead) :
    ∃ es, convertFields fields Codec.apply "decode" (Route.paramEntries params) =
        made es (s.rejections params) ∧
      ((params.mapM s.readCaptured? = some es ∧ s.rejections params = []) ∨
        (params.mapM s.readCaptured? = none ∧ s.rejections params ≠ [])) := by
  induction params with
  | nil => exact ⟨[], rfl, .inl ⟨rfl, rfl⟩⟩
  | cons entry rest ih =>
    obtain ⟨hfield, hfields⟩ := List.forall_mem_cons.mp hfields
    obtain ⟨hreport, hreports⟩ := List.forall_mem_cons.mp hreports
    obtain ⟨others, hothers, hrest⟩ := ih hfields hreports
    obtain ⟨own, hown, hfirst⟩ := convertSingle_read hfield hreport
    have hcons : Route.paramEntries (entry :: rest) =
        (entry.1.value, entry.2.value) :: Route.paramEntries rest := by
      simp only [paramEntries_eq_map, List.map_cons]
    refine ⟨own ++ others, by rw [hcons, convertFields_cons, hothers, hown, made_both]; rfl, ?_⟩
    have hrejections : s.rejections (entry :: rest) = s.entryRejections entry ++ s.rejections rest := rfl
    rw [hrejections, List.mapM_cons]
    rcases hfirst with ⟨e, hread, rfl, hnil⟩ | ⟨hread, hne⟩
    · rw [hread, hnil]
      rcases hrest with ⟨hmap, hnone⟩ | ⟨hmap, hsome⟩
      · exact .inl ⟨by simp [hmap], hnone⟩
      · exact .inr ⟨by simp [hmap], hsome⟩
    · rw [hread]
      exact .inr ⟨rfl, by simp [hne]⟩

end Schema

namespace Pattern

open Schema

/-- What a pattern matched is read as a whole, or decoding tells of each text that is not read. -/
theorem decode_match {p : Pattern Schema} {atEnd : Bool} {m : Matcher} (hm : p.matcher atEnd = .ok m)
    (hs : ∀ s ∈ p.outerSchemas, s.IsStructOver Codec.ReportsRead)
    (hkeys : ((p.captures 0 false).map (·.1.key)).Nodup) {query : Query} {cursor last : Cursor}
    {params : Params} (h : m.run query cursor = some (params, last)) :
    (∃ es, params.mapM p.schema.readCaptured? = some es ∧
        p.schema.decode (argumentsOf params) = .ok (.map es)) ∨
      (params.mapM p.schema.readCaptured? = none ∧ p.schema.rejections params ≠ [] ∧
        p.schema.decode (argumentsOf params) = .error (.issues (p.schema.rejections params))) := by
  have hready := ready_of_layout (layout_of_matcher hm).1
  have hparts := structParts hready hs hkeys
  have hgiven := given_run hm hkeys h
  have horder := inOrder_paramEntries hgiven
  have hroute : ((p.captures 0 false).map (·.1)).map Capture.key =
      (p.schemaItems 0 false false).flatMap SchemaItem.routeKeys := by
    rw [routeKeys_schemaItems hready, List.map_map]
    rfl
  have hfields : ∀ entry ∈ params, Table.get? entry.1.value p.schema.declared =
      p.schema.codecFor entry.1.value := by
    intro entry hentry
    have hkey := hgiven.keys_sublist.subset (List.mem_map_of_mem hentry)
    rw [hroute] at hkey
    exact get?_declared hkey
  obtain ⟨es, hes, hcases⟩ := convertFields_read (s := p.schema) hfields fun _ _ c hc =>
    of_codecFor hparts hc
  have hdecode : p.schema.decode (argumentsOf params) =
      finish (convertFields p.schema.declared Codec.apply "decode" (Route.paramEntries params)) :=
    hparts.decode_eq [] (hroute ▸ horder)
  rw [hdecode, hes]
  rcases hcases with ⟨hmap, hnil⟩ | ⟨hmap, hne⟩
  · rw [hnil]
    exact .inl ⟨es, hmap, rfl⟩
  · obtain ⟨issue, more, hissues⟩ := List.exists_cons_of_ne_nil hne
    rw [hissues]
    exact .inr ⟨hmap, by simp, rfl⟩

end Pattern

namespace Schema

/-- An issue points to the key of an entry, and where that is a list to one of its texts. -/
theorem path_of_mem_rejections {s : Schema} {params : Params} {i : Issue} (h : i ∈ s.rejections params) :
    ∃ entry ∈ params, i.path = [entry.1.value] ∨
      ∃ (texts : List Text) (n : Nat), entry.2 = .many texts ∧ n < texts.length ∧
        i.path = [entry.1.value, .int n] := by
  have hrejected : ∀ {c : Codec} {path : List Value} {t : Text}, c.rejected? path t = some i →
      i.path = path := by
    intro c path t ht
    unfold Codec.rejected? at ht
    split at ht
    · cases ht
    · rw [← Option.some.inj ht]
  obtain ⟨entry, hentry, hi⟩ := List.mem_flatMap.mp h
  refine ⟨entry, hentry, ?_⟩
  unfold entryRejections at hi
  split at hi
  · cases hi
  next c _ =>
    cases hcaptured : entry.2 with
    | one t =>
      rw [hcaptured] at hi
      exact .inl (hrejected (Option.mem_toList.mp hi))
    | many texts =>
      rw [hcaptured] at hi
      obtain ⟨⟨t, n⟩, hmem, ht⟩ := List.mem_filterMap.mp hi
      exact .inr ⟨texts, n, rfl, by simpa using List.snd_lt_of_mem_zipIdx hmem, hrejected ht⟩

end Schema

theorem Pattern.short_key {p : Pattern Schema} (hready : p.Ready) {first : Nat}
    (hcount : ∀ n < first + p.unnamedCount, Whole.Short n) {c : Capture}
    (hc : c ∈ (p.captures first false).map (·.1)) : c.key.value.Short := by
  cases hkey : c.key with
  | name t => trivial
  | index n =>
    obtain ⟨pair, hpair, rfl⟩ := List.mem_map.mp hc
    have hindex : n ∈ (p.captures first false).filterMap (·.1.key.index?) :=
      List.mem_filterMap.mpr ⟨pair, hpair, by rw [hkey]; rfl⟩
    rw [Ready.indices first false p hready, List.mem_range'_1] at hindex
    exact hcount n hindex.2

namespace Route

open Schema Pattern

section Matched

variable {r : Route} {m : Matcher} {target : Text} {params : Params}

theorem steps_of_matcher (hm : r.matcher = .ok m) : r.pattern.layout.steps = .ok m.steps :=
  (layout_of_matcher (Except.mapError_eq_ok.mp hm)).1

theorem path_of_matcher (hm : r.matcher = .ok m) : r.path? = .ok r.pattern.path := by
  rw [path?, Pattern.path?, Ready.strayParam? r.pattern (ready_of_layout (steps_of_matcher hm))]

/-- What is matched can be written where the positions of unnamed captures and of items of lists can. -/
theorem short_of_accept (hm : r.matcher = .ok m) (hcount : ∀ n < r.pattern.unnamedCount, Whole.Short n)
    (hlists : ∀ key texts, (key, Captured.many texts) ∈ params → texts.length ≤ 10 ^ Whole.digitLimit)
    (h : r.accept target = .ok (some params)) : (Value.map (paramEntries params)).Short := by
  have hsteps := steps_of_matcher hm
  rw [accept, hm] at h
  obtain ⟨⟨found, last⟩, hrun, heq⟩ := Option.map_eq_some_iff.mp (Except.ok.inj h)
  obtain rfl : found = params := heq
  rw [paramEntries_eq_map, Value.short_map_iff]
  intro e he
  obtain ⟨⟨key, captured⟩, hentry, rfl⟩ := List.mem_map.mp he
  constructor
  · obtain ⟨c, hc, hkey⟩ := List.mem_map.mp ((Matcher.collected_run hrun).mem_keys _ hentry)
    rw [captures_of_layout hsteps] at hc
    have hshort : c.key.value.Short :=
      short_key (ready_of_layout hsteps) (fun n hn => hcount n (by omega)) hc
    exact hkey ▸ hshort
  · cases captured with
    | one t => trivial
    | many texts => exact Value.short_texts fun n hn => Whole.short_of_lt hn (hlists key texts hentry)

theorem decode_of_issues {path : Text} {issues : List Issue} (haccept : r.accept target = .ok (some params))
    (hpath : r.path? = .ok path) (h : r.schema.decode (argumentsOf params) = .error (.issues issues)) :
    r.decode target =
      ((RoutingFault.decodeFailed (some path) (issues.map .issue)).mapError .refusal).map .error := by
  have hargs : Value.map (paramEntries params) = argumentsOf params := rfl
  simp only [decode, haccept, bind, Except.bind, hargs, h, hpath, Except.mapError]
  cases RoutingFault.decodeFailed (some path) (issues.map .issue) <;> rfl

end Matched

/-- Decoding errors are complete and point at the right captures. Where the outermost schemas of a route are
structs, a match is decoded to itself with what the declared codecs read in place of the texts. If they do not
read all of it, decoding fails with one issue for each text that is not read, in the order of the match, under
the key of its capture and in a list under its index too. The fault can be made unless a position has more
digits than are ever written. -/
theorem decode_of_structs {r : Route} {m : Matcher} (hm : r.matcher = .ok m)
    (hs : ∀ s ∈ r.pattern.outerSchemas, s.IsStructOver Codec.ReportsRead)
    (hkeys : ((r.pattern.captures 0 false).map (·.1.key)).Nodup) {target : Text} {params : Params}
    (h : r.accept target = .ok (some params)) :
    match params.mapM r.schema.readCaptured? with
    | some entries => r.decode target = .ok (.ok (.map entries))
    | none =>
      let notes := (r.schema.rejections params).map IssueNote.issue
      let fault := RoutingFault.decodeFailed (some r.pattern.path) notes
      notes ≠ [] ∧ r.decode target = (fault.mapError .refusal).map .error ∧
      (r.pattern.unnamedCount ≤ 10 ^ Whole.digitLimit →
        (∀ key texts, (key, Captured.many texts) ∈ params → texts.length ≤ 10 ^ Whole.digitLimit) →
        ∃ f, fault = .ok f ∧ f.detail = .issues notes) := by
  have haccept := h
  have hmatcher := Except.mapError_eq_ok.mp hm
  rw [accept, hm] at h
  obtain ⟨⟨found, last⟩, hrun, heq⟩ := Option.map_eq_some_iff.mp (Except.ok.inj h)
  obtain rfl : found = params := heq
  rcases decode_match hmatcher hs hkeys hrun with ⟨es, hread, hdecode⟩ | ⟨hread, hne, hdecode⟩
  · have hread : found.mapM r.schema.readCaptured? = some es := hread
    rw [hread]
    exact decode_eq_ok_iff.mpr ⟨_, haccept, hdecode⟩
  · have hread : found.mapM r.schema.readCaptured? = none := hread
    rw [hread]
    refine ⟨fun hnil => hne (List.map_eq_nil_iff.mp hnil),
      decode_of_issues haccept (path_of_matcher hm) hdecode, fun hcount hlists => ?_⟩
    have hshort := short_of_accept hm (fun n hn => Whole.short_of_lt hn hcount) hlists haccept
    rw [paramEntries_eq_map, Value.short_map_iff] at hshort
    have hpaths : ∀ i ∈ r.schema.rejections found, ∀ v ∈ i.path, v.Short := by
      intro i hi
      obtain ⟨entry, hentry, hi⟩ := path_of_mem_rejections hi
      obtain ⟨hkey, -⟩ := hshort _ (List.mem_map_of_mem hentry)
      rcases hi with hi | ⟨texts, n, hcaptured, hn, hi⟩
      · rw [hi]
        exact List.forall_mem_singleton.mpr hkey
      · have hlist := hlists entry.1 texts (hcaptured ▸ hentry)
        rw [hi]
        exact List.forall_mem_cons.mpr ⟨hkey,
          List.forall_mem_singleton.mpr (Whole.short_of_lt hn hlist)⟩
    rcases RoutingFault.ofNotes_cases "RouteDecodeError" "ROUTE_DECODE_ERROR"
      "Route parameters failed to decode" (some r.pattern.path) (r.schema.rejections found) with
      hfault | ⟨-, hlong⟩
    · exact hfault
    · exact absurd hpaths hlong

/-- Two schemas side by side that know their captures by the same key: the issues have the keys of the
route. -/
theorem decode_of_structs_several :
    let first : Pattern Schema := .withSchema .unnamed (.struct "First" [(.int 0, .int)])
    let others : Pattern Schema :=
      .withSchema (.modified .zeroOrMore .unnamed) (.struct "Others" [(.int 0, .int)])
    let r : Route := ⟨.concat first others false, true⟩
    let notes : List IssueNote := [
      .issue ⟨.invalid, [.int 0], "Cannot decode int: Invalid integer: x"⟩,
      .issue ⟨.invalid, [.int 1, .int 1], "Cannot decode int: Invalid integer: y"⟩,
      .issue ⟨.invalid, [.int 1, .int 2], "Cannot decode int: Invalid integer: z"⟩]
    ∃ f, r.decode "/x/3/y/z" = .ok (.error f) ∧ f.detail = .issues notes := by
  intro first others r notes
  let params : Params := [(.index 0, .one "x"), (.index 1, .many ["3", "y", "z"])]
  obtain ⟨m, hm⟩ : ∃ m, r.matcher = .ok m := ⟨_, rfl⟩
  have hs : ∀ s ∈ r.pattern.outerSchemas, s.IsStructOver Codec.ReportsRead := by
    have hint : ∀ name : Text, (Schema.struct name [(.int 0, .int)]).IsStructOver Codec.ReportsRead :=
      fun name => List.forall_mem_singleton.mpr Codec.reportsRead_int
    exact List.forall_mem_cons.mpr ⟨hint "First", List.forall_mem_singleton.mpr (hint "Others")⟩
  have haccept : r.accept "/x/3/y/z" = .ok (some params) := by rfl
  have hread : params.mapM r.schema.readCaptured? = none := by rfl
  have hrejections : (r.schema.rejections params).map IssueNote.issue = notes := by
    have hfirst : r.schema.codecFor (Key.index 0).value = some .int := by with_unfolding_all rfl
    have hothers : r.schema.codecFor (Key.index 1).value = some .int := by with_unfolding_all rfl
    simp only [rejections, params, List.flatMap_cons, List.flatMap_nil, entryRejections, hfirst, hothers]
    rfl
  have hlists : ∀ key texts, (key, Captured.many texts) ∈ params → texts.length ≤ 10 := by
    simp [params]
  have h := decode_of_structs hm hs (by decide) haccept
  rw [hread, hrejections] at h
  obtain ⟨-, hdecode, hfault⟩ := h
  obtain ⟨f, hf, hdetail⟩ := hfault ((show r.pattern.unnamedCount ≤ 10 by decide).trans Whole.ten_le_limit)
    fun key texts hmem => (hlists key texts hmem).trans Whole.ten_le_limit
  exact ⟨f, by rw [hdecode, hf]; rfl, hdetail⟩

end Route

end RoutePattern
