import RoutePattern.Proofs.FixedPaths
import RoutePattern.Proofs.VerbatimQuery

/-!
Values of query keys that come back. Where all captures of a route are values of query keys, what is rendered
for them is matched with the same values just where a query can hold each of these as it stands.
-/

namespace RoutePattern

variable {σ : Type}

namespace Pattern

/-- Patterns whose path is fixed text that a target can hold, and whose captures are required single
values of query keys made of letters. -/
structure QueryCaptures (p : Pattern σ) : Prop where
  path : ∀ parts ∈ p.pathParts, ∀ part ∈ parts, part.capture? = none ∧ part.Avoids [] ['?', '#']
  query : ∀ e ∈ p.queryParts, ∃ key, e.2 = [.capture ⟨key, [], false, false⟩]
  letters : ∀ e ∈ p.queryParts, ∀ c ∈ e.1, c.isAlpha
  keys : ((p.captures 0 false).map (·.1.key)).Nodup

namespace QueryCaptures

variable {split : QuerySplit} {p : Pattern σ} (h : ReadSplit split p) (hp : p.QueryCaptures)

include hp

theorem fixedPath : p.FixedPath := hp.path

include h

theorem captures_eq :
    (p.captures 0 false).map (·.1) = (p.queryParts.flatMap (·.2)).filterMap Part.capture? := by
  have hpath : p.pathParts.flatten.filterMap Part.capture? = [] := by
    refine List.filterMap_eq_nil_iff.mpr fun part hpart => ?_
    obtain ⟨parts, hparts, hpart⟩ := List.mem_flatten.mp hpart
    exact (hp.path parts hparts part hpart).1
  rw [h.captures_eq, List.filterMap_append, hpath, List.nil_append]

theorem nodup_keys : (((p.queryParts.flatMap (·.2)).filterMap Part.capture?).map Capture.key).Nodup := by
  rw [← hp.captures_eq h, List.map_map]
  exact hp.keys

end QueryCaptures

end Pattern

theorem keys_captured (optional : Bool) (parts : List Part) :
    (parts.flatMap (Part.captured optional)).map Capture.key =
      (parts.filterMap Part.capture?).map Capture.key := by
  induction parts with
  | nil => rfl
  | cons part rest ih =>
    rw [List.flatMap_cons, List.map_append, ih]
    cases part <;> rfl

theorem entryAnswers_eq (params : Params) (entries : List (Text × List Part)) :
    entryAnswers params entries =
      ((entries.flatMap (·.2)).filterMap Part.capture?).flatMap fun c => (Part.capture c).answer params := by
  rw [entryAnswers, ← List.flatMap_assoc, flatMap_answer]

theorem exists_of_matchValues {key : Key} {values : List Text} {params : Params}
    (h : matchValues (.capture ⟨key, [], false, false⟩) values = some params) :
    ∃ t ∈ values, params = [(key, .one t)] := by
  have hbodies : values.mapM (Text.after? []) = some values := by
    simpa using mapM_after?_append [] values
  rw [matchValues, hbodies, Option.bind_some] at h
  cases hgiven : values.filter (!·.isEmpty) with
  | nil => simp [hgiven] at h
  | cons t rest =>
    have ht : t ∈ values.filter (!·.isEmpty) := hgiven ▸ List.mem_cons_self
    refine ⟨t, List.mem_of_mem_filter ht, ?_⟩
    simpa [hgiven] using h.symm

/-- What required single captures are given is found under their query keys. -/
theorem exists_of_matchQuery {query : Query} {entries : List (Text × List Part)} {params : Params}
    (hentries : ∀ e ∈ entries, ∃ key, e.2 = [.capture ⟨key, [], false, false⟩])
    (hkeys : ((entries.flatMap fun e => e.2.flatMap (Part.captured false)).map Capture.key).Nodup)
    (h : matchQuery query entries = some params) :
    ∀ e ∈ entries, ∀ c ∈ e.2.filterMap Part.capture?,
      ∃ t ∈ query.all e.1, Table.get? c.key params = some (.one t) := by
  induction entries generalizing params with
  | nil => simp
  | cons entry rest ih =>
    obtain ⟨hentry, hrest⟩ := List.forall_mem_cons.mp hentries
    obtain ⟨key, hparts⟩ := hentry
    obtain ⟨first, hfirst, h⟩ := Option.bind_eq_some_iff.mp h
    obtain ⟨others, hothers, rfl⟩ := Option.map_eq_some_iff.mp h
    rw [List.flatMap_cons, List.map_append] at hkeys
    obtain ⟨-, hnodup, hdisjoint⟩ := List.nodup_append.mp hkeys
    have hfresh : key ∉ others.map (·.1) := by
      intro hmem
      obtain ⟨found, hfound, rfl⟩ := List.mem_map.mp hmem
      have hkey := (collected_matchQuery false hothers).mem_keys found hfound
      exact hdisjoint found.1 (by simp [hparts, Part.captured]) found.1 hkey rfl
    rw [hparts] at hfirst
    obtain ⟨t, ht, rfl⟩ := exists_of_matchValues hfirst
    have hothersKeys := (collected_matchQuery false hothers).nodup_keys
    have hput : Table.putAll [(key, .one t)] others = (key, .one t) :: others := by
      refine Table.putAll_of_disjoint hothersKeys fun k hk hmem => ?_
      obtain rfl : k = key := by simpa using hmem
      exact hfresh hk
    rw [hput]
    refine List.forall_mem_cons.mpr ⟨?_, fun e he c hc => ?_⟩
    · intro c hc
      obtain rfl : c = ⟨key, [], false, false⟩ := by simpa [hparts, Part.capture?] using hc
      exact ⟨t, ht, by simp⟩
    · obtain ⟨u, hu, hget⟩ := ih hrest hnodup hothers e he c hc
      have hne : key ≠ c.key := by
        rintro rfl
        rw [Table.get?_eq_none_iff.mpr hfresh] at hget
        cases hget
      exact ⟨u, hu, by simpa [Table.get?, hne] using hget⟩

namespace Pattern.QueryCaptures

variable {split : QuerySplit} {p : Pattern σ} {params : Params} {value : Key → Text}
  (h : ReadSplit split p) (hp : p.QueryCaptures)
  (hvalue : ∀ key ∈ (p.captures 0 false).map (·.1.key),
    value key ≠ [] ∧ Table.get? key params = some (.one (value key)))

include h hp

theorem nodup_entryAnswers (params : Params) : ((entryAnswers params p.queryParts).map (·.1)).Nodup := by
  rw [entryAnswers_eq]
  exact nodup_answers params (hp.nodup_keys h)

theorem exists_capture {e : Text × List Part} (he : e ∈ p.queryParts) :
    ∃ key ∈ (p.captures 0 false).map (·.1.key), e.2 = [.capture ⟨key, [], false, false⟩] := by
  obtain ⟨key, hparts⟩ := hp.query e he
  refine ⟨key, ?_, hparts⟩
  have hmem : (⟨key, [], false, false⟩ : Capture) ∈ (p.captures 0 false).map (·.1) := by
    rw [hp.captures_eq h]
    refine List.mem_filterMap.mpr ⟨.capture ⟨key, [], false, false⟩, ?_, rfl⟩
    exact List.mem_flatMap.mpr ⟨e, he, by simp [hparts]⟩
  have hkey := List.mem_map_of_mem (f := Capture.key) hmem
  rwa [List.map_map] at hkey

theorem exists_entry {c : Capture} (hc : c ∈ (p.captures 0 false).map (·.1)) :
    ∃ e ∈ p.queryParts, e.2 = [.capture c] ∧ c = ⟨c.key, [], false, false⟩ := by
  rw [hp.captures_eq h] at hc
  obtain ⟨part, hpart, hcapture⟩ := List.mem_filterMap.mp hc
  obtain ⟨e, he, hpart⟩ := List.mem_flatMap.mp hpart
  obtain ⟨key, hparts⟩ := hp.query e he
  obtain rfl : part = .capture ⟨key, [], false, false⟩ := by simpa [hparts] using hpart
  obtain rfl : ⟨key, [], false, false⟩ = c := Option.some.inj hcapture
  exact ⟨e, he, hparts, rfl⟩

include hvalue

theorem fits : ∀ c ∈ p.captures 0 false, c.1.Fits (Table.get? c.1.key params) := by
  intro c hc
  obtain ⟨e, -, -, hplain⟩ := hp.exists_entry h (List.mem_map_of_mem hc)
  obtain ⟨hne, hget⟩ := hvalue c.1.key (List.mem_map_of_mem hc)
  rw [hget, hplain]
  exact ⟨rfl, hne⟩

theorem entryPairs_eq {e : Text × List Part} (he : e ∈ p.queryParts) :
    ∃ key ∈ (p.captures 0 false).map (·.1.key), e.2 = [.capture ⟨key, [], false, false⟩] ∧
      entryPairs params e = [(e.1, value key)] := by
  obtain ⟨key, hkey, hparts⟩ := hp.exists_capture h he
  obtain ⟨-, hget⟩ := hvalue key hkey
  exact ⟨key, hkey, hparts, by simp [entryPairs, hparts, Part.values, hget, Captured.texts]⟩

theorem nodup_pairs : ((p.queryParts.flatMap (entryPairs params)).map (·.1)).Nodup := by
  have hkeys : (p.queryParts.flatMap (entryPairs params)).map (·.1) = p.queryParts.map (·.1) := by
    rw [List.map_flatMap, List.map_eq_flatMap]
    refine List.flatMap_congr fun e he => ?_
    obtain ⟨key, -, -, hpairs⟩ := hp.entryPairs_eq h hvalue he
    rw [hpairs]
    rfl
  rw [hkeys]
  exact h.queryParts_keys_clean.1

theorem mem_pairs_iff {pair : Text × Text} :
    pair ∈ p.queryParts.flatMap (entryPairs params) ↔
      ∃ e ∈ p.queryParts, ∃ key ∈ (p.captures 0 false).map (·.1.key),
        e.2 = [.capture ⟨key, [], false, false⟩] ∧ pair = (e.1, value key) := by
  rw [List.mem_flatMap]
  refine exists_congr fun e => and_congr_right fun he => ?_
  obtain ⟨key, hkey, hparts, hpairs⟩ := hp.entryPairs_eq h hvalue he
  rw [hpairs, List.mem_singleton]
  constructor
  · exact fun hpair => ⟨key, hkey, hparts, hpair⟩
  · rintro ⟨other, -, hother, hpair⟩
    obtain rfl : key = other := by simpa [hparts] using hother
    exact hpair

omit h hvalue in
theorem queryText_eq :
    p.queryText params = Text.join ['&'] ((p.queryParts.flatMap (entryPairs params)).map pieceOf) := by
  rw [Pattern.queryText, entryPieces_of_simple]
  intro e he
  obtain ⟨key, hparts⟩ := hp.query e he
  simp [hparts, SimpleEntry]

theorem pairs_plain {pair : Text × Text} (hpair : pair ∈ p.queryParts.flatMap (entryPairs params)) :
    pair.2 ≠ [] ∧ ∀ c ∈ pair.1, c.isAlpha := by
  obtain ⟨e, he, key, hkey, -, rfl⟩ := (hp.mem_pairs_iff h hvalue).mp hpair
  exact ⟨(hvalue key hkey).1, hp.letters e he⟩

theorem verbatim_of_matchQuery {result : Params}
    (hmatch : matchQuery (Query.ofPairs (queryPairs ((p.queryText params).takeWhile (· != '#'))))
      p.queryParts = some result)
    (hget : ∀ key, Table.get? key result = Table.get? key params) :
    ∀ key ∈ (p.captures 0 false).map (·.1.key), Verbatim (value key) := by
  have hkeys : ((p.queryParts.flatMap fun e => e.2.flatMap (Part.captured false)).map
      Capture.key).Nodup := by
    rw [← List.flatMap_assoc, keys_captured]
    exact hp.nodup_keys h
  have hread : ∀ pair ∈ p.queryParts.flatMap (entryPairs params),
      pair ∈ queryPairs ((p.queryText params).takeWhile (· != '#')) := by
    intro pair hpair
    obtain ⟨e, he, key, hkey, hparts, rfl⟩ := (hp.mem_pairs_iff h hvalue).mp hpair
    obtain ⟨t, ht, hfound⟩ := exists_of_matchQuery hp.query hkeys hmatch e he
      ⟨key, [], false, false⟩ (by simp [hparts, Part.capture?])
    rw [hget, (hvalue key hkey).2] at hfound
    obtain rfl := Captured.one.inj (Option.some.inj hfound)
    rw [Query.all_ofPairs] at ht
    obtain ⟨found, hfound, hsnd⟩ := List.mem_map.mp ht
    obtain ⟨hmem, hfst⟩ := List.mem_filter.mp hfound
    obtain rfl : found = (e.1, value key) := Prod.ext (by simpa using hfst) hsnd
    exact hmem
  rw [hp.queryText_eq] at hread
  have hverbatim := verbatim_of_read (hp.nodup_pairs h hvalue)
    (fun pair hpair => (hp.pairs_plain h hvalue hpair).1)
    (fun pair hpair => (hp.pairs_plain h hvalue hpair).2) hread
  intro key hkey
  obtain ⟨c, hc, rfl⟩ := List.mem_map.mp hkey
  obtain ⟨e, he, hparts, hplain⟩ := hp.exists_entry h (List.mem_map_of_mem hc)
  refine hverbatim (e.1, value c.1.key) ((hp.mem_pairs_iff h hvalue).mpr ⟨e, he, c.1.key, hkey, ?_, rfl⟩)
  rw [hparts, ← hplain]

theorem matchQuery_of_verbatim
    (hverbatim : ∀ key ∈ (p.captures 0 false).map (·.1.key), Verbatim (value key)) :
    matchQuery (Query.ofPairs (queryPairs ((p.queryText params).takeWhile (· != '#')))) p.queryParts =
      some (entryAnswers params p.queryParts) := by
  have hpairs : queryPairs ((p.queryText params).takeWhile (· != '#')) =
      p.queryParts.flatMap (entryPairs params) := by
    rw [hp.queryText_eq]
    refine read_of_verbatim (fun pair hpair => (hp.pairs_plain h hvalue hpair).2) fun pair hpair => ?_
    obtain ⟨e, he, key, hkey, -, rfl⟩ := (hp.mem_pairs_iff h hvalue).mp hpair
    exact hverbatim key hkey
  rw [hpairs]
  refine matchQuery_eq ?_ ?_ (all_ofPairs_entryPairs h.queryParts_keys_clean.1) ?_
  · intro e he
    obtain ⟨key, hparts⟩ := hp.query e he
    simp [hparts, SimpleEntry]
  · intro e he part hpart
    exact h.fits_allParts (hp.fits h hvalue) part
      (List.mem_append_right _ (List.mem_flatMap.mpr ⟨e, he, hpart⟩))
  · exact hp.nodup_entryAnswers h params

theorem get?_entryAnswers (hknown : ∀ key ∈ params.map (·.1), key ∈ (p.captures 0 false).map (·.1.key))
    (key : Key) : Table.get? key (entryAnswers params p.queryParts) = Table.get? key params := by
  have hanswer := key_of_mem_answer params
  have hkeys : (p.captures 0 false).map (·.1.key) =
      ((p.queryParts.flatMap (·.2)).filterMap Part.capture?).map Capture.key := by
    rw [← hp.captures_eq h, List.map_map]
    rfl
  rw [entryAnswers_eq]
  by_cases hkey : key ∈ (p.captures 0 false).map (·.1.key)
  · have hget := (hvalue key hkey).2
    rw [hkeys] at hkey
    obtain ⟨c, hc, rfl⟩ := List.mem_map.mp hkey
    rw [get?_flatMap hanswer (hp.nodup_keys h) hc, Part.answer, hget]
    simp
  · have hnone : Table.get? key params = none :=
      Table.get?_eq_none_iff.mpr fun hmem => hkey (hknown key hmem)
    rw [hkeys] at hkey
    rw [get?_flatMap_of_notMem hanswer hkey, hnone]

end Pattern.QueryCaptures

namespace Route

open Pattern

/-- Values of required single captures come back from what is rendered for them just where a query can hold
all of them as they stand. -/
theorem query_reads_back_iff {source : Text} {atEnd : Bool} {r : Route} {params : Params}
    (value : Key → Text) (hr : parse source atEnd = .ok r) (hp : r.pattern.QueryCaptures)
    (hvalue : ∀ key ∈ (r.pattern.captures 0 false).map (·.1.key),
      value key ≠ [] ∧ Table.get? key params = some (.one (value key)))
    (hknown : ∀ key ∈ params.map (·.1), key ∈ (r.pattern.captures 0 false).map (·.1.key)) :
    ∃ target, r.render (.map (paramEntries params)) = .ok target ∧
      ((∃ result, r.accept target = .ok (some result) ∧ (result.map (·.1)).Nodup ∧
          ∀ key, Table.get? key result = Table.get? key params) ↔
        ∀ key ∈ (r.pattern.captures 0 false).map (·.1.key), Verbatim (value key)) := by
  have h := parse_eq_ok hr
  have hcaptures := hp.captures_eq h
  refine ⟨_, render_of_fits h (hp.fits h hvalue), ?_⟩
  rw [accept_eq_matchQuery h hp.fixedPath]
  constructor
  · rintro ⟨result, haccept, -, hget⟩
    exact hp.verbatim_of_matchQuery h hvalue (Except.ok.inj haccept) hget
  · intro hverbatim
    exact ⟨_, congrArg Except.ok (hp.matchQuery_of_verbatim h hvalue hverbatim),
      hp.nodup_entryAnswers h params, hp.get?_entryAnswers h hvalue hknown⟩

/-- Equals signs and percent signs without hexadecimal digits behind them come back. -/
theorem query_reads_back_percent :
    let source : Text := "/s?x=:x&y=:y"
    let params : Params := [(.name "y", .one "%4;é"), (.name "x", .one "50% = half")]
    ∃ r target result, parse source true = .ok r ∧ r.render (.map (paramEntries params)) = .ok target ∧
      target = ("/s?x=50% = half&y=%4;é" : Text) ∧ r.accept target = .ok (some result) ∧
      Table.get? (.name "x") result = some (.one "50% = half") ∧
      Table.get? (.name "y") result = some (.one "%4;é") := by
  intro source params
  let pattern : Pattern Schema := .queryParams (.literal "s") [("x", .param "x"), ("y", .param "y")]
  let value : Key → Text := fun key => if key = .name "x" then "50% = half" else "%4;é"
  have hr : parse source true = .ok ⟨pattern, true⟩ := by rfl
  have hentries : pattern.queryParts = [(("x" : Text), [Part.capture ⟨.name "x", [], false, false⟩]),
      (("y" : Text), [Part.capture ⟨.name "y", [], false, false⟩])] := by rfl
  have hp : pattern.QueryCaptures := by
    refine ⟨by decide, ?_, ?_, by decide⟩
    · rw [hentries]
      exact List.forall_mem_cons.mpr ⟨⟨_, rfl⟩, List.forall_mem_singleton.mpr ⟨_, rfl⟩⟩
    · rw [hentries]
      exact List.forall_mem_cons.mpr
        ⟨List.all_eq_true.mp rfl, List.forall_mem_singleton.mpr (List.all_eq_true.mp rfl)⟩
  have hvalue : ∀ key ∈ (pattern.captures 0 false).map (·.1.key),
      value key ≠ [] ∧ Table.get? key params = some (.one (value key)) := by decide
  obtain ⟨target, hrender, hback⟩ := query_reads_back_iff value hr hp hvalue (by decide)
  obtain ⟨result, haccept, -, hget⟩ := hback.mpr (by decide)
  exact ⟨_, target, result, hr, hrender, (Except.ok.inj hrender).symm.trans rfl, haccept,
    (hget (.name "x")).trans rfl, (hget (.name "y")).trans rfl⟩

/-- A value with an ampersand ends where the ampersand stands, and what follows is read as another key. -/
theorem value_read_as_other_key :
    ∃ r : Route, parse "/s?x=:x&y=:y" true = .ok r ∧
      r.render (.map [(.text "x", .text "1&y=2"), (.text "y", .text "3")]) =
        .ok ("/s?x=1&y=2&y=3" : Text) ∧
      r.accept "/s?x=1&y=2&y=3" =
        .ok (some [(.name "x", .one "1"), (.name "y", .one "2")]) :=
  ⟨⟨.queryParams (.literal "s") [("x", .param "x"), ("y", .param "y")], true⟩, by rfl, by rfl, by rfl⟩

end Route

end RoutePattern
