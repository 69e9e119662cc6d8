import RoutePattern.Description
import RoutePattern.Proofs.FixedPaths

/-!
The names in the description of a route. A parameter of the query is described under the name of its
capture, whatever the key that requests give its value under.
-/

namespace RoutePattern

namespace Value

def field? (name : Text) : Value → Option Value
  | map entries => Table.get? (.text name) entries
  | _ => none

end Value

theorem Table.get?_cons_text (key name : Text) (v : Value) (entries : Table Value Value) :
    get? (.text key) ((.text name, v) :: entries) =
      if name = key then some v else get? (.text key) entries := by
  have hsame : (Value.text name == Value.text key) = (name == key) := rfl
  rw [get?, hsame]
  simp

namespace ParamDescription

theorem field?_name (d : ParamDescription) : d.parameter.field? "name" = some (.text d.name) := by
  rw [parameter, Value.field?, List.append_assoc, List.cons_append, Table.get?_cons_text, if_pos rfl]

theorem field?_in (d : ParamDescription) : d.parameter.field? "in" = some (.text d.location) := by
  rw [parameter, Value.field?, List.append_assoc, List.cons_append, Table.get?_cons_text,
    if_neg (by decide), List.cons_append, Table.get?_cons_text, if_pos rfl]

end ParamDescription

/-- The name of a parameter object that is said to stand at the location. -/
def Value.nameIn? (location : Text) (parameter : Value) : Option Text :=
  match parameter.field? "in", parameter.field? "name" with
  | some (.text place), some (.text name) => if place = location then some name else none
  | _, _ => none

/-- The names of the parameters of a route that are said to stand at the location, in order. -/
def Route.namesIn (location : Text) (r : Route) : List Text :=
  r.parameters.filterMap (Value.nameIn? location)

namespace Pattern

variable {σ : Type}

/-- Where the captures of a pattern stand, and what they are called. -/
def capturedNames (inQuery : Bool) (cs : List (Capture × Bool)) : List Text :=
  (cs.filter fun c => c.2 == inQuery).map (·.1.key.text)

theorem capturedNames_append (inQuery : Bool) (cs ds : List (Capture × Bool)) :
    capturedNames inQuery (cs ++ ds) = capturedNames inQuery cs ++ capturedNames inQuery ds := by
  simp [capturedNames]

theorem capturedNames_of_forall {inQuery : Bool} {cs : List (Capture × Bool)}
    (h : ∀ c ∈ cs, c.2 = inQuery) : capturedNames inQuery cs = cs.map (·.1.key.text) := by
  rw [capturedNames, List.filter_eq_self.mpr fun c hc => by simp [h c hc]]

theorem capturedNames_eq_nil {inQuery : Bool} {cs : List (Capture × Bool)}
    (h : ∀ c ∈ cs, c.2 = !inQuery) : capturedNames inQuery cs = [] := by
  rw [capturedNames, List.filter_eq_nil_iff.mpr fun c hc => by simp [h c hc], List.map_nil]

end Pattern

theorem Route.namesIn_eq (inQuery : Bool) (r : Route) :
    r.namesIn (if inQuery then "query" else "path") =
      Pattern.capturedNames inQuery (r.pattern.captures 0 false) := by
  have hname : ∀ d : ParamDescription,
      d.parameter.nameIn? (if inQuery then "query" else "path") =
        if d.inQuery == inQuery then some d.name else none := by
    intro d
    rw [Value.nameIn?, d.field?_in, d.field?_name]
    cases h : d.inQuery <;> cases inQuery <;> simp [ParamDescription.location, h]
  rw [namesIn, parameters, descriptions, List.filterMap_map, List.filterMap_map, Pattern.capturedNames,
    ← List.filterMap_eq_map, List.filterMap_filter]
  refine List.filterMap_congr fun c _ => ?_
  simp only [Function.comp_apply, hname]
  rfl

namespace Pattern

variable {σ : Type}

theorem inPath_of_partCaptures (optional : Bool) (part : Part) :
    ∀ c ∈ captures.partCaptures optional part, c.2 = false := by
  cases part <;> simp [captures.partCaptures]

theorem inPath_of_hasBlock : (p : Pattern σ) → p.hasBlock = false → (first : Nat) →
    (optional : Bool) → ∀ c ∈ p.captures first optional, c.2 = false
  | literal _, _, _, _ => by simp [captures, member, Member.part?, captures.partCaptures]
  | param _, _, _, _ => by simp [captures, member, Member.part?, captures.partCaptures]
  | unnamed, _, _, _ => by simp [captures, member, Member.part?, captures.partCaptures]
  | modified _ inner, h, first, optional => by
    rw [captures]
    split
    next part _ => exact inPath_of_partCaptures optional part
    next => exact inPath_of_hasBlock inner h first _
  | prefixed _ inner, h, first, optional => by
    rw [captures]
    split
    next part _ => exact inPath_of_partCaptures optional part
    next => exact inPath_of_hasBlock inner h first _
  | concat left right _, h, first, optional => by
    obtain ⟨hl, hr⟩ := Bool.or_eq_false_iff.mp h
    intro c hc
    rcases List.mem_append.mp hc with hc | hc
    · exact inPath_of_hasBlock left hl first optional c hc
    · exact inPath_of_hasBlock right hr _ optional c hc
  | queryParam _ _, _, _, _ => by simp [captures, member, Member.refused, Member.part?]
  | queryParams _ _, h, _, _ => by simp [hasBlock] at h
  | withSchema inner _, h, first, optional => inPath_of_hasBlock inner h first optional

theorem inQuery_of_entryCaptures (first : Nat) (optional : Bool) (entries : List (Text × Pattern σ)) :
    ∀ c ∈ captures.entryCaptures first optional entries, c.2 = true := by
  induction entries generalizing first with
  | nil => simp [captures.entryCaptures]
  | cons e rest ih =>
    intro c hc
    rcases List.mem_append.mp hc with hc | hc
    · obtain ⟨_, -, rfl⟩ := List.mem_map.mp hc
      rfl
    · exact ih _ c hc

theorem captures_eq_trunk_append (p : Pattern σ) :
    p.captures 0 false = p.trunk.captures 0 false ++
      captures.entryCaptures p.trunk.unnamedCount false (p.rootBlock?.getD []) := by
  cases hb : p.rootBlock? with
  | none => simp [trunk_eq_self hb, captures.entryCaptures]
  | some entries =>
    obtain ⟨previous, rfl⟩ := exists_queryParams hb
    simp [captures, trunk]

theorem BlockAtRoot.capturedNames_path {p : Pattern σ} (h : p.BlockAtRoot) :
    capturedNames false (p.captures 0 false) = (p.trunk.captures 0 false).map (·.1.key.text) := by
  have hquery : capturedNames false
      (captures.entryCaptures p.trunk.unnamedCount false (p.rootBlock?.getD [])) = [] :=
    capturedNames_eq_nil (inQuery_of_entryCaptures _ _ _)
  rw [captures_eq_trunk_append, capturedNames_append, hquery, List.append_nil,
    capturedNames_of_forall (inPath_of_hasBlock p.trunk h.trunk 0 false)]

/-- Every query key with the names of the captures of its value; `first` is the key of the first unnamed
one. -/
def namesOfKeys (first : Nat) : List (Text × Pattern σ) → List (Text × List Text)
  | [] => []
  | (key, value) :: rest =>
    (key, (value.captures first false).map (·.1.key.text)) ::
      namesOfKeys (first + value.unnamedCount) rest

/-- The query keys whose values capture something. -/
def capturingKeys (entries : List (Text × List Text)) : List Text :=
  (entries.filter fun e => !e.2.isEmpty).map (·.1)

theorem map_entryCaptures (first : Nat) (entries : List (Text × Pattern σ)) :
    (captures.entryCaptures first false entries).map (·.1.key.text) =
      (namesOfKeys first entries).flatMap (·.2) := by
  induction entries generalizing first with
  | nil => rfl
  | cons e rest ih =>
    rw [captures.entryCaptures, List.map_append, ih, List.map_map]
    rfl

theorem BlockAtRoot.capturedNames_query {p : Pattern σ} (h : p.BlockAtRoot) :
    capturedNames true (p.captures 0 false) =
      (namesOfKeys p.trunk.unnamedCount (p.rootBlock?.getD [])).flatMap (·.2) := by
  have hpath : capturedNames true (p.trunk.captures 0 false) = [] :=
    capturedNames_eq_nil (inPath_of_hasBlock p.trunk h.trunk 0 false)
  rw [captures_eq_trunk_append, capturedNames_append, hpath, List.nil_append,
    capturedNames_of_forall (inQuery_of_entryCaptures _ _ _), map_entryCaptures]

@[simp] theorem capturingKeys_cons (key name : Text) (others : List Text) (rest : List (Text × List Text)) :
    capturingKeys ((key, name :: others) :: rest) = key :: capturingKeys rest := rfl

theorem length_capturingKeys_le (entries : List (Text × List Text)) :
    (capturingKeys entries).length ≤ (entries.flatMap (·.2)).length := by
  induction entries with
  | nil => simp [capturingKeys]
  | cons e rest ih =>
    obtain ⟨key, names⟩ := e
    cases names with
    | nil => simpa [capturingKeys] using ih
    | cons name others =>
      rw [capturingKeys_cons, List.flatMap_cons, List.length_append, List.length_cons, List.length_cons]
      omega

theorem mem_capturingKeys {name : Text} {entries : List (Text × List Text)} :
    name ∈ capturingKeys entries ↔ ∃ e ∈ entries, e.1 = name ∧ e.2 ≠ [] := by
  simp only [capturingKeys, List.mem_map, List.mem_filter, Bool.not_eq_true',
    List.isEmpty_eq_false_iff]
  grind

theorem keys_namesOfKeys (first : Nat) (entries : List (Text × Pattern σ)) :
    (namesOfKeys first entries).map (·.1) = entries.map (·.1) := by
  induction entries generalizing first with
  | nil => rfl
  | cons e rest ih => rw [namesOfKeys, List.map_cons, List.map_cons, ih]

theorem nodup_capturingKeys {entries : List (Text × List Text)} (hkeys : (entries.map (·.1)).Nodup) :
    (capturingKeys entries).Nodup :=
  hkeys.sublist (List.filter_sublist.map _)

/-- There are as many names as keys with captures just where no value has two captures. -/
theorem length_flatMap_eq_iff (entries : List (Text × List Text)) :
    (entries.flatMap (·.2)).length = (capturingKeys entries).length ↔ ∀ e ∈ entries, e.2.length ≤ 1 := by
  induction entries with
  | nil => simp [capturingKeys]
  | cons e rest ih =>
    obtain ⟨key, names⟩ := e
    have hle := length_capturingKeys_le rest
    rw [List.forall_mem_cons, ← ih]
    match names with
    | [] => simp [capturingKeys]
    | [name] => simp [capturingKeys]
    | name :: other :: more =>
      simp only [List.flatMap_cons, List.length_append, List.length_cons, capturingKeys_cons]
      omega

/-- Lists have the same members just where those of one are in the other, which has no more different ones. -/
theorem mem_iff_mem_iff {names keys : List Text} (hkeys : keys.Nodup) :
    (∀ name, name ∈ names ↔ name ∈ keys) ↔
      (∀ name ∈ names, name ∈ keys) ∧ keys.length = names.dedup.length := by
  constructor
  · intro h
    refine ⟨fun name => (h name).mp, List.Perm.length_eq ?_⟩
    exact (List.perm_ext_iff_of_nodup hkeys names.nodup_dedup).mpr fun name => by
      rw [List.mem_dedup, h name]
  · rintro ⟨hsub, hlength⟩
    have hsubperm : names.dedup.Subperm keys :=
      names.nodup_dedup.subperm fun name hname => hsub name (List.mem_dedup.mp hname)
    have hperm := hsubperm.perm_of_length_le hlength.le
    exact fun name => by rw [← hperm.mem_iff, List.mem_dedup]

/-- Of different names there are the same as keys with captures just where every value with captures is a single
one that is called like such a key. -/
theorem mem_flatMap_iff_of_nodup {entries : List (Text × List Text)} (hkeys : (entries.map (·.1)).Nodup)
    (hnames : (entries.flatMap (·.2)).Nodup) :
    (∀ name, name ∈ entries.flatMap (·.2) ↔ name ∈ capturingKeys entries) ↔
      ∀ e ∈ entries, e.2 = [] ∨ ∃ f ∈ entries, f.2 ≠ [] ∧ e.2 = [f.1] := by
  have hlength := length_flatMap_eq_iff entries
  rw [mem_iff_mem_iff (nodup_capturingKeys hkeys), hnames.dedup, eq_comm, hlength]
  constructor
  · rintro ⟨hsub, hone⟩ ⟨key, names⟩ he
    match names, hone _ he with
    | [], _ => exact .inl rfl
    | [name], _ =>
      obtain ⟨f, hf, rfl, hne⟩ := mem_capturingKeys.mp (hsub name (List.mem_flatMap.mpr ⟨_, he, by simp⟩))
      exact .inr ⟨f, hf, hne, rfl⟩
  · intro h
    refine ⟨fun name hname => ?_, fun e he => ?_⟩
    · obtain ⟨e, he, hmem⟩ := List.mem_flatMap.mp hname
      rcases h e he with hnone | ⟨f, hf, hne, hone⟩
      · simp [hnone] at hmem
      · rw [hone, List.mem_singleton] at hmem
        exact mem_capturingKeys.mpr ⟨f, hf, hmem.symm, hne⟩
    · rcases h e he with hnone | ⟨f, -, -, hone⟩
      · simp [hnone]
      · simp [hone]

/-- Names are listed like the keys only where every value with captures is a single one that is called
like its key. -/
theorem flatMap_eq_capturingKeys_iff (entries : List (Text × List Text)) :
    entries.flatMap (·.2) = capturingKeys entries ↔ ∀ e ∈ entries, e.2 = [] ∨ e.2 = [e.1] := by
  induction entries with
  | nil => simp [capturingKeys]
  | cons e rest ih =>
    obtain ⟨key, names⟩ := e
    rw [List.forall_mem_cons, ← ih]
    match names with
    | [] => simp [capturingKeys]
    | [name] => simp [capturingKeys]
    | name :: other :: more =>
      -- two names for one key are more names than keys, and no later key makes up for them
      have hle := length_capturingKeys_le rest
      have hne : (name :: other :: more) ++ rest.flatMap (·.2) ≠ key :: capturingKeys rest := by
        intro heq
        have hlength := congrArg List.length heq
        simp only [List.length_append, List.length_cons] at hlength
        omega
      rw [List.flatMap_cons, capturingKeys_cons]
      simpa using hne

end Pattern

theorem matchQuery_congr {query other : Query} {entries : List (Text × List Part)}
    (h : ∀ e ∈ entries, query.all e.1 = other.all e.1) :
    matchQuery query entries = matchQuery other entries := by
  induction entries with
  | nil => rfl
  | cons e rest ih =>
    obtain ⟨he, hrest⟩ := List.forall_mem_cons.mp h
    rw [matchQuery, matchQuery, he, ih hrest]

theorem run_ofParts_congr (query other : Query) (cursor : Cursor) (parts : List Part) :
    (Step.ofParts parts).run query cursor = (Step.ofParts parts).run other cursor := by
  match parts with
  | [] => rfl
  | [_] => rfl
  | _ :: _ :: _ => rfl

theorem runSteps_segments_congr {query other : Query} {steps : List Step} (pss : List (List Part))
    (h : ∀ cursor, runSteps query cursor steps = runSteps other cursor steps) (cursor : Cursor) :
    runSteps query cursor (pss.map Step.ofParts ++ steps) =
      runSteps other cursor (pss.map Step.ofParts ++ steps) := by
  induction pss generalizing cursor with
  | nil => exact h cursor
  | cons parts rest ih =>
    rw [List.map_cons, List.cons_append, runSteps, runSteps, run_ofParts_congr query other]
    exact Option.bind_congr fun found _ => by simp only [ih]

namespace Pattern

variable {σ : Type}

theorem ReadSplit.runSteps_congr {split : QuerySplit} {p : Pattern σ} (hread : ReadSplit split p)
    {query other : Query} (h : ∀ e ∈ p.rootBlock?.getD [], query.all e.1 = other.all e.1)
    (cursor : Cursor) : runSteps query cursor p.readSteps = runSteps other cursor p.readSteps := by
  have hkeys : ∀ e ∈ p.queryParts, query.all e.1 = other.all e.1 := by
    intro e he
    have hmem : e.1 ∈ (p.rootBlock?.getD []).map (·.1) :=
      hread.queryParts_keys ▸ List.mem_map_of_mem he
    obtain ⟨entry, hentry, hkey⟩ := List.mem_map.mp hmem
    exact hkey ▸ h entry hentry
  refine runSteps_segments_congr p.pathParts (fun cursor => ?_) cursor
  rw [hread.runSteps_blockSteps, hread.runSteps_blockSteps, matchQuery_congr hkeys]

end Pattern

namespace Route

open Pattern

/-- The parameters of the query are described under the names of the captures, and read under the query
keys. They are listed like the keys that capture something just where every value with captures is a single
one called like its key. They are the same ones, in whatever order, just where every name is such a key and there
are as many different names as such keys; where no name is used twice, this says that every value with captures
is a single one called like some key that captures something. What is sent under a name that is no declared key
changes no match. -/
theorem query_names {source : Text} {atEnd : Bool} {r : Route}
    {entries : List (Text × Pattern Schema)} (hr : parse source atEnd = .ok r)
    (hblock : r.pattern.queryBlock? = some entries) :
    let names := namesOfKeys r.pattern.trunk.unnamedCount entries
    r.namesIn "query" = names.flatMap (·.2) ∧
      (r.namesIn "query" = capturingKeys names ↔ ∀ e ∈ names, e.2 = [] ∨ e.2 = [e.1]) ∧
      ((∀ name, name ∈ r.namesIn "query" ↔ name ∈ capturingKeys names) ↔
        (∀ e ∈ names, ∀ name ∈ e.2, ∃ f ∈ names, f.1 = name ∧ f.2 ≠ []) ∧
          (capturingKeys names).length = (r.namesIn "query").dedup.length) ∧
      ((r.namesIn "query").Nodup →
        ((∀ name, name ∈ r.namesIn "query" ↔ name ∈ capturingKeys names) ↔
          ∀ e ∈ names, e.2 = [] ∨ ∃ f ∈ names, f.2 ≠ [] ∧ e.2 = [f.1])) ∧
      ∃ m, r.matcher = .ok m ∧ ∀ name, name ∉ entries.map (·.1) → ∀ value segments query,
        m.accept segments (Query.add name value query) = m.accept segments query := by
  intro names
  have hread := parse_eq_ok hr
  have hroot : r.pattern.rootBlock? = some entries := by
    rw [← hread.blockAtRoot.queryBlock?_eq, hblock]
  have hnames : r.namesIn "query" = names.flatMap (·.2) := by
    have hquery := hread.blockAtRoot.capturedNames_query
    rw [hroot] at hquery
    exact (r.namesIn_eq true).trans hquery
  have hkeys : (names.map (·.1)).Nodup := by
    have hclean := hread.queryParts_keys_clean.1
    rw [hread.queryParts_keys, hroot] at hclean
    rw [keys_namesOfKeys]
    exact hclean
  rw [hnames]
  refine ⟨rfl, flatMap_eq_capturingKeys_iff names, ?_, mem_flatMap_iff_of_nodup hkeys, _, matcher_of_read hread,
    fun name hname value segments query => ?_⟩
  · rw [mem_iff_mem_iff (nodup_capturingKeys hkeys)]
    simp only [List.mem_flatMap, mem_capturingKeys, forall_exists_index, and_imp]
    exact and_congr_left' ⟨fun h e he name => h name e he, fun h name e he => h e he name⟩
  · have hagree : ∀ e ∈ r.pattern.rootBlock?.getD [],
        (Query.add name value query).all e.1 = query.all e.1 := by
      intro e he
      have hne : name ≠ e.1 := by
        rintro rfl
        exact hname (List.mem_map_of_mem (by simpa [hroot] using he))
      rw [Query.all_add, if_neg]
      simpa using hne
    rw [Matcher.accept, Matcher.accept, Matcher.run, Matcher.run, hread.runSteps_congr hagree]

/-- A page number that is captured under another name: the name is described, and no request can give the
page under it. -/
theorem query_names_renamed :
    let p : Text := "p"
    let page : Text := "page"
    ∃ r entries m, parse "/s?page=:p" true = .ok r ∧ r.pattern.queryBlock? = some entries ∧
      r.namesIn "query" = [p] ∧
      capturingKeys (namesOfKeys r.pattern.trunk.unnamedCount entries) = [page] ∧ r.matcher = .ok m ∧
      m.accept ["s"] (Query.add p "1" []) = m.accept ["s"] [] := by
  intro p page
  let pattern : Pattern Schema := .queryParams (.literal "s") [(page, .param p)]
  have hr : parse "/s?page=:p" true = .ok ⟨pattern, true⟩ := by rfl
  have hblock : pattern.queryBlock? = some [(page, .param p)] := rfl
  obtain ⟨hnames, -, -, -, m, hm, hunread⟩ := query_names hr hblock
  exact ⟨⟨pattern, true⟩, _, m, hr, hblock, hnames.trans rfl, rfl, hm, hunread p (by decide) "1" ["s"] []⟩

/-- The names that are described for the query are not always the keys that requests use. -/
theorem query_names_not_sent :
    ∃ r entries, parse "/s?page=:p" true = .ok r ∧ r.pattern.queryBlock? = some entries ∧
      ¬ (∀ name, name ∈ r.namesIn "query" ↔
        name ∈ capturingKeys (namesOfKeys r.pattern.trunk.unnamedCount entries)) ∧
      r.accept "/s?p=1" = .ok none ∧ r.accept "/s?page=1" = .ok (some [(.name "p", .one "1")]) := by
  refine ⟨⟨.queryParams (.literal "s") [("page", .param "p")], true⟩, _, rfl, rfl, ?_, rfl, rfl⟩
  intro h
  have hpage := (h "page").mpr (by decide)
  revert hpage
  decide

end Route

end RoutePattern
