import RoutePattern.Proofs.MergedInPlace
import RoutePattern.Settings.Load

/-!
Where a routing setting comes from: the source that counts most among those that give it in the routing
section, and only if there is none, the one that counts most among those that give it at the top.
-/

namespace RoutePattern

theorem Value.eq_or_map_of_outer {v w : Value} (h : v.outer = w.outer) :
    v = w ∨ ∃ entries, v = .map entries := by
  cases v with
  | map entries => exact .inr ⟨entries, rfl⟩
  | _ => cases w <;> simp_all [outer]

/-- Whether no mapping of a YAML document has a key twice. -/
def SettingsReaders.Distinct (readers : SettingsReaders) : Prop :=
  ∀ path text g, readers.yaml path text = .ok g → g.heap.Distinct

/-- The readers that come along give no mapping a key twice. -/
theorem SettingsReaders.distinct_standard : standard.Distinct := fun _ _ _ h =>
  Document.Yaml.distinct_of_read (Except.mapError_eq_ok.mp h)

namespace RoutingSettings

theorem ofName?_brace (rest : Text) : Log.Level.ofName? (Text.upperAscii ('{' :: rest)) = none := rfl

theorem levelOf_map (entries : List (Value × Value)) (level : Log.Level) :
    levelOf (.map entries) ≠ .ok level := by
  intro h
  obtain ⟨text, htext, hlevel⟩ := Except.bind_eq_ok.mp h
  have hwrite : (Value.map entries).quoted = .ok text :=
    Except.mapError_eq_ok.mp (Except.mapError_eq_ok.mp htext)
  rw [Value.quoted] at hwrite
  obtain ⟨texts, -, rfl⟩ := Except.map_eq_ok.mp hwrite
  have hnone : Log.Level.ofName? (Text.upperAscii (Value.bracketed "\x7b" "\x7d" texts)) = none :=
    ofName?_brace _
  rw [hnone] at hlevel
  cases hlevel

/-- A field that can be read only depends on the value that is given, up to what a mapping holds: none is
read from a mapping. -/
theorem field_congr {α : Type} {read : Value → Except SettingsError α}
    (hread : ∀ entries a, read (.map entries) ≠ .ok a) {given other : Settings} {name : String}
    {usual a : α}
    (h : (Table.get? (.text name) given).map Value.outer =
      (Table.get? (.text name) other).map Value.outer)
    (hfield : field given name read usual = .ok a) : field other name read usual = .ok a := by
  unfold field at hfield ⊢
  cases hgiven : Table.get? (.text name) given with
  | none =>
    have hother : Table.get? (.text name) other = none := by simpa [hgiven] using h.symm
    simpa [hgiven, hother] using hfield
  | some v =>
    rw [hgiven] at h hfield
    obtain ⟨w, hw, houter⟩ := Option.map_eq_some_iff.mp h.symm
    rcases Value.eq_or_map_of_outer houter.symm with rfl | ⟨entries, rfl⟩
    · simpa [hw] using hfield
    · exact absurd hfield (hread entries a)

theorem ofValues_congr {given other : Settings} {s : RoutingSettings}
    (h : ∀ name ∈ names, (Table.get? (.text name) given).map Value.outer =
      (Table.get? (.text name) other).map Value.outer)
    (hvalues : ofValues given = .ok s) : ofValues other = .ok s := by
  obtain ⟨size, hsize, hvalues⟩ := Except.bind_eq_ok.mp hvalues
  obtain ⟨lifetime, hlifetime, hvalues⟩ := Except.bind_eq_ok.mp hvalues
  obtain ⟨atEnd, hend, hvalues⟩ := Except.bind_eq_ok.mp hvalues
  obtain ⟨level, hlevel, hvalues⟩ := Except.bind_eq_ok.mp hvalues
  have hsize' := field_congr (fun _ _ hread => by cases hread) (h _ (by simp [names])) hsize
  have hlifetime' := field_congr (fun _ _ hread => by cases hread) (h _ (by simp [names])) hlifetime
  have hend' := field_congr (fun _ _ hread => by cases hread) (h _ (by simp [names])) hend
  have hlevel' := field_congr levelOf_map (h _ (by simp [names])) hlevel
  cases hvalues
  simp [ofValues, hsize', hlifetime', hend', hlevel', bind, Except.bind, pure, Except.pure]

end RoutingSettings

namespace Settings

theorem proper_of_number? {text : Text} {v : Value} (h : number? text = some v) : v.Proper := by
  unfold number? at h
  split at h
  next =>
    obtain ⟨x, -, rfl⟩ := Option.map_eq_some_iff.mp h
    exact .plain rfl
  next =>
    obtain ⟨n, -, rfl⟩ := Option.map_eq_some_iff.mp h
    exact .plain rfl

theorem proper_of_document? {text : Text} {v : Value} (h : document? text = .ok (some v)) :
    v.Proper := by
  unfold document? at h
  split at h
  next =>
    split at h
    next hread =>
      cases h
      exact Document.Json.proper_of_read hread
    next => cases h
    next => cases h
  next => cases h

theorem proper_of_ofText {text : Text} {v : Value} (h : ofText text = .ok v) : v.Proper := by
  unfold ofText at h
  dsimp only at h
  split at h
  next =>
    cases h
    exact .plain rfl
  split at h
  next =>
    cases h
    exact .plain rfl
  split at h
  next =>
    cases h
    exact .plain rfl
  split at h
  next hnumber =>
    cases h
    exact proper_of_number? hnumber
  next =>
    obtain ⟨_ | w, hdocument, rfl⟩ := Except.map_eq_ok.mp h
    · exact .plain rfl
    · exact proper_of_document? hdocument

section

variable (readers : SettingsReaders) (fs : Files)

def fileSettings (path : Text) : Except SettingsError Settings := do
  let g ← ofFile readers fs path
  (g.read >>= ofValue).mapError .refusal

/-- Whether no mapping stands twice in the document of a file. -/
def FilesUnshared (sources : SettingsSources) : Prop :=
  ∀ path ∈ filePaths fs sources, ∀ g, ofFile readers fs path = .ok g → g.heap.Unshared [g.root]

def assignments (lead : Text) (names : List (Text × Text)) : Except Refusal (List Layer) :=
  (names.filter fun entry => lead.isPrefixOf entry.1).mapM fun entry =>
    (assignment lead entry.1 entry.2).map fun a => .assignment a.parts a.value

/-- What each source says, one source after the other; what is said later counts more. -/
def statements (sources : SettingsSources) : Except SettingsError (List (List Layer)) := do
  let files ← (filePaths fs sources).mapM (fileSettings readers fs)
  let assigned ← (assignments sources.lead (fileAssignments readers fs sources)).mapError .refusal
  let surrounding ← (assignments sources.lead sources.environment).mapError .refusal
  return (files.map fun entries => [.mapping entries]) ++
    [assigned, surrounding, [.mapping sources.overrides]]

end

section

variable {readers : SettingsReaders} {fs : Files}

theorem exists_map_of_isMapping {g : Graph} (hg : g.isMapping = true) {v : Value} {ids : List Nat}
    (hv : Heap.Holds g.heap [g.root] [v] ids) : ∃ s, v = .map s := by
  rcases hv.plain_or_object with ⟨-, hnot⟩ | ⟨_, s, -, rfl⟩
  · unfold Graph.isMapping at hg
    split at hg
    next id hroot => exact absurd hroot (hnot id)
    next => cases hg
  · exact ⟨s, rfl⟩

theorem ofFileValue_eq_ok {path : Text} {g g' : Graph} (h : ofFileValue path g = .ok g') :
    g.isMapping = true ∧ g' = g := by
  unfold ofFileValue at h
  split at h
  next hg =>
    cases h
    exact ⟨hg, rfl⟩
  next => cases h

/-- The document of a file is a mapping. It goes through each of its mappings once if no mapping stands twice, and
each key comes once in it if this is so for YAML documents. -/
theorem holds_of_ofFile {path : Text} {g : Graph} (hshared : g.heap.Unshared [g.root])
    (h : ofFile readers fs path = .ok g) :
    ∃ s ids, Heap.Holds g.heap [g.root] [.map s] ids ∧ ids.Nodup ∧
      (readers.Distinct → (Value.map s).Proper) := by
  have hvalue : ∀ v : Value, v.Proper → (Graph.ofValue v).isMapping = true →
      ∃ s ids, Heap.Holds (Graph.ofValue v).heap [(Graph.ofValue v).root] [.map s] ids ∧ ids.Nodup ∧
        (readers.Distinct → (Value.map s).Proper) := by
    intro v hproper hmapping
    obtain ⟨ids, hv, hids⟩ := Heap.exists_holds_ofValue v
    obtain ⟨s, rfl⟩ := exists_map_of_isMapping hmapping hv
    exact ⟨s, ids, hv, hids, fun _ => hproper⟩
  unfold ofFile at h
  dsimp only at h
  split at h
  next =>
    obtain ⟨text, -, h⟩ := Except.bind_eq_ok.mp h
    split at h
    next v hread =>
      obtain ⟨hmapping, rfl⟩ := ofFileValue_eq_ok h
      exact hvalue v (Document.Json.proper_of_read hread) hmapping
    next => cases h
    next => cases h
  next =>
    split at h
    next =>
      obtain ⟨text, -, h⟩ := Except.bind_eq_ok.mp h
      split at h
      next hread =>
        split at h
        next =>
          obtain ⟨hmapping, rfl⟩ := ofFileValue_eq_ok h
          obtain ⟨v, ids, hroot, hids⟩ := Heap.unshared_singleton_iff.mp hshared
          obtain ⟨s, rfl⟩ := exists_map_of_isMapping hmapping hroot
          exact ⟨s, ids, hroot, hids, fun hkeys => hroot.proper (hkeys _ _ _ hread) _ List.mem_cons_self⟩
        next =>
          cases h
          exact hvalue _ Value.proper_empty rfl
      next => cases h
      next => cases h
    next => cases h

theorem fileSettings_of_holds {path : Text} {g : Graph} {t : Settings} {ids : List Nat}
    (h : ofFile readers fs path = .ok g) (ht : Heap.Holds g.heap [g.root] [.map t] ids) (hids : ids.Nodup) :
    fileSettings readers fs path = .ok t := by
  rw [fileSettings, h]
  simp [bind, Except.bind, Graph.read, ht.read hids, ofValue, Value.entries?, Except.mapError]

/-- What is done in a heap fails as what is done with settings does, or ends with these settings. -/
def Follows {ε : Type} (x : Except ε Heap) (y : Except ε Settings) : Prop :=
  match y with
  | .ok t => ∃ h, x = .ok h ∧ h.Stands 0 t
  | .error e => x = .error e

theorem Follows.bind {ε : Type} {x : Except ε Heap} {y : Except ε Settings} {f : Heap → Except ε Heap}
    {g : Settings → Except ε Settings} (hxy : Follows x y)
    (hfg : ∀ h t, Heap.Stands h 0 t → Follows (f h) (g t)) : Follows (x >>= f) (y >>= g) := by
  cases y with
  | error e =>
    rw [show x = .error e from hxy]
    exact rfl
  | ok t =>
    obtain ⟨h, rfl, ht⟩ := hxy
    exact hfg h t ht

theorem Follows.bind_eq {ε α : Type} {x : Except ε Heap} {y : Except ε Settings} {f : Heap → Except ε α}
    {g : Settings → Except ε α} (hxy : Follows x y) (hfg : ∀ h t, Heap.Stands h 0 t → f h = g t) :
    (x >>= f) = (y >>= g) := by
  cases y with
  | error e =>
    rw [show x = .error e from hxy]
    rfl
  | ok t =>
    obtain ⟨h, rfl, ht⟩ := hxy
    exact hfg h t ht

theorem Follows.foldlM {ε α : Type} {f : Heap → α → Except ε Heap} {g : Settings → α → Except ε Settings}
    {as : List α} (hfg : ∀ a ∈ as, ∀ h t, Heap.Stands h 0 t → Follows (f h a) (g t a)) {h : Heap} {t : Settings}
    (ht : h.Stands 0 t) : Follows (as.foldlM f h) (as.foldlM g t) := by
  induction as generalizing h t with
  | nil => exact ⟨h, rfl, ht⟩
  | cons a rest ih =>
    obtain ⟨hfirst, hrest⟩ := List.forall_mem_cons.mp hfg
    rw [List.foldlM_cons, List.foldlM_cons]
    exact (hfirst h t ht).bind fun h t ht => ih hrest ht

theorem Follows.mapError {ε ε' : Type} {x : Except ε Heap} {y : Except ε Settings} (hxy : Follows x y)
    (f : ε → ε') : Follows (x.mapError f) (y.mapError f) := by
  cases y with
  | error e =>
    rw [show x = .error e from hxy]
    exact rfl
  | ok t =>
    obtain ⟨h, rfl, ht⟩ := hxy
    exact ⟨h, rfl, ht⟩

theorem foldlM_map {ε α β γ : Type} (f : α → Except ε β) (g : γ → β → γ) (as : List α) (c : γ) :
    as.foldlM (fun c a => (f a).map (g c)) c = (as.mapM f).map fun bs => bs.foldl g c := by
  induction as generalizing c with
  | nil => rfl
  | cons a rest ih =>
    rw [List.foldlM_cons, List.mapM_cons]
    cases f a with
    | error e => rfl
    | ok b =>
      change rest.foldlM _ (g c b) = _
      rw [ih]
      cases rest.mapM f <;> rfl

theorem follows_mergeFile {path : Text}
    (hshared : ∀ g, ofFile readers fs path = .ok g → g.heap.Unshared [g.root]) {h : Heap} {t : Settings}
    (ht : h.Stands 0 t) :
    Follows (do (h.mergeGraph (← ofFile readers fs path) 0).mapError SettingsError.refusal)
      ((fileSettings readers fs path).map (merged t)) := by
  cases hfile : ofFile readers fs path with
  | error e =>
    rw [fileSettings, hfile]
    exact rfl
  | ok g =>
    obtain ⟨s, ids, hs, hids, -⟩ := holds_of_ofFile (hshared g hfile) hfile
    obtain ⟨h', hmerge, hstands⟩ := ht.mergeGraph hs hids
    rw [fileSettings_of_holds hfile hs hids]
    exact ⟨h', by simp [bind, Except.bind, hmerge, Except.mapError], hstands⟩

theorem follows_assignAll (lead : Text) (names : List (Text × Text)) {h : Heap} {t : Settings}
    (ht : h.Stands 0 t) :
    Follows (h.assignAll lead names 0) ((assignments lead names).map fun said => said.foldl Layer.apply t) := by
  rw [assignments, ← foldlM_map]
  refine Follows.foldlM (fun entry _ h t ht => ?_) ht
  rw [Heap.assign]
  cases assignment lead entry.1 entry.2 with
  | error e => exact rfl
  | ok a => exact ⟨_, rfl, ht.putAssignment a⟩

/-- Where no mapping of a file stands twice, loading fails as what the sources say does, and else gives the
settings after all that is said. -/
theorem loadWith_eq_statements {sources : SettingsSources}
    (hshared : FilesUnshared readers fs sources) :
    loadWith readers fs sources =
      (statements readers fs sources).map fun said => said.flatten.foldl Layer.apply [] := by
  have hempty : Heap.Stands [[]] 0 [] :=
    ⟨[0], Heap.holds_object_iff.mpr ⟨[], [], rfl, rfl, rfl, .nil⟩, by simp⟩
  have hfiles := Follows.foldlM (fun path hpath h t ht => follows_mergeFile (hshared path hpath) ht)
    hempty
  obtain ⟨ids, hoverrides, hids⟩ := Heap.exists_holds_ofValue (.map sources.overrides)
  have hassigned : ∀ names h t, Heap.Stands h 0 t → Follows
      ((h.assignAll sources.lead names 0).mapError SettingsError.refusal)
      (((assignments sources.lead names).map fun said => said.foldl Layer.apply t).mapError
        SettingsError.refusal) :=
    fun names h t ht => (follows_assignAll sources.lead names ht).mapError _
  have hload : loadWith readers fs sources = _ := hfiles.bind_eq fun h t ht =>
    (hassigned _ h t ht).bind_eq fun h t ht => (hassigned _ h t ht).bind_eq fun h t ht => by
      obtain ⟨h', hmerge, hstands⟩ := ht.mergeGraph hoverrides hids
      change (((h.mergeGraph (.ofValue (.map sources.overrides)) 0).mapError SettingsError.refusal) >>=
        fun h => (h.settings 0).mapError SettingsError.refusal) = .ok (merged t sources.overrides)
      rw [hmerge]
      exact congrArg (Except.mapError _) hstands.settings
  rw [hload, foldlM_map, statements]
  have hfold : ∀ (files : List Settings) (t : Settings),
      (files.map fun entries => [Layer.mapping entries]).flatten.foldl Layer.apply t = files.foldl merged t := by
    intro files t
    rw [List.foldl_flatten, List.foldl_map]
    rfl
  cases (filePaths fs sources).mapM (fileSettings readers fs) with
  | error e => rfl
  | ok files =>
    cases assignments sources.lead (fileAssignments readers fs sources) with
    | error r => rfl
    | ok assigned =>
      cases assignments sources.lead sources.environment with
      | error r => rfl
      | ok surrounding =>
        simp only [bind, Except.bind, pure, Except.pure, Except.map, Except.mapError, List.flatten_append,
          List.foldl_append, hfold]
        simp [Layer.apply]

theorem proper_of_fileSettings (hkeys : readers.Distinct) {path : Text}
    (hshared : ∀ g, ofFile readers fs path = .ok g → g.heap.Unshared [g.root]) {s : Settings}
    (h : fileSettings readers fs path = .ok s) : (Value.map s).Proper := by
  obtain ⟨g, hg, -⟩ := Except.bind_eq_ok.mp h
  obtain ⟨t, ids, ht, hids, hproper⟩ := holds_of_ofFile (hshared g hg) hg
  obtain rfl : t = s := Except.ok.inj ((fileSettings_of_holds hg ht hids).symm.trans h)
  exact hproper hkeys

theorem proper_of_assignments {lead : Text} {names : List (Text × Text)} {said : List Layer}
    (h : assignments lead names = .ok said) : ∀ l ∈ said, l.Proper := by
  intro l hl
  obtain ⟨entry, -, hentry⟩ := exists_of_mem_right (forall₂_of_mapM_eq_ok h) hl
  obtain ⟨a, ha, rfl⟩ := Except.map_eq_ok.mp hentry
  obtain ⟨v, hv, rfl⟩ := Except.map_eq_ok.mp ha
  exact proper_of_ofText hv

theorem proper_of_statements (hkeys : readers.Distinct) {sources : SettingsSources}
    (hshared : FilesUnshared readers fs sources)
    (hoverrides : (Value.map sources.overrides).Proper) {said : List (List Layer)}
    (h : statements readers fs sources = .ok said) : ∀ l ∈ said.flatten, l.Proper := by
  obtain ⟨files, hfiles, h⟩ := Except.bind_eq_ok.mp h
  obtain ⟨assigned, hassigned, h⟩ := Except.bind_eq_ok.mp h
  obtain ⟨surrounding, hsurrounding, h⟩ := Except.bind_eq_ok.mp h
  cases h
  have hfile : ∀ l ∈ (files.map fun entries => [Layer.mapping entries]).flatten, l.Proper := by
    intro l hl
    obtain ⟨entries, hentries, rfl⟩ : ∃ entries ∈ files, l = .mapping entries := by simpa using hl
    obtain ⟨path, hpath, hs⟩ := exists_of_mem_right (forall₂_of_mapM_eq_ok hfiles) hentries
    exact proper_of_fileSettings hkeys (hshared path hpath) hs
  simp only [List.flatten_append, List.forall_mem_append, List.flatten_cons, List.flatten_nil,
    List.append_nil, List.forall_mem_cons]
  exact ⟨hfile, proper_of_assignments (Except.mapError_eq_ok.mp hassigned),
    proper_of_assignments (Except.mapError_eq_ok.mp hsurrounding), hoverrides, nofun⟩

end

/-- The values of the routing settings by their names. -/
def chosen (said : List Layer) : Settings :=
  RoutingSettings.names.filterMap fun name => (chosen? name said).map (Value.text name, ·)

theorem get?_filterMap_text (name : Text) (f : Text → Option Value) (names : List Text) :
    Table.get? (.text name) (names.filterMap fun n => (f n).map (Value.text n, ·)) =
      if name ∈ names then f name else none := by
  induction names with
  | nil => rfl
  | cons first rest ih =>
    by_cases hname : first = name
    · subst hname
      cases hf : f first with
      | none => simpa [hf] using ih
      | some v => simp [hf, Table.get?]
    · have hne : (Value.text first == Value.text name) = false := by
        rw [Bool.eq_false_iff]
        exact fun h => hname (Value.text.inj (Value.beq_text.mp h))
      cases hf : f first with
      | none => simpa [hf, Ne.symm hname] using ih
      | some v => simpa [hf, Ne.symm hname, Table.get?, hne] using ih

theorem get?_chosen {name : Text} (hname : name ∈ RoutingSettings.names) (said : List Layer) :
    Table.get? (.text name) (chosen said) = chosen? name said := by
  rw [chosen, get?_filterMap_text name fun name => chosen? name said, if_pos hname]

theorem routing_eq_ok {s : Settings} {settings : RoutingSettings} (h : (routing s).2 = .ok settings) :
    ∃ section_, (Table.get? (.text "routing") s).getD (.map []) = .map section_ ∧
      RoutingSettings.ofValues (routingValues section_ s) = .ok settings := by
  unfold routing at h
  split at h
  next section_ hsection =>
    split at h
    next => exact ⟨section_, hsection, h⟩
    next => cases h
  next => cases h

theorem routing_of_names {s section_ : Settings}
    (hsection : Table.get? (.text "routing") s = some (.map section_))
    (h : ∀ e ∈ section_, RoutingSettings.isName e.1 = true) :
    routing s = ([], RoutingSettings.ofValues (routingValues section_ s)) := by
  have hempty : (Table.keys section_).filter (fun key => !RoutingSettings.isName key) = [] := by
    simpa [Table.keys] using fun k v he => h (k, v) he
  have hrecords : unknownRecords section_ = .ok [] := by
    rw [unknownRecords, hempty]
    rfl
  rw [routing, hsection, Option.getD_some]
  simp only [hrecords]

theorem get?_routingValues {name : Text} (hname : name ∈ RoutingSettings.names) {section_ s : Settings}
    (hsection : Table.Distinct section_) :
    Table.get? (.text name) (routingValues section_ s) =
      (Table.get? (.text name) section_).or (Table.get? (.text name) s) := by
  have hisName : RoutingSettings.isName (.text name) = true := by
    simpa [RoutingSettings.isName] using hname
  have hputAll := Table.get?_foldl_put_text name (fun _ v => v)
    (s.filter fun entry => RoutingSettings.isName entry.1)
    (hsection.filter fun entry => RoutingSettings.isName entry.1)
  rw [routingValues, Table.putAll, hputAll, Table.get?_filter_text, Table.get?_filter_text, hisName]
  simp

theorem find?_atTop (name : Text) (s : Settings) :
    find? (atTop name) (.map s) = Table.get? (.text name) s := by
  cases hget : Table.get? (.text name) s <;> simp [atTop, find?, hget]

theorem find?_inSection (name : Text) (s : Settings) :
    find? (inSection name) (.map s) = (Table.get? (.text "routing") s).bind (find? (atTop name)) := rfl

theorem get?_routing {name : Text} (hname : name ∈ RoutingSettings.names) {s section_ : Settings}
    (hs : (Value.map s).Proper) (h : (Table.get? (.text "routing") s).getD (.map []) = .map section_) :
    Table.get? (.text name) (routingValues section_ s) =
      (find? (inSection name) (.map s)).or (find? (atTop name) (.map s)) := by
  rw [find?_inSection, find?_atTop]
  cases hget : Table.get? (.text "routing") s with
  | none =>
    rw [hget] at h
    cases h
    exact get?_routingValues hname .nil
  | some v =>
    rw [hget] at h
    obtain rfl : v = .map section_ := h
    rw [get?_routingValues hname (hs.get? hget).distinct, Option.bind_some, find?_atTop]

/-- Routing settings that can be read are those that the chosen values make: of each one the last value in
the routing section that still stands, or else the last one at the top, or else the usual one. So a setting
comes from the source that counts most of those that give it in either place, if no source that counts more
replaces the routing section, unless this one gives it at the top only and the section holds it from a
source that counts less: then it comes from the latter. This is so for all readers whose mappings have no key
twice, if no mapping of a file stands twice. -/
theorem routing_eq_chosen {readers : SettingsReaders} {fs : Files} {sources : SettingsSources} {s : Settings}
    {settings : RoutingSettings} (hkeys : readers.Distinct)
    (hshared : FilesUnshared readers fs sources)
    (hoverrides : (Value.map sources.overrides).Proper) (hload : loadWith readers fs sources = .ok s)
    (hrouting : (routing s).2 = .ok settings) :
    ∃ said, statements readers fs sources = .ok said ∧
      RoutingSettings.ofValues (chosen said.flatten) = .ok settings ∧
      ∀ name below own above, said = below ++ own :: above →
        (∀ source ∈ above, ∀ l ∈ source, l.Silent name) → chosen? name own ≠ none →
        (¬ Overridden name below.flatten own → chosen? name said.flatten = chosen? name own) ∧
        (Overridden name below.flatten own →
          chosen? name said.flatten = lastGiven (inSection name) below.flatten) := by
  rw [loadWith_eq_statements hshared] at hload
  obtain ⟨said, hsaid, rfl⟩ := Except.map_eq_ok.mp hload
  have hproper := proper_of_statements hkeys hshared hoverrides hsaid
  have hs := proper_foldl_apply hproper Value.proper_empty
  obtain ⟨section_, hsection, hvalues⟩ := routing_eq_ok hrouting
  refine ⟨said, hsaid, RoutingSettings.ofValues_congr (fun name hname => ?_) hvalues, ?_⟩
  · rw [get?_routing hname hs hsection, get?_chosen hname, chosen?, Option.map_or, Option.map_or]
    exact congrArg₂ Option.or (find?_said hproper _ _) (find?_said hproper _ _)
  · rintro name below own above rfl habove hown
    have hsilent : ∀ l ∈ above.flatten, l.Silent name := by
      intro l hl
      obtain ⟨source, hsource, hl⟩ := List.mem_flatten.mp hl
      exact habove source hsource l hl
    rw [List.flatten_append, List.flatten_cons, ← List.append_assoc, chosen?_append_of_silent hsilent]
    exact ⟨chosen?_append_of_not_overridden hown, chosen?_append_of_overridden⟩

/-- What is given directly counts more than the environment and a file at the same place, and less than a value
that the environment gives in the routing section. -/
theorem routing_eq_chosen_environment :
    let readers : SettingsReaders := ⟨fun _ _ => .ok ⟨[[(.text "cache_size", .plain (.int 5))],
      [(.text "routing", .object 0)]], .object 1⟩, fun _ _ => []⟩
    let fs : Files := [("base.yaml", some "routing: {cache_size: 5}".toList)]
    let sources : SettingsSources := ⟨["base.yaml"], usualLead, none,
      [("BIROUTE_ROUTING__CACHE_SIZE", "50"), ("BIROUTE_LOG_LEVEL", "error")],
      [(.text "cache_size", .int 7), (.text "log_level", .text "DEBUG")]⟩
    ∃ s settings said, readers.Distinct ∧ FilesUnshared readers fs sources ∧
      (Value.map sources.overrides).Proper ∧ loadWith readers fs sources = .ok s ∧
      (routing s).2 = .ok settings ∧ statements readers fs sources = .ok said ∧
      RoutingSettings.ofValues (chosen said.flatten) = .ok settings ∧
      chosen? "log_level" said.flatten = some (.text "DEBUG") ∧
      chosen? "cache_size" said.flatten = some (.int 50) ∧
      settings.logLevel = .debug ∧ settings.cacheSize = 50 := by
  intro readers fs sources
  let document : Graph := ⟨[[(.text "cache_size", .plain (.int 5))], [(.text "routing", .object 0)]],
    .object 1⟩
  let base : List Layer := [.mapping [(.text "routing", .map [(.text "cache_size", .int 5)])]]
  let environment : List Layer :=
    [.assignment ["routing", "cache_size"] (.int 50), .assignment ["log_level"] (.text "error")]
  let given : List Layer := [.mapping sources.overrides]
  let s : Settings :=
    [(.text "routing", .map [(.text "cache_size", .int 50)]), (.text "log_level", .text "DEBUG"),
      (.text "cache_size", .int 7)]
  have hpaths : filePaths fs sources = ["base.yaml".toList] := by decide +kernel
  have hfile : ofFile readers fs "base.yaml" = .ok document := rfl
  have hroot : document.heap.Holds [document.root] [.map [(.text "routing", .map [(.text "cache_size", .int 5)])]]
      [1, 0] :=
    Heap.holds_object_iff.mpr ⟨_, [0], rfl, rfl, rfl,
      Heap.holds_object_iff.mpr ⟨_, [], rfl, rfl, rfl, .plain rfl .nil⟩⟩
  have hkeys : readers.Distinct := by
    intro path text g hg
    obtain rfl : document = g := Except.ok.inj hg
    simp [Heap.Distinct, document, Table.Distinct, Table.keys]
  have hshared : FilesUnshared readers fs sources := by
    rw [FilesUnshared, hpaths]
    intro path hpath g hg
    obtain rfl := List.mem_singleton.mp hpath
    obtain rfl : document = g := Except.ok.inj (hfile.symm.trans hg)
    exact ⟨_, _, hroot, by decide⟩
  have hoverrides : (Value.map sources.overrides).Proper := by
    refine .map ?_ fun e he => .plain ?_
    · simp [sources, Table.Distinct, Table.keys, Value.text_beq_text]
    · simp only [sources, List.mem_cons, List.not_mem_nil, or_false] at he
      rcases he with rfl | rfl <;> rfl
  have hsaid : statements readers fs sources = .ok [base, [], environment, given] := by
    have hfiles : [("base.yaml" : Text)].mapM (fileSettings readers fs) =
        .ok [[(.text "routing", .map [(.text "cache_size", .int 5)])]] := by
      rw [List.mapM_cons, fileSettings_of_holds hfile hroot (by decide)]
      rfl
    rw [statements, hpaths, hfiles]
    rfl
  have hload : loadWith readers fs sources = .ok s := by
    rw [loadWith_eq_statements hshared, hsaid]
    simp [base, environment, given, sources, s, Except.map, Layer.apply, placed, sectionAt, merged,
      mergedValue, Table.put, Table.get?, Value.text_beq_text]
  have hrouting : (routing s).2 = .ok ⟨50, none, false, .debug⟩ := by
    rw [routing_of_names rfl (by simp [RoutingSettings.isName, RoutingSettings.names])]
    rfl
  obtain ⟨said, hsaid', hvalues, hcomes⟩ := routing_eq_chosen hkeys hshared hoverrides hload hrouting
  obtain rfl : [base, [], environment, given] = said := Except.ok.inj (hsaid.symm.trans hsaid')
  have hlevelGiven : chosen? "log_level" given = some (.text "DEBUG") := rfl
  have hlevelSection :
      lastGiven (inSection "log_level") ([base, [], environment].flatten ++ given) = none := rfl
  have hsizeGiven : chosen? "cache_size" given = some (.int 7) := rfl
  have hsizeSection :
      lastGiven (inSection "cache_size") [base, [], environment].flatten = some (.int 50) := rfl
  have hsizeKept : lastGiven (inSection "cache_size") ([base, [], environment].flatten ++ given) =
      some (.int 50) := rfl
  have hlevel := (hcomes "log_level" [base, [], environment] given [] rfl (by simp)
    (Option.ne_none_iff_exists'.mpr ⟨_, hlevelGiven⟩)).1 fun h => h.2 hlevelSection
  have hsize := (hcomes "cache_size" [base, [], environment] given [] rfl (by simp)
    (Option.ne_none_iff_exists'.mpr ⟨_, hsizeGiven⟩)).2 ⟨rfl, Option.ne_none_iff_exists'.mpr ⟨_, hsizeKept⟩⟩
  exact ⟨s, _, _, hkeys, hshared, hoverrides, hload, hrouting, hsaid, hvalues, hlevel.trans hlevelGiven,
    hsize.trans hsizeSection, rfl, rfl⟩

/-- What is given directly does not count where the environment gives the setting in the routing section, however
files are read. -/
theorem overrides_passed_over :
    let sources : SettingsSources := ⟨[], usualLead, none, [("BIROUTE_ROUTING__CACHE_SIZE", "50")],
      [(.text "cache_size", .int 7)]⟩
    ∃ s settings, (∀ readers, loadWith readers [] sources = .ok s) ∧ (routing s).2 = .ok settings ∧
      Table.get? (.text "cache_size") sources.overrides = some (.int 7) ∧
      RoutingSettings.sizeOf (.int 7) = .ok 7 ∧ settings.cacheSize = 50 := by
  intro sources
  let s : Settings :=
    [(.text "routing", .map [(.text "cache_size", .int 50)]), (.text "cache_size", .int 7)]
  have hload : ∀ readers, loadWith readers [] sources = .ok s := by
    intro readers
    have hsaid : statements readers [] sources =
        .ok [[], [.assignment ["routing", "cache_size"] (.int 50)], [.mapping sources.overrides]] := rfl
    rw [loadWith_eq_statements (by simp [FilesUnshared, filePaths, sources]), hsaid]
    simp [sources, s, Except.map, Layer.apply, placed, sectionAt, merged, mergedValue, Table.put, Table.get?,
      Value.text_beq_text]
  have hrouting : (routing s).2 = .ok ⟨50, none, false, .warning⟩ := by
    rw [routing_of_names rfl (by simp [RoutingSettings.isName, RoutingSettings.names])]
    rfl
  exact ⟨s, _, hload, hrouting, by simp [sources, Table.get?], rfl, rfl⟩

end Settings

end RoutePattern
