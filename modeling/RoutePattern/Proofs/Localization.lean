import RoutePattern.Proofs.Succession
import RoutePattern.Proofs.Usable

/-!
Schemas within a route. A schema knows the captures of its part of the route by the keys that the part has
on its own. Whatever stands around the part, the schema is handed what the part matches by itself there,
and what it gives back lands under the keys of the route.
-/

namespace RoutePattern

def Key.name? : Key → Option Text
  | name t => some t
  | index _ => none

theorem nodup_keys_of_names {keys : List Key} (hnames : (keys.filterMap Key.name?).Nodup)
    (hindices : (keys.filterMap Key.index?).Nodup) : keys.Nodup := by
  induction keys with
  | nil => exact List.nodup_nil
  | cons key rest ih =>
    cases key with
    | name t =>
      obtain ⟨hfresh, hrest⟩ := List.nodup_cons.mp hnames
      refine List.nodup_cons.mpr ⟨fun hmem => hfresh ?_, ih hrest hindices⟩
      exact List.mem_filterMap.mpr ⟨.name t, hmem, rfl⟩
    | index n =>
      obtain ⟨hfresh, hrest⟩ := List.nodup_cons.mp hindices
      refine List.nodup_cons.mpr ⟨fun hmem => hfresh ?_, ih hnames hrest⟩
      exact List.mem_filterMap.mpr ⟨.index n, hmem, rfl⟩

def Capture.shift (count : Nat) (c : Capture) : Capture :=
  ⟨c.key.shift count, c.lead, c.optional, c.multiple⟩

theorem Capture.nodup_keys_of_shift {count : Nat} {cs : List Capture}
    (h : ((cs.map (shift count)).map key).Nodup) : (cs.map key).Nodup := by
  have hmap : (cs.map (shift count)).map key = (cs.map key).map (Key.shift count) := by
    simp [shift, Function.comp_def]
  rw [hmap] at h
  exact h.of_map

variable {σ : Type}

namespace Pattern

theorem partCaptures_shift (count : Nat) (optional : Bool) (part : Part) :
    captures.partCaptures optional (part.shift count) =
      (captures.partCaptures optional part).map (Prod.map (Capture.shift count) id) := by
  cases part <;> rfl

theorem part?_member_add (first count : Nat) (p : Pattern σ) :
    (p.member (first + count)).part? = (p.member first).part?.map (Part.shift count) := by
  rw [member_add, Member.part?_shift]

mutual

theorem captures_add (first count : Nat) (optional : Bool) : (p : Pattern σ) →
    p.captures (first + count) optional =
      (p.captures first optional).map (Prod.map (Capture.shift count) id)
  | literal _ => rfl
  | param _ => rfl
  | unnamed => rfl
  | modified m inner => by
    rw [captures, captures, part?_member_add, captures_add first count _ inner]
    cases ((modified m inner).member first).part? with
    | none => rfl
    | some part => exact partCaptures_shift count optional part
  | prefixed lead inner => by
    rw [captures, captures, part?_member_add, captures_add first count _ inner]
    cases ((prefixed lead inner).member first).part? with
    | none => rfl
    | some part => exact partCaptures_shift count optional part
  | concat left right _ => by
    rw [captures, captures, List.map_append, captures_add first count optional left,
      Nat.add_right_comm, captures_add _ count optional right]
  | queryParam key value => by
    rw [captures, captures, part?_member_add]
    · cases ((queryParam key value).member first).part? with
      | none => rfl
      | some part => exact partCaptures_shift count optional part
    all_goals simp
  | queryParams previous entries => by
    rw [captures, captures, List.map_append, captures_add first count optional previous,
      Nat.add_right_comm, entryCaptures_add _ count optional entries]
  | withSchema inner _ => captures_add first count optional inner

theorem entryCaptures_add (first count : Nat) (optional : Bool) : (entries : List (Text × Pattern σ)) →
    captures.entryCaptures (first + count) optional entries =
      (captures.entryCaptures first optional entries).map (Prod.map (Capture.shift count) id)
  | [] => rfl
  | (_, value) :: rest => by
    rw [captures.entryCaptures, captures.entryCaptures, List.map_append, List.map_map,
      captures_add first count optional value, Nat.add_right_comm,
      entryCaptures_add _ count optional rest, List.map_map]
    rfl

end

theorem captures_eq_shift (first : Nat) (p : Pattern σ) :
    (p.captures first false).map (·.1) =
      ((p.captures 0 false).map (·.1)).map (Capture.shift first) := by
  have hadd := captures_add 0 first false p
  rw [Nat.zero_add] at hadd
  rw [hadd, List.map_map, List.map_map]
  rfl

end Pattern

theorem get?_shiftParams (count : Nat) (key : Key) (params : Params) :
    Table.get? (key.shift count) (shiftParams count params) = Table.get? key params := by
  induction params with
  | nil => rfl
  | cons entry rest ih =>
    have hbeq : (entry.1.shift count == key.shift count) = (entry.1 == key) := by
      rw [beq_eq_beq, (Key.shift_injective count).eq_iff]
    rw [shiftParams, List.map_cons, Table.get?, Table.get?, hbeq]
    exact congrArg (ite _ _) ih

namespace Given

variable {front cs back : List Capture} {first own last : Params}

theorem shift (count : Nat) (h : Given cs own) :
    Given (cs.map (Capture.shift count)) (shiftParams count own) := by
  induction h with
  | nil => exact .nil
  | @cons c captured rest params hfits _ ih =>
    have hshift : shiftParams count (captured.toList.map (c.key, ·) ++ params) =
        captured.toList.map ((c.shift count).key, ·) ++ shiftParams count params := by
      rw [shiftParams, List.map_append, List.map_map]
      rfl
    have hown : (c.shift count).Fits captured := hfits
    rw [hshift]
    exact .cons hown ih

section Between

variable (hkeys : ((front ++ cs ++ back).map Capture.key).Nodup)

include hkeys

theorem notMem_of_between {key : Key} (hkey : key ∈ cs.map Capture.key) :
    key ∉ front.map Capture.key ∧ key ∉ back.map Capture.key := by
  rw [List.map_append, List.map_append] at hkeys
  obtain ⟨hleft, -, hback⟩ := List.nodup_append.mp hkeys
  obtain ⟨-, -, hfront⟩ := List.nodup_append.mp hleft
  exact ⟨fun hmem => hfront key hmem key hkey rfl,
    fun hmem => hback key (List.mem_append_right _ hkey) key hmem rfl⟩

variable (hfirst : Given front first) (hown : Given cs own) (hlast : Given back last)

include hfirst hlast

theorem get?_between {c : Capture} (hc : c ∈ cs) :
    Table.get? c.key (first ++ own ++ last) = Table.get? c.key own := by
  obtain ⟨hfront, hback⟩ := notMem_of_between hkeys (List.mem_map_of_mem hc)
  rw [Table.get?_append, Table.get?_append, hfirst.get?_eq_none hfront, hlast.get?_eq_none hback,
    Option.none_or, Option.or_none]

include hown

theorem filter_between :
    (first ++ own ++ last).filter (fun entry => entry.1 ∈ cs.map Capture.key) = own := by
  have hleft : first.filter (fun entry => entry.1 ∈ cs.map Capture.key) = [] := by
    refine List.filter_eq_nil_iff.mpr fun entry hentry => ?_
    have hfront := hfirst.keys_sublist.subset (List.mem_map_of_mem hentry)
    simpa using fun hkey => (notMem_of_between hkeys hkey).1 hfront
  have hright : last.filter (fun entry => entry.1 ∈ cs.map Capture.key) = [] := by
    refine List.filter_eq_nil_iff.mpr fun entry hentry => ?_
    have hback := hlast.keys_sublist.subset (List.mem_map_of_mem hentry)
    simpa using fun hkey => (notMem_of_between hkeys hkey).2 hback
  have hmid : own.filter (fun entry => entry.1 ∈ cs.map Capture.key) = own := by
    refine List.filter_eq_self.mpr fun entry hentry => ?_
    exact decide_eq_true (hown.keys_sublist.subset (List.mem_map_of_mem hentry))
  rw [List.filter_append, List.filter_append, hleft, hmid, hright, List.append_nil, List.nil_append]

end Between

end Given

namespace SchemaItem

variable {cs : List Capture} {f : Key → Key}

/-- Keys under which a route and a schema know the same captures. -/
def pairing (f : Key → Key) (cs : List Capture) : Table Key Key := cs.map fun c => (f c.key, c.key)

theorem ofEntries_pairing (hf : Function.Injective f) (hkeys : (cs.map Capture.key).Nodup) :
    Table.ofEntries (pairing f cs) = pairing f cs := by
  refine Table.putAll_nil ?_
  have hmap : (pairing f cs).map (·.1) = (cs.map Capture.key).map f := by
    simp [pairing, Function.comp_def]
  rw [hmap]
  exact hkeys.map hf

theorem toGlobal_pairing (hkeys : (cs.map Capture.key).Nodup) :
    toGlobal (pairing f cs) = cs.map fun c => (c.key, f c.key) := by
  have hmap : (pairing f cs).map (fun entry => (entry.2, entry.1)) = cs.map fun c => (c.key, f c.key) := by
    simp [pairing, Function.comp_def]
  rw [toGlobal, hmap]
  refine Table.putAll_nil ?_
  simpa [Function.comp_def] using hkeys

theorem localize_pairing (params : Params) (cs : List Capture) :
    localize (argumentsOf params) (pairing f cs) =
      .ok (Route.paramEntries (cs.flatMap fun c =>
        (Table.get? (f c.key) params).toList.map (c.key, ·))) := by
  induction cs with
  | nil => rfl
  | cons c rest ih =>
    have hfound : (argumentsOf params).lookUp (f c.key) =
        .ok ((Table.get? (f c.key) params).map Captured.value) := by
      rw [argumentsOf, Value.lookUp, get?_paramEntries]
    have hcons : pairing f (c :: rest) = (f c.key, c.key) :: pairing f rest := rfl
    rw [hcons, localize, hfound, ih, List.flatMap_cons, paramEntries_append, paramEntries_captured]
    rfl

theorem get?_globalKeys (hkeys : (cs.map Capture.key).Nodup) {c : Capture} (hc : c ∈ cs) :
    Table.get? c.key.value (globalKeys (pairing f cs)) = some (f c.key).value := by
  rw [globalKeys, toGlobal_pairing hkeys]
  induction cs with
  | nil => simp at hc
  | cons d rest ih =>
    obtain ⟨hfresh, hrest⟩ := List.nodup_cons.mp hkeys
    rw [List.map_cons, List.map_cons, Table.get?, Key.value_beq]
    rcases List.mem_cons.mp hc with rfl | hc
    · simp
    · have hne : d.key ≠ c.key := fun heq => hfresh (heq ▸ List.mem_map_of_mem hc)
      rw [beq_false_of_ne hne]
      exact ih hrest hc

theorem globalize_pairing (hf : Function.Injective f) (hkeys : (cs.map Capture.key).Nodup)
    {own : Params} (hown : Given cs own) :
    globalize (pairing f cs) (Route.paramEntries own) =
      Route.paramEntries (own.map fun entry => (f entry.1, entry.2)) := by
  have hmap : (Route.paramEntries own).map (fun entry =>
        ((Table.get? entry.1 (globalKeys (pairing f cs))).getD entry.1, entry.2)) =
      Route.paramEntries (own.map fun entry => (f entry.1, entry.2)) := by
    rw [paramEntries_eq_map, paramEntries_eq_map, List.map_map, List.map_map]
    refine List.map_congr_left fun entry hentry => ?_
    obtain ⟨c, hc, hkey⟩ := List.mem_map.mp (hown.keys_sublist.subset (List.mem_map_of_mem hentry))
    have hget := get?_globalKeys (f := f) hkeys hc
    rw [hkey] at hget
    simp [hget]
  have hnodup : ((own.map fun entry => (f entry.1, entry.2)).map (·.1)).Nodup := by
    have hfst : (own.map fun entry => (f entry.1, entry.2)).map (·.1) = (own.map (·.1)).map f := by
      simp [Function.comp_def]
    rw [hfst]
    exact (hown.nodup_keys hkeys).map hf
  rw [globalize, hmap, ofEntries_paramEntries hnodup]

end SchemaItem

/-- What captures are given between others is what their schema is handed, and what it was handed lands where
it came from. -/
theorem SchemaItem.localize_between {front cs back : List Capture} {first own last : Params} (count : Nat)
    (hfirst : Given front first) (hown : Given cs own) (hlast : Given back last)
    (hkeys : ((front ++ cs.map (Capture.shift count) ++ back).map Capture.key).Nodup) :
    let params := Table.putAll (Table.putAll first (shiftParams count own)) last
    localize (argumentsOf params) (pairing (Key.shift count) cs) = .ok (Route.paramEntries own) ∧
    globalize (pairing (Key.shift count) cs) (Route.paramEntries own) =
      Route.paramEntries (params.filter fun entry =>
        entry.1 ∈ (cs.map (Capture.shift count)).map Capture.key) := by
  intro params
  have hshifted := hown.shift count
  obtain ⟨hleft, -, -⟩ := List.nodup_append.mp (List.map_append ▸ hkeys)
  have hparams : params = first ++ shiftParams count own ++ last := by
    have hinner := hfirst.putAll_eq hshifted hleft
    have hgiven := hfirst.append hshifted
    rw [← hgiven.putAll_eq hlast hkeys, ← hinner]
  have hcs : (cs.map Capture.key).Nodup := by
    rw [List.map_append] at hleft
    exact Capture.nodup_keys_of_shift (List.nodup_append.mp hleft).2.1
  constructor
  · have hfound : cs.flatMap (fun c => (Table.get? (c.key.shift count) params).toList.map (c.key, ·)) =
        own := by
      conv_rhs => rw [hown.eq_flatMap hcs]
      refine List.flatMap_congr fun c hc => ?_
      have hget : Table.get? (c.key.shift count) params =
          Table.get? (c.key.shift count) (shiftParams count own) := by
        rw [hparams]
        exact hfirst.get?_between hkeys hlast (List.mem_map_of_mem hc)
      rw [hget, get?_shiftParams]
    rw [localize_pairing, hfound]
  · rw [globalize_pairing (Key.shift_injective count) hcs hown, hparams,
      hfirst.filter_between hkeys hshifted hlast]
    rfl

theorem exists_runSteps_of_append {front back : List Step} {count : Nat} {query : Query}
    {cursor last : Cursor} {params : Params}
    (h : runSteps query cursor (front ++ shiftSteps count back) = some (params, last)) :
    ∃ first next own, runSteps query cursor front = some (first, next) ∧
      runSteps query next back = some (own, last) ∧
      params = Table.putAll first (shiftParams count own) := by
  rw [runSteps_append] at h
  obtain ⟨⟨first, next⟩, hfront, h⟩ := Option.bind_eq_some_iff.mp h
  obtain ⟨⟨_, _⟩, hshifted, hparams⟩ := Option.map_eq_some_iff.mp h
  rw [runSteps_shift] at hshifted
  obtain ⟨⟨own, _⟩, hback, hown⟩ := Option.map_eq_some_iff.mp hshifted
  obtain ⟨rfl, rfl⟩ := Prod.mk.inj hown
  obtain ⟨rfl, rfl⟩ := Prod.mk.inj hparams
  exact ⟨first, next, own, hfront, hback, rfl⟩

namespace Pattern

theorem layout_withSchema {p : Pattern σ} {steps : List Step} (s : σ)
    (h : p.layout.steps = .ok steps) : (withSchema p s).layout.steps = .ok steps :=
  Group.layoutAll_ok_of_whole _ h

/-- The schema of a part of a route pairs the keys that its captures have in the route with those that
they have in the part. -/
theorem schemaItems_withSchema (first : Nat) {p : Pattern Schema} (s : Schema)
    (hkeys : (((p.captures 0 false).map (·.1)).map Capture.key).Nodup) :
    (withSchema p s).schemaItems first false false =
      [.attached s ((p.captures first false).map (·.1))
        (SchemaItem.pairing (Key.shift first) ((p.captures 0 false).map (·.1)))] := by
  have hflags : ((p.captures first false).map (·.1)).map (fun c =>
      (⟨c.key, c.lead, c.optional || false, c.multiple || false⟩ : Capture)) =
      (p.captures first false).map (·.1) := by
    simp
  have hpairs : List.zipWith (fun c d => (c.key, d.key)) ((p.captures first false).map (·.1))
      ((p.captures 0 false).map (·.1)) =
      SchemaItem.pairing (Key.shift first) ((p.captures 0 false).map (·.1)) := by
    rw [captures_eq_shift, SchemaItem.pairing, List.zipWith_map_left, List.zipWith_self]
    rfl
  rw [schemaItems]
  simp only [hflags, hpairs, SchemaItem.ofEntries_pairing (Key.shift_injective first) hkeys]

theorem names_captures (first : Nat) (p : Pattern σ) :
    (p.captures first false).filterMap (·.1.key.name?) =
      (p.captures 0 false).filterMap (·.1.key.name?) := by
  have hname : ∀ key : Key, (key.shift first).name? = key.name? := fun key => by cases key <;> rfl
  have hkeys := congrArg (List.filterMap fun c : Capture => c.key.name?) (captures_eq_shift first p)
  simpa [List.filterMap_map, Function.comp_def, Capture.shift, hname] using hkeys

/-- The captures of patterns in succession have different keys where their names are different. -/
theorem nodup_keys_succession {l m r : Pattern σ} (hl : l.Ready) (hm : m.Ready) (hr : r.Ready)
    (hnames : ((l.captures 0 false ++ m.captures 0 false ++ r.captures 0 false).filterMap
      (·.1.key.name?)).Nodup) :
    (((l.captures 0 false).map (·.1) ++
      ((m.captures 0 false).map (·.1)).map (Capture.shift l.unnamedCount) ++
      ((r.captures 0 false).map (·.1)).map (Capture.shift (l.unnamedCount + m.unnamedCount))).map
        Capture.key).Nodup := by
  rw [← captures_eq_shift, ← captures_eq_shift, ← List.map_append, ← List.map_append, List.map_map]
  refine nodup_keys_of_names ?_ ?_
  · rw [List.filterMap_map, List.filterMap_append, List.filterMap_append]
    rw [List.filterMap_append, List.filterMap_append] at hnames
    rwa [← names_captures l.unnamedCount m, ← names_captures (l.unnamedCount + m.unnamedCount) r]
      at hnames
  · have hl := hl.indices 0 false
    have hm := hm.indices l.unnamedCount false
    have hr := hr.indices (l.unnamedCount + m.unnamedCount) false
    rw [List.filterMap_map, List.filterMap_append, List.filterMap_append]
    simp only [Function.comp_def]
    have hleft : List.range' 0 l.unnamedCount ++ List.range' l.unnamedCount m.unnamedCount =
        List.range' 0 (l.unnamedCount + m.unnamedCount) := by
      simpa using List.range'_append_1 (s := 0)
    have hall : List.range' 0 (l.unnamedCount + m.unnamedCount) ++
        List.range' (l.unnamedCount + m.unnamedCount) r.unnamedCount =
        List.range' 0 (l.unnamedCount + m.unnamedCount + r.unnamedCount) := by
      simpa using List.range'_append_1 (s := 0)
    rw [hl, hm, hr, hleft, hall]
    exact List.nodup_range'

/-- A schema over a part of a route, whatever stands around the part. From where the match of what stands
in front ends, the part by itself matches just what the schema is handed, and this lands under the keys of
the route as what the captures of the part were given there. -/
theorem withSchema_localized {l m r : Pattern Schema} {ml mm mr : Matcher} (s : Schema) (atEnd : Bool)
    (hl : l.hasBlock = false) (hm : m.hasBlock = false) (hr : r.hasBlock = false)
    (hml : l.matcher false = .ok ml) (hmm : m.matcher false = .ok mm) (hmr : r.matcher false = .ok mr)
    (hnames : ((l.captures 0 false ++ m.captures 0 false ++ r.captures 0 false).filterMap
      (·.1.key.name?)).Nodup) :
    ∃ whole cs keys,
      ((l.append (.withSchema m s)).append r).matcher atEnd = .ok whole ∧
      ((l.append (.withSchema m s)).append r).schemaItems 0 false false =
        l.schemaItems 0 false false ++ .attached s cs keys ::
          r.schemaItems (l.unnamedCount + m.unnamedCount) false false ∧
      cs.map Capture.key = (m.captures 0 false).map (·.1.key.shift l.unnamedCount) ∧
      ∀ query segments params, whole.accept segments query = some params →
        ∃ first cursor own last,
          ml.run query (.start segments) = some (first, cursor) ∧
          mm.run query cursor = some (own, last) ∧
          SchemaItem.localize (.map (Route.paramEntries params)) keys = .ok (Route.paramEntries own) ∧
          SchemaItem.globalize keys (Route.paramEntries own) =
            Route.paramEntries (params.filter fun entry => entry.1 ∈ cs.map Capture.key) := by
  obtain ⟨front, _⟩ := ml
  obtain ⟨mid, _⟩ := mm
  obtain ⟨back, _⟩ := mr
  obtain ⟨hfront, rfl⟩ := layout_of_matcher hml
  obtain ⟨hmid, rfl⟩ := layout_of_matcher hmm
  obtain ⟨hback, rfl⟩ := layout_of_matcher hmr
  have hleft : l.append (.withSchema m s) = concat l (.withSchema m s) false :=
    append_of_hasBlock hl hm
  have hwhole : (l.append (.withSchema m s)).append r =
      concat (concat l (.withSchema m s) false) r false := by
    have hblock : (concat l (.withSchema m s) false).hasBlock = false := by
      rw [hasBlock, hl, Bool.false_or]
      exact hm
    rw [hleft, append_of_hasBlock hblock hr]
  have hlayout : (concat (concat l (.withSchema m s) false) r false).layout.steps =
      .ok (front ++ shiftSteps l.unnamedCount mid ++
        shiftSteps (l.unnamedCount + m.unnamedCount) back) :=
    layout_concat (layout_concat hfront (layout_withSchema s hmid)) hback
  have hdistinct := nodup_keys_succession (ready_of_layout hfront) (ready_of_layout hmid)
    (ready_of_layout hback) hnames
  obtain ⟨hleftKeys, hrKeys, -⟩ := List.nodup_append.mp (List.map_append ▸ hdistinct)
  obtain ⟨hlKeys, hmKeys, -⟩ := List.nodup_append.mp (List.map_append ▸ hleftKeys)
  have hmOwn := Capture.nodup_keys_of_shift hmKeys
  have hrOwn := Capture.nodup_keys_of_shift hrKeys
  refine ⟨⟨front ++ shiftSteps l.unnamedCount mid ++
      shiftSteps (l.unnamedCount + m.unnamedCount) back, atEnd⟩,
    ((m.captures 0 false).map (·.1)).map (Capture.shift l.unnamedCount),
    SchemaItem.pairing (Key.shift l.unnamedCount) ((m.captures 0 false).map (·.1)), ?_, ?_, ?_, ?_⟩
  · rw [hwhole]
    exact matcher_of_layout hlayout atEnd
  · have hitems := schemaItems_withSchema l.unnamedCount s hmOwn
    rw [captures_eq_shift] at hitems
    rw [hwhole, schemaItems, schemaItems, Nat.zero_add, hitems, List.append_assoc, Nat.zero_add]
    rfl
  · rw [List.map_map, List.map_map]
    rfl
  · intro query segments params haccept
    obtain ⟨⟨_, last⟩, hrun, rfl⟩ := Option.map_eq_some_iff.mp haccept
    obtain ⟨hsteps, -⟩ := Matcher.run_eq_some.mp hrun
    obtain ⟨_, between, others, hsteps, hothers, hparams⟩ := exists_runSteps_of_append hsteps
    obtain ⟨first, cursor, own, hfirst, hown, rfl⟩ := exists_runSteps_of_append hsteps
    rw [← Matcher.run_open] at hfirst hown hothers
    rw [List.map_map] at hlKeys hmOwn hrOwn
    have hfirstGiven := given_run hml hlKeys hfirst
    have hownGiven := given_run hmm hmOwn hown
    have hothersGiven := given_run hmr hrOwn hothers
    obtain ⟨hlocalize, hglobalize⟩ := SchemaItem.localize_between l.unnamedCount hfirstGiven hownGiven
      (hothersGiven.shift (l.unnamedCount + m.unnamedCount)) hdistinct
    rw [← hparams] at hlocalize hglobalize
    exact ⟨first, cursor, own, between, hfirst, hown, hlocalize, hglobalize⟩

/-- The second of three unnamed captures is the first one of the schema around it. -/
theorem withSchema_localized_version :
    let l : Pattern Schema := .concat (.literal "a") .unnamed false
    let m : Pattern Schema := .concat
      (.modified .optional (.concat (.literal "v") .unnamed false)) (.param "x") false
    let s : Schema := .struct "S" []
    ∃ whole cs keys,
      ((l.append (.withSchema m s)).append .unnamed).matcher true = .ok whole ∧
      ((l.append (.withSchema m s)).append .unnamed).schemaItems 0 false false =
        [.bare ⟨.index 0, [], false, false⟩, .attached s cs keys,
          .bare ⟨.index 2, [], false, false⟩] ∧
      whole.accept ["a", "b", "v", "c", "d", "e"] [] =
        some [(.index 0, .one "b"), (.index 1, .one "c"), (.name "x", .one "d"),
          (.index 2, .one "e")] ∧
      SchemaItem.localize (.map [(.int 0, .text "b"), (.int 1, .text "c"), (.text "x", .text "d"),
        (.int 2, .text "e")]) keys = .ok [(.int 0, .text "c"), (.text "x", .text "d")] ∧
      SchemaItem.globalize keys [(.int 0, .text "c"), (.text "x", .text "d")] =
        [(.int 1, .text "c"), (.text "x", .text "d")] := by
  intro l m s
  have hml : l.matcher false = .ok
      ⟨[.single (.literal "a" false), .single (.capture ⟨.index 0, [], false, false⟩)], false⟩ := by rfl
  have hmm : m.matcher false = .ok ⟨[.nested true
      [.single (.literal "v" false), .single (.capture ⟨.index 0, [], false, false⟩)],
      .single (.capture ⟨.name "x", [], false, false⟩)], false⟩ := by rfl
  have hmr : (unnamed : Pattern Schema).matcher false = .ok
      ⟨[.single (.capture ⟨.index 0, [], false, false⟩)], false⟩ := by rfl
  obtain ⟨whole, cs, keys, hwhole, hitems, hkeys, hmatch⟩ :=
    withSchema_localized s true (by rfl) (by rfl) (by rfl) hml hmm hmr (by decide)
  obtain rfl : (⟨[.single (.literal "a" false), .single (.capture ⟨.index 0, [], false, false⟩),
      .nested true [.single (.literal "v" false), .single (.capture ⟨.index 1, [], false, false⟩)],
      .single (.capture ⟨.name "x", [], false, false⟩),
      .single (.capture ⟨.index 2, [], false, false⟩)], true⟩ : Matcher) = whole :=
    Except.ok.inj (Eq.trans (by rfl) hwhole)
  have haccept : (⟨[.single (.literal "a" false), .single (.capture ⟨.index 0, [], false, false⟩),
      .nested true [.single (.literal "v" false), .single (.capture ⟨.index 1, [], false, false⟩)],
      .single (.capture ⟨.name "x", [], false, false⟩),
      .single (.capture ⟨.index 2, [], false, false⟩)], true⟩ : Matcher).accept
        ["a", "b", "v", "c", "d", "e"] [] =
      some [(.index 0, .one "b"), (.index 1, .one "c"), (.name "x", .one "d"),
        (.index 2, .one "e")] := by rfl
  obtain ⟨first, cursor, own, last, hfirst, hown, hlocalize, hglobalize⟩ := hmatch _ _ _ haccept
  obtain ⟨-, rfl⟩ := Prod.mk.inj (Option.some.inj (Eq.trans (by rfl) hfirst :
    some ([(Key.index 0, Captured.one "b")],
      (⟨["a", "b", "v", "c", "d", "e"], 2, 0⟩ : Cursor)) = some (first, cursor)))
  obtain ⟨rfl, -⟩ := Prod.mk.inj (Option.some.inj (Eq.trans (by rfl) hown :
    some ([(Key.index 0, Captured.one "c"), (.name "x", .one "d")],
      (⟨["a", "b", "v", "c", "d", "e"], 5, 0⟩ : Cursor)) = some (own, last)))
  rw [hkeys] at hglobalize
  exact ⟨_, cs, keys, hwhole, hitems, haccept, hlocalize, hglobalize.trans (by rfl)⟩

end Pattern

end RoutePattern
