import RoutePattern.Proofs.HeldValues
import RoutePattern.Proofs.SettingPaths

/-!
Merging and setting in place. Where no mapping stands twice, the mapping that is changed comes to hold what
merging and setting make of its settings, and nothing else changes.
-/

namespace RoutePattern

open Settings (merged mergedValue placed sectionAt)

namespace Heap

theorem getElem?_set_self {h : Heap} {id : Nat} {entries : Table Value Datum}
    (hentries : h[id]? = some entries) (key : Value) (d : Datum) :
    (h.set id key d)[id]? = some (Table.put key d entries) := by
  simp [set, hentries]

theorem getElem?_set_of_ne {h : Heap} {id other : Nat} (hne : other ≠ id) (key : Value) (d : Datum) :
    (h.set id key d)[other]? = h[other]? := by
  simp [set, Ne.symm hne]

@[simp] theorem length_set (id : Nat) (key : Value) (d : Datum) (h : Heap) :
    (h.set id key d).length = h.length := by
  simp [set]

/-- A step changes only mappings that a value went through before or that were taken over. After it, the value
goes through some of these and new ones, through each once. -/
structure Step (h h' : Heap) (before taken after : List Nat) : Prop where
  nodup : after.Nodup
  source : ∀ id ∈ after, id ∈ before ++ taken ∨ h.length ≤ id
  grows : h.length ≤ h'.length
  same : ∀ id < h.length, id ∉ before ++ taken → h'[id]? = h[id]?

theorem Step.refl {h : Heap} {before : List Nat} (hids : before.Nodup) (taken : List Nat) :
    Step h h before taken before :=
  ⟨hids, fun _ hid => .inl (List.mem_append_left _ hid), Nat.le_refl _, fun _ _ _ => rfl⟩

theorem Step.trans {h h' h'' : Heap} {before first after second last : List Nat}
    (hstep : Step h h' before first after) (hnext : Step h' h'' after second last) :
    Step h h'' before (first ++ second) last where
  nodup := hnext.nodup
  source id hid := by
    have hgrows := hstep.grows
    have hsource := hstep.source id
    have hnext := hnext.source id hid
    grind
  grows := Nat.le_trans hstep.grows hnext.grows
  same id hlt hid := by
    have hafter : id ∉ after := fun hmem => by
      have hsource := hstep.source id hmem
      grind
    rw [hnext.same id (Nat.lt_of_lt_of_le hlt hstep.grows) (by grind), hstep.same id hlt (by grind)]

theorem Step.mono {h h' : Heap} {before taken after before' taken' : List Nat}
    (hstep : Step h h' before taken after) (hsub : before ++ taken ⊆ before' ++ taken') :
    Step h h' before' taken' after where
  nodup := hstep.nodup
  source id hid := (hstep.source id hid).imp_left fun hmem => hsub hmem
  grows := hstep.grows
  same id hlt hid := hstep.same id hlt fun hmem => hid (hsub hmem)

/-- A mapping holds settings after a step. -/
def Becomes (h h' : Heap) (root : Nat) (before taken : List Nat) (t : Settings) : Prop :=
  ∃ after, Step h h' before taken after ∧ Holds h' [.object root] [.map t] after

section

variable {h : Heap} {root : Nat} {d : Datum} {t s : Settings} {v : Value} {ids own : List Nat}

/-- The value of a key of a mapping, and what the mapping becomes when something else comes to stand there. -/
theorem Holds.becomes_at (ht : Holds h [.object root] [.map t] ids) (hids : (ids ++ own).Nodup)
    (key : Value) : ∃ entries mid, h[root]? = some entries ∧ (root :: mid) ⊆ ids ∧
      ((root :: mid) ++ own).Nodup ∧ HoldsFound h (Table.get? key entries) (Table.get? key t) mid ∧
      ∀ (h' : Heap) (d : Datum) (v : Value) (new : List Nat), Holds h' [d] [v] new →
        Step h h' (root :: mid) own new → root ∉ new → h'[root]? = some (Table.put key d entries) →
        Becomes h h' root ids own (Table.put key v t) := by
  have hlt := ht.lt_length
  obtain ⟨entries, inner, rfl, hentries, hkeys, hvalues⟩ := holds_object_iff.mp ht
  obtain ⟨left, mid, right, rfl, hfound, hput⟩ := hvalues.at_key hkeys key
  refine ⟨entries, mid, hentries, by grind, by grind, hfound, fun h' d v new hd hstep hnew hroot => ?_⟩
  have hothers : ∀ id ∈ left ++ right, h'[id]? = h[id]? := fun id hid =>
    hstep.same id (hlt id (by grind)) (by grind)
  obtain ⟨hkeys, hvalues⟩ := hput h' d v new hd hothers
  obtain ⟨hnodup, hsource, hgrows, hsame⟩ := hstep
  refine ⟨root :: (left ++ new ++ right), ⟨?_, by grind, hgrows, fun id hid hout => hsame id hid (by grind)⟩,
    holds_object_iff.mpr ⟨_, _, rfl, hroot, hkeys, hvalues⟩⟩
  -- what is new in place is apart from what stays left and right of it
  have hleft : ∀ id ∈ left, id ∉ new := by grind
  have hright : ∀ id ∈ right, id ∉ new := by grind
  grind

theorem becomes_set (ht : Holds h [.object root] [.map t] ids) (hd : Holds h [d] [v] own)
    (hids : (ids ++ own).Nodup) (key : Value) :
    Becomes h (h.set root key d) root ids own (Table.put key v t) := by
  obtain ⟨entries, mid, hentries, -, hnodup, -, hbecomes⟩ := ht.becomes_at hids key
  have hd : Holds (h.set root key d) [d] [v] own :=
    hd.frame fun id hid => getElem?_set_of_ne (by grind) key d
  refine hbecomes _ d v own hd ⟨by grind, by grind, by simp, fun id _ hid => ?_⟩ (by grind)
    (getElem?_set_self hentries key d)
  exact getElem?_set_of_ne (by grind) key d

/-- A mapping that stands in a mapping becomes something in place. -/
theorem Holds.becomes_inner (ht : Holds h [.object root] [.map t] ids) (hids : (ids ++ own).Nodup)
    {key : Value} {old : Nat} (hold : Table.get? key (h.entriesOf root) = some (.object old)) :
    ∃ inner mid, Table.get? key t = some (.map inner) ∧ Holds h [.object old] [.map inner] mid ∧
      (mid ++ own).Nodup ∧ ∀ h' s, Becomes h h' old mid own s →
        Becomes h h' root ids own (Table.put key (.map s) t) := by
  obtain ⟨entries, mid, hentries, hmid, hnodup, hfound, hbecomes⟩ := ht.becomes_at hids key
  have hroot := ht.lt_length root (hmid List.mem_cons_self)
  rw [entriesOf_eq hentries] at hold
  rw [hold] at hfound
  generalize Table.get? key t = w at hfound
  cases hfound with
  | some hinner =>
    obtain ⟨inner, rfl⟩ := hinner.exists_map
    refine ⟨inner, mid, rfl, hinner, by grind, fun h' s ⟨new, hstep, hnew⟩ => ?_⟩
    have hsame : h'[root]? = some (Table.put key (.object old) entries) := by
      rw [Table.put_of_get? hold, ← hentries]
      exact hstep.same root hroot (by grind)
    have hapart : root ∉ new := fun hmem => by
      have hsource := hstep.source root hmem
      grind
    exact hbecomes h' _ _ new hnew (hstep.mono (by grind)) hapart hsame

/-- Merging mappings of at most a given size in place makes of their settings what merging makes of settings. -/
def MergesInPlace (size : Nat) (merge : Nat → Nat → Heap → Except Refusal Heap) : Prop :=
  ∀ {h : Heap} {target source : Nat} {t s : Settings} {ids own : List Nat},
    Holds h [.object target] [.map t] ids → Holds h [.object source] [.map s] own → (ids ++ own).Nodup →
    own.length ≤ size → ∃ h', merge target source h = .ok h' ∧ Becomes h h' target ids own (merged t s)

theorem Holds.get?_of_not_object (ht : Holds h [.object root] [.map t] ids) {key : Value}
    (hnot : ¬∃ id, Table.get? key (h.entriesOf root) = some (.object id)) :
    Table.get? key t = none ∨ ∃ w, Table.get? key t = some w ∧ w.entries? = none := by
  obtain ⟨mid, hfound, -⟩ := ht.found key
  generalize Table.get? key (h.entriesOf root) = old at hfound hnot
  generalize Table.get? key t = w at hfound
  cases hfound with
  | none => exact .inl rfl
  | some hw =>
    rcases hw.plain_or_object with ⟨hplain, -⟩ | ⟨id, _, rfl, -⟩
    · exact .inr ⟨_, rfl, hplain⟩
    · exact absurd ⟨id, rfl⟩ hnot

theorem mergeEntry_of_objects {merge : Nat → Nat → Heap → Except Refusal Heap} {key : Value} {old new : Nat}
    (hold : Table.get? key (h.entriesOf root) = some (.object old)) :
    mergeEntry merge root key (.object new) h = merge old new h := by
  unfold mergeEntry
  rw [hold]

theorem mergeEntry_of_not_objects {merge : Nat → Nat → Heap → Except Refusal Heap} {key : Value}
    (hnot : ∀ old new, Table.get? key (h.entriesOf root) = some (.object old) → d ≠ .object new) :
    mergeEntry merge root key d h = .ok (h.set root key d) := by
  unfold mergeEntry
  split
  next old new hold => exact absurd rfl (hnot old new hold)
  next => rfl

theorem becomes_mergeEntry {size : Nat} {merge : Nat → Nat → Heap → Except Refusal Heap}
    (hmerge : MergesInPlace size merge) (ht : Holds h [.object root] [.map t] ids)
    (hd : Holds h [d] [v] own) (hids : (ids ++ own).Nodup) (hsize : own.length ≤ size) (key : Value) :
    ∃ h', mergeEntry merge root key d h = .ok h' ∧
      Becomes h h' root ids own (Table.put key (mergedValue (Table.get? key t) v) t) := by
  -- unless both are mappings, the new value takes the place
  have hset : mergedValue (Table.get? key t) v = v →
      (∀ old new, Table.get? key (h.entriesOf root) = some (.object old) → d ≠ .object new) →
      ∃ h', mergeEntry merge root key d h = .ok h' ∧
        Becomes h h' root ids own (Table.put key (mergedValue (Table.get? key t) v) t) := by
    intro heq hnot
    rw [heq]
    exact ⟨_, mergeEntry_of_not_objects hnot, becomes_set ht hd hids key⟩
  rcases hd.plain_or_object with ⟨hv, hd⟩ | ⟨new, s, rfl, rfl⟩
  · exact hset (Settings.mergedValue_of_entries? hv _) fun _ new _ => hd new
  by_cases hold : ∃ old, Table.get? key (h.entriesOf root) = some (.object old)
  · obtain ⟨old, hold⟩ := hold
    obtain ⟨inner, mid, hinner, hmid, hnodup, hbecomes⟩ := ht.becomes_inner hids hold
    obtain ⟨h', hmerged, hbelow⟩ := hmerge hmid hd hnodup hsize
    refine ⟨h', by rw [mergeEntry_of_objects hold, hmerged], ?_⟩
    rw [hinner, mergedValue]
    exact hbecomes h' _ hbelow
  · refine hset ?_ fun old _ heq => absurd ⟨old, heq⟩ hold
    rcases ht.get?_of_not_object hold with hnone | ⟨w, hw, hplain⟩
    · rw [hnone, Settings.mergedValue_none]
    · rw [hw, Settings.mergedValue_some_of_entries? hplain]

/-- The entries of a source are put in place one after the other; the ones that were put in place before are
`before`, and they stay as they are. -/
theorem becomes_mergeNext {size source : Nat} {merge : Nat → Nat → Heap → Except Refusal Heap}
    (hmerge : MergesInPlace size merge) {before rest : Table Value Datum}
    (hsource : h[source]? = some (before ++ rest)) (hkeys : rest.keys = Table.keys s)
    (ht : Holds h [.object root] [.map t] ids) (hs : Holds h (rest.map (·.2)) (s.map (·.2)) own)
    (hids : (ids ++ source :: own).Nodup) (hsize : own.length ≤ size) :
    ∃ h', (List.range' before.length rest.length).foldlM
        (mergeNext merge root source (before ++ rest).length) h = .ok h' ∧
      Becomes h h' root ids own (merged t s) := by
  induction rest generalizing h before s t ids own with
  | nil =>
    obtain rfl : s = [] := by simpa [Table.keys] using hkeys.symm
    exact ⟨h, rfl, ids, .refl (by grind) own, by simpa [merged] using ht⟩
  | cons e rest ih =>
    obtain ⟨key, d⟩ := e
    rcases s with _ | ⟨⟨key', v⟩, s⟩
    · simp [Table.keys] at hkeys
    obtain ⟨rfl, hothers⟩ : key = key' ∧ Table.keys rest = Table.keys s := by simpa [Table.keys] using hkeys
    obtain ⟨first, others, rfl, hd, hrest⟩ := holds_cons_iff.mp hs
    rw [List.length_append] at hsize
    obtain ⟨h', hentry, after, hstep, hbecomes⟩ :=
      becomes_mergeEntry hmerge ht hd (by grind) (by omega) key
    obtain ⟨hlt, -⟩ := List.getElem?_eq_some_iff.mp hsource
    have hsource' : h'[source]? = some (before ++ (key, d) :: rest) :=
      (hstep.same source hlt (by grind)).trans hsource
    have hltOthers := hrest.lt_length
    have hafter : (after ++ source :: others).Nodup := by
      refine List.nodup_append'.mpr ⟨hstep.nodup, by grind, fun id hid hin => ?_⟩
      have hfrom := hstep.source id hid
      grind
    have hnext : mergeNext merge root source (before ++ (key, d) :: rest).length h before.length = .ok h' := by
      simp [mergeNext, entriesOf_eq hsource, entriesOf_eq hsource', hentry, bind, Except.bind, pure,
        Except.pure]
    rw [List.append_cons] at hsource'
    obtain ⟨h'', hloop, last, hlast, hfinal⟩ := ih hsource' hothers hbecomes
      (hrest.frame fun id hid => hstep.same id (hltOthers id hid) (by grind)) hafter (by omega)
    refine ⟨h'', ?_, last, hstep.trans hlast, hfinal⟩
    rw [List.length_cons, List.range'_succ, List.foldlM_cons, hnext]
    simpa [bind, Except.bind] using hloop

theorem mergesInPlace_mergeAt (depth : Nat) : MergesInPlace depth (mergeAt depth) := by
  induction depth with
  | zero =>
    intro h target source t s ids own _ hs _ hsize
    obtain ⟨_, _, rfl, -⟩ := holds_object_iff.mp hs
    simp at hsize
  | succ depth ih =>
    intro h target source t s ids own ht hs hids hsize
    obtain ⟨entries, inner, rfl, hentries, hkeys, hvalues⟩ := holds_object_iff.mp hs
    have hsource : h[source]? = some ([] ++ entries) := hentries
    obtain ⟨h', hloop, after, hstep, hafter⟩ :=
      becomes_mergeNext ih hsource hkeys ht hvalues hids (by simpa using hsize)
    refine ⟨h', ?_, after, hstep.mono (by grind), hafter⟩
    simpa [mergeAt, entriesOf_eq hentries, List.range_eq_range'] using hloop

theorem becomes_merge {source : Nat} (ht : Holds h [.object root] [.map t] ids)
    (hs : Holds h [.object source] [.map s] own) (hids : (ids ++ own).Nodup) :
    ∃ h', h.merge root source = .ok h' ∧ Becomes h h' root ids own (merged t s) :=
  mergesInPlace_mergeAt _ ht hs hids <|
    (length_le_of_nodup (by grind) hs.lt_length).trans (Nat.le_mul_self _)

theorem put_of_object {part next : Text} {rest : List Text} {inner : Nat}
    (hinner : Table.get? (.text part) (h.entriesOf root) = some (.object inner)) :
    put d (part :: next :: rest) root h = put d (next :: rest) inner h := by
  simp [put, hinner]

theorem put_of_not_object {part next : Text} {rest : List Text}
    (hnot : ¬∃ id, Table.get? (.text part) (h.entriesOf root) = some (.object id)) :
    put d (part :: next :: rest) root h = put d (next :: rest) h.length
      (h.set root (.text part) (.object h.length) ++ [[]]) := by
  rw [put]
  · split
    next inner hinner => exact absurd ⟨inner, hinner⟩ hnot
    next => rfl
  · exact List.cons_ne_nil next rest

theorem Holds.becomes_new {h' : Heap} (ht : Holds h [.object root] [.map t] ids)
    (hids : (ids ++ own).Nodup) (key : Value)
    (hnew : Becomes (h.set root key (.object h.length) ++ [[]]) h' h.length [h.length] own s) :
    Becomes h h' root ids own (Table.put key (.map s) t) := by
  obtain ⟨entries, mid, hentries, hmid, hnodup, -, hbecomes⟩ := ht.becomes_at hids key
  have hroot := ht.lt_length root (hmid List.mem_cons_self)
  obtain ⟨new, hstep, hs⟩ := hnew
  have hlength : (h.set root key (.object h.length) ++ [[]]).length = h.length + 1 := by simp
  have hbefore : ∀ id < h.length, id ∉ own → h'[id]? = (h.set root key (.object h.length))[id]? := by
    intro id hlt hid
    rw [hstep.same id (by omega) (by grind), List.getElem?_append_left (by simpa using hlt)]
  have hfrom : ∀ id ∈ new, id ∈ own ∨ h.length ≤ id := fun id hid => by
    have hsource := hstep.source id hid
    grind
  refine hbecomes h' _ _ new hs ⟨hstep.nodup, fun id hid => ?_, by have := hstep.grows; omega,
    fun id hlt hid => ?_⟩ (by grind) ?_
  · exact (hfrom id hid).imp_left fun hmem => by grind
  · rw [hbefore id hlt (by grind), getElem?_set_of_ne (by grind)]
  · rw [hbefore root hroot (by grind), getElem?_set_self hentries]

theorem sectionAt_of_not_map {part : Text}
    (hnot : Table.get? (.text part) t = none ∨ ∃ w, Table.get? (.text part) t = some w ∧ w.entries? = none) :
    sectionAt part t = [] := by
  unfold sectionAt
  split
  next entries hget =>
    rcases hnot with hnone | ⟨w, hw, hplain⟩
    · simp [hnone] at hget
    · obtain rfl := Option.some.inj (hw.symm.trans hget)
      cases hplain
  next => rfl

/-- Setting a value at a path in place makes of the settings of a mapping what setting makes of settings. -/
theorem becomes_put (ht : Holds h [.object root] [.map t] ids) (hd : Holds h [d] [v] own)
    (hids : (ids ++ own).Nodup) (parts : List Text) :
    Becomes h (h.put d parts root) root ids own (placed v parts t) := by
  induction parts generalizing h root t ids with
  | nil => exact ⟨ids, .refl (by grind) own, ht⟩
  | cons part rest ih =>
    rcases rest with _ | ⟨next, rest⟩
    · exact becomes_set ht hd hids _
    change Becomes h _ root ids own
      (Table.put (.text part) (.map (placed v (next :: rest) (sectionAt part t))) t)
    by_cases hold : ∃ id, Table.get? (.text part) (h.entriesOf root) = some (.object id)
    · obtain ⟨inner, hinner⟩ := hold
      obtain ⟨section_, mid, hsection, hmid, hnodup, hbecomes⟩ := ht.becomes_inner hids hinner
      rw [put_of_object hinner, sectionAt, hsection]
      exact hbecomes _ _ (ih hmid hd hnodup)
    · rw [put_of_not_object hold, sectionAt_of_not_map (ht.get?_of_not_object hold)]
      have hlt := hd.lt_length
      have hroot : root ∈ ids := by
        obtain ⟨_, _, rfl, -⟩ := holds_object_iff.mp ht
        exact List.mem_cons_self
      have hempty : Holds (h.set root (.text part) (.object h.length) ++ [[]]) [.object h.length] [.map []]
          [h.length] :=
        holds_object_iff.mpr ⟨[], [], rfl, by simp, rfl, .nil⟩
      have hd : Holds (h.set root (.text part) (.object h.length)) [d] [v] own :=
        hd.frame fun id hid => getElem?_set_of_ne (by grind) _ _
      exact ht.becomes_new hids _ (ih hempty (hd.extend _) (by grind))

end

/-- A mapping holds settings in which no mapping stands twice. -/
def Stands (h : Heap) (root : Nat) (t : Settings) : Prop :=
  ∃ ids, Holds h [.object root] [.map t] ids ∧ ids.Nodup

section

variable {h : Heap} {root : Nat} {t s : Settings}

theorem exists_holds_pair {source : Nat} {vs : List Value} {ids : List Nat}
    (hboth : Holds h [.object root, .object source] vs ids) (hids : ids.Nodup) :
    ∃ t s own more, Holds h [.object root] [.map t] own ∧ Holds h [.object source] [.map s] more ∧
      (own ++ more).Nodup := by
  cases hboth with
  | object hentries hkeys hvalues hrest =>
    obtain ⟨w, rfl⟩ := List.length_eq_one_iff.mp hrest.length_eq.symm
    obtain ⟨s, rfl⟩ := hrest.exists_map
    exact ⟨_, s, _, _, holds_object_iff.mpr ⟨_, _, rfl, hentries, hkeys, hvalues⟩, hrest, hids⟩

theorem unshared_object_iff : h.Unshared [.object root] ↔ ∃ t, h.Stands root t := by
  constructor
  · intro hshared
    obtain ⟨v, ids, hroot, hids⟩ := unshared_singleton_iff.mp hshared
    obtain ⟨t, rfl⟩ := hroot.exists_map
    exact ⟨t, ids, hroot, hids⟩
  · rintro ⟨t, ids, hroot, hids⟩
    exact ⟨_, ids, hroot, hids⟩

theorem Becomes.stands {h' : Heap} {ids own : List Nat} (hbecomes : Becomes h h' root ids own t) :
    h'.Stands root t := by
  obtain ⟨after, hstep, ht⟩ := hbecomes
  exact ⟨after, ht, hstep.nodup⟩

/-- What is taken in from elsewhere is apart from what is there. -/
theorem Stands.adopt (ht : h.Stands root t) {g : Graph} {v : Value} {ids : List Nat}
    (hg : Holds g.heap [g.root] [v] ids) (hids : ids.Nodup) :
    ∃ old new, Holds (h.adopt g).1 [.object root] [.map t] old ∧
      Holds (h.adopt g).1 [(h.adopt g).2] [v] new ∧ (old ++ new).Nodup := by
  obtain ⟨old, ht, hold⟩ := ht
  obtain ⟨more, new, hmore, hv, hnew, hfresh⟩ := grows_adopt hg hids h
  refine ⟨old, new, hmore ▸ ht.extend more, hv, List.nodup_append'.mpr ⟨hold, hnew, fun id hid hin => ?_⟩⟩
  exact absurd (ht.lt_length id hid) (Nat.not_lt.mpr (hfresh id hin))

theorem mergeGraph_of_object {g : Graph} {source : Nat} (hsource : (h.adopt g).2 = .object source) :
    h.mergeGraph g root = (h.adopt g).1.merge root source := by
  unfold Heap.mergeGraph
  generalize h.adopt g = adopted at hsource
  obtain ⟨h, d⟩ := adopted
  obtain rfl : d = .object source := hsource
  rfl

theorem Stands.mergeGraph (ht : h.Stands root t) {g : Graph} {ids : List Nat}
    (hg : Holds g.heap [g.root] [.map s] ids) (hids : ids.Nodup) :
    ∃ h', h.mergeGraph g root = .ok h' ∧ h'.Stands root (merged t s) := by
  obtain ⟨old, new, ht, hs, hnodup⟩ := ht.adopt hg hids
  rcases hs.plain_or_object with ⟨hplain, -⟩ | ⟨source, _, hsource, -⟩
  · cases hplain
  rw [hsource] at hs
  obtain ⟨h', hmerge, hbecomes⟩ := becomes_merge ht hs hnodup
  exact ⟨h', (mergeGraph_of_object hsource).trans hmerge, hbecomes.stands⟩

theorem Stands.putAssignment (ht : h.Stands root t) (a : Settings.Assignment) :
    (h.putAssignment a root).Stands root (placed a.value a.parts t) := by
  obtain ⟨ids, hv, hids⟩ := exists_holds_ofValue a.value
  obtain ⟨old, new, ht, hv, hnodup⟩ := ht.adopt hv hids
  exact (becomes_put ht hv hnodup a.parts).stands

theorem Stands.settings (ht : h.Stands root t) : h.settings root = .ok t := by
  obtain ⟨ids, ht, hids⟩ := ht
  rw [Heap.settings, ht.read hids]
  rfl

end

end Heap

namespace Settings

variable (t : Settings)

theorem change_eq_ok {f : Nat → Heap → Except Refusal Heap} {s : Settings}
    (hf : ∀ h root, Heap.Stands h root t → ∃ h', f root h = .ok h' ∧ h'.Stands root s) :
    t.change f = .ok s := by
  obtain ⟨hkeys, hvalues⟩ := Heap.grows_allocateEntries t []
  obtain ⟨new, ids, -, hroot, hids, -⟩ := hvalues.object hkeys
  obtain ⟨h', hchange, hs⟩ := hf _ _ ⟨ids, hroot, hids⟩
  rw [change, ← hs.settings]
  simp [hchange, bind, Except.bind]

theorem merge_eq_merged (s : List (Value × Value)) : t.merge s = merged t s := by
  have hmerge : t.change (Heap.mergeGraph (.ofValue (.map s))) = .ok (merged t s) :=
    t.change_eq_ok fun h root ht => by
      obtain ⟨ids, hs, hids⟩ := Heap.exists_holds_ofValue (.map s)
      exact ht.mergeGraph hs hids
  rw [merge, hmerge]
  rfl

theorem assign_eq_placed {lead name text : Text} {v : Value} (hv : ofText text = .ok v) :
    t.assign lead name text = .ok (placed v (nameParts [] (Text.lower (name.drop lead.length))) t) :=
  t.change_eq_ok fun h root ht =>
    ⟨_, by rw [Heap.assign, assignment, hv]; rfl, ht.putAssignment ⟨_, v⟩⟩

end Settings

end RoutePattern
