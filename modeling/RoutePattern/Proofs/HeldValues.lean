import Mathlib.Data.List.Perm.Subperm
import RoutePattern.Proofs.DistinctKeys
import RoutePattern.Value.Heap

/-!
Which values stand in a heap, and through which mappings. Where no mapping stands twice, a change to some
mappings is seen only in the values that go through them.
-/

namespace RoutePattern

theorem Table.put_of_get? {κ α : Type} [BEq κ] {key : κ} {value : α} {t : Table κ α}
    (h : get? key t = some value) : put key value t = t := by
  induction t with
  | nil => cases h
  | cons e rest ih =>
    obtain ⟨k, a⟩ := e
    unfold get? at h
    split at h
    next hkey =>
      obtain rfl := Option.some.inj h
      simp [put, hkey]
    next hkey => simp [put, hkey, ih h]

namespace Heap

theorem entriesOf_eq {h : Heap} {id : Nat} {entries : Table Value Datum}
    (hentries : h[id]? = some entries) : h.entriesOf id = entries := by
  rw [entriesOf, hentries, Option.getD_some]

/-- Data stand for values, through mappings with the given numbers. A number comes once for each place in which
its mapping stands. -/
inductive Holds (h : Heap) : List Datum → List Value → List Nat → Prop
  | nil : Holds h [] [] []
  | plain {v : Value} {ds : List Datum} {vs : List Value} {ids : List Nat} (hv : v.entries? = none)
      (hrest : Holds h ds vs ids) : Holds h (.plain v :: ds) (v :: vs) ids
  | list {items ds : List Datum} {ws vs : List Value} {own ids : List Nat} (hitems : Holds h items ws own)
      (hrest : Holds h ds vs ids) : Holds h (.list items :: ds) (.list ws :: vs) (own ++ ids)
  | tuple {items ds : List Datum} {ws vs : List Value} {own ids : List Nat} (hitems : Holds h items ws own)
      (hrest : Holds h ds vs ids) : Holds h (.tuple items :: ds) (.tuple ws :: vs) (own ++ ids)
  | object {id : Nat} {entries : Table Value Datum} {es : List (Value × Value)} {ds : List Datum}
      {vs : List Value} {own ids : List Nat} (hentries : h[id]? = some entries)
      (hkeys : entries.keys = Table.keys es) (hvalues : Holds h (entries.map (·.2)) (es.map (·.2)) own)
      (hrest : Holds h ds vs ids) : Holds h (.object id :: ds) (.map es :: vs) (id :: own ++ ids)

/-- Whether no mapping stands twice in what data stand for. -/
def Unshared (h : Heap) (ds : List Datum) : Prop := ∃ vs ids, Holds h ds vs ids ∧ ids.Nodup

section

variable {h : Heap} {d : Datum} {ds : List Datum} {v : Value} {vs : List Value} {ids own : List Nat}

theorem Holds.append (hds : Holds h ds vs ids) {others : List Datum} {ws : List Value}
    {more : List Nat} (hothers : Holds h others ws more) :
    Holds h (ds ++ others) (vs ++ ws) (ids ++ more) := by
  induction hds with
  | nil => exact hothers
  | plain hv _ ih => exact .plain hv ih
  | list hitems _ _ ih => simpa using Holds.list hitems ih
  | tuple hitems _ _ ih => simpa using Holds.tuple hitems ih
  | object hentries hkeys hvalues _ _ ih => simpa using Holds.object hentries hkeys hvalues ih

theorem holds_cons_iff : Holds h (d :: ds) (v :: vs) ids ↔
    ∃ own others, ids = own ++ others ∧ Holds h [d] [v] own ∧ Holds h ds vs others := by
  constructor
  · intro hds
    cases hds with
    | plain hv hrest => exact ⟨[], _, rfl, .plain hv .nil, hrest⟩
    | list hitems hrest => exact ⟨_, _, rfl, by simpa using Holds.list hitems .nil, hrest⟩
    | tuple hitems hrest => exact ⟨_, _, rfl, by simpa using Holds.tuple hitems .nil, hrest⟩
    | object hentries hkeys hvalues hrest =>
      exact ⟨_, _, rfl, by simpa using Holds.object hentries hkeys hvalues .nil, hrest⟩
  · rintro ⟨own, others, rfl, hd, hds⟩
    exact hd.append hds

theorem Holds.length_eq (hds : Holds h ds vs ids) : ds.length = vs.length := by
  induction hds with
  | nil => rfl
  | plain _ _ ih => simp [ih]
  | list _ _ _ ih => simp [ih]
  | tuple _ _ _ ih => simp [ih]
  | object _ _ _ _ _ ih => simp [ih]

theorem unshared_singleton_iff : h.Unshared [d] ↔ ∃ v ids, Holds h [d] [v] ids ∧ ids.Nodup := by
  constructor
  · rintro ⟨vs, ids, hd, hids⟩
    obtain ⟨v, rfl⟩ := List.length_eq_one_iff.mp hd.length_eq.symm
    exact ⟨v, ids, hd, hids⟩
  · rintro ⟨v, ids, hd, hids⟩
    exact ⟨[v], ids, hd, hids⟩

theorem holds_object_iff {id : Nat} {es : List (Value × Value)} : Holds h [.object id] [.map es] ids ↔
    ∃ entries own, ids = id :: own ∧ h[id]? = some entries ∧ entries.keys = Table.keys es ∧
      Holds h (entries.map (·.2)) (es.map (·.2)) own := by
  constructor
  · intro hd
    cases hd with
    | object hentries hkeys hvalues hrest =>
      cases hrest
      exact ⟨_, _, by simp, hentries, hkeys, hvalues⟩
  · rintro ⟨entries, own, rfl, hentries, hkeys, hvalues⟩
    simpa using Holds.object hentries hkeys hvalues .nil

theorem Holds.exists_map {id : Nat} (hd : Holds h [.object id] [v] ids) : ∃ es, v = .map es := by
  cases hd with
  | object => exact ⟨_, rfl⟩

theorem Holds.plain_or_object (hd : Holds h [d] [v] ids) :
    (v.entries? = none ∧ ∀ id, d ≠ .object id) ∨ ∃ id es, d = .object id ∧ v = .map es := by
  cases hd with
  | plain hv => exact .inl ⟨hv, nofun⟩
  | list => exact .inl ⟨rfl, nofun⟩
  | tuple => exact .inl ⟨rfl, nofun⟩
  | object => exact .inr ⟨_, _, rfl, rfl⟩

/-- Only the mappings that a value goes through count for it. -/
theorem Holds.frame (hds : Holds h ds vs ids) {h' : Heap} (hsame : ∀ id ∈ ids, h'[id]? = h[id]?) :
    Holds h' ds vs ids := by
  induction hds with
  | nil => exact .nil
  | plain hv _ ih => exact .plain hv (ih hsame)
  | list _ _ ihitems ih =>
    obtain ⟨hitems, hrest⟩ := List.forall_mem_append.mp hsame
    exact .list (ihitems hitems) (ih hrest)
  | tuple _ _ ihitems ih =>
    obtain ⟨hitems, hrest⟩ := List.forall_mem_append.mp hsame
    exact .tuple (ihitems hitems) (ih hrest)
  | object hentries hkeys _ _ ihvalues ih =>
    obtain ⟨⟨hid, hown⟩, hrest⟩ := by simpa only [List.forall_mem_append, List.forall_mem_cons] using hsame
    exact .object (hid.trans hentries) hkeys (ihvalues hown) (ih hrest)

theorem Holds.lt_length (hds : Holds h ds vs ids) : ∀ id ∈ ids, id < h.length := by
  induction hds with
  | nil => simp
  | plain _ _ ih => exact ih
  | list _ _ ihitems ih => exact List.forall_mem_append.mpr ⟨ihitems, ih⟩
  | tuple _ _ ihitems ih => exact List.forall_mem_append.mpr ⟨ihitems, ih⟩
  | object hentries _ _ _ ihvalues ih =>
    obtain ⟨hlt, -⟩ := List.getElem?_eq_some_iff.mp hentries
    exact List.forall_mem_append.mpr ⟨List.forall_mem_cons.mpr ⟨hlt, ihvalues⟩, ih⟩

theorem Holds.extend (hds : Holds h ds vs ids) (new : Heap) : Holds (h ++ new) ds vs ids :=
  hds.frame fun _ hid => List.getElem?_append_left (hds.lt_length _ hid)

theorem Holds.proper (hds : Holds h ds vs ids) (hkeys : h.Distinct) : ∀ v ∈ vs, v.Proper := by
  induction hds with
  | nil => simp
  | plain hv _ ih => exact List.forall_mem_cons.mpr ⟨.plain hv, ih⟩
  | list _ _ _ ih => exact List.forall_mem_cons.mpr ⟨.plain rfl, ih⟩
  | tuple _ _ _ ih => exact List.forall_mem_cons.mpr ⟨.plain rfl, ih⟩
  | object hentries hsame _ _ ihvalues ih =>
    refine List.forall_mem_cons.mpr ⟨.map ?_ fun e he => ihvalues _ (List.mem_map_of_mem he), ih⟩
    have hdistinct := hkeys _ (List.mem_of_getElem? hentries)
    rwa [Table.Distinct, hsame] at hdistinct

theorem zip_keys (es : List (Value × Value)) : (Table.keys es).zip (es.map (·.2)) = es := by
  induction es with
  | nil => rfl
  | cons e rest ih => simpa [Table.keys] using ih

theorem Holds.values? (hds : Holds h ds vs ids) {depth : Nat} (hdepth : ids.length ≤ depth) :
    Datum.values? (h.mapping? depth) ds = some vs := by
  induction hds generalizing depth with
  | nil => rfl
  | plain _ _ ih => simp [Datum.values?, Datum.value?, ih hdepth]
  | list _ _ ihitems ih =>
    rw [List.length_append] at hdepth
    simp [Datum.values?, Datum.value?, ihitems (by omega : _ ≤ depth), ih (by omega : _ ≤ depth)]
  | tuple _ _ ihitems ih =>
    rw [List.length_append] at hdepth
    simp [Datum.values?, Datum.value?, ihitems (by omega : _ ≤ depth), ih (by omega : _ ≤ depth)]
  | @object id _ es _ _ _ _ hentries hkeys _ _ ihvalues ih =>
    rw [List.length_append, List.length_cons] at hdepth
    obtain ⟨depth, rfl⟩ : ∃ inner, depth = inner + 1 := ⟨depth - 1, by omega⟩
    have hmapping : h.mapping? (depth + 1) id = some (.map es) := by
      rw [mapping?, hentries]
      simp [ihvalues (by omega : _ ≤ depth), hkeys, zip_keys]
    simp [Datum.values?, Datum.value?, hmapping, ih (by omega : _ ≤ depth + 1)]

theorem length_le_of_nodup (hids : ids.Nodup) (hlt : ∀ id ∈ ids, id < h.length) :
    ids.length ≤ h.length := by
  simpa using (hids.subperm fun id hid => List.mem_range.mpr (hlt id hid)).length_le

theorem Holds.read (hd : Holds h [d] [v] ids) (hids : ids.Nodup) : h.read d = .ok v := by
  have hvalues := hd.values? (length_le_of_nodup hids hd.lt_length)
  have hvalue : d.value? (h.mapping? h.length) = some v := by
    simpa [Datum.values?, Option.bind_eq_some_iff] using hvalues
  rw [Heap.read, hvalue]

/-- What is found in a heap stands for what is found in a value. -/
inductive HoldsFound (h : Heap) : Option Datum → Option Value → List Nat → Prop
  | none : HoldsFound h none none []
  | some {d : Datum} {v : Value} {ids : List Nat} (hd : Holds h [d] [v] ids) :
      HoldsFound h (some d) (some v) ids

/-- The value of a key, and what stands in its place once another one is put in there. -/
theorem Holds.at_key {entries : Table Value Datum} {es : List (Value × Value)}
    (hkeys : entries.keys = Table.keys es) (hvalues : Holds h (entries.map (·.2)) (es.map (·.2)) own)
    (key : Value) : ∃ left mid right, own = left ++ mid ++ right ∧
      HoldsFound h (Table.get? key entries) (Table.get? key es) mid ∧
      ∀ (h' : Heap) (d : Datum) (v : Value) (ids : List Nat), Holds h' [d] [v] ids →
        (∀ id ∈ left ++ right, h'[id]? = h[id]?) →
        (Table.put key d entries).keys = (Table.put key v es).keys ∧
          Holds h' ((Table.put key d entries).map (·.2)) ((Table.put key v es).map (·.2))
            (left ++ ids ++ right) := by
  induction entries generalizing es own with
  | nil =>
    obtain rfl : es = [] := by simpa [Table.keys] using hkeys.symm
    cases hvalues
    exact ⟨[], [], [], rfl, .none, fun h' d v ids hd _ => ⟨rfl, by simpa [Table.put] using hd⟩⟩
  | cons e rest ih =>
    obtain ⟨k, d₀⟩ := e
    rcases es with _ | ⟨⟨k', v₀⟩, es⟩
    · simp [Table.keys] at hkeys
    obtain ⟨rfl, hrest⟩ : k = k' ∧ Table.keys rest = Table.keys es := by simpa [Table.keys] using hkeys
    obtain ⟨first, others, rfl, hfirst, hothers⟩ := holds_cons_iff.mp hvalues
    cases hkey : k == key with
    | true =>
      refine ⟨[], first, others, rfl, by simpa [Table.get?, hkey] using HoldsFound.some hfirst,
        fun h' d v ids hd hsame => ?_⟩
      simp only [Table.put, hkey, if_true, List.map_cons, List.nil_append]
      exact ⟨by simpa [Table.keys] using hrest, hd.append (hothers.frame hsame)⟩
    | false =>
      obtain ⟨left, mid, right, rfl, hfound, hput⟩ := ih hrest hothers
      refine ⟨first ++ left, mid, right, by simp, by simpa [Table.get?, hkey] using hfound,
        fun h' d v ids hd hsame => ?_⟩
      rw [List.append_assoc] at hsame
      obtain ⟨hsameFirst, hsame⟩ := List.forall_mem_append.mp hsame
      obtain ⟨hkeys, hvalues⟩ := hput h' d v ids hd hsame
      simp only [Table.put, hkey, Bool.false_eq_true, if_false, List.map_cons]
      refine ⟨by simpa [Table.keys] using hkeys, ?_⟩
      simpa using (hfirst.frame hsameFirst).append hvalues

theorem Holds.found {id : Nat} {es : List (Value × Value)} (hes : Holds h [.object id] [.map es] ids)
    (key : Value) :
    ∃ mid, HoldsFound h (Table.get? key (h.entriesOf id)) (Table.get? key es) mid ∧ mid.Sublist ids := by
  obtain ⟨entries, own, rfl, hentries, hkeys, hvalues⟩ := holds_object_iff.mp hes
  obtain ⟨left, mid, right, rfl, hfound, -⟩ := hvalues.at_key hkeys key
  rw [← entriesOf_eq hentries] at hfound
  exact ⟨mid, hfound, ((List.sublist_append_right left mid).trans
    (List.sublist_append_left _ right)).cons id⟩

end

/-- A heap has got new mappings, and data stand for values through these alone. -/
def Grows (h h' : Heap) (ds : List Datum) (vs : List Value) : Prop :=
  ∃ new ids, h' = h ++ new ∧ Holds h' ds vs ids ∧ ids.Nodup ∧ ∀ id ∈ ids, h.length ≤ id

section

variable {h h' h'' : Heap} {ds others : List Datum} {vs ws : List Value}

theorem Grows.append (hds : Grows h h' ds vs) (hothers : Grows h' h'' others ws) :
    Grows h h'' (ds ++ others) (vs ++ ws) := by
  obtain ⟨new, ids, rfl, hds, hids, hfresh⟩ := hds
  obtain ⟨newer, more, rfl, hothers, hmore, hfresher⟩ := hothers
  refine ⟨new ++ newer, ids ++ more, by simp, (hds.extend newer).append hothers, ?_, ?_⟩
  · refine List.nodup_append'.mpr ⟨hids, hmore, fun id hid hin => ?_⟩
    exact absurd (hds.lt_length id hid) (Nat.not_lt.mpr (hfresher id hin))
  · refine List.forall_mem_append.mpr ⟨hfresh, fun id hid => ?_⟩
    have hle := hfresher id hid
    rw [List.length_append] at hle
    omega

theorem Grows.object {entries : Table Value Datum} {es : List (Value × Value)}
    (hkeys : entries.keys = Table.keys es) (hvalues : Grows h h' (entries.map (·.2)) (es.map (·.2))) :
    Grows h (h' ++ [entries]) [.object h'.length] [.map es] := by
  obtain ⟨new, ids, rfl, hvalues, hids, hfresh⟩ := hvalues
  refine ⟨new ++ [entries], (h ++ new).length :: ids, by simp, ?_, ?_, ?_⟩
  · exact holds_object_iff.mpr ⟨entries, ids, rfl, by simp, hkeys, hvalues.extend _⟩
  · exact List.nodup_cons.mpr ⟨fun hid => Nat.lt_irrefl _ (hvalues.lt_length _ hid), hids⟩
  · exact List.forall_mem_cons.mpr ⟨by simp, hfresh⟩

end

mutual

theorem grows_allocate (v : Value) (h : Heap) : Grows h (allocate v h).1 [(allocate v h).2] [v] := by
  cases v with
  | list vs =>
    obtain ⟨new, ids, hnew, hds, hids, hfresh⟩ := grows_allocateAll vs h
    exact ⟨new, ids, hnew, by simpa [allocate] using Holds.list hds .nil, hids, hfresh⟩
  | tuple vs =>
    obtain ⟨new, ids, hnew, hds, hids, hfresh⟩ := grows_allocateAll vs h
    exact ⟨new, ids, hnew, by simpa [allocate] using Holds.tuple hds .nil, hids, hfresh⟩
  | map es => exact (grows_allocateEntries es h).2.object (grows_allocateEntries es h).1
  | _ => exact ⟨[], [], by simp [allocate], .plain rfl .nil, .nil, by simp⟩

theorem grows_allocateAll (vs : List Value) (h : Heap) :
    Grows h (allocateAll vs h).1 (allocateAll vs h).2 vs := by
  cases vs with
  | nil => exact ⟨[], [], by simp [allocateAll], .nil, .nil, by simp⟩
  | cons v rest => exact (grows_allocate v h).append (grows_allocateAll rest (allocate v h).1)

theorem grows_allocateEntries (es : List (Value × Value)) (h : Heap) :
    (allocateEntries es h).2.keys = Table.keys es ∧
      Grows h (allocateEntries es h).1 ((allocateEntries es h).2.map (·.2)) (es.map (·.2)) := by
  cases es with
  | nil => exact ⟨rfl, [], [], by simp [allocateEntries], .nil, .nil, by simp⟩
  | cons e rest =>
    obtain ⟨key, v⟩ := e
    obtain ⟨hkeys, hrest⟩ := grows_allocateEntries rest (allocate v h).1
    exact ⟨congrArg (key :: ·) hkeys, (grows_allocate v h).append hrest⟩

end

theorem renumberAll_eq_map (f : Nat → Nat) (ds : List Datum) :
    Datum.renumberAll f ds = ds.map (Datum.renumber f) := by
  induction ds with
  | nil => rfl
  | cons d rest ih => rw [Datum.renumberAll, ih, List.map_cons]

theorem Holds.renumber {g : Heap} {ds : List Datum} {vs : List Value} {ids : List Nat}
    (hds : Holds g ds vs ids) (h : Heap) :
    Holds (h ++ g.renumber (h.length + ·)) (ds.map (Datum.renumber (h.length + ·))) vs
      (ids.map (h.length + ·)) := by
  induction hds with
  | nil => exact .nil
  | plain hv _ ih => exact .plain hv ih
  | list _ _ ihitems ih => simpa [Datum.renumber, renumberAll_eq_map] using Holds.list ihitems ih
  | tuple _ _ ihitems ih => simpa [Datum.renumber, renumberAll_eq_map] using Holds.tuple ihitems ih
  | @object id entries _ _ _ _ _ hentries hkeys _ _ ihvalues ih =>
    have hget : (h ++ g.renumber (h.length + ·))[h.length + id]? =
        some (entries.map fun e => (e.1, e.2.renumber (h.length + ·))) := by
      rw [List.getElem?_append_right (Nat.le_add_right _ _), Nat.add_sub_cancel_left, Heap.renumber,
        List.getElem?_map, hentries]
      rfl
    have hsame : Table.keys (entries.map fun e => (e.1, e.2.renumber (h.length + ·))) =
        entries.keys := by
      simp [Table.keys, Function.comp_def]
    simpa [Datum.renumber] using
      Holds.object hget (hsame.trans hkeys) (by simpa [Function.comp_def] using ihvalues) ih

theorem grows_adopt {g : Graph} {v : Value} {ids : List Nat} (hg : Holds g.heap [g.root] [v] ids)
    (hids : ids.Nodup) (h : Heap) : Grows h (h.adopt g).1 [(h.adopt g).2] [v] := by
  refine ⟨_, _, rfl, hg.renumber h, hids.map fun _ _ => Nat.add_left_cancel, fun id hid => ?_⟩
  obtain ⟨old, -, rfl⟩ := List.mem_map.mp hid
  exact Nat.le_add_right _ _

theorem exists_holds_ofValue (v : Value) :
    ∃ ids, Holds (Graph.ofValue v).heap [(Graph.ofValue v).root] [v] ids ∧ ids.Nodup := by
  obtain ⟨new, ids, -, hv, hids, -⟩ := grows_allocate v []
  exact ⟨ids, hv, hids⟩

end Heap

end RoutePattern
