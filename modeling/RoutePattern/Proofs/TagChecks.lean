import RoutePattern.Proofs.Tagging

/-!
Where a tag is checked. A tagged route by itself is handed the whole value and refuses a wrong tag. Within a
longer route it is handed nothing but the entries of its captures, so that no tag is ever looked at.
-/

namespace RoutePattern

namespace Table

theorem get?_filter {κ α : Type} [BEq κ] {key : κ} {t : Table κ α} {p : κ × α → Bool}
    (h : ∀ e ∈ t, (e.1 == key) = true → p e = true) : get? key (t.filter p) = get? key t := by
  induction t with
  | nil => rfl
  | cons e rest ih =>
    obtain ⟨he, hrest⟩ := List.forall_mem_cons.mp h
    have ih := ih hrest
    cases hp : p e with
    | true => rw [List.filter_cons_of_pos hp, get?, get?, ih]
    | false =>
      have hkey : (e.1 == key) = false := by
        rw [Bool.eq_false_iff]
        intro hkey
        simp [he hkey] at hp
      rw [List.filter_cons_of_neg (by simp [hp]), ih, get?, hkey]
      rfl

/-- The entries of a mapping under other keys than a text. -/
def without (key : Text) (entries : Table Value Value) : Table Value Value :=
  entries.filter fun entry => !(entry.1 == Value.text key)

end Table

theorem lookUp_without {key : Text} {k : Key} (hne : k ≠ .name key) (entries : Table Value Value) :
    (Value.map (entries.without key)).lookUp k = (Value.map entries).lookUp k := by
  have hget : Table.get? k.value (entries.without key) = Table.get? k.value entries := by
    refine Table.get?_filter fun entry _ hk => ?_
    rw [Bool.not_eq_true', Bool.eq_false_iff]
    intro htext
    rw [Value.beq_text.mp htext] at hk
    have hvalue : k.value = (Key.name key).value := Value.text_beq.mp hk
    have hbeq := Key.value_beq k (.name key)
    rw [hvalue] at hbeq
    exact hne (beq_iff_eq.mp (hbeq.symm.trans (Value.text_beq_self key)))
  rw [Value.lookUp, Value.lookUp, hget]

namespace SchemaItem

variable {σ : Type}

/-- A schema pairs the keys of its captures only. -/
def Keyed : SchemaItem σ → Prop
  | bare _ => True
  | attached _ cs keys => ∀ entry ∈ keys, entry.1 ∈ cs.map Capture.key

theorem localize_congr {v w : Value} {keys : Table Key Key}
    (h : ∀ entry ∈ keys, v.lookUp entry.1 = w.lookUp entry.1) : localize v keys = localize w keys := by
  induction keys with
  | nil => rfl
  | cons entry rest ih =>
    obtain ⟨hentry, hrest⟩ := List.forall_mem_cons.mp h
    rw [localize, localize, hentry, ih hrest]

end SchemaItem

namespace Pattern

mutual

theorem keyed_schemaItems (first : Nat) (optional multiple : Bool) : (p : Pattern Schema) →
    ∀ item ∈ p.schemaItems first optional multiple, item.Keyed
  | literal _, _, h => by cases h
  | param _, _, h => by
    obtain rfl := List.mem_singleton.mp h
    trivial
  | unnamed, _, h => by
    obtain rfl := List.mem_singleton.mp h
    trivial
  | modified _ inner, item, h => keyed_schemaItems first _ _ inner item h
  | prefixed _ inner, item, h => keyed_schemaItems first _ _ inner item h
  | concat left right _, item, h => by
    rcases List.mem_append.mp h with h | h
    · exact keyed_schemaItems _ _ _ left item h
    · exact keyed_schemaItems _ _ _ right item h
  | queryParam _ _, _, h => by cases h
  | queryParams previous entries, item, h => by
    rcases List.mem_append.mp h with h | h
    · exact keyed_schemaItems _ _ _ previous item h
    · exact keyed_entryItems _ _ _ entries item h
  | withSchema inner schema, item, h => by
    obtain rfl := List.mem_singleton.mp h
    intro entry hentry
    rcases Table.mem_keys_putAll.mp (List.mem_map_of_mem hentry) with hnil | hkey
    · cases hnil
    · obtain ⟨pair, hpair, hfst⟩ := List.mem_map.mp hkey
      rw [← List.map_uncurry_zip_eq_zipWith] at hpair
      obtain ⟨⟨c, d⟩, hzip, rfl⟩ := List.mem_map.mp hpair
      refine List.mem_map.mpr ⟨_, List.mem_map_of_mem (List.of_mem_zip hzip).1, hfst⟩

theorem keyed_entryItems (first : Nat) (optional multiple : Bool) :
    (entries : List (Text × Pattern Schema)) →
    ∀ item ∈ entryItems first optional multiple entries, item.Keyed
  | [], _, h => by cases h
  | (_, value) :: rest, item, h => by
    rcases List.mem_append.mp h with h | h
    · exact keyed_schemaItems _ _ _ value item h
    · exact keyed_entryItems _ _ _ rest item h

end

mutual

/-- How many items there are does not depend on what stands around a pattern. -/
theorem length_schemaItems (first : Nat) (optional multiple : Bool) : (p : Pattern Schema) →
    (p.schemaItems first optional multiple).length = (p.schemaItems 0 false false).length
  | literal _ => rfl
  | param _ => rfl
  | unnamed => rfl
  | modified _ inner =>
    (length_schemaItems first _ _ inner).trans (length_schemaItems 0 _ _ inner).symm
  | prefixed _ inner => length_schemaItems first optional multiple inner
  | concat left right _ => by
    simp only [schemaItems, List.length_append]
    rw [length_schemaItems first _ _ left, length_schemaItems _ _ _ right,
      length_schemaItems (0 + _) _ _ right]
  | queryParam _ _ => rfl
  | queryParams previous entries => by
    simp only [schemaItems, List.length_append]
    rw [length_schemaItems first _ _ previous, length_entryItems _ _ _ entries,
      length_entryItems (0 + _) _ _ entries]
  | withSchema _ _ => rfl

theorem length_entryItems (first : Nat) (optional multiple : Bool) :
    (entries : List (Text × Pattern Schema)) →
    (entryItems first optional multiple entries).length = (entryItems 0 false false entries).length
  | [] => rfl
  | (_, value) :: rest => by
    simp only [entryItems, List.length_append]
    rw [length_schemaItems first _ _ value, length_entryItems _ _ _ rest,
      length_entryItems (0 + _) _ _ rest]

end

theorem length_schemaItems_merge (p q : Pattern Schema) (s : Schema) :
    ((p.merge (withSchema q s)).schemaItems 0 false false).length =
      (p.schemaItems 0 false false).length + 1 := by
  have hright : (withSchema q s).isEmptyLiteral = false := rfl
  cases hleft : p.isEmptyLiteral with
  | true =>
    cases p with
    | literal _ => simp only [merge, hright, hleft]; rfl
    | _ => cases hleft
  | false =>
    simp [merge, hright, hleft, schemaItems]

theorem length_schemaItems_append (p q : Pattern Schema) (s : Schema) :
    ((p.append (withSchema q s)).schemaItems 0 false false).length =
      (p.schemaItems 0 false false).length + 1 := by
  cases p with
  | queryParams previous entries =>
    have hentries (first : Nat) := length_entryItems first false false entries
    simp only [append, schemaItems, List.length_append, hentries, length_schemaItems_merge]
    omega
  | _ => exact List.length_append

end Pattern

namespace Schema

variable {items : List (SchemaItem Schema)} {key tag : Text} {entries : Table Value Value}

theorem encodeItems_congr {v w : Value} (hkeyed : ∀ item ∈ items, item.Keyed)
    (h : ∀ c ∈ items.flatMap SchemaItem.captures, v.lookUp c.key = w.lookUp c.key) :
    encodeItems v items = encodeItems w items := by
  induction items with
  | nil => rfl
  | cons item rest ih =>
    obtain ⟨hitem, hrest⟩ := List.forall_mem_cons.mp hkeyed
    rw [List.flatMap_cons] at h
    obtain ⟨hown, hothers⟩ := List.forall_mem_append.mp h
    have ih := ih hrest hothers
    cases item with
    | bare c =>
      rw [encodeItems, encodeItems, ownEntry, ownEntry, hown c (List.mem_singleton_self c), ih]
    | attached schema cs keys =>
      have hlocal : SchemaItem.localize v keys = SchemaItem.localize w keys := by
        refine SchemaItem.localize_congr fun entry hentry => ?_
        obtain ⟨c, hc, hkey⟩ := List.mem_map.mp (hitem entry hentry)
        exact hkey ▸ hown c hc
      rw [encodeItems, encodeItems, hlocal, ih]

theorem encodeSole_of_length {v : Value} (h : items.length ≠ 1) : encodeSole v items = none := by
  match items with
  | [] => rfl
  | [_] => simp at h
  | .bare _ :: _ :: _ => rfl
  | .attached .. :: _ :: _ => rfl

/-- Entries that are those of no capture do not count for the schema of a longer route. -/
theorem encode_without (hlength : items.length ≠ 1) (hkeyed : ∀ item ∈ items, item.Keyed)
    (hkey : ∀ c ∈ items.flatMap SchemaItem.captures, c.key ≠ .name key) :
    (route items).encode (.map entries) = (route items).encode (.map (entries.without key)) := by
  have hitems : encodeItems (.map entries) items = encodeItems (.map (entries.without key)) items :=
    encodeItems_congr hkeyed fun c hc => (lookUp_without (hkey c hc) entries).symm
  rw [encode, encode, encodeSole_of_length hlength, encodeSole_of_length hlength]
  simp only [hitems]

theorem encode_tagged_wrong (inner : Schema) {v : Value} (hv : Table.get? (.text key) entries = some v)
    (hwrong : v ≠ .text tag) :
    ∃ message, (inner.tagged tag key).encode (.map entries) =
      .error (.issues [⟨.transform, [], message⟩]) := by
  have hbeq : (v == Value.text tag) = false := by
    rw [Bool.eq_false_iff]
    exact fun h => hwrong (Value.beq_text.mp h)
  have hrefused : ∃ r, (tagging tag key).encode (.map entries) = .error (.refusal r) ∧
      isReported r = true := by
    simp only [tagging, hv, hbeq, Value.quotedOf]
    cases v.quoted with
    | ok shown => exact ⟨_, rfl, rfl⟩
    | error fault => exact ⟨_, rfl, rfl⟩
  obtain ⟨r, hr, hreported⟩ := hrefused
  refine ⟨r.message, ?_⟩
  simp [tagged, encode, hr, applied, hreported, SchemaFault.single, Except.bind]

end Schema

namespace Route

theorem encode_addTag_wrong {r : Route} {tag key : Text} {entries : Table Value Value} {v : Value}
    (hpath : r.pattern.strayParam? = none) (hv : Table.get? (.text key) entries = some v)
    (hwrong : v ≠ .text tag) :
    ∃ message fault, (r.addTag tag key).encode (.map entries) = .ok (.error fault) ∧
      RoutingFault.encodeFailed (some r.pattern.path) [.issue ⟨.transform, [], message⟩] =
        .ok fault := by
  obtain ⟨message, hinner⟩ := Schema.encode_tagged_wrong r.schema hv hwrong
  have hschema : (r.addTag tag key).schema.encode (.map entries) =
      .error (.issues [⟨.transform, [], message⟩]) := by
    simp only [schema, addTag, withSchema, Pattern.schema, Pattern.schemaItems, Schema.encode,
      Schema.encodeSole] at hinner ⊢
    rw [hinner]
    rfl
  have hwritten : (r.addTag tag key).path? = .ok r.pattern.path := by
    have hstray : (r.addTag tag key).pattern.strayParam? = none := hpath
    rw [path?, Pattern.path?, hstray]
    rfl
  refine ⟨message, _, ?_, rfl⟩
  simp only [encode, hschema, encodeFault, hwritten]
  rfl

/-- A tag is checked where the tagged route stands alone: a wrong one is refused. Behind a route with captures of
its own the value is encoded as if it had no entry for the tag. -/
theorem tag_checked_alone {l r : Route} {tag key : Text} (hcaptures : l.schema.captures ≠ [])
    (hpath : r.pattern.strayParam? = none)
    (hkey : ∀ c ∈ (l.append (r.addTag tag key)).schema.captures, c.key ≠ .name key)
    (entries : Table Value Value) :
    (∀ v, Table.get? (.text key) entries = some v → v ≠ .text tag →
      ∃ message fault, (r.addTag tag key).encode (.map entries) = .ok (.error fault) ∧
        RoutingFault.encodeFailed (some r.pattern.path) [.issue ⟨.transform, [], message⟩] =
          .ok fault) ∧
    (l.append (r.addTag tag key)).encode (.map entries) =
      (l.append (r.addTag tag key)).encode (.map (entries.without key)) := by
  refine ⟨fun v => encode_addTag_wrong hpath, ?_⟩
  have hitems : l.pattern.schemaItems 0 false false ≠ [] := by
    intro hnil
    simp [schema, Pattern.schema, Schema.captures, hnil] at hcaptures
  have hlength : ((l.append (r.addTag tag key)).pattern.schemaItems 0 false false).length =
      (l.pattern.schemaItems 0 false false).length + 1 :=
    Pattern.length_schemaItems_append l.pattern r.pattern (r.schema.tagged tag key)
  have hpos := List.length_pos_iff.mpr hitems
  have hschema : (l.append (r.addTag tag key)).schema.encode (.map entries) =
      (l.append (r.addTag tag key)).schema.encode (.map (entries.without key)) :=
    Schema.encode_without (by omega) (Pattern.keyed_schemaItems 0 false false _) hkey
  rw [encode, encode, hschema]

theorem tag_checked_alone_text :
    let l : Route := ⟨.param "a", false⟩
    let r := paramWith "n" .text false
    let entries : Table Value Value :=
      [(.text "a", .text "x"), (.text "n", .text "5"), (.text "_tag", .text "u")]
    l.schema.captures ≠ [] ∧ r.pattern.strayParam? = none ∧
      (∀ c ∈ (l.append (r.addTag "t" "_tag")).schema.captures, c.key ≠ .name "_tag") ∧
      (∃ message fault, (r.addTag "t" "_tag").encode (.map entries) = .ok (.error fault) ∧
        RoutingFault.encodeFailed (some r.pattern.path) [.issue ⟨.transform, [], message⟩] =
          .ok fault) ∧
      (l.append (r.addTag "t" "_tag")).encode (.map entries) =
        (l.append (r.addTag "t" "_tag")).encode (.map (entries.without "_tag")) := by
  intro l r entries
  have hcaptures : l.schema.captures ≠ [] := nofun
  have hkey : ∀ c ∈ (l.append (r.addTag "t" "_tag")).schema.captures, c.key ≠ .name "_tag" := by decide
  obtain ⟨halone, hlonger⟩ := tag_checked_alone hcaptures rfl hkey entries
  have hentry : Table.get? (.text "_tag") entries = some (.text "u") := by rfl
  exact ⟨hcaptures, rfl, hkey, halone _ hentry (by simp), hlonger⟩

/-- Behind another capture a wrong tag goes through. -/
theorem wrong_tag_encoded :
    let l : Route := ⟨.param "a", false⟩
    let r := (paramWith "n" .text false).addTag "t" "_tag"
    let v : Value := .map [(.text "a", .text "x"), (.text "n", .text "5"), (.text "_tag", .text "u")]
    (∃ fault, r.encode v = .ok (.error fault)) ∧ (l.append r).encode v = .ok (.ok "/x/5") :=
  ⟨⟨_, rfl⟩, rfl⟩

end Route

end RoutePattern
