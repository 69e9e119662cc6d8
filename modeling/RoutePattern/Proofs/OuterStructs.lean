import RoutePattern.Proofs.StructItems

/-!
Patterns whose outermost schemas are structs. Such a pattern decodes what it matches as one struct over all
of its captures does, and it encodes likewise.
-/

namespace RoutePattern

/-- A struct whose codecs are of a kind. -/
def Schema.IsStructOver (P : Codec → Prop) : Schema → Prop
  | struct _ fields => ∀ e ∈ fields, P e.2
  | _ => False

namespace Pattern

variable {σ : Type}

mutual

/-- The schemas of a pattern that stand under no other one. -/
def outerSchemas : Pattern σ → List σ
  | modified _ inner => inner.outerSchemas
  | prefixed _ inner => inner.outerSchemas
  | concat left right _ => left.outerSchemas ++ right.outerSchemas
  | queryParam _ value => value.outerSchemas
  | queryParams previous entries => previous.outerSchemas ++ outerInEntries entries
  | withSchema _ s => [s]
  | _ => []

def outerInEntries : List (Text × Pattern σ) → List σ
  | [] => []
  | (_, value) :: rest => value.outerSchemas ++ outerInEntries rest

end

open Schema SchemaItem

variable {P : Codec → Prop}

theorem structOver_withSchema (first : Nat) (optional multiple : Bool) {inner : Pattern Schema}
    (hready : inner.Ready) {s : Schema} (hs : s.IsStructOver P)
    (hkeys : (((withSchema inner s).schemaItems first optional multiple).flatMap routeKeys).Nodup) :
    ∀ item ∈ (withSchema inner s).schemaItems first optional multiple, item.StructOver P := by
  cases s with
  | transform _ _ _ => exact absurd hs id
  | route _ => exact absurd hs id
  | struct name fields =>
    let outer := (inner.captures first false).map (·.1)
    let own := (inner.captures 0 false).map (·.1)
    let shown := outer.map fun c : Capture =>
      (⟨c.key, c.lead, c.optional || optional, c.multiple || multiple⟩ : Capture)
    have hroute : shown.map Capture.key = (own.map Capture.key).map (Key.shift first) := by
      have houter := congrArg (List.map Capture.key) (captures_eq_shift first inner)
      simp only [List.map_map] at houter
      simpa [shown, outer, own, Function.comp_def, Capture.shift] using houter
    have hitems : (withSchema inner (Schema.struct name fields)).schemaItems first optional multiple =
        [.attached (.struct name fields) shown
          (Table.ofEntries (outer.zipWith (fun c d => (c.key, d.key)) own))] := rfl
    rw [hitems, List.flatMap_singleton, routeKeys, SchemaItem.captures, hroute] at hkeys
    have hpairs : outer.zipWith (fun c d => (c.key, d.key)) own = pairing (Key.shift first) own := by
      have houter : outer = own.map (Capture.shift first) := captures_eq_shift first inner
      rw [houter, List.zipWith_map_left, List.zipWith_self]
      rfl
    rw [hpairs, ofEntries_pairing (Key.shift_injective first) hkeys.of_map] at hitems
    have hindices : (own.map Capture.key).filterMap Key.index? = List.range' 0 inner.unnamedCount := by
      rw [List.filterMap_map, List.filterMap_map]
      exact Ready.indices 0 false inner hready
    rw [hitems]
    intro item hitem
    obtain rfl := List.mem_singleton.mp hitem
    exact .attached hs hroute hindices

mutual

theorem structOver_schemaItems (first : Nat) (optional multiple : Bool) : (p : Pattern Schema) →
    p.Ready → (∀ s ∈ p.outerSchemas, s.IsStructOver P) →
    ((p.schemaItems first optional multiple).flatMap routeKeys).Nodup →
    ∀ item ∈ p.schemaItems first optional multiple, item.StructOver P
  | literal _, _, _, _ => nofun
  | param _, _, _, _ => fun _ hitem => List.mem_singleton.mp hitem ▸ .bare _
  | unnamed, _, _, _ => fun _ hitem => List.mem_singleton.mp hitem ▸ .bare _
  | modified _ inner, hready, hs, hkeys => structOver_schemaItems first _ _ inner hready.1 hs hkeys
  | prefixed _ inner, hready, hs, hkeys => structOver_schemaItems first _ _ inner hready.1 hs hkeys
  | concat left right _, hready, hs, hkeys => by
    obtain ⟨hleft, hright⟩ := List.forall_mem_append.mp hs
    rw [schemaItems, List.flatMap_append] at hkeys
    obtain ⟨hlk, hrk, -⟩ := List.nodup_append.mp hkeys
    exact List.forall_mem_append.mpr ⟨structOver_schemaItems first _ _ left hready.1 hleft hlk,
      structOver_schemaItems _ _ _ right hready.2 hright hrk⟩
  | queryParams previous entries, hready, hs, hkeys => by
    obtain ⟨hprevious, hentries⟩ := List.forall_mem_append.mp hs
    rw [schemaItems, List.flatMap_append] at hkeys
    obtain ⟨hpk, hek, -⟩ := List.nodup_append.mp hkeys
    exact List.forall_mem_append.mpr
      ⟨structOver_schemaItems first _ _ previous hready.1 hprevious hpk,
        structOver_entryItems _ _ _ entries hready.2 hentries hek⟩
  | withSchema inner s, hready, hs, hkeys =>
    structOver_withSchema first optional multiple hready (hs s (List.mem_singleton_self s)) hkeys

theorem structOver_entryItems (first : Nat) (optional multiple : Bool) :
    (entries : List (Text × Pattern Schema)) → EntriesReady entries →
    (∀ s ∈ outerInEntries entries, s.IsStructOver P) →
    ((entryItems first optional multiple entries).flatMap routeKeys).Nodup →
    ∀ item ∈ entryItems first optional multiple entries, item.StructOver P
  | [], _, _, _ => nofun
  | (_, value) :: rest, hready, hs, hkeys => by
    obtain ⟨hvalue, hrest⟩ := List.forall_mem_append.mp hs
    rw [entryItems, List.flatMap_append] at hkeys
    obtain ⟨hvk, hrk, -⟩ := List.nodup_append.mp hkeys
    exact List.forall_mem_append.mpr ⟨structOver_schemaItems first _ _ value hready.1 hvalue hvk,
      structOver_entryItems _ _ _ rest hready.2 hrest hrk⟩

end

theorem routeKeys_schemaItems {p : Pattern Schema} (h : p.Ready) :
    (p.schemaItems 0 false false).flatMap routeKeys = (p.captures 0 false).map (·.1.key) := by
  have hkeys := congrArg (List.map Prod.fst) h.signatures_schema
  rw [List.map_map, List.map_map] at hkeys
  have hcaptures : p.schema.captures = (p.schemaItems 0 false false).flatMap SchemaItem.captures := rfl
  rw [hcaptures, List.map_flatMap] at hkeys
  exact hkeys

theorem structParts {p : Pattern Schema} (hready : p.Ready)
    (hs : ∀ s ∈ p.outerSchemas, s.IsStructOver P)
    (hkeys : ((p.captures 0 false).map (·.1.key)).Nodup) :
    StructParts P (p.schemaItems 0 false false) := by
  rw [← routeKeys_schemaItems hready] at hkeys
  refine ⟨structOver_schemaItems 0 false false p hready hs hkeys, hkeys, p.unnamedCount, ?_⟩
  rw [routeKeys_schemaItems hready, List.filterMap_map]
  exact Ready.indices 0 false p hready

/-- The codec that a schema declares for a capture is of the kind that its structs have. -/
theorem of_codecFor {p : Pattern Schema} (h : StructParts P (p.schemaItems 0 false false)) {key : Value}
    {codec : Codec} (hcodec : p.schema.codecFor key = some codec) : P codec :=
  of_codecAmong h.parts hcodec

end Pattern

end RoutePattern
