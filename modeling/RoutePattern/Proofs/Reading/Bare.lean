import RoutePattern.Proofs.Captures
import RoutePattern.Proofs.Erasure
import RoutePattern.Proofs.Reading.Layout

/-!
No schema stands in what was read, so that its schema is made of nothing but its captures.
-/

namespace RoutePattern

variable {σ : Type}

namespace Pattern

theorem compositional_erase : Compositional fun p : Pattern σ => p.erase = p where
  piece piece := by
    rcases piece with _ | ⟨_ | _, _ | _, _ | _⟩ <;> rfl
  concat joined hl hr := by rw [erase, hl, hr]

theorem eraseEntries_eq_self {es : List (Text × Pattern σ)} (h : ∀ e ∈ es, e.2.erase = e.2) :
    eraseEntries es = es := by
  induction es with
  | nil => rfl
  | cons e rest ih =>
    obtain ⟨he, hrest⟩ := List.forall_mem_cons.mp h
    rw [eraseEntries, he, ih hrest]

theorem ReadSplit.erase_eq {split : QuerySplit} {p : Pattern σ} (h : ReadSplit split p) :
    p.erase = p := by
  cases h with
  | plain _ hpath => exact compositional_erase.readPath hpath
  | query _ hpath hquery =>
    rw [erase, compositional_erase.readPath hpath,
      eraseEntries_eq_self (compositional_erase.readQuery hquery)]

mutual

theorem isAttached_schemaItems_erase (first : Nat) (optional multiple : Bool) : (p : Pattern σ) →
    ∀ item ∈ (p.erase : Pattern Schema).schemaItems first optional multiple, item.isAttached = false
  | literal _, _, h => by cases h
  | param _, _, h => by
    obtain rfl := List.mem_singleton.mp h
    rfl
  | unnamed, _, h => by
    obtain rfl := List.mem_singleton.mp h
    rfl
  | modified _ inner, item, h => isAttached_schemaItems_erase first _ _ inner item h
  | prefixed _ inner, item, h => isAttached_schemaItems_erase first _ _ inner item h
  | concat left right _, item, h => by
    rcases List.mem_append.mp h with h | h
    · exact isAttached_schemaItems_erase _ _ _ left item h
    · exact isAttached_schemaItems_erase _ _ _ right item h
  | queryParam _ _, _, h => by cases h
  | queryParams previous entries, item, h => by
    rcases List.mem_append.mp h with h | h
    · exact isAttached_schemaItems_erase _ _ _ previous item h
    · exact isAttached_entryItems_erase _ _ _ entries item h
  | withSchema inner _, item, h => isAttached_schemaItems_erase first _ _ inner item h

theorem isAttached_entryItems_erase (first : Nat) (optional multiple : Bool) :
    (entries : List (Text × Pattern σ)) →
    ∀ item ∈ entryItems first optional multiple (eraseEntries entries), item.isAttached = false
  | [], _, h => by cases h
  | (_, value) :: rest, item, h => by
    rcases List.mem_append.mp h with h | h
    · exact isAttached_schemaItems_erase _ _ _ value item h
    · exact isAttached_entryItems_erase _ _ _ rest item h

end

theorem map_bare_captures {items : List (SchemaItem Schema)}
    (h : ∀ item ∈ items, item.isAttached = false) :
    (items.flatMap SchemaItem.captures).map .bare = items := by
  induction items with
  | nil => rfl
  | cons item rest ih =>
    obtain ⟨hitem, hrest⟩ := List.forall_mem_cons.mp h
    cases item with
    | bare c => simpa [SchemaItem.captures] using ih hrest
    | attached _ _ _ => simp [SchemaItem.isAttached] at hitem

theorem ReadSplit.schema_eq {split : QuerySplit} {p : Pattern Schema} (h : ReadSplit split p) :
    p.schema = .route (p.schema.captures.map .bare) := by
  have hbare := isAttached_schemaItems_erase 0 false false p
  rw [h.erase_eq] at hbare
  exact congrArg Schema.route (map_bare_captures hbare).symm

end Pattern

end RoutePattern
