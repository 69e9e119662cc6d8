import RoutePattern.Cache
import RoutePattern.Proofs.Tables

/-!
What one step does to a cache: which entries are there after a look-up, after an item was stored, and
after entries were dropped.
-/

namespace RoutePattern

/-- Keys after one of them was used, with room for so many. A new key takes the places of the first ones. -/
def toEnd {κ : Type} [BEq κ] [LawfulBEq κ] (room : Nat) (key : κ) (keys : List κ) : List κ :=
  (if key ∈ keys then keys else keys.drop (keys.length + 1 - room)).erase key ++ [key]

theorem length_toEnd_le {κ : Type} [BEq κ] [LawfulBEq κ] {room most : Nat} {key : κ} {keys : List κ}
    (hroom : 0 < room) (hmost : room ≤ most) (hkeys : keys.length ≤ most) :
    (toEnd room key keys).length ≤ most := by
  rw [toEnd, List.length_append, List.length_singleton]
  by_cases hkey : key ∈ keys
  · have hpos := List.length_pos_of_mem hkey
    rw [if_pos hkey, List.length_erase_of_mem hkey]
    omega
  · have herase := (List.erase_sublist (a := key) (l := keys.drop (keys.length + 1 - room))).length_le
    rw [List.length_drop] at herase
    rw [if_neg hkey]
    omega

namespace Cache

variable {κ α ε τ : Type}

section

variable (f : CacheStats τ → CacheStats τ) (c : Cache κ α τ)

@[simp] theorem entries_tally : (c.tally f).entries = c.entries := by
  unfold tally
  split <;> rfl

@[simp] theorem capacity_tally : (c.tally f).capacity = c.capacity := by
  unfold tally
  split <;> rfl

@[simp] theorem lifetime_tally : (c.tally f).lifetime = c.lifetime := by
  unfold tally
  split <;> rfl

@[simp] theorem counting_tally : (c.tally f).counting = c.counting := by
  unfold tally
  split <;> rfl

theorem tally_of_counting {c : Cache κ α τ} (h : c.counting = true) :
    c.tally f = { c with stats := f c.stats } := by
  rw [tally, if_pos h]

end

variable [BEq κ]

section

variable [Sub τ] [LT τ] [DecidableLT τ] {c d : Cache κ α τ} {key : κ} {now : τ}

theorem get_eq_some {item : α} (h : c.get now key = (some item, d)) :
    ∃ e, Table.get? key c.entries = some e ∧ e.isExpired c.lifetime now = false ∧ e.item = item ∧
      d.entries = Table.erase key c.entries ++ [(key, e.used now)] := by
  unfold get at h
  split at h
  · cases h
  next e he =>
    split at h
    · cases h
    next hfresh =>
      obtain ⟨hitem, hd⟩ := Prod.mk.inj h
      subst hd
      exact ⟨e, he, by simpa using hfresh, Option.some.inj hitem, entries_tally _ _⟩

theorem get_eq_none (h : c.get now key = (none, d)) :
    Table.get? key c.entries = none ∧ d = c.tally .miss ∨
    ∃ e, Table.get? key c.entries = some e ∧ e.isExpired c.lifetime now = true ∧
      d.entries = Table.erase key c.entries := by
  unfold get at h
  split at h
  next hnone => exact .inl ⟨hnone, (Prod.mk.inj h).2.symm⟩
  next e he =>
    split at h
    next hold =>
      refine .inr ⟨e, he, hold, ?_⟩
      rw [← (Prod.mk.inj h).2, entries_tally]
    · cases h

theorem get_keeps (now : τ) (key : κ) (c : Cache κ α τ) :
    (c.get now key).2.capacity = c.capacity ∧ (c.get now key).2.lifetime = c.lifetime ∧
      (c.get now key).2.counting = c.counting := by
  unfold get
  split
  · simp
  · split <;> simp

end

section

variable {c : Cache κ α τ} {key : κ} {now cost : τ} {item : α}

theorem put_of_nonpos (h : c.capacity ≤ 0) : c.put now key item cost = c := if_pos h

theorem entries_put (h : 0 < c.capacity) :
    (c.put now key item cost).entries =
      Table.erase key (c.entries.drop (c.excess key)) ++ [(key, ⟨item, now, now, 0, cost⟩)] := by
  rw [put, if_neg (by omega)]
  exact entries_tally _ _

/-- Storing an item keeps what a cache was made with. -/
theorem put_keeps (now : τ) (key : κ) (item : α) (cost : τ) (c : Cache κ α τ) :
    (c.put now key item cost).capacity = c.capacity ∧
      (c.put now key item cost).lifetime = c.lifetime ∧
      (c.put now key item cost).counting = c.counting := by
  unfold put
  split <;> simp

end

section

variable [LawfulBEq κ] {c : Cache κ α τ} {key : κ} {now cost : τ} {entry : κ × CacheEntry α τ}
variable {item : α}

theorem mem_entries_put (hkeys : (c.entries.map (·.1)).Nodup)
    (hentry : entry ∈ (c.put now key item cost).entries) :
    entry ∈ c.entries ∧ (0 < c.capacity → entry.1 ≠ key) ∨
      0 < c.capacity ∧ entry = (key, ⟨item, now, now, 0, cost⟩) := by
  by_cases hcapacity : 0 < c.capacity
  · rw [entries_put hcapacity] at hentry
    have hkept : (c.entries.drop (c.excess key)).Sublist c.entries := List.drop_sublist _ _
    rcases List.mem_append.mp hentry with hm | hm
    · obtain ⟨hm, hne⟩ := Table.mem_erase (hkeys.sublist (hkept.map _)) hm
      exact .inl ⟨hkept.subset hm, fun _ => hne⟩
    · exact .inr ⟨hcapacity, List.mem_singleton.mp hm⟩
  · rw [put_of_nonpos (by omega)] at hentry
    exact .inl ⟨hentry, fun h => absurd h hcapacity⟩

theorem nodup_keys_put (hkeys : (c.entries.map (·.1)).Nodup) :
    ((c.put now key item cost).entries.map (·.1)).Nodup := by
  by_cases hcapacity : 0 < c.capacity
  · rw [entries_put hcapacity]
    exact Table.nodup_keys_moved (hkeys.sublist ((List.drop_sublist _ _).map _))
  · rwa [put_of_nonpos (by omega)]

variable [Sub τ] [LT τ] [DecidableLT τ] {d : Cache κ α τ} {found : Option α}

theorem mem_entries_get (h : c.get now key = (found, d)) (hentry : entry ∈ d.entries) :
    entry ∈ c.entries ∨ ∃ e, (key, e) ∈ c.entries ∧ entry = (key, e.used now) := by
  cases found with
  | some item =>
    obtain ⟨e, he, -, -, hd⟩ := get_eq_some h
    rw [hd] at hentry
    rcases List.mem_append.mp hentry with hm | hm
    · exact .inl ((Table.erase_sublist key c.entries).subset hm)
    · exact .inr ⟨e, Table.mem_of_get? he, List.mem_singleton.mp hm⟩
  | none =>
    refine .inl ?_
    rcases get_eq_none h with ⟨-, rfl⟩ | ⟨e, -, -, hd⟩
    · rwa [entries_tally] at hentry
    · exact (Table.erase_sublist key c.entries).subset (hd ▸ hentry)

theorem nodup_keys_get (h : c.get now key = (found, d)) (hkeys : (c.entries.map (·.1)).Nodup) :
    (d.entries.map (·.1)).Nodup := by
  cases found with
  | some item =>
    obtain ⟨e, -, -, -, hd⟩ := get_eq_some h
    rw [hd]
    exact Table.nodup_keys_moved hkeys
  | none =>
    rcases get_eq_none h with ⟨-, rfl⟩ | ⟨e, -, -, hd⟩
    · rwa [entries_tally]
    · rw [hd, Table.keys_erase]
      exact hkeys.erase key

end

section

variable [LawfulBEq κ] {c : Cache κ α τ} {key : κ}

theorem keys_put {now cost : τ} {item : α} (h : 0 < c.capacity) :
    (c.put now key item cost).entries.map (·.1) =
      toEnd c.capacity.toNat key (c.entries.map (·.1)) := by
  have hhas : Table.has key c.entries = true ↔ key ∈ c.entries.map (·.1) := by
    rw [Table.has, Option.isSome_iff_ne_none, Ne, Table.get?_eq_none_iff, Decidable.not_not]
  rw [entries_put h, List.map_append, Table.keys_erase, List.map_drop, toEnd, excess]
  by_cases hkey : key ∈ c.entries.map (·.1)
  · rw [if_pos (hhas.mpr hkey), if_pos hkey]
    rfl
  · rw [if_neg (mt hhas.mp hkey), if_neg hkey, List.length_map]
    rfl

theorem keys_get_some [Sub τ] [LT τ] [DecidableLT τ] {d : Cache κ α τ} {now : τ} {item : α}
    (h : c.get now key = (some item, d)) (room : Nat) :
    d.entries.map (·.1) = toEnd room key (c.entries.map (·.1)) := by
  obtain ⟨e, he, -, -, hd⟩ := get_eq_some h
  rw [hd, List.map_append, Table.keys_erase, toEnd, if_pos (Table.mem_keys_of_get? he)]
  rfl

end

end Cache

end RoutePattern
