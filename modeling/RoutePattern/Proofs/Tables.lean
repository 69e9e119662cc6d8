import Mathlib.Data.List.Nodup
import RoutePattern.Query

/-!
Tables as finite maps: what is found under a key after entries were put in.
-/

namespace RoutePattern

namespace Table

variable {κ α : Type} [BEq κ]

theorem get?_append (key : κ) (t u : Table κ α) :
    get? key (t ++ u) = (get? key t).or (get? key u) := by
  induction t with
  | nil => rfl
  | cons e rest ih =>
    obtain ⟨k, a⟩ := e
    by_cases h : k == key
    · simp [get?, h]
    · simp [get?, h, ih]

theorem exists_beq_of_get? {key : κ} {a : α} {t : Table κ α} (h : get? key t = some a) :
    ∃ k, (k, a) ∈ t ∧ (k == key) = true := by
  induction t with
  | nil => cases h
  | cons e rest ih =>
    obtain ⟨k, b⟩ := e
    unfold get? at h
    split at h
    next hk =>
      obtain rfl := Option.some.inj h
      exact ⟨k, List.mem_cons_self, hk⟩
    next =>
      obtain ⟨k, hmem, hk⟩ := ih h
      exact ⟨k, List.mem_cons_of_mem _ hmem, hk⟩

theorem exists_mem_of_get? {key : κ} {a : α} {t : Table κ α} (h : get? key t = some a) :
    ∃ k, (k, a) ∈ t := by
  obtain ⟨k, hmem, -⟩ := exists_beq_of_get? h
  exact ⟨k, hmem⟩

theorem get?_eq_none_iff_forall {key : κ} {t : Table κ α} :
    get? key t = none ↔ ∀ e ∈ t, (e.1 == key) = false := by
  induction t with
  | nil => simp [get?]
  | cons e rest ih =>
    obtain ⟨k, a⟩ := e
    cases h : k == key <;> simp [get?, h, ih]

/-- What holds of all keys and of all values still does where an entry is put in. -/
theorem forall_put {K : κ → Prop} {V : α → Prop} {key : κ} {value : α} {t : Table κ α} (hkey : K key)
    (hvalue : V value) (ht : ∀ e ∈ t, K e.1 ∧ V e.2) : ∀ e ∈ put key value t, K e.1 ∧ V e.2 := by
  induction t with
  | nil => exact List.forall_mem_singleton.mpr ⟨hkey, hvalue⟩
  | cons e rest ih =>
    obtain ⟨he, hrest⟩ := List.forall_mem_cons.mp ht
    rw [put]
    split
    · exact List.forall_mem_cons.mpr ⟨⟨he.1, hvalue⟩, hrest⟩
    · exact List.forall_mem_cons.mpr ⟨he, ih hrest⟩

theorem forall_ofEntries {K : κ → Prop} {V : α → Prop} {entries : List (κ × α)}
    (h : ∀ e ∈ entries, K e.1 ∧ V e.2) : ∀ e ∈ (ofEntries entries : Table κ α), K e.1 ∧ V e.2 := by
  have hall : ∀ t : Table κ α, (∀ e ∈ t, K e.1 ∧ V e.2) → ∀ e ∈ putAll t entries, K e.1 ∧ V e.2 := by
    induction entries with
    | nil => exact fun _ ht => ht
    | cons e rest ih =>
      obtain ⟨he, hrest⟩ := List.forall_mem_cons.mp h
      exact fun t ht => ih hrest _ (forall_put he.1 he.2 ht)
  exact hall [] nofun

theorem put_of_get?_eq_none {key : κ} {t : Table κ α} (value : α) (h : get? key t = none) :
    put key value t = t ++ [(key, value)] := by
  induction t with
  | nil => rfl
  | cons e rest ih =>
    obtain ⟨hk, hrest⟩ := List.forall_mem_cons.mp (get?_eq_none_iff_forall.mp h)
    simp [put, hk, ih (get?_eq_none_iff_forall.mpr hrest)]

variable [LawfulBEq κ]

theorem get?_eq_none_iff {key : κ} {t : Table κ α} : get? key t = none ↔ key ∉ t.map (·.1) := by
  rw [get?_eq_none_iff_forall]
  constructor
  · intro h hmem
    obtain ⟨e, he, rfl⟩ := List.mem_map.mp hmem
    simpa using h e he
  · intro h e he
    exact beq_false_of_ne fun heq => h (List.mem_map.mpr ⟨e, he, heq⟩)

@[simp] theorem get?_cons_self (key : κ) (a : α) (t : Table κ α) :
    get? key ((key, a) :: t) = some a := by
  simp [get?]

theorem get?_of_mem {e : κ × α} {t : Table κ α} (hkeys : (t.map (·.1)).Nodup) (h : e ∈ t) :
    get? e.1 t = some e.2 := by
  induction t with
  | nil => simp at h
  | cons f rest ih =>
    obtain ⟨hfresh, hrest⟩ := List.nodup_cons.mp hkeys
    rcases List.mem_cons.mp h with rfl | hm
    · exact get?_cons_self e.1 e.2 rest
    · have hne : f.1 ≠ e.1 := fun heq => hfresh (List.mem_map.mpr ⟨e, hm, heq.symm⟩)
      simp [get?, hne, ih hrest hm]

theorem put_of_notMem {key : κ} {t : Table κ α} (value : α) (h : key ∉ t.map (·.1)) :
    put key value t = t ++ [(key, value)] :=
  put_of_get?_eq_none value (get?_eq_none_iff.mpr h)

theorem putAll_of_disjoint {t u : Table κ α} (hu : (u.map (·.1)).Nodup)
    (h : ∀ key ∈ u.map (·.1), key ∉ t.map (·.1)) : putAll t u = t ++ u := by
  induction u generalizing t with
  | nil => simp [putAll]
  | cons e rest ih =>
    obtain ⟨hfresh, hrest⟩ := List.nodup_cons.mp hu
    have hput : put e.1 e.2 t = t ++ [e] := put_of_notMem e.2 (h e.1 (by simp))
    have hdisjoint : ∀ key ∈ rest.map (·.1), key ∉ (t ++ [e]).map (·.1) := by
      intro key hk hm
      rw [List.map_append, List.mem_append] at hm
      rcases hm with hm | hm
      · exact h key (List.mem_cons_of_mem _ hk) hm
      · obtain rfl : key = e.1 := by simpa using hm
        exact hfresh hk
    have ih := ih hrest hdisjoint
    rw [putAll, List.foldl_cons, hput]
    rw [putAll] at ih
    rw [ih]
    simp

theorem get?_put (key k : κ) (value : α) (t : Table κ α) :
    get? key (put k value t) = if k == key then some value else get? key t := by
  induction t with
  | nil => by_cases h : k = key <;> simp [put, get?, h]
  | cons e rest ih =>
    obtain ⟨k', a⟩ := e
    by_cases hk : k' = k
    · subst hk
      by_cases h : k' = key <;> simp [put, get?, h]
    · by_cases h : k' = key
      · subst h
        simp [put, get?, hk, Ne.symm hk]
      · simp [put, get?, hk, h, ih]

theorem mem_keys_put {key k : κ} {value : α} {t : Table κ α} :
    key ∈ (put k value t).map (·.1) ↔ key = k ∨ key ∈ t.map (·.1) := by
  induction t with
  | nil => simp [put]
  | cons e rest ih =>
    obtain ⟨k', a⟩ := e
    by_cases hk : k' = k
    · simp [put, hk]
    · simp only [put, beq_iff_eq, hk, if_false, List.map_cons, List.mem_cons, ih]
      exact or_left_comm

theorem nodup_keys_put {t : Table κ α} (k : κ) (value : α) (h : (t.map (·.1)).Nodup) :
    ((put k value t).map (·.1)).Nodup := by
  induction t with
  | nil => simp [put]
  | cons e rest ih =>
    obtain ⟨k', a⟩ := e
    obtain ⟨hfresh, hrest⟩ := List.nodup_cons.mp h
    by_cases hk : k' = k
    · simpa [put, hk] using h
    · have hput : put k value ((k', a) :: rest) = (k', a) :: put k value rest := by simp [put, hk]
      rw [hput, List.map_cons, List.nodup_cons, mem_keys_put]
      exact ⟨fun hm => hm.elim hk hfresh, ih hrest⟩

theorem mem_keys_putAll {key : κ} {t u : Table κ α} :
    key ∈ (putAll t u).map (·.1) ↔ key ∈ t.map (·.1) ∨ key ∈ u.map (·.1) := by
  induction u generalizing t with
  | nil => simp [putAll]
  | cons e rest ih =>
    have hcons : putAll t (e :: rest) = putAll (put e.1 e.2 t) rest := rfl
    rw [hcons, ih, mem_keys_put, List.map_cons, List.mem_cons, or_assoc, or_left_comm]

theorem nodup_keys_putAll {t : Table κ α} {u : Table κ α} (h : (t.map (·.1)).Nodup) :
    ((putAll t u).map (·.1)).Nodup := by
  induction u generalizing t with
  | nil => exact h
  | cons e rest ih => exact ih (nodup_keys_put e.1 e.2 h)

theorem put_put (key : κ) (value other : α) (t : Table κ α) :
    put key value (put key other t) = put key value t := by
  induction t with
  | nil => simp [put]
  | cons e rest ih =>
    by_cases hk : e.1 = key
    · simp [put, hk]
    · simp [put, hk, ih]

theorem put_comm_of_mem {key k : κ} {value other : α} {t : Table κ α} (h : key ∈ t.map (·.1))
    (hne : k ≠ key) : put key value (put k other t) = put k other (put key value t) := by
  induction t with
  | nil => simp at h
  | cons e rest ih =>
    obtain ⟨k', a⟩ := e
    by_cases hkey : k' = key
    · subst hkey
      simp [put, Ne.symm hne]
    · have hrest : key ∈ rest.map (·.1) := by
        rcases List.mem_cons.mp h with heq | hm
        · exact absurd heq.symm hkey
        · exact hm
      by_cases hk : k' = k
      · subst hk
        simp [put, hne]
      · simp [put, hkey, hk, ih hrest]

theorem put_putAll_of_mem {key : κ} {value : α} {t u : Table κ α} (ht : key ∈ t.map (·.1))
    (hu : key ∉ u.map (·.1)) : put key value (putAll t u) = putAll (put key value t) u := by
  induction u generalizing t with
  | nil => rfl
  | cons e rest ih =>
    obtain ⟨hne, hrest⟩ : key ≠ e.1 ∧ key ∉ rest.map (·.1) := by simpa using hu
    have hput : key ∈ (put e.1 e.2 t).map (·.1) := mem_keys_put.mpr (.inr ht)
    have hcons : ∀ s : Table κ α, putAll s (e :: rest) = putAll (put e.1 e.2 s) rest := fun _ => rfl
    rw [hcons, hcons, ih hput hrest, put_comm_of_mem ht (Ne.symm hne)]

theorem putAll_put {key : κ} {value : α} {t u : Table κ α} (hu : (u.map (·.1)).Nodup) :
    putAll t (put key value u) = put key value (putAll t u) := by
  induction u generalizing t with
  | nil => rfl
  | cons e rest ih =>
    obtain ⟨k, a⟩ := e
    obtain ⟨hfresh, hrest⟩ := List.nodup_cons.mp hu
    have hcons : ∀ b, putAll t ((k, b) :: rest) = putAll (put k b t) rest := fun _ => rfl
    by_cases hk : k = key
    · subst hk
      have hput : put k value ((k, a) :: rest) = (k, value) :: rest := by simp [put]
      have hmem : k ∈ (put k a t).map (·.1) := mem_keys_put.mpr (.inl rfl)
      rw [hput, hcons, hcons, put_putAll_of_mem hmem hfresh, put_put]
    · have hput : put key value ((k, a) :: rest) = (k, a) :: put key value rest := by
        simp [put, hk]
      have hcons' : putAll t ((k, a) :: put key value rest) =
          putAll (put k a t) (put key value rest) := rfl
      rw [hput, hcons', ih hrest, hcons]

theorem putAll_putAll {t u v : Table κ α} (hu : (u.map (·.1)).Nodup) :
    putAll t (putAll u v) = putAll (putAll t u) v := by
  induction v generalizing u with
  | nil => rfl
  | cons e rest ih =>
    have hcons : ∀ s : Table κ α, putAll s (e :: rest) = putAll (put e.1 e.2 s) rest := fun _ => rfl
    rw [hcons, hcons, ih (nodup_keys_put e.1 e.2 hu), putAll_put hu]

theorem putAll_nil {t : Table κ α} (h : (t.map (·.1)).Nodup) : putAll [] t = t := by
  simpa using putAll_of_disjoint (t := []) h (by simp)

omit [LawfulBEq κ] in
theorem get?_filter_keys {key : κ} {chosen : κ → Bool}
    (hchosen : ∀ k, (k == key) = true → chosen k = chosen key) (t : Table κ α) :
    get? key (t.filter fun e => chosen e.1) = if chosen key then get? key t else none := by
  induction t with
  | nil => simp [get?]
  | cons e rest ih =>
    obtain ⟨k, a⟩ := e
    cases hk : k == key with
    | true => cases h : chosen key <;> simp [get?, hk, hchosen k hk, h, ih]
    | false => cases h : chosen k <;> simp [get?, hk, h, ih]

section Mapped

omit [LawfulBEq κ]

variable {κ' β : Type} [BEq κ'] {f : κ → κ'} (hf : ∀ k l, (f k == f l) = (k == l)) (g : α → β)

include hf

theorem get?_map (key : κ) (t : Table κ α) :
    get? (f key) (t.map (Prod.map f g)) = (get? key t).map g := by
  induction t with
  | nil => rfl
  | cons e rest ih =>
    simp only [List.map_cons, Prod.map, get?, hf, ih]
    split <;> rfl

/-- Putting entries in commutes with a change of keys that keeps different ones apart. -/
theorem put_map (key : κ) (value : α) (t : Table κ α) :
    put (f key) (g value) (t.map (Prod.map f g)) = (put key value t).map (Prod.map f g) := by
  induction t with
  | nil => rfl
  | cons e rest ih =>
    simp only [List.map_cons, Prod.map, put, hf, ih]
    split <;> rfl

theorem putAll_map (t u : Table κ α) :
    putAll (t.map (Prod.map f g)) (u.map (Prod.map f g)) = (putAll t u).map (Prod.map f g) := by
  induction u generalizing t with
  | nil => rfl
  | cons e rest ih =>
    have hput := put_map hf g e.1 e.2 t
    have hrest := ih (put e.1 e.2 t)
    rw [← hput] at hrest
    exact hrest

end Mapped

section Erase

omit [LawfulBEq κ]

theorem erase_sublist (key : κ) (t : Table κ α) : (erase key t).Sublist t := by
  induction t with
  | nil => exact .slnil
  | cons e rest ih =>
    obtain ⟨k, a⟩ := e
    by_cases hk : k == key
    · simp [erase, hk]
    · simpa [erase, hk] using ih

theorem keys_erase (key : κ) (t : Table κ α) :
    (erase key t).map (·.1) = (t.map (·.1)).erase key := by
  induction t with
  | nil => rfl
  | cons e rest ih =>
    obtain ⟨k, a⟩ := e
    cases hk : k == key <;> simp [erase, List.erase_cons, hk, ih]

end Erase

theorem mem_of_get? {key : κ} {a : α} {t : Table κ α} (h : get? key t = some a) : (key, a) ∈ t := by
  induction t with
  | nil => cases h
  | cons e rest ih =>
    obtain ⟨k, b⟩ := e
    by_cases hk : k = key
    · subst hk
      rw [get?_cons_self] at h
      simp [Option.some.inj h]
    · rw [get?, if_neg (by simpa using hk)] at h
      exact List.mem_cons_of_mem _ (ih h)

theorem mem_keys_of_get? {key : κ} {a : α} {t : Table κ α} (h : get? key t = some a) :
    key ∈ t.map (·.1) :=
  List.mem_map.mpr ⟨_, mem_of_get? h, rfl⟩

theorem perm_of_get? {t u : Table κ α} (ht : (t.map (·.1)).Nodup) (hu : (u.map (·.1)).Nodup)
    (h : ∀ key, get? key t = get? key u) : t.Perm u := by
  refine (List.perm_ext_iff_of_nodup (List.Nodup.of_map _ ht) (List.Nodup.of_map _ hu)).mpr fun e => ?_
  constructor
  · exact fun he => mem_of_get? ((h e.1).symm.trans (get?_of_mem ht he))
  · exact fun he => mem_of_get? ((h e.1).trans (get?_of_mem hu he))

theorem length_erase {key : κ} {t : Table κ α} (h : key ∈ t.map (·.1)) :
    (erase key t).length + 1 = t.length := by
  have hkeys := congrArg List.length (keys_erase key t)
  rw [List.length_erase_of_mem h, List.length_map, List.length_map] at hkeys
  have hpos := List.length_pos_of_mem h
  rw [List.length_map] at hpos
  omega

theorem mem_erase {key : κ} {e : κ × α} {t : Table κ α} (hkeys : (t.map (·.1)).Nodup)
    (h : e ∈ erase key t) : e ∈ t ∧ e.1 ≠ key := by
  refine ⟨(erase_sublist key t).subset h, ?_⟩
  rintro rfl
  have hmem : e.1 ∈ (t.map (·.1)).erase e.1 := keys_erase e.1 t ▸ List.mem_map_of_mem h
  exact hkeys.not_mem_erase hmem

theorem erase_eq_filter {key : κ} {t : Table κ α} (hkeys : (t.map (·.1)).Nodup) :
    erase key t = t.filter fun e => e.1 != key := by
  induction t with
  | nil => rfl
  | cons e rest ih =>
    obtain ⟨k, a⟩ := e
    obtain ⟨hfresh, hrest⟩ := List.nodup_cons.mp hkeys
    by_cases hk : k = key
    · subst hk
      have hkept : rest.filter (fun e => e.1 != k) = rest := by
        refine List.filter_eq_self.mpr fun e he => ?_
        have hne : e.1 ≠ k := fun heq => hfresh (heq ▸ List.mem_map_of_mem (f := (·.1)) he)
        simpa using hne
      simp [erase, hkept]
    · simp [erase, hk, ih hrest]

theorem nodup_keys_moved {key : κ} {a : α} {t : Table κ α} (hkeys : (t.map (·.1)).Nodup) :
    ((erase key t ++ [(key, a)]).map (·.1)).Nodup := by
  rw [List.map_append, keys_erase]
  refine List.nodup_append.mpr ⟨hkeys.erase key, by simp, ?_⟩
  intro k hk k' hk' heq
  obtain rfl : k' = key := by simpa using hk'
  exact hkeys.not_mem_erase (heq ▸ hk)

end Table

namespace Query

/-- Where no key occurs twice, a key that is erased has no values any more, and all others keep theirs. -/
theorem all_erase {key k : Text} {q : Query} (hkeys : q.keys.Nodup) :
    all k (Table.erase key q) = if k = key then [] else all k q := by
  have hne : ∀ l, (l == k) = true → (l != key) = (k != key) := fun l hl => by rw [beq_iff_eq.mp hl]
  rw [all, Table.erase_eq_filter hkeys, Table.get?_filter_keys hne]
  by_cases hk : k = key <;> simp [hk, all]

theorem all_add (key k value : Text) (q : Query) :
    all key (add k value q) = if k = key then all key q ++ [value] else all key q := by
  unfold add
  rw [all, Table.get?_put]
  by_cases h : k = key
  · simp [h]
  · simp [h, all]

/-- A query holds, under every key, the values that were put in for it, in their order. -/
theorem all_ofPairs (key : Text) (pairs : List (Text × Text)) :
    all key (ofPairs pairs) = (pairs.filter fun pair => pair.1 == key).map (·.2) := by
  have hfold : ∀ q : Query, all key (pairs.foldl (fun q pair => add pair.1 pair.2 q) q) =
      all key q ++ (pairs.filter fun pair => pair.1 == key).map (·.2) := by
    induction pairs with
    | nil => simp
    | cons pair rest ih =>
      intro q
      rw [List.foldl_cons, ih, all_add]
      by_cases h : pair.1 = key <;> simp [h]
  exact hfold []

end Query

end RoutePattern
