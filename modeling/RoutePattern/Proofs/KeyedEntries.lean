import RoutePattern.Proofs.Usable

/-!
Entries of a mapping under the keys of captures. What stands under some of the keys, in their order, is what
is found under them.
-/

namespace RoutePattern

section

variable {α : Type} {keys : List Key}

/-- What a function gives for keys, in their order. -/
def entriesAt (f : Key → Option α) (keys : List Key) : Table Value α :=
  keys.flatMap fun key => ((f key).map (key.value, ·)).toList

theorem entriesAt_append (f : Key → Option α) (front back : List Key) :
    entriesAt f (front ++ back) = entriesAt f front ++ entriesAt f back :=
  List.flatMap_append

theorem entriesAt_congr {f g : Key → Option α} (h : ∀ key ∈ keys, f key = g key) :
    entriesAt f keys = entriesAt g keys :=
  List.flatMap_congr fun key hkey => by rw [h key hkey]

theorem get?_entriesAt (f : Key → Option α) {key : Key} (h : key ∈ keys) :
    Table.get? key.value (entriesAt f keys) = f key := by
  induction keys with
  | nil => simp at h
  | cons k rest ih =>
    have hcons : entriesAt f (k :: rest) = ((f k).map (k.value, ·)).toList ++ entriesAt f rest := rfl
    rw [hcons, Table.get?_append]
    by_cases hk : k = key
    · subst hk
      cases hf : f k with
      | some a => simp [Table.get?, Key.value_beq]
      | none =>
        by_cases hrest : k ∈ rest
        · simp [ih hrest, hf, Table.get?]
        · have hnone : Table.get? k.value (entriesAt f rest) = none := by
            rw [Table.get?_eq_none_iff_forall]
            intro e he
            obtain ⟨l, hl, he⟩ := List.mem_flatMap.mp he
            obtain ⟨a, -, rfl⟩ := Option.map_eq_some_iff.mp (Option.mem_toList.mp he)
            rw [Key.value_beq]
            exact beq_false_of_ne fun heq => hrest (heq ▸ hl)
          rw [hnone]
          rfl
    · have hrest : key ∈ rest := (List.mem_cons.mp h).resolve_left (Ne.symm hk)
      have hfirst : Table.get? key.value ((f k).map (k.value, ·)).toList = none := by
        cases f k <;> simp [Table.get?, Key.value_beq, hk]
      rw [hfirst, Option.none_or, ih hrest]

/-- Entries under some of the keys, in their order. -/
def InOrder (keys : List Key) (entries : Table Value α) : Prop :=
  ∃ own : List Key, own.Sublist keys ∧ entries.map (·.1) = own.map Key.value

theorem get?_eq_none_of_keys {key : Key} {entries : Table Value α}
    (h : entries.map (·.1) = keys.map Key.value) (hkey : key ∉ keys) :
    Table.get? key.value entries = none := by
  rw [Table.get?_eq_none_iff_forall]
  intro e he
  have hmem : e.1 ∈ keys.map Key.value := h ▸ List.mem_map_of_mem he
  obtain ⟨k, hk, hvalue⟩ := List.mem_map.mp hmem
  rw [← hvalue, Key.value_beq]
  exact beq_false_of_ne fun heq => hkey (heq ▸ hk)

theorem InOrder.eq_entriesAt {entries : Table Value α} (h : InOrder keys entries) (hkeys : keys.Nodup) :
    entries = entriesAt (fun key => Table.get? key.value entries) keys := by
  obtain ⟨own, hsub, hown⟩ := h
  induction hsub generalizing entries with
  | slnil => exact List.map_eq_nil_iff.mp hown
  | @cons own rest key hsub ih =>
    obtain ⟨hfresh, hrest⟩ := List.nodup_cons.mp hkeys
    have hnone := get?_eq_none_of_keys hown fun hmem => hfresh (hsub.subset hmem)
    have hcons : entriesAt (fun key => Table.get? key.value entries) (key :: rest) =
        entriesAt (fun key => Table.get? key.value entries) rest := by
      rw [entriesAt, List.flatMap_cons, hnone]
      rfl
    rw [hcons]
    exact ih hrest hown
  | @cons_cons own rest key hsub ih =>
    obtain ⟨hfresh, hrest⟩ := List.nodup_cons.mp hkeys
    cases entries with
    | nil => simp at hown
    | cons e others =>
      obtain ⟨hkey, hothers⟩ := List.cons.inj hown
      obtain ⟨k, v⟩ := e
      obtain rfl : k = key.value := hkey
      have hcongr : entriesAt (fun l => Table.get? l.value ((key.value, v) :: others)) rest =
          entriesAt (fun l => Table.get? l.value others) rest := by
        refine entriesAt_congr fun l hl => ?_
        have hne : key ≠ l := fun heq => hfresh (heq ▸ hl)
        simp [Table.get?, Key.value_beq, hne]
      have hfirst : Table.get? key.value ((key.value, v) :: others) = some v := by
        simp [Table.get?, Key.value_beq]
      have hcons : entriesAt (fun l => Table.get? l.value ((key.value, v) :: others)) (key :: rest) =
          [(key.value, v)] ++ entriesAt (fun l => Table.get? l.value ((key.value, v) :: others)) rest := by
        rw [entriesAt, List.flatMap_cons, hfirst]
        rfl
      rw [hcons, hcongr, ← ih hrest hothers]
      rfl

theorem inOrder_entriesAt (f : Key → Option α) (keys : List Key) : InOrder keys (entriesAt f keys) := by
  refine ⟨keys.filter fun key => (f key).isSome, List.filter_sublist, ?_⟩
  induction keys with
  | nil => rfl
  | cons key rest ih =>
    have hcons : entriesAt f (key :: rest) = ((f key).map (key.value, ·)).toList ++ entriesAt f rest := rfl
    rw [hcons, List.map_append, ih]
    cases hf : f key <;> simp [hf]

theorem ofEntries_of_keys {entries : Table Value α} (h : entries.map (·.1) = keys.map Key.value)
    (hkeys : keys.Nodup) : Table.ofEntries entries = entries := by
  have hlength : keys.length = entries.length := by simpa using congrArg List.length h.symm
  have hentries : entries = (keys.zip (entries.map (·.2))).map (Prod.map Key.value id) := by
    rw [← List.zip_map, List.map_id, ← h, ← List.unzip_fst, ← List.unzip_snd, List.zip_unzip]
  have hfst : (keys.zip (entries.map (·.2))).map (·.1) = keys := by
    rw [List.map_fst_zip (by simp [hlength])]
  rw [hentries, Table.ofEntries]
  have hputAll := Table.putAll_map Key.value_beq id [] (keys.zip (entries.map (·.2)))
  rw [Table.putAll_nil (by rwa [hfst])] at hputAll
  exact hputAll

end

theorem inOrder_paramEntries {cs : List Capture} {params : Params} (h : Given cs params) :
    InOrder (cs.map Capture.key) (Route.paramEntries params) :=
  ⟨params.map (·.1), h.keys_sublist, by simp [paramEntries_eq_map, Function.comp_def]⟩

end RoutePattern
