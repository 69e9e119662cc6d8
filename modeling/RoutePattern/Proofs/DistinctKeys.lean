import RoutePattern.Document.Json
import RoutePattern.Document.Yaml
import RoutePattern.Proofs.Keys
import RoutePattern.Proofs.Results

/-!
Mappings with pairwise different keys, where keys of different kinds may be equal. Whatever is put in, keys
stay different, so documents are read to such mappings.
-/

namespace RoutePattern

namespace Table

variable {κ α : Type} [BEq κ]

/-- No two keys are equal. -/
def Distinct (t : Table κ α) : Prop := t.keys.Pairwise fun a b => (a == b) = false

theorem mem_keys_of_put {k key : κ} {value : α} {t : Table κ α} (h : k ∈ (put key value t).keys) :
    k ∈ t.keys ∨ k = key := by
  induction t with
  | nil => simpa [put, keys] using h
  | cons e rest ih =>
    obtain ⟨k', a⟩ := e
    by_cases hk : k' == key
    · exact .inl (by simpa [put, keys, hk] using h)
    · rw [put, if_neg hk] at h
      rcases List.mem_cons.mp h with rfl | hrest
      · exact .inl List.mem_cons_self
      · exact (ih hrest).imp_left (List.mem_cons_of_mem _)

theorem mem_or_of_put {key : κ} {value : α} {e : κ × α} {t : Table κ α} (h : e ∈ put key value t) :
    e ∈ t ∨ e.2 = value := by
  induction t with
  | nil =>
    obtain rfl : e = (key, value) := by simpa [put] using h
    exact .inr rfl
  | cons f rest ih =>
    obtain ⟨k', a⟩ := f
    by_cases hk : k' == key
    · rw [put, if_pos hk] at h
      rcases List.mem_cons.mp h with rfl | hrest
      · exact .inr rfl
      · exact .inl (List.mem_cons_of_mem _ hrest)
    · rw [put, if_neg hk] at h
      rcases List.mem_cons.mp h with rfl | hrest
      · exact .inl List.mem_cons_self
      · exact (ih hrest).imp_left (List.mem_cons_of_mem _)

theorem Distinct.put {t : Table κ α} (h : t.Distinct) (key : κ) (value : α) :
    (Table.put key value t).Distinct := by
  induction t with
  | nil => exact List.pairwise_singleton _ _
  | cons e rest ih =>
    obtain ⟨k', a⟩ := e
    obtain ⟨hfirst, hrest⟩ := List.pairwise_cons.mp h
    by_cases hk : k' == key
    · simpa [Table.put, Distinct, keys, hk] using h
    · rw [Table.put, if_neg hk]
      refine List.pairwise_cons.mpr ⟨fun k hmem => ?_, ih hrest⟩
      rcases mem_keys_of_put hmem with hm | rfl
      · exact hfirst k hm
      · simpa using hk

theorem Distinct.filter {t : Table κ α} (h : t.Distinct) (p : κ × α → Bool) :
    Distinct (List.filter p t) :=
  List.Pairwise.sublist (List.filter_sublist.map _) h

theorem Distinct.putAll {t : Table κ α} (h : t.Distinct) (u : Table κ α) :
    (Table.putAll t u).Distinct := by
  induction u generalizing t with
  | nil => exact h
  | cons e rest ih => exact ih (h.put e.1 e.2)

theorem distinct_ofEntries (entries : List (κ × α)) : (ofEntries entries).Distinct :=
  have hempty : Table.Distinct ([] : Table κ α) := .nil
  hempty.putAll entries

theorem mem_or_of_putAll {e : κ × α} {t u : Table κ α} (h : e ∈ putAll t u) :
    e ∈ t ∨ ∃ f ∈ u, e.2 = f.2 := by
  induction u generalizing t with
  | nil => exact .inl h
  | cons f rest ih =>
    rcases ih h with hput | ⟨g, hg, heq⟩
    · exact (mem_or_of_put hput).imp_right fun heq => ⟨f, List.mem_cons_self, heq⟩
    · exact .inr ⟨g, List.mem_cons_of_mem _ hg, heq⟩

theorem mem_of_ofEntries {e : κ × α} {entries : List (κ × α)} (h : e ∈ ofEntries entries) :
    ∃ f ∈ entries, e.2 = f.2 := by
  simpa using mem_or_of_putAll h

section Text

variable {key : Text} {t u : Table Value Value}

theorem get?_filter_text (p : Value → Bool) :
    get? (.text key) (t.filter fun e => p e.1) =
      if p (.text key) then get? (.text key) t else none := by
  have hp : ∀ v, (v == Value.text key) = true → p v = p (.text key) := fun v hv => by
    rw [Value.beq_text.mp hv]
  exact get?_filter_keys hp t

theorem get?_foldl_put_text (key : Text) (f : Option Value → Value → Value) (t : Table Value Value)
    (hu : u.Distinct) :
    get? (.text key) (u.foldl (fun t e => put e.1 (f (get? e.1 t) e.2) t) t) =
      ((get? (.text key) u).map (f (get? (.text key) t))).or (get? (.text key) t) := by
  induction u generalizing t with
  | nil => rfl
  | cons e rest ih =>
    obtain ⟨k, a⟩ := e
    obtain ⟨hfirst, hrest⟩ := List.pairwise_cons.mp hu
    rw [List.foldl_cons, ih _ hrest, get?_put_text]
    cases hk : k == .text key with
    | true =>
      obtain rfl := Value.beq_text.mp hk
      have hnone : get? (.text key) rest = none := by
        refine get?_eq_none_iff_forall.mpr fun e he => ?_
        have hne := hfirst e.1 (List.mem_map_of_mem he)
        rwa [← Bool.not_eq_true, Value.text_beq, ← Value.beq_text, Bool.not_eq_true] at hne
      simp [get?, hnone]
    | false => simp [hk, get?]

end Text

end Table

namespace Value

/-- A mapping whose keys are pairwise different, and so on for the mappings in it; or no mapping. -/
inductive Proper : Value → Prop
  | map {entries : List (Value × Value)} (hkeys : Table.Distinct entries)
      (hvalues : ∀ e ∈ entries, Proper e.2) : Proper (.map entries)
  | plain {v : Value} (h : v.entries? = none) : Proper v

theorem Proper.distinct {entries : List (Value × Value)} (h : Proper (.map entries)) :
    Table.Distinct entries := by
  cases h with
  | map hkeys _ => exact hkeys
  | plain h => cases h

theorem Proper.values {entries : List (Value × Value)} (h : Proper (.map entries)) :
    ∀ e ∈ entries, e.2.Proper := by
  cases h with
  | map _ hvalues => exact hvalues
  | plain h => cases h

theorem proper_ofEntries {entries : List (Value × Value)} (h : ∀ e ∈ entries, e.2.Proper) :
    (ofEntries entries).Proper := by
  refine .map (Table.distinct_ofEntries entries) fun e he => ?_
  obtain ⟨f, hf, heq⟩ := Table.mem_of_ofEntries he
  exact heq ▸ h f hf

end Value

namespace Heap

/-- Whether the keys of every mapping are pairwise different. -/
def Distinct (h : Heap) : Prop := ∀ entries ∈ h, Table.Distinct entries

theorem Distinct.renumber {h : Heap} (hkeys : h.Distinct) (f : Nat → Nat) : (h.renumber f).Distinct := by
  intro entries hmem
  obtain ⟨old, hold, rfl⟩ := List.mem_map.mp hmem
  simpa [Table.Distinct, Table.keys, Function.comp_def] using hkeys old hold

end Heap

namespace Document

namespace Json

theorem proper_of_word? {text rest : Text} {v : Value} (h : word? text = some (v, rest)) :
    v.Proper := by
  obtain ⟨⟨word, w⟩, hmem, hfound⟩ := List.exists_of_findSome?_eq_some h
  obtain ⟨after, -, heq⟩ := Option.map_eq_some_iff.mp hfound
  obtain ⟨rfl, -⟩ := Prod.mk.inj heq
  have hplain : ∀ entry ∈ words, entry.2.entries? = none := by simp [words, Value.entries?]
  exact .plain (hplain _ hmem)

theorem proper_of_number {text rest : Text} {v : Value} (h : number text = .ok (v, rest)) :
    v.Proper := by
  refine .plain ?_
  unfold number at h
  generalize (if text.head? = some '-' then ['-'] else ([] : Text)) = mark at h
  dsimp only at h
  split at h
  next => cases h
  next =>
    split at h
    next => split at h <;> cases h; rfl
    next => split at h <;> cases h; rfl

/-- Reading a value gives entries to put in one after the other wherever it gives a mapping. -/
theorem proper_of_value (fuel : Nat) :
    (∀ {text v rest}, value fuel text = .ok (v, rest) → v.Proper) ∧
      ∀ {text es rest}, members fuel text = .ok (es, rest) →
        ∀ e : Value × Value, e ∈ es → e.2.Proper := by
  induction fuel with
  | zero =>
    constructor
    · intro text v rest h
      cases h
    · intro text es rest h
      cases h
  | succ fuel ih =>
    obtain ⟨hvalue, hmembers⟩ := ih
    constructor
    · intro text v rest h
      unfold value at h
      split at h
      next =>
        obtain ⟨⟨s, after⟩, -, heq⟩ := Except.map_eq_ok.mp h
        cases heq
        exact .plain rfl
      next =>
        split at h
        next =>
          cases h
          exact .plain rfl
        next =>
          obtain ⟨⟨vs, after⟩, -, heq⟩ := Except.map_eq_ok.mp h
          cases heq
          exact .plain rfl
      next =>
        split at h
        next =>
          cases h
          exact .map .nil (by simp)
        next =>
          obtain ⟨⟨es, after⟩, hes, heq⟩ := Except.map_eq_ok.mp h
          cases heq
          exact Value.proper_ofEntries (hmembers hes)
      next =>
        split at h
        next hword =>
          cases h
          exact proper_of_word? hword
        next => exact proper_of_number h
    · intro text es rest h
      unfold members at h
      split at h
      next =>
        obtain ⟨⟨key, after⟩, -, h⟩ := Except.bind_eq_ok.mp h
        dsimp only at h
        split at h
        next =>
          obtain ⟨⟨v, after⟩, hv, h⟩ := Except.bind_eq_ok.mp h
          have hproper := hvalue hv
          dsimp only at h
          split at h
          next =>
            cases h
            simpa using hproper
          next =>
            obtain ⟨⟨others, after⟩, hothers, h⟩ := Except.bind_eq_ok.mp h
            cases h
            exact List.forall_mem_cons.mpr ⟨hproper, hmembers hothers⟩
          next => cases h
        next => cases h
      next => cases h

theorem proper_of_read {source : Text} {v : Value} (h : read source = .ok v) : v.Proper := by
  unfold read at h
  dsimp only at h
  split at h
  next => cases h
  next =>
    split at h
    next => cases h
    next hvalue =>
      split at h
      next =>
        cases h
        exact (proper_of_value _).1 hvalue
      next => cases h

end Json

namespace Yaml

theorem Meaning.both_eq_ok {α β : Type} {x : Meaning α} {y : Meaning β} {ab : α × β} :
    Meaning.both x y = .ok ab ↔ x = .ok ab.1 ∧ y = .ok ab.2 := by
  cases x <;> cases y <;> simp [Meaning.both, Prod.ext_iff]

theorem Meaning.mem_of_all {α : Type} {ms : List (Meaning α)} {as : List α}
    (h : Meaning.all ms = .ok as) : ∀ a ∈ as, .ok a ∈ ms := by
  induction ms generalizing as with
  | nil =>
    cases h
    simp
  | cons m rest ih =>
    obtain ⟨⟨a, others⟩, hboth, rfl⟩ := Except.map_eq_ok.mp h
    obtain ⟨rfl, hrest⟩ := Meaning.both_eq_ok.mp hboth
    intro b hb
    rcases List.mem_cons.mp hb with rfl | hb
    · exact List.mem_cons_self
    · exact List.mem_cons_of_mem _ (ih hrest b hb)

namespace Node

/-- Whether the keys of every mapping in what a node stands for are pairwise different. -/
def Drawn.Distinct (d : Drawn) : Prop := ∀ o ∈ d.objects, Table.Distinct o.2

theorem Drawn.distinct_join {make : List Datum → Datum} {parts : List Drawn}
    (h : ∀ d ∈ parts, d.Distinct) : (Drawn.join make parts).Distinct := by
  intro o ho
  obtain ⟨d, hd, hmem⟩ := List.mem_flatMap.mp ho
  exact h d hd o hmem

theorem Drawn.distinct_mapping {place : Place} {entries : List (Value × Drawn)}
    (h : ∀ e ∈ entries, e.2.Distinct) : (Drawn.mapping place entries).Distinct := by
  intro o ho
  rcases List.mem_cons.mp ho with rfl | hinner
  · exact Table.distinct_ofEntries _
  · obtain ⟨e, he, hmem⟩ := List.mem_flatMap.mp hinner
    exact h e he o hmem

theorem distinct_of_drawnAt {fuel depth : Nat} {n : Node} {d : Drawn}
    (h : n.drawnAt fuel depth = .ok d) : d.Distinct := by
  induction fuel generalizing depth n d with
  | zero => cases h
  | succ fuel ih =>
    have htuples : ∀ {entries : List (Node × Node)} {pairs : List Drawn},
        Meaning.all (entries.map fun entry =>
          (Meaning.both (drawnAt fuel (depth + 1) entry.1) (drawnAt fuel (depth + 1) entry.2)).map
            Drawn.pair) = .ok pairs →
        (Drawn.join .list pairs).Distinct := by
      intro entries pairs hpairs
      refine Drawn.distinct_join fun pair hpair => ?_
      obtain ⟨entry, -, hentry⟩ := List.mem_map.mp (Meaning.mem_of_all hpairs pair hpair)
      obtain ⟨⟨key, v⟩, hboth, rfl⟩ := Except.map_eq_ok.mp hentry
      obtain ⟨hkey, hv⟩ := Meaning.both_eq_ok.mp hboth
      exact Drawn.distinct_join (by simpa using ⟨ih hkey, ih hv⟩)
    unfold drawnAt at h
    dsimp only at h
    split at h
    next =>
      split at h
      next =>
        obtain ⟨ds, hds, rfl⟩ := Except.map_eq_ok.mp h
        refine Drawn.distinct_join fun d hd => ?_
        obtain ⟨item, -, hitem⟩ := List.mem_map.mp (Meaning.mem_of_all hds d hd)
        exact ih hitem
      next => cases h
    next =>
      split at h
      next =>
        obtain ⟨entries, -, h⟩ := Except.bind_eq_ok.mp h
        obtain ⟨es, hes, rfl⟩ := Except.map_eq_ok.mp h
        refine Drawn.distinct_mapping fun e he => ?_
        obtain ⟨entry, -, hentry⟩ := List.mem_map.mp (Meaning.mem_of_all hes e he)
        exact ih (Meaning.both_eq_ok.mp hentry).2
      next => cases h
    next =>
      obtain ⟨entries, -, h⟩ := Except.bind_eq_ok.mp h
      obtain ⟨pairs, hpairs, rfl⟩ := Except.map_eq_ok.mp h
      exact htuples hpairs
    next =>
      obtain ⟨entries, -, h⟩ := Except.bind_eq_ok.mp h
      obtain ⟨pairs, hpairs, rfl⟩ := Except.map_eq_ok.mp h
      exact htuples hpairs
    next =>
      obtain ⟨v, -, rfl⟩ := Except.map_eq_ok.mp h
      exact fun _ ho => absurd ho List.not_mem_nil

end Node

theorem distinct_of_read {source : Text} {g : Graph} (h : read source = .ok g) : g.heap.Distinct := by
  unfold read at h
  dsimp only at h
  split at h
  next => cases h
  next =>
    obtain ⟨_ | root, -, h⟩ := Except.bind_eq_ok.mp h
    · cases h
      exact fun _ ho => absurd ho List.not_mem_nil
    · obtain ⟨drawn, hdrawn, h⟩ := Except.bind_eq_ok.mp h
      cases h
      refine Heap.Distinct.renumber (fun o ho => ?_) _
      obtain ⟨entry, hentry, rfl⟩ := List.mem_map.mp ho
      obtain ⟨f, hf, heq⟩ := Table.mem_of_ofEntries hentry
      exact heq ▸ Node.distinct_of_drawnAt (Except.mapError_eq_ok.mp hdrawn) f hf

end Yaml

end Document

end RoutePattern
