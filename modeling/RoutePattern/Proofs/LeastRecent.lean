import Mathlib.Data.List.Dedup
import Mathlib.Data.List.DropRight
import RoutePattern.Proofs.CacheHistory

/-!
Which keys a cache holds where nothing grows too old: those that were used most recently, as many as it
has room for, in the order of their last use.
-/

namespace RoutePattern

section

variable {κ : Type}

theorem rtake_append_of_le {n : Nat} {xs ys : List κ} (h : n ≤ ys.length) :
    (xs ++ ys).rtake n = ys.rtake n := by
  have hlength : (xs ++ ys).length - n = xs.length + (ys.length - n) := by
    rw [List.length_append]
    omega
  rw [List.rtake, hlength, List.drop_length_add_append, List.rtake]

theorem rtake_of_length_le {n : Nat} {xs : List κ} (h : xs.length ≤ n) : xs.rtake n = xs := by
  rw [List.rtake, show xs.length - n = 0 by omega, List.drop_zero]

variable [DecidableEq κ]

theorem mem_rtake_dedup {n : Nat} {xs : List κ} {key : κ} :
    key ∈ xs.dedup.rtake n ↔
      ∃ before since, xs = before ++ key :: since ∧ key ∉ since ∧ since.dedup.length < n := by
  -- up to where an item comes last, nothing but what follows it matters
  have hsplit : ∀ before since : List κ, key ∉ since →
      ∃ early, (before ++ key :: since).dedup = (early ++ [key]) ++ since.dedup := by
    intro before since hsince
    obtain ⟨early, hearly⟩ := List.suffix_union_right before (key :: since).dedup
    refine ⟨early, ?_⟩
    rw [List.dedup_append, ← hearly, List.dedup_cons_of_notMem hsince]
    simp
  constructor
  · intro h
    have hmem : key ∈ xs.reverse :=
      List.mem_reverse.mpr (List.mem_dedup.mp (List.mem_of_mem_drop h))
    obtain ⟨later, before, hxs, hlater⟩ := List.eq_append_cons_of_mem hmem
    obtain rfl : xs = before.reverse ++ key :: later.reverse := by
      rw [← List.reverse_reverse xs, hxs]
      simp
    have hsince : key ∉ later.reverse := by simpa using hlater
    refine ⟨before.reverse, later.reverse, rfl, hsince, ?_⟩
    by_contra hlength
    obtain ⟨early, hearly⟩ := hsplit before.reverse later.reverse hsince
    rw [hearly, rtake_append_of_le (by omega)] at h
    exact hsince (List.mem_dedup.mp (List.mem_of_mem_drop h))
  · rintro ⟨before, since, rfl, hsince, hlength⟩
    obtain ⟨early, hearly⟩ := hsplit before since hsince
    have hle : (early ++ key :: since.dedup).length - n ≤ early.length := by
      rw [List.length_append, List.length_cons]
      omega
    rw [hearly, List.append_assoc, List.singleton_append, List.rtake,
      List.drop_append_of_le_length hle]
    exact List.mem_append_right _ List.mem_cons_self

variable [BEq κ] [LawfulBEq κ]

omit [DecidableEq κ] in
theorem rtake_erase {n : Nat} {xs : List κ} (hnodup : xs.Nodup) (key : κ) :
    (xs.erase key).rtake n =
      (if key ∈ xs.rtake (n + 1) then xs.rtake (n + 1) else (xs.rtake (n + 1)).rtake n).erase key := by
  by_cases hlength : xs.length ≤ n + 1
  · rw [rtake_of_length_le hlength]
    by_cases hkey : key ∈ xs
    · have herase : (xs.erase key).length ≤ n := by
        rw [List.length_erase_of_mem hkey]
        omega
      rw [if_pos hkey, rtake_of_length_le herase]
    · have hlast : key ∉ xs.rtake n := fun h => hkey (List.mem_of_mem_drop h)
      rw [if_neg hkey, List.erase_of_not_mem hkey, List.erase_of_not_mem hlast]
  · -- the list is what is left out and the last items, of which there are just as many as asked for
    obtain ⟨early, last, rfl, hroom, hlast⟩ : ∃ early last, xs = early ++ last ∧
        last.length = n + 1 ∧ xs.rtake (n + 1) = last :=
      ⟨xs.take (xs.length - (n + 1)), xs.rtake (n + 1), (List.take_append_drop _ _).symm,
        by rw [List.rtake, List.length_drop]; omega, rfl⟩
    rw [hlast]
    by_cases hkey : key ∈ last
    · have hfresh : key ∉ early := fun h => (List.nodup_append.mp hnodup).2.2 key h key hkey rfl
      have herase : (last.erase key).length = n := by
        rw [List.length_erase_of_mem hkey]
        omega
      rw [if_pos hkey, List.erase_append_right _ hfresh, rtake_append_of_le herase.ge,
        rtake_of_length_le herase.le]
    · have hrtake : key ∉ last.rtake n := fun h => hkey (List.mem_of_mem_drop h)
      have herase : (early ++ last).erase key = early.erase key ++ last := by
        by_cases hearly : key ∈ early
        · rw [List.erase_append_left _ hearly]
        · rw [List.erase_of_not_mem hearly, List.erase_append_right _ hearly,
            List.erase_of_not_mem hkey]
      rw [if_neg hkey, herase, rtake_append_of_le (by omega), List.erase_of_not_mem hrtake]

theorem dedup_concat (xs : List κ) (key : κ) :
    (xs ++ [key]).dedup = xs.dedup.erase key ++ [key] := by
  induction xs with
  | nil => simp
  | cons a rest ih =>
    by_cases hrest : a ∈ rest
    · rw [List.cons_append, List.dedup_cons_of_mem (List.mem_append_left _ hrest), ih,
        List.dedup_cons_of_mem hrest]
    · rw [List.cons_append, List.dedup_cons_of_notMem hrest]
      by_cases hkey : a = key
      · subst hkey
        have hmem : a ∈ rest ++ [a] := by simp
        have hfresh : a ∉ rest.dedup := fun h => hrest (List.mem_dedup.mp h)
        rw [List.dedup_cons_of_mem hmem, ih, List.erase_cons_head, List.erase_of_not_mem hfresh]
      · have hmem : a ∉ rest ++ [key] := by simp [hrest, hkey]
        rw [List.dedup_cons_of_notMem hmem, ih, List.erase_cons_tail (by simpa using hkey),
          List.cons_append]

theorem rtake_dedup_concat {room : Nat} (hroom : 0 < room) (xs : List κ) (key : κ) :
    (xs ++ [key]).dedup.rtake room = toEnd room key (xs.dedup.rtake room) := by
  obtain ⟨n, rfl⟩ : ∃ n, room = n + 1 := ⟨room - 1, by omega⟩
  have hdrop : ∀ ks : List κ, ks.drop (ks.length + 1 - (n + 1)) = ks.rtake n := by
    intro ks
    rw [List.rtake, show ks.length + 1 - (n + 1) = ks.length - n by omega]
  rw [dedup_concat, List.rtake_concat_succ, rtake_erase (List.nodup_dedup xs), toEnd, hdrop]

end

namespace Cache

variable {κ α τ : Type} [BEq κ] {c d : Cache κ α τ} {key : κ}

theorem entries_get_none [Sub τ] [LT τ] [DecidableLT τ] {now : τ} (hlifetime : c.lifetime = none)
    (h : c.get now key = (none, d)) : d.entries = c.entries := by
  rcases get_eq_none h with ⟨-, rfl⟩ | ⟨e, -, hold, -⟩
  · exact entries_tally _ _
  · rw [hlifetime] at hold
    cases hold

end Cache

theorem CacheRequest.touched?_of_asks {τ : Type} {key : RouteKey} {request : CacheRequest τ}
    (hasks : request.Asks key) (item : NumberedRoute) :
    request.touched? (.found (some item)) = some key := by
  rcases hasks with rfl | rfl <;> rfl

namespace CacheSession

variable {τ : Type} [Add τ] [Sub τ] [LT τ] [DecidableLT τ] [OfNat τ 0]

/-- The keys after a request: the one that it used comes last, and otherwise nothing changes. -/
theorem Effect.keys {s : CacheSession τ} {request : CacheRequest τ} {reply : CacheReply τ}
    {c : Cache RouteKey NumberedRoute τ} (heffect : Effect s request reply c)
    (hlifetime : s.cache.lifetime = none) (hroom : 0 < s.cache.capacity)
    (hdrops : ∀ key, request.drops key = false) :
    c.entries.map (·.1) =
      match request.touched? reply with
      | none => s.cache.entries.map (·.1)
      | some key => toEnd s.cache.capacity.toNat key (s.cache.entries.map (·.1)) := by
  cases heffect with
  | found hasks hget =>
    rw [CacheRequest.touched?_of_asks hasks]
    exact Cache.keys_get_some hget _
  | missed hget => exact congrArg _ (Cache.entries_get_none hlifetime hget)
  | failed hget _ =>
    rw [Cache.entries_tally]
    exact congrArg _ (Cache.entries_get_none hlifetime hget)
  | @made key r _ d hget _ =>
    have hcapacity : d.capacity = s.cache.capacity := by
      simpa [hget] using (Cache.get_keeps s.now key s.cache).1
    rw [Cache.entries_tally, Cache.keys_put (hcapacity ▸ hroom), hcapacity,
      Cache.entries_get_none hlifetime hget]
    rfl
  | put key route shared cost => exact Cache.keys_put hroom
  | invalidate pattern atEnd =>
    have hkept : s.cache.entries.filter (fun entry => !RouteKey.covers pattern atEnd entry.1) =
        s.cache.entries :=
      List.filter_eq_self.mpr fun entry _ => by
        have hkey := hdrops entry.1
        rw [CacheRequest.drops] at hkey
        simp [hkey]
    exact congrArg _ hkept
  | resetStats => rfl
  | idle hidle =>
    obtain ⟨-, -, htouched⟩ := idle_frame (s := s) hidle reply
    rw [htouched]

section

variable {capacity : Nat} {counting : Bool} {now cost : τ} {past : List (Moment τ)} {blocks : List Int}
variable {s : CacheSession τ}

theorem Reaches.keys (hcapacity : 0 < capacity)
    (h : Reaches (CacheSession.start (.empty capacity none counting) now cost) past blocks s)
    (hpast : ∀ m ∈ past, m.blocks = [] ∧ ∀ key, m.request.drops key = false) :
    s.cache.entries.map (·.1) = (past.filterMap Moment.touched?).dedup.rtake capacity := by
  induction h with
  | start => simp [CacheSession.start, Cache.empty]
  | @ask past blocks s h request hplain ih =>
    obtain ⟨hblocks, hdrops⟩ := hpast ⟨s, blocks, request⟩ (by simp)
    obtain ⟨hageable, -, hlifetime, -⟩ := h.keeps rfl
    have hroom : s.cache.capacity = capacity := by
      have hrestores := h.restores rfl
      rwa [show blocks = [] from hblocks] at hrestores
    have hkeys := (effect_run hageable hplain).keys hlifetime (by omega) hdrops
    rw [ih fun m hm => hpast m (List.mem_append_left _ hm), hroom, Int.toNat_natCast] at hkeys
    rw [hkeys, List.filterMap_append]
    cases htouched : request.touched? (s.run request).1 with
    | none =>
      have hnone : Moment.touched? ⟨s, blocks, request⟩ = none := htouched
      simp [hnone]
    | some key =>
      have hsome : Moment.touched? ⟨s, blocks, request⟩ = some key := htouched
      rw [List.filterMap_cons_some hsome, List.filterMap_nil]
      exact (rtake_dedup_concat hcapacity _ key).symm
  | pass _ _ _ _ ih => exact ih hpast
  | enter _ ih => exact ih hpast
  | leave _ ih => exact ih hpast

/-- Where nothing grows too old, nothing is invalidated and nothing is asked within blocks, the keys that are
stored are the last different ones that were used, as many as there is room for, in the order of their last
use. So a key is stored if it was used and fewer other ones were used since than there is room for. What is
stored under a key is what was put in last. -/
theorem keys_eq_recent (hcapacity : 0 < capacity)
    (h : Reaches (CacheSession.start (.empty capacity none counting) now cost) past blocks s)
    (hpast : ∀ m ∈ past, m.blocks = [] ∧ ∀ key, m.request.drops key = false) :
    s.cache.entries.keys = (past.filterMap Moment.touched?).dedup.rtake capacity ∧
    (∀ key, key ∈ s.cache.entries.keys ↔
      ∃ before since, past.filterMap Moment.touched? = before ++ key :: since ∧ key ∉ since ∧
        since.dedup.length < capacity) ∧
    ∀ entry ∈ s.cache.entries, LastStored past entry.1 entry.2.item entry.2.createdAt := by
  have hkeys := h.keys hcapacity hpast
  refine ⟨hkeys, fun key => ?_, h.lastStored rfl rfl⟩
  have hmem : key ∈ s.cache.entries.keys ↔
      key ∈ (past.filterMap Moment.touched?).dedup.rtake capacity := hkeys ▸ Iff.rfl
  exact hmem.trans mem_rtake_dedup

end

/-- A route that is put in again moves its key to the end, so that another one is dropped for the third key.
The look-up in vain does not count. -/
theorem keys_eq_recent_two :
    let first : CacheSession Int := start (.empty (2 : Nat) none true) 0 1
    let a : RouteKey := ("/a", false)
    let b : RouteKey := ("/b", true)
    let c : RouteKey := ("/c", false)
    ∃ past s, Reaches first past [] s ∧
      past.map Moment.request = [.put b Route.home none 0, .getOrMake a,
        .put b Route.unnamed none 0, .get c, .getOrMake c] ∧
      (∀ m ∈ past, m.blocks = [] ∧ ∀ key, m.request.drops key = false) ∧
      past.filterMap Moment.touched? = [b, a, b, c] ∧ s.cache.entries.keys = [b, c] ∧
      (∃ before since, past.filterMap Moment.touched? = before ++ b :: since ∧ b ∉ since ∧
        since.dedup.length < 2) ∧
      ∃ e, (b, e) ∈ s.cache.entries ∧ LastStored past b e.item e.createdAt := by
  intro first a b c
  have hstart : Reaches first [] [] first := .start
  have h := ((((hstart.ask (.put b Route.home none 0) rfl).ask
    (.getOrMake a) rfl).ask (.put b Route.unnamed none 0) rfl).ask (.get c) rfl).ask (.getOrMake c) rfl
  obtain ⟨hkeys, hmem, hstored⟩ := keys_eq_recent (by decide) h (by simp [CacheRequest.drops])
  have hlast := hkeys.trans (show _ = [b, c] by decide +kernel)
  have hb : b ∈ ([b, c] : List RouteKey) := List.mem_cons_self
  rw [← hlast] at hb
  obtain ⟨⟨_, e⟩, he, rfl⟩ := List.mem_map.mp hb
  exact ⟨_, _, h, rfl, by simp [CacheRequest.drops], by decide +kernel, hlast, (hmem b).mp hb, e, he,
    hstored _ he⟩

end CacheSession

end RoutePattern
