import RoutePattern.Proofs.CacheHistory

/-!
What a cache of routes serves: the route that was put in last under the key, for no longer than its lifetime,
whatever was asked, dropped and asked within blocks in the meantime.
-/

namespace RoutePattern

namespace Cache

variable {κ α τ : Type} [BEq κ] [LawfulBEq κ] {c : Cache κ α τ} {key : κ} {most : Nat}

theorem length_put_le {now cost : τ} {item : α} (hmost : c.capacity ≤ most)
    (hlength : c.entries.length ≤ most) :
    (c.put now key item cost).entries.length ≤ most := by
  by_cases hroom : 0 < c.capacity
  · have hkeys : ((c.put now key item cost).entries.map (·.1)).length ≤ most := by
      rw [keys_put hroom]
      exact length_toEnd_le (by omega) (by omega) (by rwa [List.length_map])
    rwa [List.length_map] at hkeys
  · rwa [put_of_nonpos (by omega)]

theorem length_get_le [Sub τ] [LT τ] [DecidableLT τ] {d : Cache κ α τ} {now : τ} {found : Option α}
    (h : c.get now key = (found, d)) : d.entries.length ≤ c.entries.length := by
  cases found with
  | some item =>
    obtain ⟨e, he, -, -, hd⟩ := get_eq_some h
    have hlength := Table.length_erase (Table.mem_keys_of_get? he)
    rw [hd, List.length_append, List.length_singleton]
    exact Nat.le_of_eq hlength
  | none =>
    rcases get_eq_none h with ⟨-, rfl⟩ | ⟨e, -, -, hd⟩
    · exact Nat.le_of_eq (congrArg _ (entries_tally _ _))
    · rw [hd]
      exact (Table.erase_sublist key c.entries).length_le

end Cache

namespace CacheSession

variable {τ : Type} [Add τ] [Sub τ] [LT τ] [DecidableLT τ] [OfNat τ 0]

theorem Effect.length_le {s : CacheSession τ} {request : CacheRequest τ} {reply : CacheReply τ}
    {c : Cache RouteKey NumberedRoute τ} (heffect : Effect s request reply c) {most : Nat}
    (hmost : s.cache.capacity ≤ most) (hlength : s.cache.entries.length ≤ most) :
    c.entries.length ≤ most := by
  cases heffect with
  | found _ hget => exact Nat.le_trans (Cache.length_get_le hget) hlength
  | missed hget => exact Nat.le_trans (Cache.length_get_le hget) hlength
  | failed hget _ =>
    rw [Cache.entries_tally]
    exact Nat.le_trans (Cache.length_get_le hget) hlength
  | @made key r _ d hget _ =>
    have hcapacity : d.capacity = s.cache.capacity := by
      simpa [hget] using (Cache.get_keeps s.now key s.cache).1
    rw [Cache.entries_tally]
    exact Cache.length_put_le (hcapacity ▸ hmost) (Nat.le_trans (Cache.length_get_le hget) hlength)
  | put key route shared cost => exact Cache.length_put_le hmost hlength
  | invalidate pattern atEnd => exact Nat.le_trans (List.length_filter_le _ _) hlength
  | resetStats => exact hlength
  | idle _ => exact hlength

section

variable {capacity : Nat} {lifetime : Option τ} {counting : Bool} {now cost : τ}
variable {past : List (Moment τ)} {blocks : List Int} {s : CacheSession τ}

theorem Reaches.length_le
    (h : Reaches (CacheSession.start (.empty capacity lifetime counting) now cost) past blocks s) :
    s.cache.entries.length ≤ capacity := by
  induction h with
  | start => exact Nat.zero_le _
  | ask h request hplain ih =>
    have hmost := (h.restores rfl).capacity_le (Int.natCast_nonneg capacity)
    exact (effect_run (h.keeps rfl).1 hplain).length_le hmost ih
  | pass _ _ _ _ ih => exact ih
  | enter _ ih => exact ih
  | leave _ ih => exact ih

/-- However requests, blocks and the passing of time follow one another, a cache never holds more entries
than it was made for, and never two under one key. What it serves under a key was put in under this key by
the last request that did so while storing was enabled. Nothing was invalidated under the key since then, and
this is no longer ago than the lifetime, however often the route was served in the meantime. -/
theorem served_lastStored
    (h : Reaches (CacheSession.start (.empty capacity lifetime counting) now cost) past blocks s) :
    s.cache.size ≤ capacity ∧ s.cache.entries.keys.Nodup ∧
    ∀ key item after, s.cache.get s.now key = (some item, after) →
      ∃ time, LastStored past key item time ∧
        ∀ limit, lifetime = some limit → ¬ limit < s.now - time := by
  refine ⟨h.length_le, h.nodup_keys rfl rfl, fun key item after hget => ?_⟩
  obtain ⟨e, he, hfresh, rfl, -⟩ := Cache.get_eq_some hget
  refine ⟨e.createdAt, h.lastStored rfl rfl _ (Table.mem_of_get? he), ?_⟩
  rintro limit rfl
  have hlifetime : s.cache.lifetime = some limit := (h.keeps rfl).2.2.1
  simpa [hlifetime, CacheEntry.isExpired] using hfresh

end

/-- What is put in within blocks does not count, and being served does not make a route younger: ten units
after it was put in it is served for the last time. -/
theorem served_lastStored_within_blocks :
    let first : CacheSession Int := start (.empty (2 : Nat) (some 10) true) 0 1
    let key : RouteKey := ("/a", false)
    let requests : List (CacheRequest Int) := [.getOrMake key, .wait 9, .get key,
      .disabled [.disabled [.put key Route.home none 0], .wait 1]]
    let s := (first.runAll requests).2
    ∃ past item after, Reaches first past [] s ∧
      past.map Moment.request =
        [.getOrMake key, .wait 9, .get key, .put key Route.home none 0, .wait 1] ∧
      s.cache.get s.now key = (some item, after) ∧ s.cache.size ≤ 2 ∧
      ∃ time, LastStored past key item time ∧ s.now = 10 ∧
        ∀ limit, some 10 = some limit → ¬ limit < s.now - time := by
  intro first key requests s
  have hinner : ∀ request : CacheRequest Int, request ∈ [.put key Route.home none 0] →
      request.Own := by
    simpa using CacheRequest.Own.plain rfl
  have hblock : ∀ request : CacheRequest Int,
      request ∈ [.disabled [.put key Route.home none 0], .wait 1] → request.Own := by
    simpa using ⟨CacheRequest.Own.disabled hinner, CacheRequest.Own.plain rfl⟩
  have hown : ∀ request ∈ requests, request.Own := by
    simpa [requests] using ⟨CacheRequest.Own.plain rfl, CacheRequest.Own.plain rfl,
      CacheRequest.Own.plain rfl, CacheRequest.Own.disabled hblock⟩
  have hstart : Reaches first [] [] first := .start
  obtain ⟨past, h, hpast⟩ := hstart.runAll rfl hown
  obtain ⟨hsize, -, hserved⟩ := served_lastStored h
  obtain ⟨time, hlast, hfresh⟩ := hserved key _ _ rfl
  exact ⟨_, _, _, h, hpast, rfl, hsize, time, hlast, rfl, hfresh⟩

end CacheSession

end RoutePattern
