import RoutePattern.Proofs.CacheSteps
import RoutePattern.Route.Cache.Session

/-!
The history of a cache of routes: the requests that came up, each with the session at that time, and the
sessions that requests, blocks of requests and the passing of time lead to.
-/

namespace RoutePattern

namespace CacheRequest

variable {τ : Type}

/-- Whether a request is about the cache at hand and is no block of requests. -/
def isPlain : CacheRequest τ → Bool
  | renew _ => false
  | disabled _ => false
  | elsewhere _ => false
  | _ => true

/-- Requests about the cache at hand, and blocks of such requests. -/
inductive Own : CacheRequest τ → Prop
  | plain {request : CacheRequest τ} (h : request.isPlain = true) : Own request
  | disabled {requests : List (CacheRequest τ)} (h : ∀ request ∈ requests, Own request) :
      Own (.disabled requests)

mutual

/-- The requests in a request that are no blocks, in order. -/
def leaves : CacheRequest τ → List (CacheRequest τ)
  | disabled requests => leavesOf requests
  | request => [request]

def leavesOf : List (CacheRequest τ) → List (CacheRequest τ)
  | [] => []
  | request :: rest => leaves request ++ leavesOf rest

end

theorem leaves_of_isPlain {request : CacheRequest τ} (hplain : request.isPlain = true) :
    request.leaves = [request] := by
  cases request with
  | disabled _ => cases hplain
  | _ => rfl

/-- Whether a request only looks at the cache, or not even this. -/
def isIdle : CacheRequest τ → Bool
  | make _ => true
  | wait _ => true
  | look _ => true
  | expired _ _ => true
  | _ => false

/-- Whether a request looks a key up, and makes the route or not if there is none. -/
def Asks (key : RouteKey) (request : CacheRequest τ) : Prop :=
  request = .get key ∨ request = .getOrMake key

/-- The key that a request brought to the end of the cache, by its reply. -/
def touched? : CacheRequest τ → CacheReply τ → Option RouteKey
  | get key, .found (some _) => some key
  | getOrMake key, .found (some _) => some key
  | put key _ _ _, _ => some key
  | _, _ => none

/-- Whether a request drops the entry of a key in any case. -/
def drops (key : RouteKey) : CacheRequest τ → Bool
  | invalidate pattern atEnd => RouteKey.covers pattern atEnd key
  | _ => false

theorem drops_of_asks {key k : RouteKey} {request : CacheRequest τ} (hasks : request.Asks key) :
    request.drops k = false := by
  rcases hasks with rfl | rfl <;> rfl

end CacheRequest

namespace CacheSession

variable {τ : Type} [Add τ] [Sub τ] [LT τ] [DecidableLT τ]

/-- What a request puts into the cache: the key, the route and the time. -/
def puts? (s : CacheSession τ) : CacheRequest τ → Option (RouteKey × NumberedRoute × τ)
  | .put key route shared _ => some (key, ⟨shared.getD s.next, route⟩, s.now)
  | .getOrMake key =>
    if s.holds key then none
    else (Route.prepared key).toOption.map fun r => (key, ⟨s.next, r⟩, s.now + s.delay)
  | _ => none

section

variable {s : CacheSession τ} {request : CacheRequest τ} {key : RouteKey}
variable {c : Cache RouteKey NumberedRoute τ}

theorem puts?_of_holds {item : NumberedRoute} (hasks : request.Asks key)
    (hget : s.cache.get s.now key = (some item, c)) : s.puts? request = none := by
  rcases hasks with rfl | rfl
  · rfl
  · simp [puts?, holds, hget]

theorem puts?_of_made {r : Route} (hget : s.cache.get s.now key = (none, c))
    (hmade : Route.prepared key = .ok r) :
    s.puts? (.getOrMake key) = some (key, ⟨s.next, r⟩, s.now + s.delay) := by
  simp [puts?, holds, hget, hmade, Except.toOption]

theorem puts?_of_failed {error : PreparationError} (hmade : Route.prepared key = .error error) :
    s.puts? (.getOrMake key) = none := by
  simp [puts?, hmade, Except.toOption]

theorem idle_frame (hidle : request.isIdle = true) (reply : CacheReply τ) :
    s.puts? request = none ∧ (∀ key, request.drops key = false) ∧
      request.touched? reply = none := by
  cases request <;>
    simp_all [CacheRequest.isIdle, puts?, CacheRequest.drops, CacheRequest.touched?]

end

/-- A request when it came up: the session before it, and the capacities to go back to behind the blocks
that it stands in, the innermost one first. -/
structure Moment (τ : Type) where
  session : CacheSession τ
  blocks : List Int
  request : CacheRequest τ

/-- What is put into the cache while storing is enabled: outside of all blocks, with room for a route. -/
def Moment.stored? (m : Moment τ) : Option (RouteKey × NumberedRoute × τ) :=
  if m.blocks = [] ∧ 0 < m.session.cache.capacity then m.session.puts? m.request else none

/-- A route was put in under a key while storing was enabled, and since then nothing was put in and nothing
was invalidated under this key. -/
def LastStored (past : List (Moment τ)) (key : RouteKey) (item : NumberedRoute) (time : τ) : Prop :=
  ∃ earlier m since, past = earlier ++ m :: since ∧ m.stored? = some (key, item, time) ∧
    ∀ later ∈ since, (∀ x, later.stored? ≠ some (key, x)) ∧ later.request.drops key = false

theorem LastStored.later {past : List (Moment τ)} {m : Moment τ} {key : RouteKey}
    {item : NumberedRoute} {time : τ} (h : LastStored past key item time)
    (hstored : ∀ x, m.stored? ≠ some (key, x)) (hdrops : m.request.drops key = false) :
    LastStored (past ++ [m]) key item time := by
  obtain ⟨earlier, store, since, rfl, hstore, hsince⟩ := h
  refine ⟨earlier, store, since ++ [m], by simp, hstore, fun later hlater => ?_⟩
  rcases List.mem_append.mp hlater with hm | hm
  · exact hsince later hm
  · obtain rfl := List.mem_singleton.mp hm
    exact ⟨hstored, hdrops⟩

variable [OfNat τ 0]

namespace Moment

def reply (m : Moment τ) : CacheReply τ := (m.session.run m.request).1

/-- The key that the request brought to the end of the cache. -/
def touched? (m : Moment τ) : Option RouteKey := m.request.touched? m.reply

end Moment

/-- The sessions that the first one can turn into, within blocks too, each with what was asked before and
with the capacities to go back to. Nothing is supposed of the clock and of what making a route takes. -/
inductive Reaches (first : CacheSession τ) :
    List (Moment τ) → List Int → CacheSession τ → Prop
  | start : Reaches first [] [] first
  | ask {past blocks s} (h : Reaches first past blocks s) (request : CacheRequest τ)
      (hplain : request.isPlain = true) :
      Reaches first (past ++ [⟨s, blocks, request⟩]) blocks (s.run request).2
  | pass {past blocks s} (h : Reaches first past blocks s) (now cost delay : τ) :
      Reaches first past blocks { s with now := now, cost := cost, delay := delay }
  | enter {past blocks s} (h : Reaches first past blocks s) :
      Reaches first past (s.cache.capacity :: blocks) (s.withCache (s.cache.withCapacity 0))
  | leave {past blocks capacity s} (h : Reaches first past (capacity :: blocks) s) :
      Reaches first past blocks (s.withCache (s.cache.withCapacity capacity))

/-- What a plain request does to the cache, with its reply. -/
inductive Effect (s : CacheSession τ) :
    CacheRequest τ → CacheReply τ → Cache RouteKey NumberedRoute τ → Prop
  | found {request key item n c} (hasks : request.Asks key)
      (hget : s.cache.get s.now key = (some item, c)) :
      Effect s request (.found (some ⟨n, item.route⟩)) c
  | missed {key c} (hget : s.cache.get s.now key = (none, c)) :
      Effect s (.get key) (.found none) c
  | failed {key error c} (hget : s.cache.get s.now key = (none, c))
      (hmade : Route.prepared key = .error error) :
      Effect s (.getOrMake key) (.failed error) (c.tally .fail)
  | made {key r n c} (hget : s.cache.get s.now key = (none, c))
      (hmade : Route.prepared key = .ok r) :
      Effect s (.getOrMake key) (.found (some ⟨n, r⟩))
        ((c.put (s.now + s.delay) key ⟨s.next, r⟩ s.cost).tally (.spend s.cost))
  | put (key route shared cost) :
      Effect s (.put key route shared cost) (.value .null)
        (s.cache.put s.now key ⟨shared.getD s.next, route⟩ cost)
  | invalidate (pattern atEnd) :
      Effect s (.invalidate pattern atEnd) (.value .null) (s.cache.invalidate pattern atEnd)
  | resetStats : Effect s .resetStats (.value .null) s.cache.resetStats
  | idle {request reply} (hidle : request.isIdle = true) : Effect s request reply s.cache

theorem effect_run {s : CacheSession τ} (hageable : s.ageable = .ok ()) {request : CacheRequest τ}
    (hplain : request.isPlain = true) :
    Effect s request (s.run request).1 (s.run request).2.cache := by
  cases request with
  | get key =>
    rcases hget : s.cache.get s.now key with ⟨_ | item, c⟩
    · simpa [run, aged, hageable, hget, withCache] using Effect.missed hget
    · simpa [run, aged, hageable, hget, withCache, handOut] using Effect.found (.inl rfl) hget
  | getOrMake key =>
    rcases hget : s.cache.get s.now key with ⟨_ | item, c⟩
    · cases hmade : Route.prepared key with
      | error e =>
        simpa [run, aged, hageable, fetch, Cache.getOrMake, hget, hmade, withCache, Except.map]
          using Effect.failed hget hmade
      | ok r =>
        simpa [run, aged, hageable, fetch, Cache.getOrMake, hget, hmade, withCache, Except.map,
          handOut] using Effect.made hget hmade
    · simpa [run, aged, hageable, fetch, Cache.getOrMake, hget, withCache, handOut]
        using Effect.found (.inr rfl) hget
  | put key route shared cost => exact .put key route shared cost
  | invalidate pattern atEnd => exact .invalidate pattern atEnd
  | resetStats => exact .resetStats
  | make key =>
    have hcache : (s.run (.make key)).2.cache = s.cache := by
      cases h : Route.parse key.1 key.2 <;> simp [run, h, handOut, counted]
    rw [hcache]
    exact .idle rfl
  | wait time => exact .idle rfl
  | look view => exact .idle rfl
  | expired key lifetime =>
    have hcache : (s.run (.expired key lifetime)).2.cache = s.cache := by
      cases h : Table.get? key s.cache.entries <;> cases lifetime <;> simp [run, h]
    rw [hcache]
    exact .idle rfl
  | renew _ => cases hplain
  | disabled _ => cases hplain
  | elsewhere _ => cases hplain

section

variable {s : CacheSession τ} {request : CacheRequest τ} {reply : CacheReply τ}
variable {c : Cache RouteKey NumberedRoute τ}

theorem run_keeps (hageable : s.ageable = .ok ()) (hplain : request.isPlain = true) :
    (s.run request).2.ageable = s.ageable ∧ (s.run request).2.renewals = s.renewals := by
  cases request with
  | get key =>
    rcases hget : s.cache.get s.now key with ⟨_ | item, c⟩ <;>
      simp [run, aged, hageable, hget, withCache, handOut]
  | getOrMake key =>
    rcases hfetch : s.cache.getOrMake s.now (s.now + s.delay) s.cost key
        ((Route.prepared key).map fun r => ⟨s.next, r⟩) with ⟨_ | item, c⟩ <;>
      cases hholds : s.holds key <;>
      simp [run, aged, hageable, fetch, hfetch, hholds, withCache, handOut, prepared, counted]
  | make key => cases h : Route.parse key.1 key.2 <;> simp [run, h, handOut, counted]
  | expired key lifetime =>
    cases h : Table.get? key s.cache.entries <;> cases lifetime <;> simp [run, h]
  | put _ _ _ _ => exact ⟨rfl, rfl⟩
  | invalidate _ _ => exact ⟨rfl, rfl⟩
  | resetStats => exact ⟨rfl, rfl⟩
  | wait _ => exact ⟨rfl, rfl⟩
  | look _ => exact ⟨rfl, rfl⟩
  | renew _ => cases hplain
  | disabled _ => cases hplain
  | elsewhere _ => cases hplain

theorem Effect.keeps (heffect : Effect s request reply c) :
    c.capacity = s.cache.capacity ∧ c.lifetime = s.cache.lifetime ∧
      c.counting = s.cache.counting := by
  cases heffect with
  | @found _ key item _ _ _ hget => simpa [hget] using Cache.get_keeps s.now key s.cache
  | @missed key _ hget => simpa [hget] using Cache.get_keeps s.now key s.cache
  | @failed key _ _ hget _ => simpa [hget] using Cache.get_keeps s.now key s.cache
  | @made key r _ c hget _ =>
    obtain ⟨hcapacity, hlifetime, hcounting⟩ :=
      Cache.put_keeps (s.now + s.delay) key (⟨s.next, r⟩ : NumberedRoute) s.cost c
    simpa [hget, hcapacity, hlifetime, hcounting] using Cache.get_keeps s.now key s.cache
  | put key route shared cost => exact Cache.put_keeps s.now key _ cost s.cache
  | invalidate pattern atEnd => exact ⟨rfl, rfl, rfl⟩
  | resetStats => exact ⟨rfl, rfl, rfl⟩
  | idle _ => exact ⟨rfl, rfl, rfl⟩

/-- Every entry after a request either was put in by it, or was there before with the same route since the
same time, and its key is none that the request puts something under or drops. -/
theorem Effect.mem_entries (heffect : Effect s request reply c)
    (hkeys : (s.cache.entries.map (·.1)).Nodup) {entry : RouteKey × CacheEntry NumberedRoute τ}
    (hentry : entry ∈ c.entries) :
    (0 < s.cache.capacity ∧
      s.puts? request = some (entry.1, entry.2.item, entry.2.createdAt)) ∨
    (∃ e, (entry.1, e) ∈ s.cache.entries ∧ e.item = entry.2.item ∧
        e.createdAt = entry.2.createdAt) ∧
      (0 < s.cache.capacity → ∀ x, s.puts? request ≠ some (entry.1, x)) ∧
      request.drops entry.1 = false := by
  -- a look-up only notes that an entry was used
  have hlooked : ∀ {key found d}, s.cache.get s.now key = (found, d) →
      ∀ {entry : RouteKey × CacheEntry NumberedRoute τ}, entry ∈ d.entries →
      ∃ e, (entry.1, e) ∈ s.cache.entries ∧ e.item = entry.2.item ∧
        e.createdAt = entry.2.createdAt := by
    intro key found d hget entry hentry
    rcases Cache.mem_entries_get hget hentry with hm | ⟨e, he, rfl⟩
    · exact ⟨entry.2, hm, rfl, rfl⟩
    · exact ⟨e, he, rfl, rfl⟩
  cases heffect with
  | found hasks hget =>
    have hputs := puts?_of_holds hasks hget
    exact .inr ⟨hlooked hget hentry, fun _ x => by simp [hputs], CacheRequest.drops_of_asks hasks⟩
  | missed hget => exact .inr ⟨hlooked hget hentry, fun _ x => by simp [puts?], rfl⟩
  | failed hget hmade =>
    rw [Cache.entries_tally] at hentry
    have hputs := puts?_of_failed (s := s) hmade
    exact .inr ⟨hlooked hget hentry, fun _ x => by simp [hputs], rfl⟩
  | @made key r _ d hget hmade =>
    rw [Cache.entries_tally] at hentry
    have hputs := puts?_of_made hget hmade
    have hcapacity : d.capacity = s.cache.capacity := by
      simpa [hget] using (Cache.get_keeps s.now key s.cache).1
    rcases Cache.mem_entries_put (Cache.nodup_keys_get hget hkeys) hentry with
      ⟨hm, hne⟩ | ⟨hpos, rfl⟩
    · refine .inr ⟨hlooked hget hm, fun hpos x hx => ?_, rfl⟩
      rw [hputs] at hx
      exact hne (hcapacity ▸ hpos) (Prod.mk.inj (Option.some.inj hx)).1.symm
    · exact .inl ⟨hcapacity ▸ hpos, hputs⟩
  | put key route shared cost =>
    rcases Cache.mem_entries_put hkeys hentry with ⟨hm, hne⟩ | ⟨hpos, rfl⟩
    · refine .inr ⟨⟨entry.2, hm, rfl, rfl⟩, fun hpos x hx => ?_, rfl⟩
      exact hne hpos (Prod.mk.inj (Option.some.inj hx)).1.symm
    · exact .inl ⟨hpos, rfl⟩
  | invalidate pattern atEnd =>
    obtain ⟨hm, hcovers⟩ := List.mem_filter.mp hentry
    exact .inr ⟨⟨entry.2, hm, rfl, rfl⟩, fun _ x => by simp [puts?],
      by simpa [CacheRequest.drops] using hcovers⟩
  | resetStats => exact .inr ⟨⟨entry.2, hentry, rfl, rfl⟩, fun _ x => by simp [puts?], rfl⟩
  | idle hidle =>
    obtain ⟨hputs, hdrops, -⟩ := idle_frame (s := s) hidle reply
    exact .inr ⟨⟨entry.2, hentry, rfl, rfl⟩, fun _ x => by simp [hputs], hdrops entry.1⟩

theorem Effect.nodup_keys (heffect : Effect s request reply c)
    (hkeys : (s.cache.entries.map (·.1)).Nodup) : (c.entries.map (·.1)).Nodup := by
  cases heffect with
  | found _ hget => exact Cache.nodup_keys_get hget hkeys
  | missed hget => exact Cache.nodup_keys_get hget hkeys
  | failed hget _ =>
    rw [Cache.entries_tally]
    exact Cache.nodup_keys_get hget hkeys
  | made hget _ =>
    rw [Cache.entries_tally]
    exact Cache.nodup_keys_put (Cache.nodup_keys_get hget hkeys)
  | put key route shared cost => exact Cache.nodup_keys_put hkeys
  | invalidate pattern atEnd => exact hkeys.sublist (List.filter_sublist.map _)
  | resetStats => exact hkeys
  | idle _ => exact hkeys

end

section

variable {first s : CacheSession τ} {past : List (Moment τ)} {blocks : List Int}

theorem Reaches.keeps (hageable : first.ageable = .ok ()) (h : Reaches first past blocks s) :
    s.ageable = .ok () ∧ s.renewals = first.renewals ∧
      s.cache.lifetime = first.cache.lifetime ∧ s.cache.counting = first.cache.counting := by
  induction h with
  | start => exact ⟨hageable, rfl, rfl, rfl⟩
  | @ask past blocks s _ request hplain ih =>
    obtain ⟨hage, hrenewals, hlifetime, hcounting⟩ := ih
    obtain ⟨hage', hrenewals'⟩ := run_keeps hage hplain
    obtain ⟨-, hlifetime', hcounting'⟩ := (effect_run hage hplain).keeps
    exact ⟨hage'.trans hage, hrenewals'.trans hrenewals, hlifetime'.trans hlifetime,
      hcounting'.trans hcounting⟩
  | pass _ _ _ _ ih => exact ih
  | enter _ ih => exact ih
  | leave _ ih => exact ih

/-- Within blocks nothing can be stored, and behind all of them the first capacity is back. -/
def Restores (capacity : Int) : List Int → Int → Prop
  | [], current => current = capacity
  | outer :: blocks, current => current = 0 ∧ Restores capacity blocks outer

theorem Reaches.restores (hageable : first.ageable = .ok ()) (h : Reaches first past blocks s) :
    Restores first.cache.capacity blocks s.cache.capacity := by
  induction h with
  | start => exact rfl
  | ask h request hplain ih =>
    obtain ⟨hcapacity, -⟩ := (effect_run (h.keeps hageable).1 hplain).keeps
    exact hcapacity ▸ ih
  | pass _ _ _ _ ih => exact ih
  | enter _ ih => exact ⟨rfl, ih⟩
  | leave _ ih => exact ih.2

theorem Restores.capacity_le {capacity current : Int} (h : Restores capacity blocks current)
    (hcapacity : 0 ≤ capacity) : current ≤ capacity := by
  cases blocks with
  | nil => exact Int.le_of_eq h
  | cons outer blocks =>
    obtain ⟨rfl, -⟩ := h
    exact hcapacity

theorem Restores.eq_nil_of_pos {capacity current : Int} (h : Restores capacity blocks current)
    (hpos : 0 < current) : blocks = [] := by
  cases blocks with
  | nil => rfl
  | cons outer blocks =>
    obtain ⟨rfl, -⟩ := h
    exact absurd hpos (Int.lt_irrefl 0)

theorem Reaches.nodup_keys (hageable : first.ageable = .ok ()) (hempty : first.cache.entries = [])
    (h : Reaches first past blocks s) : (s.cache.entries.map (·.1)).Nodup := by
  induction h with
  | start => simp [hempty]
  | ask h request hplain ih => exact (effect_run (h.keeps hageable).1 hplain).nodup_keys ih
  | pass _ _ _ _ ih => exact ih
  | enter _ ih => exact ih
  | leave _ ih => exact ih

/-- Every entry holds the route that was stored last under its key, since the time when it was stored. -/
theorem Reaches.lastStored (hageable : first.ageable = .ok ()) (hempty : first.cache.entries = [])
    (h : Reaches first past blocks s) :
    ∀ entry ∈ s.cache.entries, LastStored past entry.1 entry.2.item entry.2.createdAt := by
  induction h with
  | start => simp [hempty]
  | @ask past blocks s h request hplain ih =>
    intro entry hentry
    have heffect := effect_run (h.keeps hageable).1 hplain
    rcases heffect.mem_entries (h.nodup_keys hageable hempty) hentry with
      ⟨hpos, hputs⟩ | ⟨⟨e, he, hitem, htime⟩, hputs, hdrops⟩
    · have hblocks := (h.restores hageable).eq_nil_of_pos hpos
      exact ⟨past, _, [], rfl, by simp [Moment.stored?, hblocks, hpos, hputs], by simp⟩
    · have hlast := ih _ he
      rw [hitem, htime] at hlast
      refine hlast.later (fun x hx => ?_) hdrops
      obtain ⟨⟨-, hpos⟩, hstored⟩ := Option.ite_none_right_eq_some.mp hx
      exact hputs hpos x hstored
  | pass _ _ _ _ ih => exact ih
  | enter _ ih => exact ih
  | leave _ ih => exact ih

/-- Where each of some requests leads from a session that is reached to one that is reached, so do all of
them one after the other. -/
theorem Reaches.runAll_of_run {requests : List (CacheRequest τ)}
    (hrun : ∀ request ∈ requests, ∀ {past blocks s}, Reaches first past blocks s →
      ∃ since, Reaches first (past ++ since) blocks (s.run request).2 ∧
        since.map Moment.request = request.leaves)
    (h : Reaches first past blocks s) :
    ∃ since, Reaches first (past ++ since) blocks (s.runAll requests).2 ∧
      since.map Moment.request = CacheRequest.leavesOf requests := by
  induction requests generalizing past s with
  | nil => exact ⟨[], by simpa [CacheSession.runAll] using h, rfl⟩
  | cons request rest ih =>
    obtain ⟨now, hnow, hrequest⟩ := hrun request List.mem_cons_self h
    obtain ⟨later, hlater, hrest⟩ := ih (fun r hr => hrun r (List.mem_cons_of_mem _ hr)) hnow
    refine ⟨now ++ later, by simpa [CacheSession.runAll] using hlater, ?_⟩
    rw [List.map_append, hrequest, hrest, CacheRequest.leavesOf]

theorem Reaches.run (hageable : first.ageable = .ok ()) {request : CacheRequest τ}
    (hown : request.Own) (h : Reaches first past blocks s) :
    ∃ since, Reaches first (past ++ since) blocks (s.run request).2 ∧
      since.map Moment.request = request.leaves := by
  induction hown generalizing past blocks s with
  | plain hplain =>
    exact ⟨_, h.ask _ hplain, (CacheRequest.leaves_of_isPlain hplain).symm⟩
  | @disabled requests _ ih =>
    obtain ⟨since, hlast, hrequests⟩ := Reaches.runAll_of_run (fun r hr _ _ _ h => ih r hr h) h.enter
    -- no cache was replaced within the block, so the capacity is set back in the one at hand
    have hrenewals := (hlast.keeps hageable).2.1.trans (h.keeps hageable).2.1.symm
    have hleave := hlast.leave
    exact ⟨since, by simpa [CacheSession.run, Cache.disabled, hrenewals] using hleave, hrequests⟩

/-- What a program asks of its cache one after the other, blocks among it, leads to a session that is
reached, with the same requests behind it. -/
theorem Reaches.runAll (hageable : first.ageable = .ok ()) {requests : List (CacheRequest τ)}
    (hown : ∀ request ∈ requests, request.Own) (h : Reaches first past blocks s) :
    ∃ since, Reaches first (past ++ since) blocks (s.runAll requests).2 ∧
      since.map Moment.request = CacheRequest.leavesOf requests :=
  h.runAll_of_run fun request hrequest _ _ _ h => h.run hageable (hown request hrequest)

end

end CacheSession

end RoutePattern
