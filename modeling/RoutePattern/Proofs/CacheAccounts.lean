import Mathlib.Algebra.GroupWithZero.Nat
import RoutePattern.Proofs.CacheHistory

/-!
The accounts of a cache of routes. What it counts is what was asked of it, and every entry that came in is
still there, had to go or was invalidated.
-/

namespace RoutePattern

theorem countP_concat {α : Type} (p : α → Bool) (xs : List α) (a : α) :
    (xs ++ [a]).countP p = xs.countP p + (p a).toNat := by
  rw [List.countP_append, List.countP_singleton]
  cases p a <;> rfl

namespace Cache

variable {κ α τ : Type}

def lookups (c : Cache κ α τ) : Nat := c.stats.hits + c.stats.misses

/-- The entries that are there, and those that had to go for want of room or for their age. -/
def admitted (c : Cache κ α τ) : Nat := c.size + c.stats.evictions

variable [BEq κ] [LawfulBEq κ] {c d : Cache κ α τ} {key : κ} {now : τ}

/-- A look-up counts as one, and an entry that it finds too old counts as one that had to go. -/
theorem accounts_get [Sub τ] [LT τ] [DecidableLT τ] {found : Option α} (hcounting : c.counting = true)
    (h : c.get now key = (found, d)) :
    d.lookups = c.lookups + 1 ∧ d.stats.errors = c.stats.errors ∧ d.admitted = c.admitted := by
  unfold get at h
  split at h
  next =>
    obtain ⟨-, rfl⟩ := Prod.mk.inj h
    rw [tally_of_counting _ hcounting]
    exact ⟨rfl, rfl, rfl⟩
  next e he =>
    have hlength := Table.length_erase (Table.mem_keys_of_get? he)
    have htally : ∀ entries f, ({ c with entries := entries } : Cache κ α τ).tally f =
        { c with entries := entries, stats := f c.stats } := fun _ f => tally_of_counting f hcounting
    split at h
    · obtain ⟨-, rfl⟩ := Prod.mk.inj h
      rw [htally]
      refine ⟨rfl, rfl, ?_⟩
      simp only [admitted, size, CacheStats.miss, CacheStats.evict]
      omega
    · obtain ⟨-, rfl⟩ := Prod.mk.inj h
      rw [htally]
      refine ⟨?_, rfl, ?_⟩
      · simp only [lookups, CacheStats.hit]
        omega
      · simp only [admitted, size, CacheStats.hit, List.length_append, List.length_singleton]
        omega

/-- Storing counts nothing but the entries that have to go, and lets one in where there is room for any
and none is replaced. -/
theorem accounts_put (now : τ) (key : κ) (item : α) (cost : τ) (hcounting : c.counting = true) :
    (c.put now key item cost).lookups = c.lookups ∧
      (c.put now key item cost).stats.errors = c.stats.errors ∧
      (c.put now key item cost).admitted =
        c.admitted + (decide (0 < c.capacity) && !Table.has key c.entries).toNat := by
  by_cases hroom : 0 < c.capacity
  · have hput : c.put now key item cost =
        { c with
          entries := Table.erase key (c.entries.drop (c.excess key)) ++ [(key, ⟨item, now, now, 0, cost⟩)]
          stats := c.stats.evict (c.excess key) } := by
      rw [put, if_neg (by omega)]
      exact tally_of_counting _ hcounting
    rw [hput]
    refine ⟨rfl, rfl, ?_⟩
    simp only [admitted, size, CacheStats.evict, List.length_append, List.length_singleton]
    cases hhas : Table.has key c.entries with
    | true =>
      have hexcess : c.excess key = 0 := by rw [excess, if_pos hhas]
      obtain ⟨e, he⟩ := Option.isSome_iff_exists.mp hhas
      have hlength := Table.length_erase (Table.mem_keys_of_get? he)
      simp only [hexcess, List.drop_zero, Bool.not_true, Bool.and_false, Bool.toNat_false]
      omega
    | false =>
      have hexcess : c.excess key = c.entries.length + 1 - c.capacity.toNat := by
        rw [excess, hhas, if_neg Bool.false_ne_true]
      have hfresh : key ∉ (c.entries.drop (c.excess key)).map (·.1) := by
        rw [Table.has, Option.isSome_eq_false_iff, Option.isNone_iff_eq_none,
          Table.get?_eq_none_iff] at hhas
        exact fun hmem => hhas (((List.drop_sublist _ _).map _).subset hmem)
      have hkept := congrArg List.length (Table.keys_erase key (c.entries.drop (c.excess key)))
      rw [List.erase_of_not_mem hfresh, List.length_map, List.length_map, List.length_drop] at hkept
      simp only [hroom, decide_true, Bool.not_false, Bool.and_true, Bool.toNat_true]
      omega
  · rw [put_of_nonpos (by omega), decide_eq_false hroom]
    exact ⟨rfl, rfl, rfl⟩

end Cache

namespace CacheRequest

variable {τ : Type}

def looksUp : CacheRequest τ → Bool
  | get _ => true
  | getOrMake _ => true
  | _ => false

/-- Whether a request was to make a route and failed, by its reply. -/
def fails : CacheRequest τ → CacheReply τ → Bool
  | getOrMake _, .failed _ => true
  | _, _ => false

theorem looksUp_of_asks {key : RouteKey} {request : CacheRequest τ} (hasks : request.Asks key) :
    request.looksUp = true := by
  rcases hasks with rfl | rfl <;> rfl

end CacheRequest

namespace CacheSession

variable {τ : Type} [Sub τ] [LT τ] [DecidableLT τ]

/-- The cache as a request finds it when it comes to store a route: a look-up in vain went before. -/
def receiving (s : CacheSession τ) : CacheRequest τ → Cache RouteKey NumberedRoute τ
  | .getOrMake key => (s.cache.get s.now key).2
  | _ => s.cache

def invalidated (s : CacheSession τ) : CacheRequest τ → Nat
  | .invalidate pattern atEnd => s.cache.size - (s.cache.invalidate pattern atEnd).size
  | _ => 0

variable [Add τ]

/-- Whether a request stores a route under a key that has no entry at that moment. -/
def admits (s : CacheSession τ) (request : CacheRequest τ) : Bool :=
  (s.puts? request).any fun x =>
    decide (0 < s.cache.capacity) && !Table.has x.1 (s.receiving request).entries

variable {s : CacheSession τ} {request : CacheRequest τ} {reply : CacheReply τ}
variable {c : Cache RouteKey NumberedRoute τ}

/-- What the counts and the entries of a cache have to do with one request and its reply. -/
theorem Effect.accounts [OfNat τ 0] (heffect : Effect s request reply c)
    (hcounting : s.cache.counting = true) (hreset : request ≠ .resetStats) :
    c.lookups = s.cache.lookups + request.looksUp.toNat ∧
      c.stats.errors = s.cache.stats.errors + (request.fails reply).toNat ∧
      c.admitted + s.invalidated request = s.cache.admitted + (s.admits request).toNat := by
  cases heffect with
  | @found _ key item n _ hasks hget =>
    obtain ⟨hlookups, herrors, hadmitted⟩ := Cache.accounts_get hcounting hget
    have hadmits : s.admits request = false := by rw [admits, puts?_of_holds hasks hget]; rfl
    rw [hadmits, CacheRequest.looksUp_of_asks hasks]
    rcases hasks with rfl | rfl <;> exact ⟨hlookups, herrors, hadmitted⟩
  | missed hget => exact Cache.accounts_get hcounting hget
  | @failed key error d hget hmade =>
    obtain ⟨hlookups, herrors, hadmitted⟩ := Cache.accounts_get hcounting hget
    have hcounts : d.counting = true := by
      simpa [hget, hcounting] using (Cache.get_keeps s.now key s.cache).2.2
    have hadmits : s.admits (.getOrMake key) = false := by rw [admits, puts?_of_failed hmade]; rfl
    rw [Cache.tally_of_counting _ hcounts, hadmits]
    exact ⟨hlookups, congrArg (· + 1) herrors, hadmitted⟩
  | @made key r n d hget hmade =>
    obtain ⟨hlookups, herrors, hadmitted⟩ := Cache.accounts_get hcounting hget
    obtain ⟨hcapacity, -, hcounts⟩ := Cache.get_keeps s.now key s.cache
    rw [hget] at hcapacity hcounts
    obtain ⟨hlookups', herrors', hadmitted'⟩ := Cache.accounts_put (s.now + s.delay) key
      (⟨s.next, r⟩ : NumberedRoute) s.cost (hcounts.trans hcounting)
    have hadmits : s.admits (.getOrMake key) =
        (decide (0 < d.capacity) && !Table.has key d.entries) := by
      rw [admits, puts?_of_made hget hmade, receiving, hget, hcapacity]
      rfl
    have hcounts' := (Cache.put_keeps (s.now + s.delay) key (⟨s.next, r⟩ : NumberedRoute) s.cost d).2.2
    rw [Cache.tally_of_counting _ (hcounts'.trans (hcounts.trans hcounting)), hadmits]
    refine ⟨hlookups'.trans hlookups, herrors'.trans herrors, ?_⟩
    rw [← hadmitted]
    exact hadmitted'
  | put key route shared cost => exact Cache.accounts_put s.now key _ cost hcounting
  | invalidate pattern atEnd =>
    have hle : (s.cache.invalidate pattern atEnd).size ≤ s.cache.size := List.length_filter_le _ _
    refine ⟨rfl, rfl, ?_⟩
    simp only [Cache.admitted, invalidated, admits, puts?, Option.any_none, Bool.toNat_false]
    have hstats : (s.cache.invalidate pattern atEnd).stats = s.cache.stats := rfl
    rw [hstats]
    omega
  | resetStats => exact absurd rfl hreset
  | idle hidle =>
    have hadmits : s.admits request = false := by
      rw [admits, (idle_frame hidle reply).1]
      rfl
    rw [hadmits]
    cases request <;> first | exact ⟨rfl, rfl, rfl⟩ | cases hidle

section

variable [OfNat τ 0] {capacity : Int} {lifetime : Option τ} {now cost : τ} {past : List (Moment τ)}
variable {blocks : List Int}

/-- However requests, blocks and the passing of time follow one another on a cache that counts: every look-up
was counted as a hit or as a miss, and every route that could not be made as an error. Of the entries that
came in under a key without one, each is still there, or it was counted as one that had to go, or it was
invalidated. -/
theorem accounts_balance
    (h : Reaches (CacheSession.start (.empty capacity lifetime true) now cost) past blocks s)
    (hpast : ∀ m ∈ past, m.request ≠ .resetStats) :
    s.cache.stats.hits + s.cache.stats.misses = past.countP (fun m => m.request.looksUp) ∧
    s.cache.stats.errors = past.countP (fun m => m.request.fails m.reply) ∧
    past.countP (fun m => m.session.admits m.request) =
      s.cache.size + s.cache.stats.evictions +
        (past.map fun m => m.session.invalidated m.request).sum := by
  induction h with
  | start => exact ⟨rfl, rfl, rfl⟩
  | @ask past blocks s h request hplain ih =>
    obtain ⟨hageable, -, -, hcounting⟩ := h.keeps rfl
    obtain ⟨hlookups, herrors, hadmitted⟩ := ih fun m hm => hpast m (List.mem_append_left _ hm)
    have hreset : request ≠ .resetStats := hpast ⟨s, blocks, request⟩ (by simp)
    obtain ⟨hlookups', herrors', hadmitted'⟩ :=
      (effect_run hageable hplain).accounts hcounting hreset
    rw [countP_concat, countP_concat, countP_concat, List.map_append, List.sum_append, List.map_singleton,
      List.sum_singleton]
    refine ⟨?_, ?_, ?_⟩
    · rw [← hlookups]
      exact hlookups'
    · rw [← herrors]
      exact herrors'
    · have hstep : (s.run request).2.cache.size + (s.run request).2.cache.stats.evictions +
          s.invalidated request =
          s.cache.size + s.cache.stats.evictions + (s.admits request).toNat := hadmitted'
      rw [hadmitted]
      dsimp only
      omega
  | pass _ _ _ _ ih => exact ih hpast
  | enter _ ih => exact ih hpast
  | leave _ ih => exact ih hpast

end

/-- One entry has to go for want of room and one for its age, one is replaced and one is invalidated. Nothing
is stored within the block, and the last pattern cannot be read. -/
theorem accounts_balance_each :
    let first : CacheSession Int := start (.empty 1 (some 10) true) 0 1
    let a : RouteKey := ("/a", false)
    let b : RouteKey := ("/b", true)
    let bad : RouteKey := ("/\x7b", false)
    ∃ past s, Reaches first past [] s ∧
      past.map Moment.request = [.getOrMake a, .getOrMake b, .get b, .put b Route.home none 0,
        .getOrMake a, .wait 11, .get b, .put a Route.home none 0, .invalidate (some "/a") none,
        .getOrMake bad] ∧
      (∀ m ∈ past, m.request ≠ .resetStats) ∧
      s.cache.stats.hits = 1 ∧ s.cache.stats.hits + s.cache.stats.misses = 6 ∧
      past.countP (fun m => m.request.looksUp) = 6 ∧ s.cache.stats.errors = 1 ∧
      past.countP (fun m => m.request.fails m.reply) = 1 ∧
      past.countP (fun m => m.session.admits m.request) = 3 ∧
      s.cache.size = 0 ∧ s.cache.stats.evictions = 2 ∧
      (past.map fun m => m.session.invalidated m.request).sum = 1 := by
  intro first a b bad
  have hstart : Reaches first [] [] first := .start
  have hstored := (((hstart.ask (.getOrMake a) rfl).ask (.getOrMake b) rfl).ask (.get b) rfl).ask
    (.put b Route.home none 0) rfl
  have hblock := (hstored.enter.ask (.getOrMake a) rfl).leave
  have h := ((((hblock.ask (.wait 11) rfl).ask (.get b) rfl).ask (.put a Route.home none 0) rfl).ask
    (.invalidate (some "/a") none) rfl).ask (.getOrMake bad) rfl
  obtain ⟨hlookups, herrors, hadmitted⟩ := accounts_balance h (by simp)
  exact ⟨_, _, h, rfl, by simp, by decide +kernel, hlookups.trans (by decide +kernel), by decide +kernel,
    herrors.trans (by decide +kernel), by decide +kernel, hadmitted.trans (by decide +kernel),
    by decide +kernel, by decide +kernel, by decide +kernel⟩

end CacheSession

end RoutePattern
