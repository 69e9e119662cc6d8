import RoutePattern.Proofs.CacheHistory
import RoutePattern.Proofs.Usable

/-!
A cache of routes that is only filled by reading patterns: it gives what reading the pattern gives, and a
pattern that cannot be read leaves it as it was.
-/

namespace RoutePattern

namespace Route

theorem prepared_eq_mapError (key : RouteKey) :
    prepared key = (parse key.1 key.2).mapError .malformed := by
  cases hparse : parse key.1 key.2 with
  | error fault =>
    rw [prepared, hparse]
    rfl
  | ok r =>
    have hread := parse_eq_ok hparse
    have hprepared : prepared key =
        (r.matcher.mapError .unusable >>= fun _ => r.renderer.mapError .unusable >>= fun _ => .ok r) := by
      rw [prepared, hparse]
      rfl
    rw [hprepared, matcher_of_read hread, renderer_of_read hread]
    rfl

theorem prepared_eq_ok {key : RouteKey} {r : Route} :
    prepared key = .ok r ↔ parse key.1 key.2 = .ok r := by
  rw [prepared_eq_mapError, Except.mapError_eq_ok]

theorem prepared_eq_error {key : RouteKey} {error : PreparationError} :
    prepared key = .error error ↔ ∃ fault, parse key.1 key.2 = .error fault ∧ .malformed fault = error := by
  rw [prepared_eq_mapError]
  cases parse key.1 key.2 <;> simp [Except.mapError]

end Route

namespace CacheSession

variable {τ : Type} [Add τ] [Sub τ] [LT τ] [DecidableLT τ] [OfNat τ 0]

section

variable {first s : CacheSession τ} {past : List (Moment τ)} {blocks : List Int}

/-- Without a direct put, every entry holds what reading its key gives. -/
theorem Reaches.parsed (hageable : first.ageable = .ok ()) (hempty : first.cache.entries = [])
    (h : Reaches first past blocks s)
    (hpast : ∀ m ∈ past, ∀ key route shared cost, m.request ≠ .put key route shared cost) :
    ∀ entry ∈ s.cache.entries, Route.parse entry.1.1 entry.1.2 = .ok entry.2.item.route := by
  induction h with
  | start => simp [hempty]
  | @ask past blocks s h request hplain ih =>
    intro entry hentry
    have heffect := effect_run (h.keeps hageable).1 hplain
    have ih := ih fun m hm => hpast m (List.mem_append_left _ hm)
    rcases heffect.mem_entries (h.nodup_keys hageable hempty) hentry with
      ⟨-, hputs⟩ | ⟨⟨e, he, hitem, -⟩, -⟩
    · cases request with
      | put key route shared cost =>
        exact absurd rfl (hpast _ (List.mem_append_right _ List.mem_cons_self) key route shared cost)
      | getOrMake key =>
        obtain ⟨-, hmade⟩ := Option.ite_none_left_eq_some.mp hputs
        cases hprepared : Route.prepared key with
        | error e => simp [hprepared, Except.toOption] at hmade
        | ok r =>
          simp only [hprepared, Except.toOption, Option.map_some, Option.some.injEq,
            Prod.mk.injEq] at hmade
          obtain ⟨rfl, hitem, -⟩ := hmade
          rw [← hitem]
          exact Route.prepared_eq_ok.mp hprepared
      | _ => cases hputs
    · exact hitem ▸ ih _ he
  | pass _ _ _ _ ih => exact ih hpast
  | enter _ ih => exact ih hpast
  | leave _ ih => exact ih hpast

end

/-- A cache that is only filled by reading patterns gives a fault just where reading the pattern does, the
same one, and otherwise the route that reading gives. Where it gives a fault, everything in it is as before,
but that a look-up in vain and a failure are counted. -/
theorem getOrMake_transparent {capacity : Int} {lifetime : Option τ} {now cost : τ}
    {past : List (Moment τ)} {blocks : List Int} {s : CacheSession τ}
    (h : Reaches (CacheSession.start (.empty capacity lifetime true) now cost) past blocks s)
    (hpast : ∀ m ∈ past, ∀ key route shared cost, m.request ≠ .put key route shared cost)
    (key : RouteKey) :
    (∀ fault, (s.run (.getOrMake key)).1 = .failed (.malformed fault) ↔
      Route.parse key.1 key.2 = .error fault) ∧
    (∀ r, Route.parse key.1 key.2 = .ok r ↔
      ∃ n, (s.run (.getOrMake key)).1 = .found (some ⟨n, r⟩)) ∧
    ∀ error, (s.run (.getOrMake key)).1 = .failed error →
      (s.run (.getOrMake key)).2.cache =
        { s.cache with
          stats := { s.cache.stats with
            misses := s.cache.stats.misses + 1
            errors := s.cache.stats.errors + 1 } } := by
  have hparsed := h.parsed rfl rfl hpast
  obtain ⟨hageable, -, -, hcounting⟩ := h.keeps rfl
  have heffect : Effect s (.getOrMake key) _ _ := effect_run hageable rfl
  generalize (s.run (.getOrMake key)).1 = reply at heffect ⊢
  generalize (s.run (.getOrMake key)).2.cache = c at heffect ⊢
  cases heffect with
  | found hasks hget =>
    obtain rfl : key = _ := by simpa [CacheRequest.Asks] using hasks
    obtain ⟨e, he, -, rfl, -⟩ := Cache.get_eq_some hget
    have hparse : Route.parse key.1 key.2 = .ok e.item.route := hparsed _ (Table.mem_of_get? he)
    simp [hparse]
  | failed hget hmade =>
    obtain ⟨fault, hparse, rfl⟩ := Route.prepared_eq_error.mp hmade
    refine ⟨by simp [hparse], by simp [hparse], fun _ _ => ?_⟩
    rcases Cache.get_eq_none hget with ⟨-, rfl⟩ | ⟨e, he, -, -⟩
    · rw [Cache.tally_of_counting _ hcounting]
      exact Cache.tally_of_counting _ hcounting
    · have hfound := hparsed _ (Table.mem_of_get? he)
      rw [hparse] at hfound
      cases hfound
  | made hget hmade =>
    have hparse := Route.prepared_eq_ok.mp hmade
    simp [hparse]
  | idle hidle => cases hidle

/-- A route that has grown too old is made again, and a pattern that cannot be read drops nothing. -/
theorem getOrMake_transparent_old :
    let first : CacheSession Int := start (.empty 1 (some 10) true) 0 1
    let key : RouteKey := ("/a/:b", true)
    let bad : RouteKey := ("/\x7b", true)
    ∃ past s, Reaches first past [] s ∧ past.map Moment.request = [.getOrMake key] ∧
      (∀ m ∈ past, ∀ key route shared cost, m.request ≠ .put key route shared cost) ∧
      s.holds key = false ∧
      (∃ r n, Route.parse key.1 key.2 = .ok r ∧
        (s.run (.getOrMake key)).1 = .found (some ⟨n, r⟩)) ∧
      ∃ fault, Route.parse bad.1 bad.2 = .error fault ∧
        (s.run (.getOrMake bad)).1 = .failed (.malformed fault) ∧
        (s.run (.getOrMake bad)).2.cache.entries = s.cache.entries ∧
        s.cache.entries.keys = [key] ∧
        (s.run (.getOrMake bad)).2.cache.stats.errors = s.cache.stats.errors + 1 := by
  intro first key bad
  have hstart : Reaches first [] [] first := .start
  have h := (hstart.ask (.getOrMake key) rfl).pass 11 1 0
  obtain ⟨-, hfound, -⟩ := getOrMake_transparent h (by simp) key
  obtain ⟨hfailed, -, hcache⟩ := getOrMake_transparent h (by simp) bad
  obtain ⟨r, hr⟩ : ∃ r, Route.parse key.1 key.2 = .ok r := ⟨_, rfl⟩
  obtain ⟨n, hn⟩ := (hfound r).mp hr
  obtain ⟨fault, hfault⟩ : ∃ fault, Route.parse bad.1 bad.2 = .error fault := ⟨_, rfl⟩
  have hreply := (hfailed fault).mpr hfault
  have hafter := hcache _ hreply
  exact ⟨_, _, h, rfl, by simp, by decide +kernel, ⟨r, n, hr, hn⟩, fault, hfault, hreply, by rw [hafter],
    by decide +kernel, by rw [hafter]⟩

end CacheSession

end RoutePattern
