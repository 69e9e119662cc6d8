import RoutePattern.Proofs.CacheHistory

/-!
Invalidation: which entries of a cache of routes go, and what stays as it was.
-/

namespace RoutePattern

namespace Table

variable {κ α : Type} [BEq κ] [LawfulBEq κ] {t : Table κ α}

/-- Where no key occurs twice, erasing keys one at a time leaves the entries with none of them. -/
theorem foldl_erase {keys : List κ} (hkeys : (t.map (·.1)).Nodup) :
    keys.foldl (fun rest key => erase key rest) t = t.filter fun e => !keys.contains e.1 := by
  induction keys generalizing t with
  | nil => exact (List.filter_eq_self.mpr fun _ _ => rfl).symm
  | cons key others ih =>
    have herase : ((erase key t).map (·.1)).Nodup := hkeys.sublist ((erase_sublist key t).map _)
    rw [List.foldl_cons, ih herase, erase_eq_filter hkeys, List.filter_filter]
    refine List.filter_congr fun e _ => ?_
    rw [List.contains_cons, Bool.not_or, Bool.and_comm]
    rfl

end Table

namespace Cache

variable {κ α τ : Type}

/-- The second cache is the first one without the entries whose keys are named: all others are there as they
were and in their order, and nothing else has changed. -/
structure Without (named : κ → Prop) (c d : Cache κ α τ) : Prop where
  gone : ∀ entry ∈ d.entries, ¬ named entry.1
  kept : ∀ entry ∈ c.entries, ¬ named entry.1 → entry ∈ d.entries
  order : d.entries.Sublist c.entries
  rest : d = { c with entries := d.entries }

theorem without_dropWhere_iff {named : κ → Prop} {chosen : κ → Bool} {c : Cache κ α τ} :
    Without named c (c.dropWhere chosen) ↔
      ∀ key ∈ c.entries.keys, chosen key = true ↔ named key := by
  have hmem : ∀ entry, entry ∈ (c.dropWhere chosen).entries ↔
      entry ∈ c.entries ∧ chosen entry.1 = false := fun entry => by simp [dropWhere]
  constructor
  · intro h key hkey
    obtain ⟨entry, hentry, rfl⟩ := List.mem_map.mp hkey
    constructor
    · intro hchosen
      refine Classical.byContradiction fun hnamed => ?_
      have hkept := ((hmem entry).mp (h.kept entry hentry hnamed)).2
      exact absurd (hchosen.symm.trans hkept) (by decide)
    · intro hnamed
      refine Classical.byContradiction fun hchosen => ?_
      exact h.gone entry ((hmem entry).mpr ⟨hentry, by simpa using hchosen⟩) hnamed
  · intro h
    have hkey : ∀ entry ∈ c.entries, chosen entry.1 = true ↔ named entry.1 :=
      fun entry hentry => h entry.1 (List.mem_map_of_mem hentry)
    refine ⟨fun entry hentry hnamed => ?_, fun entry hentry hnamed => ?_, List.filter_sublist, rfl⟩
    · obtain ⟨hentry, hchosen⟩ := (hmem entry).mp hentry
      exact absurd (((hkey entry hentry).mpr hnamed).symm.trans hchosen) (by decide)
    · exact (hmem entry).mpr ⟨hentry, by simpa using mt (hkey entry hentry).mp hnamed⟩

end Cache

namespace RouteKey

/-- Whether a key has the pattern and the end that are given; what is not given leaves all keys. -/
def Named (pattern : Option Text) (atEnd : Option Bool) (key : RouteKey) : Prop :=
  (∀ p ∈ pattern, key.1 = p) ∧ ∀ flag ∈ atEnd, key.2 = flag

theorem covers_iff {pattern : Option Text} {atEnd : Option Bool} {key : RouteKey} :
    covers pattern atEnd key = true ↔ Named pattern (pattern.bind fun _ => atEnd) key := by
  cases pattern with
  | none => simp [covers, Named]
  | some p =>
    have hcovers : covers (some p) atEnd key = true ↔ key.1 = p ∧ ∀ flag ∈ atEnd, flag = key.2 := by
      rw [covers, Bool.and_eq_true, beq_iff_eq, Option.all_eq_true]
      simp only [beq_iff_eq, Option.mem_def]
    rw [hcovers]
    constructor
    · rintro ⟨hp, hflag⟩
      exact ⟨fun q hq => hp.trans (Option.some.inj hq), fun flag hmem => (hflag flag hmem).symm⟩
    · rintro ⟨hp, hflag⟩
      exact ⟨hp p rfl, fun flag hmem => (hflag flag hmem).symm⟩

/-- The keys of a pattern that are named, one after the other. -/
def ofPattern (pattern : Text) (atEnd : Option Bool) : List RouteKey :=
  (atEnd.elim [false, true] ([·])).map (pattern, ·)

theorem contains_ofPattern {pattern : Text} {atEnd : Option Bool} {key : RouteKey} :
    (ofPattern pattern atEnd).contains key = covers (some pattern) atEnd key := by
  obtain ⟨p, flag⟩ := key
  cases atEnd <;> cases flag <;> simp [ofPattern, covers, Bool.beq_eq_decide_eq]

end RouteKey

open RouteKey (Named ofPattern)

namespace CacheSession

variable {τ : Type} [Add τ] [Sub τ] [LT τ] [DecidableLT τ] [OfNat τ 0]

/-- However a session came about, invalidating drops the entries that have the given pattern and, beside a
pattern, the given end, and changes nothing else; what is left is what erasing the keys of the pattern one at a
time leaves. Without a pattern the end is not looked at, so that it is kept to only where every entry has it. -/
theorem invalidate_exact_iff {capacity : Int} {lifetime : Option τ} {counting : Bool} {now cost : τ}
    {past : List (Moment τ)} {blocks : List Int} {s : CacheSession τ}
    (h : Reaches (CacheSession.start (.empty capacity lifetime counting) now cost) past blocks s)
    (pattern : Option Text) (atEnd : Option Bool) :
    let after := (s.run (.invalidate pattern atEnd)).2
    after = s.withCache after.cache ∧
    s.cache.Without (Named pattern (pattern.bind fun _ => atEnd)) after.cache ∧
    (∀ p ∈ pattern, after.cache.entries =
      (ofPattern p atEnd).foldl (fun rest key => Table.erase key rest) s.cache.entries) ∧
    (s.cache.Without (Named pattern atEnd) after.cache ↔
      (pattern = none → ∀ flag ∈ atEnd, ∀ key ∈ s.cache.entries.keys, key.2 = flag)) := by
  refine ⟨rfl, Cache.without_dropWhere_iff.mpr fun key _ => RouteKey.covers_iff, ?_, ?_⟩
  · rintro p rfl
    rw [Table.foldl_erase (h.nodup_keys rfl rfl)]
    exact List.filter_congr fun entry _ => by rw [RouteKey.contains_ofPattern]
  · refine Cache.without_dropWhere_iff.trans ?_
    cases pattern with
    | some p => simp [RouteKey.covers_iff]
    | none =>
      constructor
      · intro hall _ flag hflag key hkey
        exact ((hall key hkey).mp rfl).2 flag hflag
      · intro hends key hkey
        exact iff_of_true rfl ⟨nofun, fun flag hflag => hends rfl flag hflag key hkey⟩

/-- One entry of three has the pattern and the end. -/
theorem invalidate_exact_one :
    let first : CacheSession Int := start (.empty 3 none true) 0 1
    let loose : RouteKey := ("/a", false)
    let strict : RouteKey := ("/a", true)
    let other : RouteKey := ("/b", true)
    ∃ past s, Reaches first past [] s ∧
      past.map Moment.request = [.getOrMake loose, .getOrMake strict, .getOrMake other, .get loose] ∧
      s.cache.entries.keys = [strict, other, loose] ∧
      ((s.run (.invalidate (some "/a") (some true))).2.cache).entries.keys = [other, loose] ∧
      s.cache.Without (Named (some "/a") (some true))
        (s.run (.invalidate (some "/a") (some true))).2.cache := by
  intro first loose strict other
  have hstart : Reaches first [] [] first := .start
  have h := (((hstart.ask (.getOrMake loose) rfl).ask (.getOrMake strict) rfl).ask
    (.getOrMake other) rfl).ask (.get loose) rfl
  obtain ⟨-, -, -, hexact⟩ := invalidate_exact_iff h (some "/a") (some true)
  exact ⟨_, _, h, rfl, by decide +kernel, by decide +kernel, hexact.mpr nofun⟩

/-- Only entries whose end is kept to are to go, and another one goes with them. -/
theorem invalidate_passes_over_end :
    let first : CacheSession Int := start (.empty 3 none true) 0 1
    let loose : RouteKey := ("/a", false)
    let strict : RouteKey := ("/a", true)
    ∃ past s, Reaches first past [] s ∧ past.map Moment.request = [.getOrMake loose, .getOrMake strict] ∧
      s.cache.entries.keys = [loose, strict] ∧ ¬ Named none (some true) loose ∧
      (s.run (.invalidate none (some true))).2.cache.entries.keys = [] ∧
      ¬ s.cache.Without (Named none (some true)) (s.run (.invalidate none (some true))).2.cache := by
  intro first loose strict
  have hstart : Reaches first [] [] first := .start
  have h := (hstart.ask (.getOrMake loose) rfl).ask (.getOrMake strict) rfl
  have hloose : ¬ Named none (some true) loose := fun hnamed => absurd (hnamed.2 true rfl) (by decide)
  refine ⟨_, _, h, rfl, by decide +kernel, hloose, by decide +kernel, fun hwithout => ?_⟩
  have hchosen := Cache.without_dropWhere_iff.mp hwithout loose (by decide +kernel)
  exact hloose (hchosen.mp rfl)

end CacheSession

end RoutePattern
