import RoutePattern.Proofs.Conversions
import RoutePattern.Proofs.Matching

/-!
What matching gives. Where the captures of a pattern have different keys, a match gives each of them at
most one value, in the order of the captures, and a value that fits it; what may not be left out is given
a value.
-/

namespace RoutePattern

/-- Parameters that captures are given, one after the other. -/
inductive Given : List Capture → Params → Prop where
  | nil : Given [] []
  | cons {c : Capture} {captured : Option Captured} {cs : List Capture} {params : Params}
      (hfits : c.Fits captured) (hrest : Given cs params) :
      Given (c :: cs) (captured.toList.map (c.key, ·) ++ params)

theorem Capture.Fits.loosen {c : Capture} {captured : Option Captured} (h : c.Fits captured)
    (optional : Bool) :
    (⟨c.key, c.lead, c.optional || optional, c.multiple⟩ : Capture).Fits captured := by
  match captured with
  | none =>
    have ho : c.optional = true := h
    simp [Capture.Fits, ho]
  | some (.one _) => exact h
  | some (.many _) => exact ⟨h.1, h.2.1, fun hnil => by simp [h.2.2 hnil]⟩

theorem Capture.fits_value (c : Capture) {value : Text} (hne : value ≠ []) :
    c.Fits (some (if c.multiple then .many [value] else .one value)) := by
  cases hm : c.multiple with
  | true => exact ⟨hm, by simpa using hne, by simp⟩
  | false => exact ⟨hm, hne⟩

theorem get?_captured (key : Key) (captured : Option Captured) :
    Table.get? key (captured.toList.map (key, ·)) = captured := by
  cases captured <;> simp [Table.get?]

theorem get?_captured_append {key k : Key} (hne : k ≠ key) (captured : Option Captured)
    (params : Params) :
    Table.get? key (captured.toList.map (k, ·) ++ params) = Table.get? key params := by
  cases captured <;> simp [Table.get?, hne]

namespace Given

variable {cs ds : List Capture} {params first second : Params}

theorem append (h : Given cs first) (h' : Given ds second) : Given (cs ++ ds) (first ++ second) := by
  induction h with
  | nil => exact h'
  | cons hfits _ ih =>
    rw [List.append_assoc]
    exact .cons hfits ih

theorem of_optional (h : ∀ c ∈ cs, c.optional = true) : Given cs [] := by
  induction cs with
  | nil => exact .nil
  | cons c rest ih =>
    obtain ⟨hc, hrest⟩ := List.forall_mem_cons.mp h
    have hfits : c.Fits none := hc
    exact .cons hfits (ih hrest)

theorem keys_sublist (h : Given cs params) : (params.map (·.1)).Sublist (cs.map Capture.key) := by
  induction h with
  | nil => exact .slnil
  | @cons c captured rest params _ _ ih =>
    cases captured with
    | none => exact ih.cons c.key
    | some own => exact ih.cons_cons c.key

theorem nodup_keys (h : Given cs params) (hkeys : (cs.map Capture.key).Nodup) :
    (params.map (·.1)).Nodup :=
  hkeys.sublist h.keys_sublist

theorem putAll_eq (h : Given cs first) (h' : Given ds second)
    (hkeys : ((cs ++ ds).map Capture.key).Nodup) : Table.putAll first second = first ++ second := by
  rw [List.map_append] at hkeys
  obtain ⟨-, hds, hdisjoint⟩ := List.nodup_append.mp hkeys
  refine Table.putAll_of_disjoint (h'.nodup_keys hds) fun key hkey hmem => ?_
  exact hdisjoint key (h.keys_sublist.subset hmem) key (h'.keys_sublist.subset hkey) rfl

theorem putAll (h : Given cs first) (h' : Given ds second)
    (hkeys : ((cs ++ ds).map Capture.key).Nodup) : Given (cs ++ ds) (Table.putAll first second) := by
  rw [h.putAll_eq h' hkeys]
  exact h.append h'

theorem get?_eq_none (h : Given cs params) {key : Key} (hkey : key ∉ cs.map Capture.key) :
    Table.get? key params = none :=
  Table.get?_eq_none_iff.mpr fun hmem => hkey (h.keys_sublist.subset hmem)

theorem get?_head {c : Capture} (captured : Option Captured) (h : Given cs params)
    (hfresh : c.key ∉ cs.map Capture.key) :
    Table.get? c.key (captured.toList.map (c.key, ·) ++ params) = captured := by
  rw [Table.get?_append, get?_captured, h.get?_eq_none hfresh, Option.or_none]

theorem fits (h : Given cs params) (hkeys : (cs.map Capture.key).Nodup) :
    ∀ c ∈ cs, c.Fits (Table.get? c.key params) := by
  induction h with
  | nil => simp
  | @cons c captured rest params hfits hrest ih =>
    obtain ⟨hfresh, hnodup⟩ := List.nodup_cons.mp hkeys
    intro d hd
    rcases List.mem_cons.mp hd with rfl | hd
    · rw [hrest.get?_head captured hfresh]
      exact hfits
    · have hne : c.key ≠ d.key := fun heq => hfresh (heq ▸ List.mem_map_of_mem hd)
      rw [get?_captured_append hne]
      exact ih hnodup d hd

theorem eq_flatMap (h : Given cs params) (hkeys : (cs.map Capture.key).Nodup) :
    params = cs.flatMap fun c => (Table.get? c.key params).toList.map (c.key, ·) := by
  induction h with
  | nil => rfl
  | @cons c captured rest params hfits hrest ih =>
    obtain ⟨hfresh, hnodup⟩ := List.nodup_cons.mp hkeys
    have hothers : rest.flatMap (fun d =>
          (Table.get? d.key (captured.toList.map (c.key, ·) ++ params)).toList.map (d.key, ·)) =
        rest.flatMap fun d => (Table.get? d.key params).toList.map (d.key, ·) := by
      refine List.flatMap_congr fun d hd => ?_
      have hne : c.key ≠ d.key := fun heq => hfresh (heq ▸ List.mem_map_of_mem hd)
      rw [get?_captured_append hne]
    rw [List.flatMap_cons, hrest.get?_head captured hfresh, hothers, ← ih hnodup]

end Given

/-- The parameters without the empty lists among them. -/
def withoutEmpty (params : Params) : Params := params.filter fun entry => entry.2 != .many []

theorem withoutEmpty_captured (key : Key) (captured : Option Captured) :
    withoutEmpty (captured.toList.map (key, ·)) =
      (captured.filter (· != .many [])).toList.map (key, ·) := by
  cases captured with
  | none => rfl
  | some own => by_cases h : own = .many [] <;> simp [withoutEmpty, Option.filter_some, h]

theorem get?_withoutEmpty {params : Params} (hkeys : (params.map (·.1)).Nodup) (key : Key) :
    Table.get? key (withoutEmpty params) = (Table.get? key params).filter (· != .many []) := by
  induction params with
  | nil => rfl
  | cons entry rest ih =>
    obtain ⟨hfresh, hnodup⟩ := List.nodup_cons.mp hkeys
    have ih := ih hnodup
    by_cases hkey : entry.1 = key
    · have hnone : Table.get? key rest = none := Table.get?_eq_none_iff.mpr (hkey ▸ hfresh)
      rw [hnone] at ih
      by_cases h : entry.2 = .many [] <;> simp_all [withoutEmpty, Table.get?, Option.filter_some]
    · by_cases h : entry.2 = .many [] <;> simp_all [withoutEmpty, Table.get?]

theorem Capture.Fits.filter_eq {c : Capture} {captured : Option Captured} (h : c.Fits captured) :
    captured.filter (· != .many []) = captured.bind Captured.given? := by
  match captured with
  | none => rfl
  | some (.one t) => simp [Captured.given?, h.2]
  | some (.many ts) => by_cases hts : ts = [] <;> simp [Captured.given?, hts]

theorem Given.withoutEmpty_eq {cs : List Capture} {params : Params} (h : Given cs params)
    (hkeys : (cs.map Capture.key).Nodup) :
    withoutEmpty params = cs.flatMap fun c =>
      ((Table.get? c.key params).bind Captured.given?).toList.map (c.key, ·) := by
  have hfilter : withoutEmpty params = cs.flatMap fun c =>
      withoutEmpty ((Table.get? c.key params).toList.map (c.key, ·)) := by
    conv_lhs => rw [h.eq_flatMap hkeys]
    exact List.filter_flatMap
  rw [hfilter]
  refine List.flatMap_congr fun c hc => ?_
  rw [withoutEmpty_captured, (h.fits hkeys c hc).filter_eq]

section Matching

variable {query : Query} {cursor last : Cursor} {params : Params} (optional : Bool)

theorem Part.given_captured {c : Capture} {captured : Option Captured} (h : c.Fits captured) :
    Given ((Part.capture c).captured optional) (captured.toList.map (c.key, ·)) := by
  have hgiven := Given.cons (h.loosen optional) .nil
  rwa [List.append_nil] at hgiven

theorem Part.given_of_all_isOptional {parts : List Part} (h : parts.all Part.isOptional) :
    Given (parts.flatMap (Part.captured optional)) [] := by
  refine Given.of_optional fun c hc => ?_
  obtain ⟨part, hpart, hc⟩ := List.mem_flatMap.mp hc
  have ho : part.isOptional = true := List.all_eq_true.mp h part hpart
  cases part with
  | literal _ _ => simp [Part.captured] at hc
  | capture d =>
    obtain rfl := List.mem_singleton.mp hc
    have ho : d.optional = true := ho
    simp [ho]

theorem Part.nodup_captured_tail {part : Part} {parts : List Part}
    (h : (((part :: parts).flatMap (Part.captured optional)).map Capture.key).Nodup) :
    ((parts.flatMap (Part.captured optional)).map Capture.key).Nodup :=
  h.sublist ((List.sublist_append_right _ _).map _)

theorem Part.given_absent {c : Capture} {ds : List Capture} (ho : c.optional = true)
    (h : Given ds params) : Given ((Part.capture c).captured optional ++ ds) params :=
  (Part.given_captured optional (show c.Fits none from ho)).append h

theorem Shares.given {parts : List Part} {text : Text} (h : Shares parts text params)
    (hkeys : ((parts.flatMap (Part.captured optional)).map Capture.key).Nodup) :
    Given (parts.flatMap (Part.captured optional)) params := by
  induction h with
  | done => exact .nil
  | literal _ _ _ ih => exact ih hkeys
  | missing _ _ ih => exact ih hkeys
  | absent ho _ ih =>
    exact Part.given_absent optional ho (ih (Part.nodup_captured_tail optional hkeys))
  | void ho _ ih =>
    exact Part.given_absent optional ho (ih (Part.nodup_captured_tail optional hkeys))
  | @taken c _ _ _ _ hne _ ih =>
    exact (Part.given_captured optional (c.fits_value hne)).putAll
      (ih (Part.nodup_captured_tail optional hkeys)) hkeys

theorem given_matchCapture {c : Capture} (h : matchCapture c cursor = some (params, last)) :
    Given ((Part.capture c).captured optional) params := by
  obtain ⟨⟨captured, hfits, rfl⟩, -⟩ := matchCapture_cases h
  exact Part.given_captured optional hfits

theorem given_matchValues {part : Part} {values : List Text}
    (h : matchValues part values = some params) : Given (part.captured optional) params := by
  cases part with
  | literal text loose =>
    simp only [matchValues] at h
    split at h <;> split at h
    · obtain rfl := Option.some.inj h
      exact .nil
    · cases h
    · obtain rfl := Option.some.inj h
      exact .nil
    · cases h
  | capture c =>
    obtain ⟨bodies, -, h⟩ := Option.bind_eq_some_iff.mp h
    have hne : ∀ t ∈ bodies.filter (!·.isEmpty), t ≠ [] := fun t ht => by
      simpa using (List.mem_filter.mp ht).2
    split at h
    · split at h
      next ho =>
        obtain rfl := Option.some.inj h
        cases hm : c.multiple with
        | true =>
          have hfits : c.Fits (some (.many [])) := ⟨hm, by simp, fun _ => ho⟩
          exact Part.given_captured optional hfits
        | false => exact Part.given_captured optional (show c.Fits none from ho)
      next => cases h
    next first others hbodies =>
      obtain rfl := Option.some.inj h
      rw [hbodies] at hne
      cases hm : c.multiple with
      | true =>
        have hfits : c.Fits (some (.many (first :: others))) := ⟨hm, hne, by simp⟩
        exact Part.given_captured optional hfits
      | false =>
        have hfits : c.Fits (some (.one first)) := ⟨hm, hne first (by simp)⟩
        exact Part.given_captured optional hfits

theorem given_matchEntry {parts : List Part} {values : List Text}
    (hkeys : ((parts.flatMap (Part.captured optional)).map Capture.key).Nodup)
    (h : matchEntry parts values = some params) :
    Given (parts.flatMap (Part.captured optional)) params := by
  unfold matchEntry at h
  split at h
  · simpa using given_matchValues optional h
  · split at h
    · split at h
      next hall =>
        obtain rfl := Option.some.inj h
        exact Part.given_of_all_isOptional optional hall
      next => cases h
    · exact (shares_of_matchText h).given optional hkeys

theorem given_matchQuery {entries : List (Text × List Part)}
    (hkeys : ((entries.flatMap fun entry => entry.2.flatMap (Part.captured optional)).map
      Capture.key).Nodup)
    (h : matchQuery query entries = some params) :
    Given (entries.flatMap fun entry => entry.2.flatMap (Part.captured optional)) params := by
  induction entries generalizing params with
  | nil =>
    obtain rfl : [] = params := Option.some.inj h
    exact .nil
  | cons entry rest ih =>
    obtain ⟨first, hfirst, h⟩ := Option.bind_eq_some_iff.mp h
    obtain ⟨others, hrest, rfl⟩ := Option.map_eq_some_iff.mp h
    rw [List.flatMap_cons] at hkeys ⊢
    have hnodup := hkeys
    rw [List.map_append] at hnodup
    obtain ⟨hown, hothers, -⟩ := List.nodup_append.mp hnodup
    exact (given_matchEntry optional hown hfirst).putAll (ih hothers hrest) hkeys

theorem Part.optional_captured {part : Part} {c : Capture} (hc : c ∈ part.captured true) :
    c.optional = true := by
  cases part with
  | literal _ _ => simp [Part.captured] at hc
  | capture d =>
    obtain rfl := List.mem_singleton.mp hc
    simp

-- where a nested pattern is left out, all its captures may be left out
mutual

theorem Step.optional_captures : (step : Step) → ∀ c ∈ step.captures true, c.optional = true
  | .single _, _, hc => Part.optional_captured hc
  | .compound _, _, hc => by
    obtain ⟨_, -, hc⟩ := List.mem_flatMap.mp hc
    exact Part.optional_captured hc
  | .query _, _, hc => by
    obtain ⟨_, -, hc⟩ := List.mem_flatMap.mp hc
    obtain ⟨_, -, hc⟩ := List.mem_flatMap.mp hc
    exact Part.optional_captured hc
  | .nested _ steps, c, hc => by
    rw [Step.captures, Bool.true_or] at hc
    exact optional_stepCaptures steps c hc

theorem optional_stepCaptures : (steps : List Step) → ∀ c ∈ stepCaptures true steps, c.optional = true
  | [], _, h => by simp [stepCaptures] at h
  | step :: rest, c, hc => by
    rcases List.mem_append.mp hc with hc | hc
    · exact Step.optional_captures step c hc
    · exact optional_stepCaptures rest c hc

end

mutual

theorem Step.given_run (optional : Bool) {cursor last : Cursor} {params : Params} : (step : Step) →
    ((step.captures optional).map Capture.key).Nodup →
    step.run query cursor = some (params, last) → Given (step.captures optional) params
  | .single (.literal _ _), _, h => by
    have hnil : params = [] := by
      simp only [Step.run, matchSingle] at h
      split at h
      · exact (Prod.mk.inj (Option.some.inj h)).1.symm
      · split at h
        · exact (Prod.mk.inj (Option.some.inj h)).1.symm
        · cases h
    rw [hnil]
    exact .nil
  | .single (.capture c), _, h => given_matchCapture optional h
  | .compound parts, hkeys, h => by
    simp only [Step.run, matchCompound] at h
    split at h
    · split at h
      next hall =>
        obtain ⟨rfl, -⟩ := Prod.mk.inj (Option.some.inj h)
        exact Part.given_of_all_isOptional optional hall
      next => cases h
    · obtain ⟨found, hfound, heq⟩ := Option.map_eq_some_iff.mp h
      obtain ⟨rfl, -⟩ := Prod.mk.inj heq
      exact (shares_of_matchText hfound).given optional hkeys
  | .query entries, hkeys, h => by
    obtain ⟨found, hfound, heq⟩ := Option.map_eq_some_iff.mp h
    obtain ⟨rfl, -⟩ := Prod.mk.inj heq
    exact given_matchQuery optional hkeys hfound
  | .nested loose steps, hkeys, h => by
    simp only [Step.run] at h
    split at h
    next result hrun =>
      obtain rfl := Option.some.inj h
      exact given_runSteps (optional || loose) steps hkeys hrun
    next =>
      split at h
      next hloose =>
        obtain ⟨rfl, -⟩ := Prod.mk.inj (Option.some.inj h)
        rw [Step.captures, hloose, Bool.or_true]
        exact Given.of_optional (optional_stepCaptures steps)
      next => cases h

theorem given_runSteps (optional : Bool) {cursor last : Cursor} {params : Params} :
    (steps : List Step) → ((stepCaptures optional steps).map Capture.key).Nodup →
    runSteps query cursor steps = some (params, last) → Given (stepCaptures optional steps) params
  | [], _, h => by
    obtain ⟨rfl, -⟩ := Prod.mk.inj (Option.some.inj h)
    exact .nil
  | step :: rest, hkeys, h => by
    obtain ⟨⟨first, next⟩, hstep, h⟩ := Option.bind_eq_some_iff.mp h
    obtain ⟨⟨others, _⟩, hrest, heq⟩ := Option.map_eq_some_iff.mp h
    obtain ⟨rfl, -⟩ := Prod.mk.inj heq
    have hnodup := hkeys
    rw [stepCaptures, List.map_append] at hnodup
    obtain ⟨hown, hothers, -⟩ := List.nodup_append.mp hnodup
    exact (step.given_run optional hown hstep).putAll (given_runSteps optional rest hothers hrest) hkeys

end

end Matching

namespace Pattern

variable {σ : Type}

theorem given_run {p : Pattern σ} {atEnd : Bool} {m : Matcher} (hm : p.matcher atEnd = .ok m)
    (hkeys : ((p.captures 0 false).map (·.1.key)).Nodup) {query : Query} {cursor last : Cursor}
    {params : Params} (h : m.run query cursor = some (params, last)) :
    Given ((p.captures 0 false).map (·.1)) params := by
  obtain ⟨hsteps, -⟩ := layout_of_matcher hm
  have hcaptures := captures_of_layout hsteps
  have hnodup : ((stepCaptures false m.steps).map Capture.key).Nodup := by
    rw [hcaptures, List.map_map]
    exact hkeys
  rw [← hcaptures]
  exact given_runSteps false m.steps hnodup (Matcher.run_eq_some.mp h).1

end Pattern

end RoutePattern
