import RoutePattern.Proofs.Cursors
import RoutePattern.Proofs.Matching
import RoutePattern.Proofs.Reading.Steps

/-!
Matching that may stop early. What a match takes from the front does not depend on the segments that it
leaves, although it may have looked at them; so a match that leaves segments is a whole match of those in
front.
-/

namespace RoutePattern

open Cursor (behind)

variable {σ : Type}

/-- Whatever the run takes, it leaves the cursor at the beginning of a segment, and gives the same where
fewer of the segments behind are there. -/
def Local (run : Cursor → Option (Params × Cursor)) : Prop :=
  ∀ ⦃done rest params last⦄, run (behind done rest) = some (params, last) →
    ∃ used left, rest = used ++ left ∧ last = behind (done ++ used) left ∧
      ∀ kept, kept <+: left →
        run (behind done (used ++ kept)) = some (params, behind (done ++ used) kept)

/-- Whether a step takes no nested pattern. One that may be left out could match less where there is
less behind it. -/
def Step.isFlat : Step → Bool
  | .nested .. => false
  | _ => true

theorem Capture.Takes.keep {c : Capture} {used left kept : List Text} {params : Params}
    (h : c.Takes used left params) (hkept : kept <+: left) : c.Takes used kept params := by
  cases h with
  | absent ho hlead =>
    refine .absent ho fun segment hsegment => hlead segment ?_
    obtain ⟨more, rfl⟩ := hkept
    simp [List.head?_append, Option.mem_def.mp hsegment]
  | void ho hm hlead => exact .void ho hm hlead
  | one hm hlead hne => exact .one hm hlead hne
  | many hm hlead hgiven =>
    obtain rfl := List.prefix_nil.mp hkept
    exact .many hm hlead hgiven

theorem local_matchCapture (c : Capture) : Local (matchCapture c) := by
  intro done rest params last h
  obtain ⟨used, left, rfl, rfl, htakes⟩ := takes_of_matchCapture h
  exact ⟨used, left, rfl, rfl, fun kept hkept => (htakes.keep hkept).matchCapture done⟩

/-- A literal that may be left out looks at a segment without taking it. -/
theorem local_matchLiteral (text : Text) (optional : Bool) :
    Local (matchSingle (.literal text optional)) := by
  intro done rest params last h
  simp only [matchSingle] at h
  split at h
  next hhead =>
    obtain ⟨rfl, rfl⟩ := Prod.mk.inj (Option.some.inj h)
    cases rest with
    | nil => simp [Cursor.head?_behind_nil] at hhead
    | cons segment left =>
      obtain rfl : segment = text := by simpa [Cursor.head?_behind_cons] using hhead
      refine ⟨[segment], left, rfl, Cursor.advance_behind .., fun kept _ => ?_⟩
      simp [matchSingle, Cursor.head?_behind_cons, Cursor.advance_behind]
  next hhead =>
    split at h
    next ho =>
      obtain ⟨rfl, rfl⟩ := Prod.mk.inj (Option.some.inj h)
      refine ⟨[], rest, rfl, by simp, fun kept hkept => ?_⟩
      have hkept : (behind done kept).head? ≠ some text := by
        obtain ⟨more, rfl⟩ := hkept
        cases kept with
        | nil => simp [Cursor.head?_behind_nil]
        | cons segment others => simpa [Cursor.head?_behind_cons] using hhead
      simp [matchSingle, hkept, ho]
    next => cases h

/-- Parts of one segment take it where there is one. Where they take none, none is left. -/
theorem local_matchCompound (parts : List Part) : Local (matchCompound parts) := by
  intro done rest params last h
  unfold matchCompound at h
  cases rest with
  | nil =>
    simp only [Cursor.head?_behind_nil] at h
    split at h
    next hall =>
      obtain ⟨rfl, rfl⟩ := Prod.mk.inj (Option.some.inj h)
      refine ⟨[], [], rfl, by simp, fun kept hkept => ?_⟩
      obtain rfl := List.prefix_nil.mp hkept
      simp [matchCompound, Cursor.head?_behind_nil, hall]
    next => cases h
  | cons segment left =>
    simp only [Cursor.head?_behind_cons] at h
    obtain ⟨found, hfound, heq⟩ := Option.map_eq_some_iff.mp h
    obtain ⟨rfl, rfl⟩ := Prod.mk.inj heq
    refine ⟨[segment], left, rfl, Cursor.advance_behind .., fun kept _ => ?_⟩
    simp [matchCompound, Cursor.head?_behind_cons, Cursor.advance_behind, hfound]

theorem Step.local_run (query : Query) {step : Step} (h : step.isFlat) :
    Local fun cursor => step.run query cursor := by
  cases step with
  | single part =>
    cases part with
    | literal text optional => exact local_matchLiteral text optional
    | capture c => exact local_matchCapture c
  | compound parts => exact local_matchCompound parts
  | query entries =>
    intro done rest params last h
    obtain ⟨found, hfound, heq⟩ := Option.map_eq_some_iff.mp h
    obtain ⟨rfl, rfl⟩ := Prod.mk.inj heq
    refine ⟨[], rest, rfl, by simp, fun kept _ => ?_⟩
    simp [Step.run, hfound]
  | nested optional steps => cases h

/-- The second of two steps keeps from the first all that the second took, and less behind it. -/
theorem local_runSteps (query : Query) {steps : List Step} (h : ∀ step ∈ steps, step.isFlat) :
    Local fun cursor => runSteps query cursor steps := by
  induction steps with
  | nil =>
    intro done rest params last hrun
    obtain ⟨rfl, rfl⟩ := Prod.mk.inj (Option.some.inj hrun)
    exact ⟨[], rest, rfl, by simp, fun kept _ => by simp [runSteps]⟩
  | cons step others ih =>
    obtain ⟨hstep, hothers⟩ := List.forall_mem_cons.mp h
    intro done rest params last hrun
    obtain ⟨⟨first, next⟩, hfirst, hrun⟩ := Option.bind_eq_some_iff.mp hrun
    obtain ⟨⟨second, _⟩, hsecond, heq⟩ := Option.map_eq_some_iff.mp hrun
    obtain ⟨rfl, rfl⟩ := Prod.mk.inj heq
    obtain ⟨used, _, rfl, rfl, hkeep⟩ := Step.local_run query hstep hfirst
    obtain ⟨more, left, rfl, rfl, hkeeps⟩ := ih hothers hsecond
    refine ⟨used ++ more, left, by simp, by simp, fun kept hkept => ?_⟩
    have hfront : step.run query (behind done (used ++ (more ++ kept))) =
        some (first, behind (done ++ used) (more ++ kept)) :=
      hkeep (more ++ kept) ((List.prefix_append_right_inj more).mpr hkept)
    simp only [List.append_assoc, runSteps_of_run others hfront, hkeeps kept hkept, Option.map_some]

theorem Step.isFlat_ofParts (parts : List Part) : (Step.ofParts parts).isFlat := by
  unfold Step.ofParts
  split <;> rfl

theorem Pattern.isFlat_readSteps (p : Pattern σ) : ∀ step ∈ p.readSteps, step.isFlat := by
  intro step hstep
  rcases List.mem_append.mp hstep with hm | hm
  · obtain ⟨parts, -, rfl⟩ := List.mem_map.mp hm
    exact Step.isFlat_ofParts parts
  · unfold ReadSplit.blockSteps at hm
    split at hm
    · obtain rfl := List.mem_singleton.mp hm
      rfl
    · simp at hm

theorem Matcher.accept_atEnd {steps : List Step} {query : Query} {segments used left : List Text}
    {params : Params}
    (h : runSteps query (.start segments) steps = some (params, behind used left)) :
    (⟨steps, true⟩ : Matcher).accept segments query = if left = [] then some params else none := by
  rw [accept, run, h]
  by_cases hleft : left = [] <;> simp [hleft, Cursor.isExhausted_behind_iff]

namespace Pattern

/-- Where a pattern that was read matches without having to reach the end, the match stops between two
segments, and is the match to the end of the segments before that place. All segments are matched to the
end only if it stops behind them, and then to the same captures. -/
theorem accept_take_of_run {source : Text} {p : Pattern σ} (h : ofText source = .ok p) :
    ∃ loose strict, p.matcher false = .ok loose ∧ p.matcher true = .ok strict ∧
      ∀ segments query,
        (∀ params last, loose.run query (.start segments) = some (params, last) →
          ∃ k : Nat, last = ⟨segments, k, 0⟩ ∧ k ≤ segments.length ∧
            strict.accept (segments.take k) query = some params ∧
            strict.accept segments query = if k = segments.length then some params else none) ∧
        (loose.run query (.start segments) = none → strict.accept segments query = none) := by
  have hread := ofText_eq_ok_iff.mp h
  refine ⟨_, _, hread.matcher_eq false, hread.matcher_eq true, fun segments query => ?_⟩
  rw [Matcher.run_open]
  constructor
  · intro params last hrun
    obtain ⟨used, left, rfl, rfl, hkeep⟩ := local_runSteps query p.isFlat_readSteps
      (show runSteps query (behind [] segments) p.readSteps = some (params, last) from hrun)
    have hfront : runSteps query (.start used) p.readSteps = some (params, behind used []) := by
      simpa [Cursor.start, behind] using hkeep [] List.nil_prefix
    refine ⟨used.length, rfl, by simp, ?_, ?_⟩
    · rw [List.take_left, Matcher.accept_atEnd hfront, if_pos rfl]
    · rw [Matcher.accept_atEnd hrun]
      simp
  · intro hrun
    rw [Matcher.accept, Matcher.run, hrun]
    rfl

/-- A prefixed capture that is left out has looked at the segment that the match leaves. -/
theorem accept_take_of_run_looked_at :
    let source : Text := "/files/{v:version?}?q=:q"
    let query : Query := Query.ofPairs [("q", "x")]
    ∃ (p : Pattern Schema) (loose strict : Matcher), ofText source = .ok p ∧ p.matcher false = .ok loose ∧
      p.matcher true = .ok strict ∧
      loose.run query (.start ["files", "notes"]) =
        some ([(.name "q", .one "x")], ⟨["files", "notes"], 1, 0⟩) ∧
      strict.accept ["files"] query = some [(.name "q", .one "x")] ∧
      strict.accept ["files", "notes"] query = none := by
  intro source query
  let p : Pattern Schema := .queryParams
    (.concat (.literal "files") (.prefixed "v" (.modified .optional (.param "version"))) false)
    [("q", .param "q")]
  have h : ofText source = .ok p := by rfl
  obtain ⟨loose, strict, hloose, hstrict, hmatch⟩ := accept_take_of_run h
  have hrun : loose.run query (.start ["files", "notes"]) =
      some ([(.name "q", .one "x")], ⟨["files", "notes"], 1, 0⟩) := by
    cases hloose
    rfl
  obtain ⟨k, hlast, -, htake, hall⟩ := (hmatch ["files", "notes"] query).1 _ _ hrun
  obtain rfl : k = 1 := Int.ofNat.inj (congrArg Cursor.index hlast).symm
  exact ⟨p, loose, strict, h, hloose, hstrict, hrun, htake, hall⟩

end Pattern

end RoutePattern
