import RoutePattern.Proofs.JoinedPath
import RoutePattern.Proofs.Reading.Pieces
import RoutePattern.Proofs.Results

/-!
Reading segments and paths: a segment is read piece by piece, a path segment by segment, and what a
segment is read as is written as that segment.
-/

namespace RoutePattern

namespace Stretch

def source : Stretch → Text
  | braced body => '{' :: body ++ ['}']
  | plain text => text

/-- Brace groups hold no braces, and text outside of them is not empty. -/
def Sound : Stretch → Prop
  | braced body => '{' ∉ body ∧ '}' ∉ body
  | plain text => text ≠ []

theorem source_plains (text : Text) : (plains text).flatMap source = text := by
  unfold plains
  split
  next h => simp [List.isEmpty_iff.mp h]
  next => simp [source]

theorem sound_plains {text : Text} : ∀ s ∈ plains text, s.Sound := by
  intro s hs
  unfold plains at hs
  split at hs
  next => simp at hs
  next h =>
    cases List.mem_singleton.mp hs
    simpa [Sound] using h

/-- No character of a segment gets lost: the stretches follow what was put aside before. -/
theorem source_cut (outside : Text) (body : Option Text) (text : Text) :
    (cut outside body text).flatMap source =
      outside.reverse ++ (body.elim [] fun b => '{' :: b.reverse) ++ text := by
  induction text generalizing outside body with
  | nil => cases body <;> simp [cut, source_plains]
  | cons c rest ih =>
    cases body with
    | none =>
      by_cases hc : c = '{'
      · simp [cut, hc, ih]
      · simp [cut, hc, ih]
    | some b =>
      by_cases ho : c = '{'
      · simp [cut, ho, ih]
      · by_cases hc : c = '}'
        · simp [cut, hc, ih, source_plains, source]
        · simp [cut, ho, hc, ih]

theorem sound_cut {outside : Text} {body : Option Text} {text : Text}
    (h : ∀ b ∈ body, '{' ∉ b ∧ '}' ∉ b) : ∀ s ∈ cut outside body text, s.Sound := by
  induction text generalizing outside body with
  | nil => cases body <;> exact sound_plains
  | cons c rest ih =>
    cases body with
    | none =>
      by_cases hc : c = '{'
      · simpa [cut, hc] using ih (by simp)
      · simpa [cut, hc] using ih (by simp)
    | some b =>
      obtain ⟨hbo, hbc⟩ := h b rfl
      by_cases ho : c = '{'
      · simpa [cut, ho] using ih (by simp)
      · by_cases hc : c = '}'
        · intro s hs
          have hcut : s ∈ plains outside.reverse ++ braced b.reverse :: cut [] none rest := by
            simpa [cut, hc] using hs
          rcases List.mem_append.mp hcut with hm | hm
          · exact sound_plains s hm
          · rcases List.mem_cons.mp hm with rfl | hm
            · exact ⟨by simpa using hbo, by simpa using hbc⟩
            · exact ih (by simp) s hm
        · simpa [cut, ho, hc] using ih (by simp [hbo, hbc, Ne.symm ho, Ne.symm hc])

theorem source_ofSegment (segment : Text) : (ofSegment segment).flatMap source = segment := by
  simp [ofSegment, source_cut]

theorem sound_ofSegment {segment : Text} : ∀ s ∈ ofSegment segment, s.Sound :=
  sound_cut (by simp)

end Stretch

namespace Pattern

variable {σ : Type}

theorem ofStretch_eq_ok {s : Stretch} {offset : Nat} {p : Pattern σ} (hs : s.Sound)
    (h : ofStretch offset s = .ok p) :
    ∃ piece : Piece, piece.Sound ∧ piece.source = s.source ∧ p = piece.pattern := by
  cases s with
  | braced body => exact ofBraced_eq_ok hs.1 hs.2 h
  | plain text => exact ofPlain_eq_ok hs h

theorem ofStretch_offset {s : Stretch} {offset : Nat} {p : Pattern σ} (other : Nat)
    (h : ofStretch offset s = .ok p) : ofStretch other s = .ok p := by
  cases s with
  | braced body => exact ofBraced_offset other h
  | plain text => exact ofPlain_offset other h

theorem ofStretches_eq_ok {ss : List Stretch} {offset : Nat} {ps : List (Pattern σ)}
    (hs : ∀ s ∈ ss, s.Sound) (h : ofStretches offset ss = .ok ps) :
    ∃ pieces : List Piece, (∀ piece ∈ pieces, piece.Sound) ∧
      pieces.flatMap Piece.source = ss.flatMap Stretch.source ∧ ps = pieces.map Piece.pattern := by
  induction ss generalizing offset ps with
  | nil =>
    cases h
    exact ⟨[], by simp, rfl, rfl⟩
  | cons s rest ih =>
    obtain ⟨first, hfirst, h⟩ := Except.bind_eq_ok.mp h
    obtain ⟨others, hothers, h⟩ := Except.bind_eq_ok.mp h
    cases h
    obtain ⟨piece, hpiece, hsource, rfl⟩ := ofStretch_eq_ok (hs s (by simp)) hfirst
    obtain ⟨pieces, hpieces, hsources, rfl⟩ := ih (fun s hm => hs s (by simp [hm])) hothers
    refine ⟨piece :: pieces, ?_, by simp [hsource, hsources], rfl⟩
    intro q hq
    rcases List.mem_cons.mp hq with rfl | hq
    · exact hpiece
    · exact hpieces q hq

theorem ofStretches_offset {ss : List Stretch} {offset : Nat} {ps : List (Pattern σ)} (other : Nat)
    (h : ofStretches offset ss = .ok ps) : ofStretches other ss = .ok ps := by
  induction ss generalizing offset other ps with
  | nil => exact h
  | cons s rest ih =>
    obtain ⟨first, hfirst, h⟩ := Except.bind_eq_ok.mp h
    obtain ⟨others, hothers, h⟩ := Except.bind_eq_ok.mp h
    simp only [ofStretches, ofStretch_offset other hfirst, ih (other + s.width) hothers]
    exact h

theorem ofSegment_offset {segment : Text} {offset : Nat} {p : Pattern σ} (other : Nat)
    (h : ofSegment segment offset = .ok p) : ofSegment segment other = .ok p := by
  obtain ⟨ps, hps, rfl⟩ := Except.map_eq_ok.mp h
  rw [ofSegment, ofStretches_offset other hps]
  rfl

/-- A segment that can be read is made of pieces that stand side by side. -/
theorem ofSegment_eq_ok {segment : Text} {offset : Nat} {p : Pattern σ}
    (h : ofSegment segment offset = .ok p) :
    ∃ pieces : List Piece, (∀ piece ∈ pieces, piece.Sound) ∧
      pieces.flatMap Piece.source = segment ∧ p = joinParts (pieces.map Piece.pattern) := by
  obtain ⟨ps, hps, rfl⟩ := Except.map_eq_ok.mp h
  obtain ⟨pieces, hpieces, hsource, rfl⟩ := ofStretches_eq_ok Stretch.sound_ofSegment hps
  exact ⟨pieces, hpieces, by rw [hsource, Stretch.source_ofSegment], rfl⟩

theorem body_foldl_joined (p : Pattern σ) (ps : List (Pattern σ)) :
    (ps.foldl (fun left right => concat left right true) p).body = p.body ++ ps.flatMap body := by
  induction ps generalizing p with
  | nil => simp
  | cons q rest ih => simp [ih, body]

theorem body_joinParts (ps : List (Pattern σ)) : (joinParts ps).body = ps.flatMap body := by
  cases ps with
  | nil => simp [joinParts, body]
  | cons p rest => rw [joinParts, body_foldl_joined, List.flatMap_cons]

/-- What a segment is read as is written as the segment. -/
theorem body_of_ofSegment {segment : Text} {offset : Nat} {p : Pattern σ}
    (h : ofSegment segment offset = .ok p) : p.body = segment := by
  obtain ⟨pieces, hpieces, rfl, rfl⟩ := ofSegment_eq_ok h
  rw [body_joinParts, List.flatMap_map]
  exact List.flatMap_congr fun piece hm => Piece.body_pattern (hpieces piece hm)

/-- The segment, or query value, that a pattern is read from. -/
def ReadFrom (segment : Text) (p : Pattern σ) : Prop := ofSegment segment 0 = .ok p

theorem ofSegments_eq_ok_iff {segments : List (Nat × Text)} {ps : List (Pattern σ)} :
    ofSegments segments = .ok ps ↔ List.Forall₂ (fun s p => ReadFrom s.2 p) segments ps := by
  induction segments generalizing ps with
  | nil =>
    rw [List.forall₂_nil_left_iff]
    exact ⟨fun h => (Except.ok.inj h).symm, fun h => h ▸ rfl⟩
  | cons s rest ih =>
    constructor
    · intro h
      obtain ⟨first, hfirst, h⟩ := Except.bind_eq_ok.mp h
      obtain ⟨others, hothers, h⟩ := Except.bind_eq_ok.mp h
      cases h
      exact .cons (ofSegment_offset 0 hfirst) (ih.mp hothers)
    · intro h
      cases h with
      | cons hfirst hothers =>
        simp only [ofSegments, ofSegment_offset s.1 hfirst, ih.mpr hothers]
        rfl

theorem located_snd (start : Nat) (pieces : List Text) :
    (Text.located start pieces).map (·.2) = pieces := by
  induction pieces generalizing start with
  | nil => rfl
  | cons piece rest ih => simp [Text.located, ih]

theorem located_filter_snd (start : Nat) (pieces : List Text) :
    ((Text.located start pieces).filter (!·.2.isEmpty)).map (·.2) = pieces.filter (!·.isEmpty) := by
  have h : (fun s : Nat × Text => !s.2.isEmpty) = (fun t : Text => !t.isEmpty) ∘ (·.2) := rfl
  rw [h, ← List.filter_map, located_snd]

theorem pathSegments_snd (path : Text) : (pathSegments path).map (·.2) = splitPath path :=
  located_filter_snd 0 _

theorem ofPath_eq_ok_iff {path : Text} {p : Pattern σ} :
    ofPath path = .ok p ↔
      ∃ ps, List.Forall₂ ReadFrom (splitPath path) ps ∧ p = joinSegments ps := by
  rw [← pathSegments_snd]
  constructor
  · intro h
    obtain ⟨ps, hps, rfl⟩ := Except.map_eq_ok.mp h
    exact ⟨ps, List.forall₂_map_left_iff.mpr (ofSegments_eq_ok_iff.mp hps), rfl⟩
  · rintro ⟨ps, hps, rfl⟩
    rw [ofPath, ofSegments_eq_ok_iff.mpr (List.forall₂_map_left_iff.mp hps)]
    rfl

theorem joinPath_body_foldl (p : Pattern σ) (ps : List (Pattern σ)) :
    joinPath [(ps.foldl (fun left right => concat left right false) p).body] =
      joinPath (p.body :: ps.map body) := by
  induction ps generalizing p with
  | nil => rfl
  | cons q rest ih =>
    rw [List.foldl_cons, ih, joinPath_cons]
    simp only [body, Bool.false_eq_true, if_false]
    rw [joinPath_joinPath, ← joinPath_append]
    rfl

theorem joinPath_body_joinSegments (ps : List (Pattern σ)) :
    joinPath [(joinSegments ps).body] = joinPath (ps.map body) := by
  cases ps with
  | nil => exact joinPath_slashes rfl
  | cons p rest => exact joinPath_body_foldl p rest

theorem map_body_of_forall₂ {segments : List Text} {ps : List (Pattern σ)}
    (h : List.Forall₂ ReadFrom segments ps) : ps.map body = segments := by
  induction h with
  | nil => rfl
  | cons hfirst _ ih => rw [List.map_cons, ih, body_of_ofSegment hfirst]

end Pattern

end RoutePattern
