import RoutePattern.Proofs.Concatenation
import RoutePattern.Proofs.Reading.Segments
import RoutePattern.Route

/-!
Reading whole patterns: what a source is read as, in terms of its path segments and query entries.
A pattern that was read has a query block at most at its root.
-/

namespace RoutePattern

namespace Pattern

variable {σ : Type}

def ReadEntry (entry : Text) (e : Text × Pattern σ) : Prop :=
  ∃ value, entry = e.1 ++ '=' :: value ∧ '=' ∉ e.1 ∧ e.1 ≠ [] ∧ ReadFrom value e.2

theorem ofEntries_eq_ok_iff {seen : List Text} {entries : List (Nat × Text)}
    {es : List (Text × Pattern σ)} :
    ofEntries seen entries = .ok es ↔
      List.Forall₂ (fun s e => ReadEntry s.2 e) entries es ∧ (es.map (·.1)).Nodup ∧
        ∀ e ∈ es, e.1 ∉ seen := by
  induction entries generalizing seen es with
  | nil =>
    rw [List.forall₂_nil_left_iff]
    constructor
    · intro h
      cases h
      simp
    · rintro ⟨rfl, -, -⟩
      rfl
  | cons s rest ih =>
    obtain ⟨start, entry⟩ := s
    constructor
    · intro h
      unfold ofEntries at h
      split at h
      next => simp at h
      next key value hcut =>
        obtain ⟨hentry, hkey⟩ := Text.cut_eq_some hcut
        split at h
        next => simp at h
        next hne =>
          split at h
          next => simp at h
          next hseen =>
            obtain ⟨first, hfirst, h⟩ := Except.bind_eq_ok.mp h
            obtain ⟨others, hothers, h⟩ := Except.bind_eq_ok.mp h
            cases h
            obtain ⟨hread, hnodup, hfresh⟩ := ih.mp hothers
            have hlater : key ∉ others.map (·.1) := by
              intro hm
              obtain ⟨e, he, rfl⟩ := List.mem_map.mp hm
              exact hfresh e he (by simp)
            refine ⟨.cons ⟨value, hentry, hkey, by simpa using hne, ofSegment_offset 0 hfirst⟩ hread,
              List.nodup_cons.mpr ⟨hlater, hnodup⟩, ?_⟩
            intro e he
            rcases List.mem_cons.mp he with rfl | he
            · simpa using hseen
            · exact fun hm => hfresh e he (List.mem_cons_of_mem _ hm)
    · rintro ⟨hread, hnodup, hfresh⟩
      cases hread with
      | @cons _ e _ others hentry hothers =>
        obtain ⟨value, hv, hkey, hne, hfirst⟩ := hentry
        obtain ⟨key, p⟩ := e
        obtain ⟨hlater, hnodup⟩ := List.nodup_cons.mp hnodup
        have hrest : ofEntries (key :: seen) rest = .ok others := by
          refine ih.mpr ⟨hothers, hnodup, ?_⟩
          intro e he hm
          rcases List.mem_cons.mp hm with hk | hm
          · exact hlater (List.mem_map.mpr ⟨e, he, hk⟩)
          · exact hfresh e (List.mem_cons_of_mem _ he) hm
        have hseen : seen.contains key = false := by simpa using hfresh _ List.mem_cons_self
        have hkne : key.isEmpty = false := by simpa using hne
        simp only at hv hkey
        rw [ofEntries, hv, Text.cut_append value hkey]
        simp only [hkne, hseen, Bool.false_eq_true, if_false]
        rw [ofSegment_offset _ hfirst, hrest]
        rfl

theorem entryBodies_eq_map (es : List (Text × Pattern σ)) :
    entryBodies es = es.map fun e => e.1 ++ '=' :: e.2.body := by
  induction es with
  | nil => rfl
  | cons e rest ih => simp [entryBodies, ih]

theorem ReadEntry.eq_body {entry : Text} {e : Text × Pattern σ} (h : ReadEntry entry e) :
    entry = e.1 ++ '=' :: e.2.body := by
  obtain ⟨value, hv, -, -, hread⟩ := h
  rw [hv, body_of_ofSegment hread]

def ReadPath (path : Text) (p : Pattern σ) : Prop :=
  ∃ ps, List.Forall₂ ReadFrom (splitPath path) ps ∧ p = joinSegments ps

/-- The pieces of a query between the ampersands; empty ones are skipped. -/
def queryPieces (query : Text) : List Text := (Text.split '&' query).filter (!·.isEmpty)

/-- Pieces that were put together with ampersands come apart again. -/
theorem queryPieces_join {pieces : List Text} (hne : ∀ piece ∈ pieces, piece ≠ [])
    (h : ∀ piece ∈ pieces, '&' ∉ piece) : queryPieces (Text.join ['&'] pieces) = pieces := by
  by_cases hnil : pieces = []
  · rw [hnil]
    rfl
  · have hfilter : pieces.filter (!·.isEmpty) = pieces :=
      List.filter_eq_self.mpr fun piece hpiece => by simpa using hne piece hpiece
    rw [queryPieces, Text.split_join hnil h, hfilter]

def ReadQuery (query : Text) (es : List (Text × Pattern σ)) : Prop :=
  List.Forall₂ ReadEntry (queryPieces query) es ∧ (es.map (·.1)).Nodup

/-- The path and the query that a pattern is read from. -/
inductive ReadSplit (split : QuerySplit) : Pattern σ → Prop where
  | plain {p : Pattern σ} : split.query = none → ReadPath split.path p → ReadSplit split p
  | query {p : Pattern σ} {query : Text} {es : List (Text × Pattern σ)} :
    split.query = some query → ReadPath split.path p → ReadQuery query es →
      ReadSplit split (.queryParams p es)

theorem ofEntries_queryEntries_eq_ok_iff {offset : Nat} {query : Text}
    {es : List (Text × Pattern σ)} :
    ofEntries [] (queryEntries offset query) = .ok es ↔ ReadQuery query es := by
  have hsnd : (queryEntries offset query).map (·.2) = queryPieces query :=
    located_filter_snd offset _
  rw [ofEntries_eq_ok_iff, ReadQuery, ← hsnd, List.forall₂_map_left_iff]
  simp

/-- A source is accepted when its segments and entries can be read and no key is declared twice. -/
theorem ofText_eq_ok_iff {source : Text} {p : Pattern σ} :
    ofText source = .ok p ↔ ReadSplit (QuerySplit.ofSource source) p := by
  constructor
  · intro h
    obtain ⟨path, hpath, h⟩ := Except.bind_eq_ok.mp h
    have hpath := ofPath_eq_ok_iff.mp hpath
    split at h
    next hq =>
      cases h
      exact .plain hq hpath
    next query hq =>
      obtain ⟨es, hes, h⟩ := Except.bind_eq_ok.mp h
      cases h
      exact .query hq hpath (ofEntries_queryEntries_eq_ok_iff.mp hes)
  · intro h
    cases h with
    | plain hq hpath =>
      rw [ofText, ofPath_eq_ok_iff.mpr hpath]
      simp only [bind, Except.bind, hq]
      rfl
    | query hq hpath hquery =>
      rw [ofText, ofPath_eq_ok_iff.mpr hpath]
      simp only [bind, Except.bind, hq, ofEntries_queryEntries_eq_ok_iff.mpr hquery]
      rfl

/-- Nothing of a query stands in the pattern, neither a block nor a single parameter. -/
structure Queryless (p : Pattern σ) : Prop where
  hasBlock : p.hasBlock = false
  strayParam? : p.strayParam? = none

theorem Queryless.rootBlock?_eq_none {p : Pattern σ} (h : p.Queryless) : p.rootBlock? = none := by
  have hblock := h.hasBlock
  cases p <;> first | rfl | simp [Pattern.hasBlock] at hblock

/-- What every piece that was read has, and what is kept where patterns are put side by side. -/
structure SoundCompositional (P : Pattern σ → Prop) : Prop where
  empty : P (literal [])
  piece : ∀ piece : Piece, piece.Sound → P piece.pattern
  concat : ∀ {left right : Pattern σ} (joined : Bool), P left → P right → P (concat left right joined)

namespace SoundCompositional

variable {P : Pattern σ → Prop}

theorem foldl (hP : SoundCompositional P) (joined : Bool) {p : Pattern σ} {ps : List (Pattern σ)} (hp : P p)
    (h : ∀ q ∈ ps, P q) :
    P (ps.foldl (fun left right => Pattern.concat left right joined) p) := by
  induction ps generalizing p with
  | nil => exact hp
  | cons q rest ih =>
    exact ih (hP.concat joined hp (h q List.mem_cons_self)) fun r hr => h r (List.mem_cons_of_mem _ hr)

theorem readFrom (hP : SoundCompositional P) {segment : Text} {p : Pattern σ} (h : ReadFrom segment p) :
    P p := by
  obtain ⟨pieces, hsound, -, rfl⟩ := ofSegment_eq_ok h
  cases pieces with
  | nil => exact hP.empty
  | cons piece rest =>
    refine hP.foldl true (hP.piece piece (hsound piece List.mem_cons_self)) fun q hq => ?_
    obtain ⟨other, hother, rfl⟩ := List.mem_map.mp hq
    exact hP.piece other (hsound other (List.mem_cons_of_mem _ hother))

theorem readPath (hP : SoundCompositional P) {path : Text} {p : Pattern σ} (h : ReadPath path p) : P p := by
  obtain ⟨ps, hread, rfl⟩ := h
  have hall : ∀ q ∈ ps, P q := fun q hq =>
    have ⟨_, _, hr⟩ := exists_of_mem_right hread hq
    hP.readFrom hr
  cases ps with
  | nil => exact hP.piece (.literal ['/']) ⟨by decide, by decide, by decide⟩
  | cons q rest =>
    exact hP.foldl false (hall q (by simp)) fun r hr => hall r (List.mem_cons_of_mem _ hr)

theorem readEntry (hP : SoundCompositional P) {entry : Text} {e : Text × Pattern σ}
    (h : ReadEntry entry e) : P e.2 := by
  obtain ⟨_, -, -, -, hread⟩ := h
  exact hP.readFrom hread

theorem readQuery (hP : SoundCompositional P) {query : Text} {es : List (Text × Pattern σ)}
    (h : ReadQuery query es) : ∀ e ∈ es, P e.2 := by
  intro e he
  obtain ⟨_, -, hentry⟩ := exists_of_mem_right h.1 he
  exact hP.readEntry hentry

end SoundCompositional
/-- What every piece of a segment has, read or not, and what is kept where patterns are put side by side. -/
structure Compositional (P : Pattern σ → Prop) : Prop where
  piece : ∀ piece : Piece, P piece.pattern
  concat : ∀ {left right : Pattern σ} (joined : Bool), P left → P right → P (concat left right joined)

namespace Compositional

variable {P : Pattern σ → Prop}

theorem sound (hP : Compositional P) : SoundCompositional P :=
  ⟨hP.piece (.literal []), fun piece _ => hP.piece piece, hP.concat⟩

theorem readPath (hP : Compositional P) {path : Text} {p : Pattern σ} (h : ReadPath path p) : P p :=
  hP.sound.readPath h

theorem readEntry (hP : Compositional P) {entry : Text} {e : Text × Pattern σ} (h : ReadEntry entry e) : P e.2 :=
  hP.sound.readEntry h

theorem readQuery (hP : Compositional P) {query : Text} {es : List (Text × Pattern σ)}
    (h : ReadQuery query es) : ∀ e ∈ es, P e.2 :=
  hP.sound.readQuery h

end Compositional

theorem compositional_queryless : Compositional (Queryless (σ := σ)) where
  piece piece := by
    rcases piece with _ | ⟨_ | _, _ | _, _ | _⟩ <;> exact ⟨rfl, rfl⟩
  concat joined hl hr :=
    ⟨by simp [Pattern.hasBlock, hl.hasBlock, hr.hasBlock],
      by simp [Pattern.strayParam?, hl.strayParam?, hr.strayParam?]⟩

theorem ReadPath.queryless {path : Text} {p : Pattern σ} (h : ReadPath path p) : p.Queryless :=
  compositional_queryless.readPath h

theorem ReadEntry.queryless {entry : Text} {e : Text × Pattern σ} (h : ReadEntry entry e) :
    e.2.Queryless :=
  compositional_queryless.readEntry h

theorem ReadQuery.queryless {query : Text} {es : List (Text × Pattern σ)} (h : ReadQuery query es) :
    ∀ e ∈ es, e.2.Queryless :=
  compositional_queryless.readQuery h

theorem strayInEntries_eq_none {es : List (Text × Pattern σ)}
    (h : ∀ e ∈ es, e.2.strayParam? = none) : strayInEntries es = none := by
  induction es with
  | nil => rfl
  | cons e rest ih =>
    simp [strayInEntries, h e (by simp), ih fun e he => h e (List.mem_cons_of_mem _ he)]

namespace ReadSplit

variable {split : QuerySplit} {p : Pattern σ}

theorem readPath (h : ReadSplit split p) : ReadPath split.path p.trunk := by
  cases h with
  | plain _ hpath => rwa [trunk_eq_self hpath.queryless.rootBlock?_eq_none]
  | query _ hpath _ => exact hpath

theorem blockAtRoot (h : ReadSplit split p) : p.BlockAtRoot := by
  refine ⟨h.readPath.queryless.hasBlock, ?_⟩
  cases h with
  | plain _ hpath => simp [hpath.queryless.rootBlock?_eq_none]
  | query _ _ hquery => exact fun e he => (hquery.queryless e he).hasBlock

theorem strayParam? (h : ReadSplit split p) : p.strayParam? = none := by
  cases h with
  | plain _ hpath => exact hpath.queryless.strayParam?
  | @query p query es _ hpath hquery =>
    have hes : strayInEntries es = none :=
      strayInEntries_eq_none fun e he => (hquery.queryless e he).strayParam?
    simp [Pattern.strayParam?, hes, hpath.queryless.strayParam?]

end ReadSplit

end Pattern

theorem Route.parse_eq_ok {source : Text} {atEnd : Bool} {r : Route}
    (h : Route.parse source atEnd = .ok r) :
    Pattern.ReadSplit (QuerySplit.ofSource source) r.pattern := by
  obtain ⟨p, hp, rfl⟩ := Except.map_eq_ok.mp h
  exact Pattern.ofText_eq_ok_iff.mp hp

end RoutePattern
