import RoutePattern.Proofs.Reading.Source

/-!
The search for the question mark that opens a query. What a character is taken for depends on its own
segment and on the character behind it only, so that a segment reads alike wherever it stands.
-/

namespace RoutePattern

/-- A state of the search: how many braces are open, and the segment so far, last character first. -/
structure Scan where
  depth : Nat
  segment : Text

namespace Scan

def start : Scan := ⟨0, []⟩

/-- The state behind a character that does not open the query. -/
def next (s : Scan) (c : Char) : Scan where
  depth := if c = '{' then s.depth + 1 else if c = '}' then s.depth - 1 else s.depth
  segment := if c = '/' ∧ s.depth = 0 then [] else c :: s.segment

def after (s : Scan) (text : Text) : Scan := text.foldl next s

/-- The character opens the query when `rest` is behind it. -/
def Opens (s : Scan) (c : Char) (rest : Text) : Prop :=
  c = '?' ∧ s.depth = 0 ∧ readsAsModifier s.segment.reverse rest = false

instance (s : Scan) (c : Char) (rest : Text) : Decidable (s.Opens c rest) :=
  inferInstanceAs (Decidable (_ ∧ _ ∧ _))

/-- No character of the text opens the query when `rest` is behind the text. -/
def Passes (s : Scan) : Text → Text → Prop
  | [], _ => True
  | c :: text, rest => ¬ s.Opens c (text ++ rest) ∧ (s.next c).Passes text rest

/-- What follows a segment: nothing, another segment, or the query. -/
def Boundary (rest : Text) : Prop := ∀ c ∈ rest.head?, c = '/' ∨ c = '?'

def separator? (s : Scan) (text : Text) : Option Nat :=
  QuerySplit.separator? s.depth s.segment text

theorem separator?_cons (s : Scan) (c : Char) (text : Text) :
    s.separator? (c :: text) =
      if s.Opens c text then some 0 else ((s.next c).separator? text).map (· + 1) := by
  rfl

theorem separator?_append {s : Scan} {text rest : Text} (h : s.Passes text rest) :
    s.separator? (text ++ rest) = ((s.after text).separator? rest).map (· + text.length) := by
  induction text generalizing s with
  | nil => simp [after]
  | cons c text ih =>
    obtain ⟨hc, ht⟩ := h
    rw [List.cons_append, separator?_cons, if_neg hc, ih ht, Option.map_map]
    rfl

theorem passes_of_separator?_eq_none {s : Scan} {text : Text} (h : s.separator? text = none) :
    s.Passes text [] := by
  induction text generalizing s with
  | nil => trivial
  | cons c text ih =>
    rw [separator?_cons] at h
    split at h
    next => simp at h
    next hc => exact ⟨by simpa using hc, ih (Option.map_eq_none_iff.mp h)⟩

theorem passes_of_separator?_eq_some {s : Scan} {text : Text} {i : Nat}
    (h : s.separator? text = some i) :
    s.Passes (text.take i) (text.drop i) ∧ text.drop i = '?' :: text.drop (i + 1) := by
  induction text generalizing s i with
  | nil => simp [separator?, QuerySplit.separator?] at h
  | cons c text ih =>
    rw [separator?_cons] at h
    split at h
    next hc =>
      cases h
      exact ⟨trivial, by simp [hc.1]⟩
    next hc =>
      obtain ⟨j, hj, rfl⟩ := Option.map_eq_some_iff.mp h
      obtain ⟨hp, hd⟩ := ih hj
      refine ⟨⟨?_, by simpa using hp⟩, by simpa using hd⟩
      rw [List.drop_succ_cons, List.take_append_drop]
      exact hc

theorem passes_of_notMem {s : Scan} {text rest : Text} (h : '?' ∉ text) : s.Passes text rest := by
  induction text generalizing s with
  | nil => trivial
  | cons c text ih =>
    obtain ⟨hc, htext⟩ : '?' ≠ c ∧ '?' ∉ text := by simpa using h
    exact ⟨fun hopens => hc hopens.1.symm, ih htext⟩

theorem after_append (s : Scan) (front back : Text) :
    s.after (front ++ back) = (s.after front).after back :=
  List.foldl_append

theorem passes_append {s : Scan} {front back rest : Text} :
    s.Passes (front ++ back) rest ↔ s.Passes front (back ++ rest) ∧ (s.after front).Passes back rest := by
  induction front generalizing s with
  | nil => simp [Passes, after]
  | cons c front ih =>
    rw [List.cons_append, Passes, Passes, ih, List.append_assoc, and_assoc]
    rfl

theorem readsAsModifier_of_boundary {rest : Text} (segment : Text) (h : Boundary rest) :
    readsAsModifier segment rest = isBareCapture segment := by
  cases rest with
  | nil => simp [readsAsModifier]
  | cons c rest => rcases h c rfl with rfl | rfl <;> simp [readsAsModifier]

/-- What a character opens depends on no more than the character behind it. -/
theorem passes_of_boundary {s : Scan} {text rest other : Text} (hr : Boundary rest)
    (ho : Boundary other) (h : s.Passes text rest) : s.Passes text other := by
  induction text generalizing s with
  | nil => trivial
  | cons c text ih =>
    obtain ⟨hc, ht⟩ := h
    refine ⟨?_, ih ht⟩
    -- only the last character of the text looks past it
    cases text with
    | nil =>
      rw [List.nil_append, Opens, readsAsModifier_of_boundary _ hr] at hc
      rwa [List.nil_append, Opens, readsAsModifier_of_boundary _ ho]
    | cons d text => exact hc

theorem boundary_nil : Boundary [] := by simp [Boundary]

theorem boundary_slash (text : Text) : Boundary ('/' :: text) := by simp [Boundary]

theorem boundary_query (text : Text) : Boundary ('?' :: text) := by simp [Boundary]

theorem segment_after {s : Scan} {text : Text} (h : '/' ∉ text) :
    (s.after text).segment = text.reverse ++ s.segment := by
  induction text generalizing s with
  | nil => rfl
  | cons c text ih =>
    obtain ⟨hc, ht⟩ : '/' ≠ c ∧ '/' ∉ text := by simpa using h
    have hnext : (s.next c).segment = c :: s.segment := by simp [next, Ne.symm hc]
    have hcons : s.after (c :: text) = (s.next c).after text := rfl
    rw [hcons, ih ht, hnext]
    simp

theorem depth_after {s : Scan} {text : Text} (ho : '{' ∉ text) (hc : '}' ∉ text) :
    (s.after text).depth = s.depth := by
  induction text generalizing s with
  | nil => rfl
  | cons c text ih =>
    obtain ⟨ho, ho'⟩ : '{' ≠ c ∧ '{' ∉ text := by simpa using ho
    obtain ⟨hc, hc'⟩ : '}' ≠ c ∧ '}' ∉ text := by simpa using hc
    have hcons : s.after (c :: text) = (s.next c).after text := rfl
    rw [hcons, ih ho' hc']
    simp [next, Ne.symm ho, Ne.symm hc]

theorem depth_after_braces {s : Scan} {text : Text} (ho : '{' ∉ text) (hc : '}' ∉ text) :
    (s.after ('{' :: text ++ ['}'])).depth = s.depth := by
  have hd : ((s.next '{').after text).depth = s.depth + 1 := by
    rw [depth_after ho hc]
    rfl
  rw [after_append]
  show ((s.next '{').after text).depth - 1 = s.depth
  omega

theorem next_slash {s : Scan} (h : s.depth = 0) : s.next '/' = start := by
  simp [next, start, h]

end Scan

theorem brace_notMem_symbolText (m : Option Modifier) :
    '{' ∉ symbolText m ∧ '}' ∉ symbolText m := by
  rcases m with _ | _ | _ | _ <;> decide

theorem brace_notMem_name {name : Text} (h : isName name) : '{' ∉ name ∧ '}' ∉ name :=
  ⟨notMem_of_isName h (by decide), notMem_of_isName h (by decide)⟩

theorem brace_notMem_getD {name : Option Text} (h : ∀ n ∈ name, isName n) :
    '{' ∉ name.getD ['*'] ∧ '}' ∉ name.getD ['*'] := by
  cases name with
  | none => decide
  | some name => exact brace_notMem_name (h name rfl)

theorem Piece.depth_after {piece : Piece} (h : piece.Sound) (s : Scan) :
    (s.after piece.source).depth = s.depth := by
  match piece with
  | literal _ => exact Scan.depth_after h.2.1 h.2.2
  | capture none (some name) m =>
    have hs := brace_notMem_symbolText m
    have hn := brace_notMem_name (h.1 name rfl)
    exact Scan.depth_after (by simp [source, hs.1, hn.1]) (by simp [source, hs.2, hn.2])
  | capture none none m =>
    have hs := brace_notMem_symbolText m
    exact Scan.depth_after (by simp [source, hs.1]) (by simp [source, hs.2])
  | capture (some lead) name m =>
    have hs := brace_notMem_symbolText m
    have hn := brace_notMem_getD h.1
    have hl := h.2 lead rfl
    have hsource : (capture (some lead) name m).source =
        '{' :: (lead ++ ':' :: name.getD ['*'] ++ symbolText m) ++ ['}'] := by simp [source]
    rw [hsource]
    exact Scan.depth_after_braces (by simp [hs.1, hn.1, hl.1]) (by simp [hs.2, hn.2, hl.2.1])

theorem depth_after_pieces {pieces : List Piece} (h : ∀ piece ∈ pieces, piece.Sound) (s : Scan) :
    (s.after (pieces.flatMap Piece.source)).depth = s.depth := by
  induction pieces generalizing s with
  | nil => rfl
  | cons piece rest ih =>
    rw [List.flatMap_cons, Scan.after_append, ih (fun p hp => h p (List.mem_cons_of_mem _ hp)),
      Piece.depth_after (h piece (by simp))]

theorem Pattern.ReadFrom.depth_after {σ : Type} {segment : Text} {p : Pattern σ}
    (h : ReadFrom segment p) (s : Scan) : (s.after segment).depth = s.depth := by
  obtain ⟨pieces, hpieces, rfl, -⟩ := ofSegment_eq_ok h
  exact depth_after_pieces hpieces s

/-- A segment that can stand anywhere in a path: it closes its braces and none of its question marks
opens a query. -/
structure Settled (segment : Text) : Prop where
  slash : '/' ∉ segment
  depth : ∀ s : Scan, (s.after segment).depth = s.depth
  passes : Scan.start.Passes segment []

namespace Scan

theorem boundary_segments {rest : Text} (segments : List Text) (h : Boundary rest) :
    Boundary (segments.flatMap ('/' :: ·) ++ rest) := by
  cases segments with
  | nil => exact h
  | cons segment others => exact boundary_slash _

theorem passes_segments {s : Scan} {segments : List Text} {rest : Text} (hd : s.depth = 0)
    (h : ∀ segment ∈ segments, Settled segment) (hr : Boundary rest) :
    s.Passes (segments.flatMap ('/' :: ·)) rest ∧ (s.after (segments.flatMap ('/' :: ·))).depth = 0 := by
  induction segments generalizing s with
  | nil => exact ⟨trivial, hd⟩
  | cons segment others ih =>
    have hs := h segment (by simp)
    have hnext := next_slash hd
    have hend : (start.after segment).depth = 0 := hs.depth start
    obtain ⟨hp, he⟩ := ih hend fun t ht => h t (List.mem_cons_of_mem _ ht)
    -- a slash outside of braces takes the search back to its start
    have hcons : s.after ('/' :: segment) = start.after segment := by
      rw [← hnext]
      rfl
    have hfirst : s.Passes ('/' :: segment) (others.flatMap ('/' :: ·) ++ rest) := by
      refine ⟨fun ho => absurd ho.1 (by decide), ?_⟩
      rw [hnext]
      exact passes_of_boundary boundary_nil (boundary_segments others hr) hs.passes
    rw [List.flatMap_cons, passes_append, after_append, hcons]
    exact ⟨⟨hfirst, hp⟩, he⟩

theorem passes_of_mem_pieces {pieces : List Text} {rest : Text}
    (hdepth : ∀ piece ∈ pieces, ∀ s : Scan, (s.after piece).depth = s.depth) (hr : Boundary rest)
    (h : start.Passes (Text.join ['/'] pieces) rest) : ∀ piece ∈ pieces, start.Passes piece [] := by
  induction pieces with
  | nil => simp
  | cons piece others ih =>
    have hd : (start.after piece).depth = 0 := hdepth piece (by simp) start
    by_cases ho : others = []
    · subst ho
      have hp : start.Passes piece rest := by simpa [Text.join] using h
      simpa using passes_of_boundary hr boundary_nil hp
    · rw [Text.join_cons ho, List.append_assoc, passes_append] at h
      obtain ⟨hp, -, hrest⟩ := h
      rw [next_slash hd] at hrest
      intro t ht
      rcases List.mem_cons.mp ht with rfl | ht
      · exact passes_of_boundary (boundary_slash _) boundary_nil hp
      · exact ih (fun q hq => hdepth q (List.mem_cons_of_mem _ hq)) hrest t ht

end Scan

theorem Pattern.ReadPath.settled {σ : Type} {path rest : Text} {p : Pattern σ}
    (h : ReadPath path p) (hr : Scan.Boundary rest) (hp : Scan.start.Passes path rest) :
    ∀ segment ∈ splitPath path, Settled segment := by
  obtain ⟨ps, hread, -⟩ := h
  have hdepth : ∀ segment ∈ splitPath path, ∀ s : Scan, (s.after segment).depth = s.depth := by
    intro segment hs
    obtain ⟨q, -, hq⟩ := exists_of_mem_right hread.flip hs
    exact ReadFrom.depth_after hq
  have hpieces : ∀ piece ∈ Text.split '/' path, ∀ s : Scan, (s.after piece).depth = s.depth := by
    intro piece hm s
    by_cases hne : piece = []
    · rw [hne]; rfl
    · exact hdepth piece (List.mem_filter.mpr ⟨hm, by simpa using hne⟩) s
  rw [← Text.join_split '/' path] at hp
  intro segment hs
  have hm : segment ∈ Text.split '/' path := (List.mem_filter.mp hs).1
  exact ⟨slash_notMem_of_mem_splitPath hs, hdepth segment hs,
    Scan.passes_of_mem_pieces hpieces hr hp segment hm⟩

end RoutePattern
