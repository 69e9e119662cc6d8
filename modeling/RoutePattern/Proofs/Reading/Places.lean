import Mathlib.Data.List.Infix
import RoutePattern.Proofs.Reading.Source

/-!
Where the parts of a pattern stand in its source: the entries of its query, the segments of its path and the
values of its query.
-/

namespace RoutePattern

namespace Text

/-- The text has the piece at a place. -/
def HasAt (start : Nat) (piece text : Text) : Prop := piece <+: text.drop start

/-- The text has the piece at a place, and what is before it and behind it there is as asked for. -/
def HasWhere (around : Text → Text → Prop) (start : Nat) (piece text : Text) : Prop :=
  ∃ before after, text = before ++ piece ++ after ∧ before.length = start ∧ around before after

/-- What is before a piece ends in the separator and what is behind it begins with it, unless it is empty. -/
def Bounded (separator : Char) (before after : Text) : Prop :=
  (∀ c ∈ before.getLast?, c = separator) ∧ ∀ c ∈ after.head?, c = separator

theorem HasAt.trans {i j : Nat} {small middle large : Text} (hsmall : HasAt j small middle)
    (hmiddle : HasAt i middle large) : HasAt (i + j) small large := by
  have hdrop : middle.drop j <+: (large.drop i).drop j := List.IsPrefix.drop hmiddle j
  rw [List.drop_drop] at hdrop
  exact List.IsPrefix.trans hsmall hdrop

theorem HasAt.extract {start : Nat} {piece text : Text} (h : HasAt start piece text) :
    text.extract start (start + piece.length) = piece := by
  rw [List.extract_eq_take_drop, Nat.add_sub_cancel_left]
  exact (List.prefix_iff_eq_take.mp h).symm

theorem HasAt.length_le {start : Nat} {piece text : Text} (h : HasAt start piece text)
    (hne : piece ≠ []) : start + piece.length ≤ text.length := by
  have hle := List.IsPrefix.length_le h
  have hpos := List.length_pos_iff.mpr hne
  rw [List.length_drop] at hle
  omega

theorem HasWhere.hasAt {around : Text → Text → Prop} {start : Nat} {piece text : Text}
    (h : HasWhere around start piece text) : HasAt start piece text := by
  obtain ⟨before, after, rfl, rfl, -⟩ := h
  rw [HasAt, List.append_assoc, List.drop_left]
  exact List.prefix_append piece after

section

variable {separator : Char}

theorem join_append_cons (before : List Text) (piece : Text) (after : List Text) :
    join [separator] (before ++ piece :: after) =
      before.flatMap (· ++ [separator]) ++ piece ++ after.flatMap (separator :: ·) := by
  induction before with
  | nil =>
    rw [List.nil_append, List.flatMap_nil, List.nil_append]
    induction after generalizing piece with
    | nil => simp [join]
    | cons next rest ih =>
      rw [join_cons (List.cons_ne_nil _ _), ih, List.flatMap_cons]
      simp
  | cons first rest ih =>
    rw [List.cons_append, join_cons (by simp), ih]
    simp

theorem bounded_separators (before after : List Text) :
    Bounded separator (before.flatMap (· ++ [separator])) (after.flatMap (separator :: ·)) := by
  constructor
  · intro c hc
    rcases List.eq_nil_or_concat before with rfl | ⟨front, last, rfl⟩
    · simp at hc
    · simpa [List.getLast?_append] using hc.symm
  · intro c hc
    cases after with
    | nil => simp at hc
    | cons next rest => simpa using hc.symm

theorem exists_of_mem_located (separator : Char) {first start : Nat} {piece : Text} {pieces : List Text}
    (h : (start, piece) ∈ located first pieces) :
    ∃ before after, pieces = before ++ piece :: after ∧
      start = first + (before.flatMap (· ++ [separator])).length := by
  induction pieces generalizing first with
  | nil => simp [located] at h
  | cons next rest ih =>
    rcases List.mem_cons.mp h with heq | hmem
    · obtain ⟨rfl, rfl⟩ := Prod.mk.inj heq
      exact ⟨[], rest, rfl, rfl⟩
    · obtain ⟨before, after, rfl, rfl⟩ := ih hmem
      refine ⟨next :: before, after, rfl, ?_⟩
      rw [List.flatMap_cons, List.length_append, List.length_append, List.length_singleton]
      omega

/-- A piece of a split text with its place: it stands there between two separators. -/
theorem hasWhere_of_mem_located {first start : Nat} {piece text : Text}
    (h : (start, piece) ∈ located first (split separator text)) :
    ∃ i, start = first + i ∧ HasWhere (Bounded separator) i piece text ∧ separator ∉ piece := by
  obtain ⟨before, after, hpieces, rfl⟩ := exists_of_mem_located separator h
  have htext := join_split separator text
  rw [hpieces, join_append_cons] at htext
  have hmem : piece ∈ split separator text := hpieces ▸ List.mem_append_right _ List.mem_cons_self
  exact ⟨_, rfl, ⟨_, _, htext.symm, rfl, bounded_separators before after⟩, notMem_of_mem_split hmem⟩

theorem pairwise_located (first : Nat) (pieces : List Text) :
    (located first pieces).Pairwise (·.1 < ·.1) := by
  induction pieces generalizing first with
  | nil => exact .nil
  | cons next rest ih =>
    refine List.pairwise_cons.mpr ⟨fun e he => ?_, ih _⟩
    obtain ⟨before, after, -, hplace⟩ := exists_of_mem_located '/' he
    omega

end

end Text

open Text (HasAt HasWhere Bounded)

namespace QuerySplit

theorem path_isPrefix (source : Text) : (ofSource source).path <+: source := by
  unfold ofSource
  split
  · exact List.take_prefix _ _
  · split
    · exact List.take_prefix _ _
    · exact List.prefix_rfl

theorem hasAt_path (source : Text) : HasAt 0 (ofSource source).path source := path_isPrefix source

theorem hasAt_query {source query : Text} (h : (ofSource source).query = some query) :
    HasAt (ofSource source).offset query source := by
  unfold ofSource at h ⊢
  split at h
  · obtain rfl := Option.some.inj h
    simp_all [HasAt]
  · split at h
    · obtain rfl := Option.some.inj h
      simp_all [HasAt]
    · cases h

end QuerySplit

/-- The source has the entry at a place of its query, from one ampersand or end of the query to the next. -/
def EntryAt (source : Text) (start : Nat) (entry : Text) : Prop :=
  ∃ query, (QuerySplit.ofSource source).query = some query ∧
    ∃ i, start = (QuerySplit.ofSource source).offset + i ∧ HasWhere (Bounded '&') i entry query ∧
      '&' ∉ entry

/-- The source has the segment at a place: in its path, from one slash or end of the path to the next, or as
the value of an entry, behind its first equals sign. -/
inductive SegmentAt (source : Text) : Nat → Text → Prop
  | path {start : Nat} {segment : Text}
      (h : HasWhere (Bounded '/') start segment (QuerySplit.ofSource source).path)
      (hslash : '/' ∉ segment) : SegmentAt source start segment
  | value {start : Nat} {key value : Text} (h : EntryAt source start (key ++ '=' :: value))
      (hkey : '=' ∉ key) : SegmentAt source (start + key.length + 1) value

theorem EntryAt.hasAt {source entry : Text} {start : Nat} (h : EntryAt source start entry) :
    HasAt start entry source := by
  obtain ⟨query, hquery, i, rfl, hentry, -⟩ := h
  exact hentry.hasAt.trans (QuerySplit.hasAt_query hquery)

theorem SegmentAt.hasAt {source segment : Text} {start : Nat} (h : SegmentAt source start segment) :
    HasAt start segment source := by
  cases h with
  | path h _ => simpa using h.hasAt.trans (QuerySplit.hasAt_path source)
  | @value start key _ h _ =>
    have hvalue : HasAt (key.length + 1) segment (key ++ '=' :: segment) := by simp [HasAt]
    exact hvalue.trans h.hasAt

theorem segmentAt_of_mem_pathSegments {source segment : Text} {start : Nat}
    (h : (start, segment) ∈ Pattern.pathSegments (QuerySplit.ofSource source).path) :
    SegmentAt source start segment := by
  obtain ⟨i, rfl, hsegment, hslash⟩ := Text.hasWhere_of_mem_located (List.mem_of_mem_filter h)
  rw [Nat.zero_add]
  exact .path hsegment hslash

theorem entryAt_of_mem_queryEntries {source query entry : Text} {start : Nat}
    (hquery : (QuerySplit.ofSource source).query = some query)
    (h : (start, entry) ∈ Pattern.queryEntries (QuerySplit.ofSource source).offset query) :
    EntryAt source start entry := by
  obtain ⟨i, hstart, hentry, hfresh⟩ := Text.hasWhere_of_mem_located (List.mem_of_mem_filter h)
  exact ⟨query, hquery, i, hstart, hentry, hfresh⟩

end RoutePattern
