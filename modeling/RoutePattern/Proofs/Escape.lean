import RoutePattern.Proofs.Separator

/-!
Escaped question marks. The first one cuts a source whatever else stands in it; without any, the search
for a question mark that opens the query decides.
-/

namespace RoutePattern

namespace Text

theorem indexOf_eq_none_iff {needle text : Text} (hne : needle ≠ []) :
    indexOf needle text = none ↔ ¬ needle <:+: text := by
  induction text with
  | nil => simp [indexOf, hne]
  | cons c rest ih =>
    rw [List.infix_cons_iff]
    by_cases hp : needle <+: c :: rest
    · have hb : needle.isPrefixOf (c :: rest) = true := List.isPrefixOf_iff_prefix.mpr hp
      simp [indexOf, hb, hp]
    · have hb : needle.isPrefixOf (c :: rest) = false := by
        rw [← Bool.not_eq_true]
        exact fun hb => hp (List.isPrefixOf_iff_prefix.mp hb)
      simp [indexOf, hb, hp, ih]

theorem indexOf_eq_some {needle text : Text} {i : Nat} (hne : needle ≠ [])
    (h : indexOf needle text = some i) : needle <+: text.drop i ∧ ¬ needle <:+: text.take i := by
  induction text generalizing i with
  | nil => simp [indexOf, hne] at h
  | cons c rest ih =>
    by_cases hb : needle.isPrefixOf (c :: rest) = true
    · obtain rfl : 0 = i := by simpa [indexOf, hb] using h
      exact ⟨List.isPrefixOf_iff_prefix.mp hb, by simpa using hne⟩
    · obtain ⟨j, hj, rfl⟩ : ∃ j, indexOf needle rest = some j ∧ j + 1 = i := by
        simpa [indexOf, hb] using h
      obtain ⟨hbegin, hfront⟩ := ih hj
      refine ⟨hbegin, ?_⟩
      rw [List.take_succ_cons, List.infix_cons_iff]
      rintro (hp | hp)
      · exact hb (List.isPrefixOf_iff_prefix.mpr (hp.trans (List.prefix_cons_inj c |>.mpr (List.take_prefix j rest))))
      · exact hfront hp

/-- Two characters side by side stand in the front, in the back, or on the seam. -/
theorem pair_infix_append {a b : Char} {front back : Text} :
    [a, b] <:+: front ++ back ↔
      [a, b] <:+: front ∨ [a, b] <:+: back ∨ (front.getLast? = some a ∧ back.head? = some b) := by
  induction front with
  | nil => simp
  | cons c rest ih =>
    rw [List.cons_append, List.infix_cons_iff, ih, List.infix_cons_iff]
    cases rest with
    | nil =>
      cases back with
      | nil => simp
      | cons d more =>
        have hseam : a = c ∧ b = d ↔ c = a ∧ d = b := by grind
        simp [List.cons_prefix_cons, hseam, or_comm]
    | cons d more => simp [List.cons_prefix_cons, or_assoc]

theorem infix_of_mem_split {c : Char} {text piece : Text} (h : piece ∈ split c text) :
    piece <:+: text := by
  have hjoin : ∀ pieces : List Text, piece ∈ pieces → piece <:+: join [c] pieces := by
    intro pieces
    induction pieces with
    | nil => simp
    | cons first others ih =>
      intro hm
      by_cases ho : others = []
      · subst ho
        obtain rfl : piece = first := by simpa using hm
        simp [join]
      · rw [join_cons ho]
        rcases List.mem_cons.mp hm with rfl | hm
        · exact List.infix_append_of_infix_left (List.prefix_append _ _).isInfix
        · exact (ih hm).trans (List.suffix_append _ _).isInfix
  have := hjoin (split c text) h
  rwa [join_split] at this

end Text

/-- A question mark that is escaped cuts a source wherever it stands. -/
def escape : Text := ['\\', '?']

theorem escape_infix_append {front back : Text} :
    escape <:+: front ++ back ↔
      escape <:+: front ∨ escape <:+: back ∨ (front.getLast? = some '\\' ∧ back.head? = some '?') :=
  Text.pair_infix_append

theorem backslash_mem_of_escape {text : Text} (h : escape <:+: text) : '\\' ∈ text :=
  h.subset (by simp [escape])

namespace Scan

theorem separator?_eq_none_iff {s : Scan} {text : Text} :
    s.separator? text = none ↔ s.Passes text [] := by
  refine ⟨passes_of_separator?_eq_none, fun h => ?_⟩
  have happend := separator?_append h
  rw [List.append_nil] at happend
  rw [happend]
  rfl

end Scan

namespace QuerySplit

theorem ofSource_append_escape {front : Text} (rest : Text) (h : ¬ escape <:+: front) :
    ofSource (front ++ escape ++ rest) = ⟨front, some rest, front.length + 2⟩ := by
  have hindex : Text.indexOf escape (front ++ escape ++ rest) = some front.length := by
    induction front with
    | nil => rfl
    | cons c front ih =>
      rw [List.infix_cons_iff, not_or] at h
      obtain ⟨hhead, htail⟩ := h
      have hfirst : ¬ escape.isPrefixOf (c :: (front ++ escape ++ rest)) = true := by
        rw [List.isPrefixOf_iff_prefix]
        intro hp
        cases front with
        | nil => simp [escape, List.cons_prefix_cons] at hp
        | cons d more =>
          obtain ⟨hc, hd⟩ : '\\' = c ∧ '?' = d := by simpa [escape, List.cons_prefix_cons] using hp
          exact hhead (by simpa [escape, List.cons_prefix_cons] using ⟨hc, hd⟩)
      have hcons : c :: front ++ escape ++ rest = c :: (front ++ escape ++ rest) := rfl
      rw [hcons, Text.indexOf, if_neg hfirst, ih htail]
      rfl
  have hindex' : Text.indexOf ['\\', '?'] (front ++ escape ++ rest) = some front.length := hindex
  simp only [ofSource, hindex']
  simp [escape]

theorem ofSource_of_unescaped {source : Text} (h : ¬ escape <:+: source) :
    ofSource source =
      match Scan.start.separator? source with
      | some i => ⟨source.take i, some (source.drop (i + 1)), i + 1⟩
      | none => ⟨source, none, source.length⟩ := by
  have hindex : Text.indexOf ['\\', '?'] source = none :=
    (Text.indexOf_eq_none_iff (by simp)).mpr h
  rw [ofSource, hindex]
  rfl

theorem unescaped_path (source : Text) : ¬ escape <:+: (ofSource source).path := by
  by_cases h : escape <:+: source
  · obtain ⟨i, hi⟩ : ∃ i, Text.indexOf ['\\', '?'] source = some i := by
      rw [← Option.isSome_iff_exists, Option.isSome_iff_ne_none]
      exact fun hnone => (Text.indexOf_eq_none_iff (by simp)).mp hnone h
    rw [ofSource, hi]
    exact (Text.indexOf_eq_some (by simp) hi).2
  · rw [ofSource_of_unescaped h]
    split
    next => exact fun hp => h (hp.trans (List.take_prefix _ _).isInfix)
    next => exact h

/-- Where a source is not cut nothing in it is escaped, and nothing opens a query. -/
theorem of_query_eq_none {source : Text} (h : (ofSource source).query = none) :
    ¬ escape <:+: source ∧ Scan.start.Passes source [] ∧ (ofSource source).path = source := by
  have hun : ¬ escape <:+: source := by
    intro he
    cases hi : Text.indexOf ['\\', '?'] source with
    | none => exact (Text.indexOf_eq_none_iff (by simp)).mp hi he
    | some i => simp [ofSource, hi] at h
  rw [ofSource_of_unescaped hun] at h ⊢
  cases hs : Scan.start.separator? source with
  | none => exact ⟨hun, Scan.separator?_eq_none_iff.mp hs, rfl⟩
  | some i => simp [hs] at h

/-- A source is cut at an escaped question mark, or at one that opens the query. -/
theorem of_query_eq_some {source query : Text} (h : (ofSource source).query = some query) :
    ∃ i, (ofSource source).path = source.take i ∧
      (escape <+: source.drop i ∨
        (¬ escape <:+: source ∧ source.drop i = '?' :: source.drop (i + 1) ∧
          Scan.start.Passes (source.take i) (source.drop i))) := by
  cases hi : Text.indexOf ['\\', '?'] source with
  | some i =>
    refine ⟨i, by simp [ofSource, hi], .inl ?_⟩
    exact (Text.indexOf_eq_some (by simp) hi).1
  | none =>
    have hun : ¬ escape <:+: source := (Text.indexOf_eq_none_iff (by simp [escape])).mp hi
    rw [ofSource_of_unescaped hun] at h ⊢
    cases hs : Scan.start.separator? source with
    | none => simp [hs] at h
    | some i =>
      obtain ⟨hpasses, hdrop⟩ := Scan.passes_of_separator?_eq_some hs
      exact ⟨i, rfl, .inr ⟨hun, hdrop, hpasses⟩⟩

end QuerySplit

end RoutePattern
