import RoutePattern.Proofs.SideBySide

/-!
Texts divided among parts. A match gives each part a piece of the text, and a value ends at the first place behind
its first character where the next part could begin. The pieces say all about a match.
-/

namespace RoutePattern

namespace Text

theorem after?_eq_none_iff {start text : Text} : after? start text = none ↔ ¬ start <+: text := by
  simp [after?]

/-- The index of the first occurrence: the text begins there, and nowhere before. -/
theorem indexOf_eq_some_iff {needle text : Text} {i : Nat} (hne : needle ≠ []) :
    indexOf needle text = some i ↔ needle <+: text.drop i ∧ ∀ j < i, ¬ needle <+: text.drop j := by
  constructor
  · intro h
    refine ⟨(indexOf_eq_some hne h).1, fun j hj hp => ?_⟩
    have hex : ∃ k, needle <+: text.drop k := ⟨j, hp⟩
    classical
    have hleast := indexOf_of_first hne (Nat.find_spec hex) fun k hk => Nat.find_min hex hk
    have heq : i = Nat.find hex := Option.some.inj (h.symm.trans hleast)
    have hle : Nat.find hex ≤ j := Nat.find_min' hex hp
    omega
  · rintro ⟨hbegin, hfirst⟩
    exact indexOf_of_first hne hbegin hfirst

end Text

/-- Where a value ends that `rest` follows: `stop` begins nowhere between the first character of the value and
its end, and it stands right behind the value unless nothing does. -/
structure EndsFirst (stop value rest : Text) : Prop where
  nowhere : stop ≠ [] → ∀ i, 0 < i → i < value.length → ¬ stop <+: (value ++ rest).drop i
  behind : rest = [] ∨ stop ≠ [] ∧ stop <+: rest

theorem endsFirst_of_cutValue {stop text value rest : Text} (h : cutValue stop text = (value, rest)) :
    EndsFirst stop value rest := by
  have htext : value ++ rest = text := (cutValue_eq h).symm
  unfold cutValue at h
  split at h
  next hempty =>
    obtain ⟨-, rfl⟩ := Prod.mk.inj h
    exact ⟨fun hne => absurd (List.isEmpty_iff.mp hempty) hne, .inl rfl⟩
  next hempty =>
    have hne : stop ≠ [] := by simpa using hempty
    split at h
    next n hn =>
      obtain ⟨hvalue, hrest⟩ := Prod.mk.inj h
      obtain ⟨hbegin, hfirst⟩ := (Text.indexOf_eq_some_iff hne).mp hn
      rw [List.drop_drop, Nat.add_comm, hrest] at hbegin
      refine ⟨fun _ i hpos hi hp => ?_, .inr ⟨hne, hbegin⟩⟩
      have hlength : value.length ≤ n + 1 := by
        rw [← hvalue]
        exact List.length_take_le _ _
      have hi' : 1 + (i - 1) = i := by omega
      refine hfirst (i - 1) (by omega) ?_
      rwa [List.drop_drop, hi', ← htext]
    next hnone =>
      obtain ⟨-, rfl⟩ := Prod.mk.inj h
      refine ⟨fun _ i hpos _ hp => ?_, .inl rfl⟩
      have hi' : 1 + (i - 1) = i := by omega
      have hsuffix : (value ++ []).drop i <:+ text.drop 1 := by
        rw [htext, ← hi', ← List.drop_drop]
        exact List.drop_suffix _ _
      exact (Text.indexOf_eq_none_iff hne).mp hnone (hp.isInfix.trans hsuffix.isInfix)

theorem EndsFirst.cutValue {stop value rest : Text} (h : EndsFirst stop value rest) (hvalue : value ≠ []) :
    cutValue stop (value ++ rest) = (value, rest) := by
  rcases h.behind with rfl | ⟨hne, more, rfl⟩
  · by_cases hne : stop = []
    · simp [RoutePattern.cutValue, hne]
    · have hnone : Text.indexOf stop ((value ++ []).drop 1) = none := by
        refine (Text.indexOf_eq_none_iff hne).mpr fun hwithin => ?_
        obtain ⟨before, after, hsplit⟩ := hwithin
        have hlength := congrArg List.length hsplit
        have hpos := List.length_pos_iff.mpr hne
        simp only [List.length_append, List.length_drop, List.length_nil] at hlength
        refine h.nowhere hne (1 + before.length) (by omega) (by omega) ?_
        rw [← List.drop_drop, ← hsplit, List.append_assoc, List.drop_left]
        exact List.prefix_append _ _
      rw [RoutePattern.cutValue, if_neg (by simpa using hne), hnone, List.append_nil]
  · refine cutValue_append more hvalue ⟨hne, fun i hi hpos hp => ?_⟩
    have hdrop : (value ++ (stop ++ more)).drop i = (value ++ stop).drop i ++ more := by
      rw [← List.append_assoc, List.drop_append_of_le_length]
      rw [List.length_append]
      omega
    refine h.nowhere hne i hpos hi ?_
    rw [hdrop]
    exact hp.trans (List.prefix_append _ _)

/-- What a capture within a segment is given when it took a text. -/
def Capture.holding (c : Capture) (value : Text) : Captured :=
  if c.multiple then .many [value] else .one value

/-- What a part takes in front of `rest`, given the values of the captures. A literal takes its text, and a
capture its lead and a value that ends where `stop` says. What may be left out takes nothing where its fixed text
is not in front, and a capture without a value takes no more than its lead. -/
inductive Part.Covers (params : Params) (stop : Text) : Part → Text → Text → Prop
  | literal (text : Text) (loose : Bool) (rest : Text) : Covers params stop (.literal text loose) text rest
  | missing {text rest : Text} (hfront : ¬ text <+: rest) : Covers params stop (.literal text true) [] rest
  | value {c : Capture} {value rest : Text} (hget : Table.get? c.key params = some (c.holding value))
      (hne : value ≠ []) (hend : EndsFirst stop value rest) :
      Covers params stop (.capture c) (c.lead ++ value) rest
  | absent {c : Capture} {rest : Text} (hget : Table.get? c.key params = none) (ho : c.optional = true)
      (hfront : ¬ c.lead <+: rest) : Covers params stop (.capture c) [] rest
  | void {c : Capture} {rest : Text} (hget : Table.get? c.key params = none) (ho : c.optional = true)
      (hrest : rest = []) : Covers params stop (.capture c) c.lead rest

/-- Pieces of a text, one for each part and in their order. A value ends at the first place where the next part
could begin. -/
inductive Divides (params : Params) : List Part → List Text → Prop
  | nil : Divides params [] []
  | cons {part : Part} {parts : List Part} {piece : Text} {pieces : List Text}
      (hpart : part.Covers params (nextLeading parts) piece pieces.flatten)
      (hrest : Divides params parts pieces) : Divides params (part :: parts) (piece :: pieces)

def partKeys (parts : List Part) : List Key := (parts.filterMap Part.capture?).map Capture.key

theorem mem_partKeys {parts : List Part} {c : Capture} (h : .capture c ∈ parts) : c.key ∈ partKeys parts :=
  List.mem_map_of_mem (mem_filterMap_capture?.mpr h)

section

variable {params others : Params} {parts : List Part} {pieces : List Text}

theorem Part.Covers.congr {part : Part} {stop piece rest : Text} (h : part.Covers params stop piece rest)
    (hsame : ∀ c, part = .capture c → Table.get? c.key params = Table.get? c.key others) :
    part.Covers others stop piece rest := by
  cases h with
  | literal _ loose => exact .literal _ loose _
  | missing hfront => exact .missing hfront
  | value hget hne hend => exact .value ((hsame _ rfl).symm.trans hget) hne hend
  | absent hget ho hfront => exact .absent ((hsame _ rfl).symm.trans hget) ho hfront
  | void hget ho hrest => exact .void ((hsame _ rfl).symm.trans hget) ho hrest

namespace Divides

theorem congr (h : Divides params parts pieces)
    (hsame : ∀ c, .capture c ∈ parts → Table.get? c.key params = Table.get? c.key others) :
    Divides others parts pieces := by
  induction h with
  | nil => exact .nil
  | cons hpart _ ih =>
    refine .cons (hpart.congr ?_) (ih fun c hc => hsame c (List.mem_cons_of_mem _ hc))
    rintro c rfl
    exact hsame c List.mem_cons_self

/-- Every capture holds one text that is not empty, or may be left out. -/
theorem cases_capture (h : Divides params parts pieces) {c : Capture} (hc : .capture c ∈ parts) :
    (∃ value, value ≠ [] ∧ Table.get? c.key params = some (c.holding value)) ∨
      Table.get? c.key params = none ∧ c.optional = true := by
  induction h with
  | nil => cases hc
  | cons hpart _ ih =>
    rcases List.mem_cons.mp hc with rfl | hc
    · cases hpart with
      | value hget hne _ => exact .inl ⟨_, hne, hget⟩
      | absent hget ho _ => exact .inr ⟨hget, ho⟩
      | void hget ho _ => exact .inr ⟨hget, ho⟩
    · exact ih hc

end Divides

/-- Values that do not belong to a capture leave the pieces of the other parts alone. -/
theorem get?_cons_of_fresh {c d : Capture} (captured : Captured) (hfresh : c.key ∉ partKeys parts)
    (hd : .capture d ∈ parts) : Table.get? d.key ((c.key, captured) :: params) = Table.get? d.key params := by
  have hne : c.key ≠ d.key := fun heq => hfresh (heq ▸ mem_partKeys hd)
  simp [Table.get?, hne]

theorem matchText_keys {text : Text} (hkeys : (partKeys parts).Nodup) (h : matchText parts text = some params) :
    (params.map (·.1)).Sublist (partKeys parts) :=
  ((shares_of_matchText h).given_captures hkeys).keys_sublist

theorem putAll_fresh {c : Capture} (captured : Captured) (hkeys : (c.key :: partKeys parts).Nodup)
    (hown : (params.map (·.1)).Sublist (partKeys parts)) :
    Table.putAll [(c.key, captured)] params = (c.key, captured) :: params := by
  obtain ⟨hfresh, hnodup⟩ := List.nodup_cons.mp hkeys
  refine Table.putAll_of_disjoint (hnodup.sublist hown) fun key hkey hmem => ?_
  obtain rfl : key = c.key := by simpa using hmem
  exact hfresh (hown.subset hkey)

theorem sublist_of_none {key : Key} {keys : List Key} (hown : (params.map (·.1)).Sublist (key :: keys))
    (hnone : Table.get? key params = none) : (params.map (·.1)).Sublist keys := by
  rcases List.sublist_cons_iff.mp hown with hlater | ⟨others, heq, -⟩
  · exact hlater
  · exact absurd (heq ▸ List.mem_cons_self) (Table.get?_eq_none_iff.mp hnone)

/-- Among values in the order of their captures, that of the first capture comes first. -/
theorem eq_cons_of_get? {key : Key} {keys : List Key} {captured : Captured} (hkeys : (key :: keys).Nodup)
    (hown : (params.map (·.1)).Sublist (key :: keys)) (hget : Table.get? key params = some captured) :
    ∃ others, params = (key, captured) :: others ∧ (others.map (·.1)).Sublist keys := by
  rcases List.sublist_cons_iff.mp hown with hlater | ⟨rest, hrest, hlater⟩
  · have hmem : key ∈ keys := hlater.subset (Table.mem_keys_of_get? hget)
    exact absurd hmem (List.nodup_cons.mp hkeys).1
  · obtain ⟨⟨first, value⟩, others, rfl, rfl, rfl⟩ := List.map_eq_cons_iff.mp hrest
    rw [Table.get?_cons_self] at hget
    exact ⟨others, by rw [Option.some.inj hget], hlater⟩

theorem matchText_nil_iff {text : Text} : matchText [] text = some params ↔ text = [] ∧ params = [] := by
  cases text <;> simp [matchText, eq_comm]

theorem matchText_literal_iff {literal text : Text} {loose : Bool} :
    matchText (.literal literal loose :: parts) text = some params ↔
      (∃ rest, text = literal ++ rest ∧ matchText parts rest = some params) ∨
      ¬ literal <+: text ∧ loose = true ∧ matchText parts text = some params := by
  rw [matchText]
  cases hafter : Text.after? literal text with
  | none =>
    have hfront := Text.after?_eq_none_iff.mp hafter
    have hnot : ∀ rest, text ≠ literal ++ rest := fun rest heq => hfront ⟨rest, heq.symm⟩
    cases loose <;> simp [hfront, hnot]
  | some rest =>
    obtain rfl := Text.after?_eq_some.mp hafter
    simp

/-- The ways in which a capture matches. What is left out may still have its lead, but nothing stands behind it. -/
theorem matchText_capture_iff {c : Capture} {text : Text} :
    matchText (.capture c :: parts) text = some params ↔
      (∃ value rest others, text = c.lead ++ (value ++ rest) ∧ value ≠ [] ∧
        EndsFirst (nextLeading parts) value rest ∧ matchText parts rest = some others ∧
        Table.putAll [(c.key, c.holding value)] others = params) ∨
      (¬ c.lead <+: text ∧ c.optional = true ∧ matchText parts text = some params) ∨
      text = c.lead ∧ c.optional = true ∧ matchText parts [] = some params := by
  constructor
  · intro h
    rw [matchText] at h
    cases hafter : Text.after? c.lead text with
    | none =>
      rw [hafter] at h
      obtain ⟨ho, h⟩ : c.optional = true ∧ matchText parts text = some params := by simpa using h
      exact .inr (.inl ⟨Text.after?_eq_none_iff.mp hafter, ho, h⟩)
    | some body =>
      obtain rfl := Text.after?_eq_some.mp hafter
      cases hcut : cutValue (nextLeading parts) body with
      | mk value rest =>
        obtain rfl := cutValue_eq hcut
        simp only [hafter, hcut] at h
        by_cases hvalue : value = []
        · subst hvalue
          -- no value is cut from nothing else
          have hrest : rest = [] := by
            by_contra hne
            exact cutValue_ne_nil hne (congrArg Prod.fst hcut)
          obtain ⟨ho, h⟩ : c.optional = true ∧ matchText parts rest = some params := by simpa using h
          exact .inr (.inr ⟨by simp [hrest], ho, hrest ▸ h⟩)
        · rw [if_neg (by simpa using hvalue)] at h
          obtain ⟨others, hothers, hput⟩ := Option.map_eq_some_iff.mp h
          exact .inl ⟨value, rest, others, rfl, hvalue, endsFirst_of_cutValue hcut, hothers, hput⟩
  · rintro (⟨value, rest, others, rfl, hvalue, hend, hothers, hput⟩ | ⟨hfront, ho, h⟩ | ⟨rfl, ho, h⟩)
    · have hempty : value.isEmpty = false := by simpa using hvalue
      rw [matchText, Text.after?_append]
      simp only [hend.cutValue hvalue, hempty, Bool.false_eq_true, if_false, hothers, Option.map_some]
      exact congrArg some hput
    · rw [matchText, Text.after?_eq_none_iff.mpr hfront]
      simp only [ho, if_true, h]
    · have hafter : Text.after? c.lead c.lead = some [] := Text.after?_eq_some.mpr (List.append_nil _).symm
      have hcut : cutValue (nextLeading parts) [] = ([], []) := cutValue_self (by simp)
      simp only [matchText, hafter, hcut, List.isEmpty_nil, ho, if_true, h]

theorem divides_of_matchText {text : Text} (hkeys : (partKeys parts).Nodup)
    (h : matchText parts text = some params) : ∃ pieces, pieces.flatten = text ∧ Divides params parts pieces := by
  induction parts generalizing text params with
  | nil =>
    obtain ⟨rfl, rfl⟩ := matchText_nil_iff.mp h
    exact ⟨[], rfl, .nil⟩
  | cons part parts ih =>
    cases part with
    | literal literal loose =>
      rcases matchText_literal_iff.mp h with ⟨rest, rfl, hrest⟩ | ⟨hfront, rfl, hrest⟩
      · obtain ⟨pieces, rfl, hpieces⟩ := ih hkeys hrest
        exact ⟨literal :: pieces, rfl, .cons (.literal literal loose _) hpieces⟩
      · obtain ⟨pieces, rfl, hpieces⟩ := ih hkeys hrest
        exact ⟨[] :: pieces, rfl, .cons (.missing hfront) hpieces⟩
    | capture c =>
      have hcons : (c.key :: partKeys parts).Nodup := hkeys
      obtain ⟨hfresh, hnodup⟩ := List.nodup_cons.mp hcons
      have hnone : ∀ {rest : Text}, matchText parts rest = some params → Table.get? c.key params = none :=
        fun hrest => Table.get?_eq_none_iff.mpr fun hmem => hfresh ((matchText_keys hnodup hrest).subset hmem)
      rcases matchText_capture_iff.mp h with
        ⟨value, rest, others, rfl, hvalue, hend, hothers, rfl⟩ | ⟨hfront, ho, hrest⟩ | ⟨rfl, ho, hrest⟩
      · rw [putAll_fresh _ hcons (matchText_keys hnodup hothers)]
        obtain ⟨pieces, rfl, hpieces⟩ := ih hnodup hothers
        refine ⟨(c.lead ++ value) :: pieces, by simp, .cons (.value (Table.get?_cons_self _ _ _) hvalue hend) ?_⟩
        exact hpieces.congr fun d hd => (get?_cons_of_fresh _ hfresh hd).symm
      · obtain ⟨pieces, rfl, hpieces⟩ := ih hnodup hrest
        exact ⟨[] :: pieces, rfl, .cons (.absent (hnone hrest) ho hfront) hpieces⟩
      · obtain ⟨pieces, hnil, hpieces⟩ := ih hnodup hrest
        exact ⟨c.lead :: pieces, by simp [hnil], .cons (.void (hnone hrest) ho hnil) hpieces⟩

theorem Divides.matchText (hkeys : (partKeys parts).Nodup) (h : Divides params parts pieces)
    (hown : (params.map (·.1)).Sublist (partKeys parts)) : matchText parts pieces.flatten = some params := by
  induction parts generalizing params pieces with
  | nil =>
    cases h
    exact matchText_nil_iff.mpr ⟨rfl, by simpa [partKeys] using hown⟩
  | cons part parts ih =>
    cases h with
    | @cons _ _ piece pieces hpart hrest =>
    cases hpart with
    | literal text loose =>
      have hmatch := ih hkeys hrest hown
      exact matchText_literal_iff.mpr (.inl ⟨_, rfl, hmatch⟩)
    | missing hfront =>
      have hmatch := ih hkeys hrest hown
      exact matchText_literal_iff.mpr (.inr ⟨hfront, rfl, hmatch⟩)
    | @value c value _ hget hne hend =>
      have hcons : (c.key :: partKeys parts).Nodup := hkeys
      obtain ⟨hfresh, hnodup⟩ := List.nodup_cons.mp hcons
      obtain ⟨others, rfl, hothers⟩ := eq_cons_of_get? hcons hown hget
      have hmatch := ih hnodup (hrest.congr fun d hd => get?_cons_of_fresh _ hfresh hd) hothers
      exact matchText_capture_iff.mpr
        (.inl ⟨value, _, others, by simp, hne, hend, hmatch, putAll_fresh _ hcons hothers⟩)
    | @absent c _ hget ho hfront =>
      have hmatch := ih (List.nodup_cons.mp hkeys).2 hrest (sublist_of_none hown hget)
      exact matchText_capture_iff.mpr (.inr (.inl ⟨hfront, ho, hmatch⟩))
    | @void c _ hget ho hnil =>
      have hmatch := ih (List.nodup_cons.mp hkeys).2 hrest (sublist_of_none hown hget)
      rw [hnil] at hmatch
      exact matchText_capture_iff.mpr (.inr (.inr ⟨by simp [hnil], ho, hmatch⟩))

theorem matchText_eq_some_iff {text : Text} (hkeys : (partKeys parts).Nodup) :
    matchText parts text = some params ↔
      (params.map (·.1)).Sublist (partKeys parts) ∧
        ∃ pieces, pieces.flatten = text ∧ Divides params parts pieces := by
  constructor
  · exact fun h => ⟨matchText_keys hkeys h, divides_of_matchText hkeys h⟩
  · rintro ⟨hown, pieces, rfl, hpieces⟩
    exact hpieces.matchText hkeys hown

end

/-- A text is matched just where it is divided among the parts. Then each capture that may not be left out has a
value, and all values are those of captures: a text that is not empty, alone in a list where the capture repeats. -/
theorem matchText_divides {parts : List Part} (hkeys : (partKeys parts).Nodup) (text : Text) (params : Params) :
    (matchText parts text = some params ↔
      (params.map (·.1)).Sublist (partKeys parts) ∧
        ∃ pieces, pieces.flatten = text ∧ Divides params parts pieces) ∧
    (matchText parts text = some params →
      (∀ c, .capture c ∈ parts → c.optional = false →
        ∃ value, value ≠ [] ∧ Table.get? c.key params = some (c.holding value)) ∧
      ∀ e ∈ params, ∃ c value, .capture c ∈ parts ∧ c.key = e.1 ∧ value ≠ [] ∧ e.2 = c.holding value) := by
  refine ⟨matchText_eq_some_iff hkeys, fun h => ?_⟩
  obtain ⟨hown, pieces, -, hpieces⟩ := (matchText_eq_some_iff hkeys).mp h
  refine ⟨fun c hc ho => ?_, fun e he => ?_⟩
  · rcases hpieces.cases_capture hc with hvalue | ⟨-, hoptional⟩
    · exact hvalue
    · simp [ho] at hoptional
  · obtain ⟨c, hc, hkey⟩ := List.mem_map.mp (hown.subset (List.mem_map_of_mem he))
    have hc := mem_filterMap_capture?.mp hc
    have hget : Table.get? c.key params = some e.2 := by
      rw [hkey]
      exact Table.get?_of_mem (hkeys.sublist hown) he
    rcases hpieces.cases_capture hc with ⟨value, hne, hvalue⟩ | ⟨hnone, -⟩
    · exact ⟨c, value, hc, hkey, hne, Option.some.inj (hget.symm.trans hvalue)⟩
    · simp [hnone] at hget

/-- A point is the first character of a value here, where the search for the next point does not look. -/
theorem matchText_divides_version :
    let major : Capture := ⟨.name "major".toList, [], false, false⟩
    let minor : Capture := ⟨.name "minor".toList, ".".toList, true, false⟩
    let build : Capture := ⟨.index 0, "+".toList, true, true⟩
    let parts : List Part :=
      [.literal "v".toList false, .capture major, .capture minor, .literal "-rc".toList true, .capture build]
    let params : Params :=
      [(major.key, .one ".".toList), (minor.key, .one "2".toList), (build.key, .many ["b".toList])]
    ∃ pieces, pieces.flatten = "v..2-rc+b".toList ∧ Divides params parts pieces := by
  intro major minor build parts params
  exact (((matchText_divides (by decide) "v..2-rc+b".toList params).1).mp (by decide)).2

end RoutePattern
