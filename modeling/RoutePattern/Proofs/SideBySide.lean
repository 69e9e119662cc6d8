import RoutePattern.Proofs.Escape
import RoutePattern.Proofs.Lossless
import RoutePattern.Proofs.RoundTrip

/-!
Captures in a row, of which some are left out. A capture ends only where the one right behind it would begin, so
that captures take what they wrote just where those with a value stand side by side, and none that was left out
before them can take the lead of the first one.
-/

namespace RoutePattern

theorem prefix_of_prefix_append {start lead value rest : Text} (hne : value ≠ [])
    (hforeign : ∀ x ∈ value, x ∉ start) (h : start <+: lead ++ value ++ rest) : start <+: lead := by
  rw [List.append_assoc] at h
  rcases List.prefix_or_prefix_of_prefix h (List.prefix_append lead _) with hp | ⟨more, rfl⟩
  · exact hp
  · obtain ⟨x, others, rfl⟩ := List.exists_cons_of_ne_nil hne
    cases more with
    | nil => simp
    | cons y more =>
      obtain ⟨rfl, -⟩ : y = x ∧ _ := by
        simpa [List.cons_prefix_cons] using (List.prefix_append_right_inj lead).mp h
      exact absurd (by simp) (hforeign y (by simp))

theorem endsBefore_of_foreign {value stop : Text} (hstop : stop ≠ [])
    (hforeign : ∀ x ∈ value, x ∉ stop) : EndsBefore value stop := by
  refine ⟨hstop, fun i hi _ hp => ?_⟩
  obtain ⟨c, more, rfl⟩ := List.exists_cons_of_ne_nil hstop
  rw [List.drop_append_of_le_length hi.le, List.drop_eq_getElem_cons hi, List.cons_append,
    List.cons_prefix_cons] at hp
  exact hforeign value[i] (List.getElem_mem hi) (by simp [hp.1])

theorem cutValue_self {value stop : Text} (hforeign : ∀ x ∈ value, x ∉ stop) :
    cutValue stop value = (value, []) := by
  by_cases hstop : stop = []
  · simp [cutValue, hstop]
  · have hnone : Text.indexOf stop (value.drop 1) = none := by
      refine (Text.indexOf_eq_none_iff hstop).mpr fun hwithin => ?_
      obtain ⟨c, more, rfl⟩ := List.exists_cons_of_ne_nil hstop
      exact hforeign c (List.mem_of_mem_drop (hwithin.subset (by simp))) (by simp)
    rw [cutValue, if_neg (by simpa using hstop), hnone]

theorem cutValue_ne_nil {stop text : Text} (h : text ≠ []) : (cutValue stop text).1 ≠ [] := by
  unfold cutValue
  split
  · exact h
  · split
    · simpa using h
    · exact h

/-- A value ends before what follows it just where nothing follows, or what ends it. -/
theorem cutValue_append_eq_iff {value stop rest : Text} (hne : value ≠ [])
    (hforeign : ∀ x ∈ value, x ∉ stop) (hstop : stop = [] → rest = []) :
    cutValue stop (value ++ rest) = (value, rest) ↔ rest = [] ∨ stop <+: rest := by
  constructor
  · intro h
    unfold cutValue at h
    split at h
    next hempty => exact .inl (hstop (List.isEmpty_iff.mp hempty))
    next hempty =>
      split at h
      next i hi =>
        obtain ⟨-, hrest⟩ := Prod.mk.inj h
        have hbegin := (Text.indexOf_eq_some (by simpa using hempty) hi).1
        rw [List.drop_drop, Nat.add_comm 1 i, hrest] at hbegin
        exact .inr hbegin
      next => exact .inl (Prod.mk.inj h).2.symm
  · rintro (rfl | ⟨more, rfl⟩)
    · rw [List.append_nil, cutValue_self hforeign]
    · by_cases hnil : stop = []
      · obtain rfl : more = [] := by simpa [hnil] using hstop hnil
        rw [List.append_nil, hnil, List.append_nil, cutValue_self (by simp)]
      · exact cutValue_append more hne (endsBefore_of_foreign hnil hforeign)

/-- What captures in a row write into a segment. -/
def writtenBy (params : Params) (cs : List Capture) : Text :=
  (cs.map Part.capture).flatMap (Part.text params)

/-- Captures that share a segment, each with a value of one text or left out. No character of a value stands
in a lead, and none of the captures but the first, if that has a value, is without a lead. -/
structure Spread (params : Params) (cs : List Capture) : Prop where
  keys : (cs.map Capture.key).Nodup
  single : ∀ c ∈ cs, c.multiple = false
  values : ∀ c ∈ cs, (Table.get? c.key params = none ∧ c.optional = true ∧ c.lead ≠ []) ∨
    ∃ t, Table.get? c.key params = some (.one t) ∧ t ≠ [] ∧ ∀ d ∈ cs, ∀ x ∈ t, x ∉ d.lead
  leads : ∀ c ∈ cs.tail, c.lead ≠ []

/-- The captures that are given a value stand side by side, and none that was left out before them has a lead
with which the lead of the first one begins. -/
def SideBySide (params : Params) (cs : List Capture) : Prop :=
  ∃ before block after, cs = before ++ block ++ after ∧
    (∀ c ∈ before ++ after, Table.get? c.key params = none) ∧
    (∀ c ∈ block, (Table.get? c.key params).isSome) ∧
    ∀ c ∈ before, ∀ d ∈ block.head?, ¬ c.lead <+: d.lead

section

variable {params : Params} {c : Capture} {cs : List Capture}

theorem writtenBy_cons : writtenBy params (c :: cs) = (Part.capture c).text params ++ writtenBy params cs :=
  rfl

theorem writtenBy_append (front back : List Capture) :
    writtenBy params (front ++ back) = writtenBy params front ++ writtenBy params back := by
  simp [writtenBy]

theorem text_of_get?_none (h : Table.get? c.key params = none) : (Part.capture c).text params = [] := by
  simp [Part.text, h]

theorem writtenBy_of_absent (h : ∀ c ∈ cs, Table.get? c.key params = none) : writtenBy params cs = [] := by
  refine List.flatMap_eq_nil_iff.mpr fun part hpart => ?_
  obtain ⟨c, hc, rfl⟩ := List.mem_map.mp hpart
  exact text_of_get?_none (h c hc)

theorem writtenBy_block {before block after : List Capture}
    (habsent : ∀ c ∈ before ++ after, Table.get? c.key params = none) :
    writtenBy params (before ++ block ++ after) = writtenBy params block := by
  obtain ⟨hbefore, hafter⟩ := List.forall_mem_append.mp habsent
  rw [writtenBy_append, writtenBy_append, writtenBy_of_absent hbefore, writtenBy_of_absent hafter,
    List.nil_append, List.append_nil]

namespace Spread

theorem tail (h : Spread params (c :: cs)) : Spread params cs where
  keys := (List.nodup_cons.mp h.keys).2
  single := fun d hd => h.single d (List.mem_cons_of_mem _ hd)
  values := fun d hd => (h.values d (List.mem_cons_of_mem _ hd)).imp_right fun ⟨t, hget, hne, hforeign⟩ =>
    ⟨t, hget, hne, fun e he => hforeign e (List.mem_cons_of_mem _ he)⟩
  leads := fun d hd => h.leads d (List.mem_of_mem_tail hd)

theorem of_none (h : Spread params cs) (hc : c ∈ cs) (hnone : Table.get? c.key params = none) :
    c.optional = true ∧ c.lead ≠ [] := by
  rcases h.values c hc with ⟨-, hboth⟩ | ⟨t, hget, -⟩
  · exact hboth
  · simp [hnone] at hget

theorem of_isSome (h : Spread params cs) (hc : c ∈ cs) (hsome : (Table.get? c.key params).isSome) :
    ∃ t, Table.get? c.key params = some (.one t) ∧ t ≠ [] ∧ ∀ d ∈ cs, ∀ x ∈ t, x ∉ d.lead := by
  rcases h.values c hc with ⟨hnone, -⟩ | hvalue
  · simp [hnone] at hsome
  · exact hvalue

theorem answer_of_none (h : Spread params (c :: cs)) (hnone : Table.get? c.key params = none) :
    (Part.capture c).answer params = [] := by
  simp [Part.answer, hnone, h.single c (by simp)]

/-- What a row writes begins with the lead of its first capture, if that is given a value, and then nothing
but a part of the lead can stand before it. -/
theorem prefix_writtenBy_iff {d : Capture} (h : Spread params cs) (hc : c ∈ cs) (hd : d ∈ cs)
    (hgiven : (Table.get? d.key params).isSome) (rest : List Capture) :
    c.lead <+: writtenBy params (d :: rest) ↔ c.lead <+: d.lead := by
  obtain ⟨t, hget, hne, hforeign⟩ := h.of_isSome hd hgiven
  rw [writtenBy_cons, text_of_value hget]
  refine ⟨prefix_of_prefix_append hne (hforeign c hc), fun hp => ?_⟩
  rw [List.append_assoc]
  exact hp.trans (List.prefix_append _ _)

theorem writtenBy_ne_nil {d : Capture} (h : Spread params cs) (hd : d ∈ cs)
    (hgiven : (Table.get? d.key params).isSome) (rest : List Capture) : writtenBy params (d :: rest) ≠ [] := by
  obtain ⟨t, hget, hne, -⟩ := h.of_isSome hd hgiven
  simp [writtenBy_cons, text_of_value hget, hne]

end Spread

theorem sideBySide_cons_of_none (h : Spread params (c :: cs)) (hnone : Table.get? c.key params = none) :
    SideBySide params (c :: cs) ↔ ¬ c.lead <+: writtenBy params cs ∧ SideBySide params cs := by
  obtain ⟨-, hlead⟩ := h.of_none (by simp) hnone
  constructor
  · rintro ⟨before, block, after, hcs, habsent, hgiven, hleads⟩
    cases before with
    | nil =>
      obtain rfl : block = [] := by
        cases block with
        | nil => rfl
        | cons d block =>
          obtain ⟨rfl, -⟩ : c = d ∧ _ := by simpa using hcs
          simpa [hnone] using hgiven c (by simp)
      obtain rfl : c :: cs = after := by simpa using hcs
      have hcs : ∀ d ∈ cs, Table.get? d.key params = none := fun d hd => habsent d (by simp [hd])
      refine ⟨?_, [], [], cs, rfl, by simpa using hcs, by simp, by simp⟩
      rw [writtenBy_of_absent hcs]
      simpa using hlead
    | cons e before =>
      obtain ⟨rfl, rfl⟩ : c = e ∧ cs = before ++ block ++ after := by simpa using hcs
      obtain ⟨-, habsent⟩ := List.forall_mem_cons.mp habsent
      refine ⟨?_, before, block, after, rfl, habsent, hgiven,
        fun d hd => hleads d (List.mem_cons_of_mem _ hd)⟩
      rw [writtenBy_block habsent]
      cases block with
      | nil => simpa [writtenBy] using hlead
      | cons d block =>
        rw [h.prefix_writtenBy_iff (by simp) (by simp) (hgiven d (by simp))]
        exact hleads c (by simp) d (by simp)
  · rintro ⟨hp, before, block, after, rfl, habsent, hgiven, hleads⟩
    refine ⟨c :: before, block, after, rfl, ?_, hgiven, List.forall_mem_cons.mpr ⟨?_, hleads⟩⟩
    · exact List.forall_mem_cons.mpr ⟨hnone, habsent⟩
    · intro d hd hlead
      obtain ⟨block, rfl⟩ := List.head?_eq_some_iff.mp hd
      refine hp ?_
      rw [writtenBy_block habsent]
      exact (h.prefix_writtenBy_iff (by simp) (by simp) (hgiven d (by simp)) block).mpr hlead

theorem sideBySide_cons_of_isSome (h : Spread params (c :: cs)) (hsome : (Table.get? c.key params).isSome) :
    SideBySide params (c :: cs) ↔
      (writtenBy params cs = [] ∨ nextLeading (cs.map .capture) <+: writtenBy params cs) ∧
        SideBySide params cs := by
  have hnotNone : Table.get? c.key params ≠ none := Option.isSome_iff_ne_none.mp hsome
  constructor
  · rintro ⟨before, block, after, hcs, habsent, hgiven, -⟩
    obtain rfl : before = [] := by
      cases before with
      | nil => rfl
      | cons e before =>
        obtain ⟨rfl, -⟩ : c = e ∧ _ := by simpa using hcs
        exact absurd (habsent c (by simp)) hnotNone
    cases block with
    | nil =>
      obtain rfl : c :: cs = after := by simpa using hcs
      exact absurd (habsent c (by simp)) hnotNone
    | cons e block =>
      obtain ⟨rfl, rfl⟩ : c = e ∧ cs = [] ++ block ++ after := by simpa using hcs
      refine ⟨?_, [], block, after, rfl, habsent, fun d hd => hgiven d (List.mem_cons_of_mem _ hd), by simp⟩
      rw [writtenBy_block habsent]
      cases block with
      | nil => exact .inl rfl
      | cons d block =>
        refine .inr ?_
        exact (h.prefix_writtenBy_iff (by simp) (by simp) (hgiven d (by simp)) block).mpr List.prefix_rfl
  · rintro ⟨hnext, before, block, after, rfl, habsent, hgiven, hleads⟩
    rw [writtenBy_block habsent] at hnext
    cases block with
    | nil =>
      refine ⟨[], [c], before ++ after, by simp, by simpa using habsent, by simpa using hsome, by simp⟩
    | cons d block =>
      have hd := hgiven d (by simp)
      have hnext := hnext.resolve_left (h.writtenBy_ne_nil (by simp) hd block)
      obtain rfl : before = [] := by
        cases before with
        | nil => rfl
        | cons e before =>
          refine absurd ?_ (hleads e (by simp) d (by simp))
          exact (h.prefix_writtenBy_iff (by simp) (by simp) hd block).mp hnext
      exact ⟨[], c :: d :: block, after, rfl, habsent, List.forall_mem_cons.mpr ⟨hsome, hgiven⟩, by simp⟩

end

theorem captured_false (parts : List Part) :
    parts.flatMap (Part.captured false) = parts.filterMap Part.capture? := by
  induction parts with
  | nil => rfl
  | cons part rest ih =>
    rw [List.flatMap_cons, ih]
    cases part with
    | literal _ _ => rfl
    | capture c => simp [Part.captured, Part.capture?]

theorem mem_filterMap_capture? {parts : List Part} {c : Capture} :
    c ∈ parts.filterMap Part.capture? ↔ .capture c ∈ parts := by
  rw [List.mem_filterMap]
  constructor
  · rintro ⟨part, hpart, hcapture⟩
    cases part with
    | literal _ _ => cases hcapture
    | capture d => exact Option.some.inj hcapture ▸ hpart
  · exact fun hc => ⟨_, hc, rfl⟩

theorem capture?_captures (cs : List Capture) : (cs.map Part.capture).filterMap Part.capture? = cs := by
  simp [List.filterMap_map, Function.comp_def, Part.capture?]

theorem Shares.given_captures {parts : List Part} {text : Text} {params : Params} (h : Shares parts text params)
    (hkeys : ((parts.filterMap Part.capture?).map Capture.key).Nodup) :
    Given (parts.filterMap Part.capture?) params := by
  rw [← captured_false] at hkeys ⊢
  exact h.given false hkeys

theorem Given.putAll_value {c : Capture} {cs : List Capture} {params : Params} (value : Captured)
    (h : Given cs params) (hkeys : ((c :: cs).map Capture.key).Nodup) :
    Table.putAll [(c.key, value)] params = (c.key, value) :: params := by
  obtain ⟨hfresh, hnodup⟩ := List.nodup_cons.mp hkeys
  refine Table.putAll_of_disjoint (h.nodup_keys hnodup) fun key hkey hmem => ?_
  obtain rfl : key = c.key := by simpa using hmem
  exact hfresh (h.keys_sublist.subset hkey)

/-- A match takes at least what is written for the values that it gives: beyond that a lead without a value
behind it may be taken. -/
theorem Shares.length_written_le {full params : Params} {parts : List Part} {text : Text}
    (h : Shares parts text params) (hsound : ∀ part ∈ parts, part.Sound)
    (hkeys : ((parts.filterMap Part.capture?).map Capture.key).Nodup)
    (hfull : ∀ c ∈ parts.filterMap Part.capture?, Table.get? c.key full = Table.get? c.key params) :
    (parts.flatMap (Part.text full)).length ≤ text.length := by
  induction h with
  | done => simp
  | @literal rest text params literal loose _ ih =>
    have hrest := ih (List.forall_mem_cons.mp hsound).2 hkeys hfull
    simpa [Part.text] using hrest
  | missing =>
    obtain ⟨hliteral, -⟩ := List.forall_mem_cons.mp hsound
    cases hliteral.2
  | @absent c rest text params ho hshares ih =>
    obtain ⟨hfresh, hrest⟩ := List.nodup_cons.mp hkeys
    obtain ⟨hown, hfull⟩ := List.forall_mem_cons.mp hfull
    rw [(hshares.given_captures hrest).get?_eq_none hfresh] at hown
    have hothers := ih (List.forall_mem_cons.mp hsound).2 hrest hfull
    simpa [text_of_get?_none hown] using hothers
  | @void c rest text params ho hshares ih =>
    obtain ⟨hfresh, hrest⟩ := List.nodup_cons.mp hkeys
    obtain ⟨hown, hfull⟩ := List.forall_mem_cons.mp hfull
    rw [(hshares.given_captures hrest).get?_eq_none hfresh] at hown
    have hothers := ih (List.forall_mem_cons.mp hsound).2 hrest hfull
    rw [List.flatMap_cons, text_of_get?_none hown, List.nil_append, List.length_append]
    omega
  | @taken c rest value text params hne hshares ih =>
    obtain ⟨hfresh, hrest⟩ := List.nodup_cons.mp hkeys
    rw [(hshares.given_captures hrest).putAll_value _ hkeys] at hfull
    obtain ⟨hown, hfull⟩ := List.forall_mem_cons.mp hfull
    have htext : (Part.capture c).text full = c.lead ++ value := by
      rw [Table.get?_cons_self] at hown
      rw [Part.text_of_get? hown]
      · split <;> simp [Captured.texts, Text.join]
      · split <;> simp [Captured.texts]
    have hothers := ih (List.forall_mem_cons.mp hsound).2 hrest fun d hd => by
      have hne : c.key ≠ d.key := fun heq => hfresh (heq ▸ List.mem_map_of_mem hd)
      rw [hfull d hd, Table.get?, if_neg (by simpa using hne)]
    rw [List.flatMap_cons, htext]
    simp only [List.length_append]
    omega

/-- What the captures are given back. -/
def answersOf (params : Params) (cs : List Capture) : Params :=
  cs.flatMap fun c => (Part.capture c).answer params

section

variable {params : Params} {c : Capture} {cs : List Capture}

theorem get?_answersOf_of_notMem {key : Key} (hfresh : key ∉ cs.map Capture.key) :
    Table.get? key (answersOf params cs) = none :=
  get?_flatMap_of_notMem (key_of_mem_answer params) hfresh

theorem Spread.get?_answersOf (h : Spread params cs) (hc : c ∈ cs) :
    Table.get? c.key (answersOf params cs) = Table.get? c.key params := by
  rw [answersOf, get?_flatMap (key_of_mem_answer params) h.keys hc, Part.answer]
  cases Table.get? c.key params with
  | none => simp [h.single c hc, Table.get?]
  | some captured => simp

/-- Whoever is given back the values that captures were given is given these answers. -/
theorem Spread.eq_answersOf {result : Params} (h : Spread params cs) (hgiven : Given cs result)
    (hget : ∀ key, Table.get? key result = Table.get? key params) : result = answersOf params cs := by
  rw [hgiven.eq_flatMap h.keys, answersOf]
  refine List.flatMap_congr fun c hc => ?_
  rw [hget, Part.answer]
  cases Table.get? c.key params with
  | none => simp [h.single c hc]
  | some captured => rfl

theorem Spread.length_le {text : Text} (h : Spread params cs)
    (hmatch : matchText (cs.map .capture) text = some (answersOf params cs)) :
    (writtenBy params cs).length ≤ text.length := by
  refine (shares_of_matchText hmatch).length_written_le ?_ ?_ ?_
  · simp [Part.Sound]
  · rw [capture?_captures]
    exact h.keys
  · rw [capture?_captures]
    exact fun d hd => (h.get?_answersOf hd).symm

/-- A capture without a value is passed over just where its lead is not in front. -/
theorem matchText_iff_of_none (h : Spread params (c :: cs)) (hnone : Table.get? c.key params = none) :
    matchText ((c :: cs).map .capture) (writtenBy params (c :: cs)) = some (answersOf params (c :: cs)) ↔
      ¬ c.lead <+: writtenBy params cs ∧
        matchText (cs.map .capture) (writtenBy params cs) = some (answersOf params cs) := by
  obtain ⟨ho, hlead⟩ := h.of_none (by simp) hnone
  have hanswers : answersOf params (c :: cs) = answersOf params cs := by
    rw [answersOf, List.flatMap_cons, h.answer_of_none hnone]
    rfl
  rw [writtenBy_cons, text_of_get?_none hnone, List.nil_append, hanswers, List.map_cons]
  by_cases hp : c.lead <+: writtenBy params cs
  · refine iff_of_false (fun hmatch => ?_) fun hboth => hboth.1 hp
    obtain ⟨body, hbody⟩ := hp
    rw [← hbody, matchText, Text.after?_append] at hmatch
    simp only at hmatch
    split at hmatch
    next hvalue =>
      -- without the lead the text is too short for the captures behind it
      have hlength := h.tail.length_le hmatch
      have hcut := congrArg List.length
        (cutValue_eq (Prod.eta (cutValue (nextLeading (cs.map .capture)) body)).symm)
      have hpos := List.length_pos_iff.mpr hlead
      rw [← hbody, List.length_append] at hlength
      rw [List.length_append] at hcut
      omega
    next =>
      obtain ⟨others, -, heq⟩ := Option.map_eq_some_iff.mp hmatch
      have hnone : Table.get? c.key (answersOf params cs) = none :=
        get?_answersOf_of_notMem (List.nodup_cons.mp h.keys).1
      refine Table.get?_eq_none_iff.mp hnone ?_
      rw [← heq]
      exact Table.mem_keys_putAll.mpr (.inl (by simp))
  · have hafter : Text.after? c.lead (writtenBy params cs) = none := by
      rw [Text.after?, if_neg (by simpa using hp)]
    rw [matchText, hafter]
    simp [hp, ho]

/-- A value ends just where nothing follows it, or the lead of the next capture. -/
theorem matchText_iff_of_isSome (h : Spread params (c :: cs)) (hsome : (Table.get? c.key params).isSome) :
    matchText ((c :: cs).map .capture) (writtenBy params (c :: cs)) = some (answersOf params (c :: cs)) ↔
      (writtenBy params cs = [] ∨ nextLeading (cs.map .capture) <+: writtenBy params cs) ∧
        matchText (cs.map .capture) (writtenBy params cs) = some (answersOf params cs) := by
  obtain ⟨t, hget, hne, hforeign⟩ := h.of_isSome (by simp) hsome
  have hanswers : answersOf params (c :: cs) = (c.key, .one t) :: answersOf params cs := by
    simp [answersOf, Part.answer, hget]
  have hstop : (nextLeading (cs.map .capture) = [] → writtenBy params cs = []) ∧
      ∀ x ∈ t, x ∉ nextLeading (cs.map .capture) := by
    cases cs with
    | nil => simp [nextLeading, writtenBy]
    | cons d rest => exact ⟨fun hnil => absurd hnil (h.leads d (by simp)), hforeign d (by simp)⟩
  have hbody : t ++ writtenBy params cs ≠ [] := by simp [hne]
  have hgiven : ∀ {others : Params} {rest : Text}, matchText (cs.map .capture) rest = some others →
      Given cs others := fun hrest => by
    have hgiven := (shares_of_matchText hrest).given_captures (by
      rw [capture?_captures]
      exact h.tail.keys)
    rwa [capture?_captures] at hgiven
  rw [← cutValue_append_eq_iff hne hstop.2 hstop.1, writtenBy_cons, text_of_value hget, hanswers, List.map_cons,
    List.append_assoc, matchText, Text.after?_append]
  cases hcut : cutValue (nextLeading (cs.map .capture)) (t ++ writtenBy params cs) with
  | mk value rest =>
    have hvalue : value.isEmpty = false := by
      have hvalue : (cutValue (nextLeading (cs.map .capture)) (t ++ writtenBy params cs)).1 ≠ [] :=
        cutValue_ne_nil hbody
      simpa [hcut] using hvalue
    simp only [hcut, hvalue, h.single c (by simp), Bool.false_eq_true, if_false]
    constructor
    · intro hmatch
      obtain ⟨others, hothers, heq⟩ := Option.map_eq_some_iff.mp hmatch
      rw [(hgiven hothers).putAll_value _ h.keys] at heq
      obtain ⟨hfirst, rfl⟩ := List.cons.inj heq
      obtain rfl : value = t := by simpa using hfirst
      obtain rfl := List.append_cancel_left (cutValue_eq hcut)
      exact ⟨rfl, hothers⟩
    · rintro ⟨heq, hmatch⟩
      obtain ⟨rfl, rfl⟩ := Prod.mk.inj heq
      rw [hmatch, Option.map_some, (hgiven hmatch).putAll_value _ h.keys]

end

/-- Captures take what they wrote just where those with a value stand side by side. -/
theorem matchText_iff_sideBySide {params : Params} {cs : List Capture} (h : Spread params cs) :
    matchText (cs.map .capture) (writtenBy params cs) = some (answersOf params cs) ↔ SideBySide params cs := by
  induction cs with
  | nil => exact iff_of_true rfl ⟨[], [], [], rfl, by simp, by simp, by simp⟩
  | cons c rest ih =>
    cases hget : Table.get? c.key params with
    | none => rw [matchText_iff_of_none h hget, sideBySide_cons_of_none h hget, ih h.tail]
    | some captured =>
      have hsome : (Table.get? c.key params).isSome := by simp [hget]
      rw [matchText_iff_of_isSome h hsome, sideBySide_cons_of_isSome h hsome, ih h.tail]

end RoutePattern
