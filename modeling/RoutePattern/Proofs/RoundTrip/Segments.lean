import RoutePattern.Proofs.Cursors
import RoutePattern.Proofs.RoundTrip.Parameters

/-!
Matching what the parts of a segment wrote: a segment gives back the values of its captures and leaves
the cursor behind what it wrote.
-/

namespace RoutePattern

theorem Text.indexOf_of_first {needle text : Text} {i : Nat} (hne : needle ≠ [])
    (h : needle <+: text.drop i) (hfirst : ∀ j < i, ¬ needle <+: text.drop j) :
    Text.indexOf needle text = some i := by
  induction text generalizing i with
  | nil =>
    have : needle = [] := by simpa using h
    contradiction
  | cons c rest ih =>
    cases i with
    | zero =>
      have hp : needle.isPrefixOf (c :: rest) = true := List.isPrefixOf_iff_prefix.mpr h
      rw [Text.indexOf, if_pos hp]
    | succ i =>
      have hp : needle.isPrefixOf (c :: rest) = false := by
        rw [← Bool.not_eq_true]
        exact fun hp => hfirst 0 (by omega) (List.isPrefixOf_iff_prefix.mp hp)
      have hrest := ih (i := i) h fun j hj => hfirst (j + 1) (by omega)
      rw [Text.indexOf, if_neg (by simp [hp]), hrest]
      rfl

/-- The text that follows a value occurs nowhere behind the first character of the value before the
value ends. -/
def EndsBefore (value stop : Text) : Prop :=
  stop ≠ [] ∧ ∀ i < value.length, 0 < i → ¬ stop <+: (value ++ stop).drop i

instance (value stop : Text) : Decidable (EndsBefore value stop) :=
  inferInstanceAs (Decidable (_ ∧ _))

/-- The value of every capture ends where the next part begins. -/
def Delimited (params : Params) : List Part → Prop
  | .capture c :: next :: rest =>
    (∀ captured ∈ Table.get? c.key params, ∀ value ∈ captured.texts, EndsBefore value next.leading) ∧
      Delimited params (next :: rest)
  | _ :: rest => Delimited params rest
  | [] => True

instance decidableDelimited (params : Params) : (parts : List Part) → Decidable (Delimited params parts)
  | [] => isTrue trivial
  | .literal _ _ :: rest => decidableDelimited params rest
  | [.capture _] => isTrue trivial
  | .capture c :: next :: rest =>
    have := decidableDelimited params (next :: rest)
    inferInstanceAs (Decidable ((∀ captured ∈ Table.get? c.key params, ∀ value ∈ captured.texts,
      EndsBefore value next.leading) ∧ Delimited params (next :: rest)))

theorem Delimited.tail {params : Params} {part : Part} {rest : List Part}
    (h : Delimited params (part :: rest)) : Delimited params rest := by
  match part, rest with
  | .literal _ _, _ => exact h
  | .capture _, [] => trivial
  | .capture _, _ :: _ => exact h.2

theorem cutValue_append {value stop : Text} (more : Text) (hvalue : value ≠ [])
    (h : EndsBefore value stop) :
    cutValue stop (value ++ (stop ++ more)) = (value, stop ++ more) := by
  obtain ⟨hstop, hfirst⟩ := h
  obtain ⟨c, rest, rfl⟩ := List.exists_cons_of_ne_nil hvalue
  have hindex : Text.indexOf stop ((c :: rest ++ (stop ++ more)).drop 1) = some rest.length := by
    refine Text.indexOf_of_first hstop ?_ ?_
    · simp
    · intro j hj hp
      refine hfirst (j + 1) (by simpa using hj) (by omega) ?_
      have hdrop : (c :: rest ++ (stop ++ more)).drop (j + 1) =
          (c :: rest ++ stop).drop (j + 1) ++ more := by
        rw [← List.append_assoc, List.drop_append_of_le_length]
        simp only [List.length_append, List.length_cons]
        omega
      rw [List.drop_drop, Nat.add_comm 1 j, hdrop] at hp
      refine List.prefix_of_prefix_length_le hp (List.prefix_append _ more) ?_
      simp only [List.length_drop, List.length_append, List.length_cons]
      omega
  have hempty : stop.isEmpty = false := by simpa using hstop
  rw [cutValue, if_neg (by simp [hempty]), hindex]
  simp

/-- Parts of a segment that was read: fixed ones, which fit the parameters. -/
structure FixedParts (params : Params) (parts : List Part) : Prop where
  isFixed : ∀ part ∈ parts, part.IsFixed
  fits : ∀ part ∈ parts, part.Fits params
  sound : ∀ part ∈ parts, part.Sound

theorem FixedParts.tail {params : Params} {part : Part} {rest : List Part}
    (h : FixedParts params (part :: rest)) : FixedParts params rest :=
  ⟨fun q hq => h.isFixed q (List.mem_cons_of_mem _ hq), fun q hq => h.fits q (List.mem_cons_of_mem _ hq),
    fun q hq => h.sound q (List.mem_cons_of_mem _ hq)⟩

theorem value_of_isFixed {params : Params} {c : Capture} (hf : (Part.capture c).IsFixed)
    (h : (Part.capture c).Fits params) : ∃ t, t ≠ [] ∧ Table.get? c.key params = some (.one t) := by
  obtain ⟨ho, hm⟩ := hf
  have hfits : c.Fits (Table.get? c.key params) := h
  rcases hfits.cases with ⟨-, hoptional⟩ | ⟨t, hg, -, hne⟩ | ⟨ts, -, hrepeated, -, -⟩
  · simp [ho] at hoptional
  · exact ⟨t, hne, hg⟩
  · simp [hm] at hrepeated

theorem leading_prefix_text {params : Params} {part : Part} (hf : part.IsFixed) (h : part.Fits params) :
    part.leading <+: part.text params := by
  cases part with
  | literal text _ => exact List.prefix_rfl
  | capture c =>
    obtain ⟨t, -, hg⟩ := value_of_isFixed hf h
    rw [text_of_value hg]
    exact List.prefix_append c.lead t

theorem text_ne_nil {params : Params} {part : Part} (hf : part.IsFixed) (h : part.Fits params)
    (hs : part.Sound) : part.text params ≠ [] := by
  cases part with
  | literal text _ => exact hs.1
  | capture c =>
    obtain ⟨t, hne, hg⟩ := value_of_isFixed hf h
    rw [text_of_value hg]
    simp [hne]

/-- Parts that share a segment take apart what they wrote. -/
theorem matchText_eq {params : Params} {parts : List Part} (h : FixedParts params parts)
    (hd : Delimited params parts) (hkeys : ((parts.flatMap (Part.answer params)).map (·.1)).Nodup) :
    matchText parts (parts.flatMap (Part.text params)) = some (parts.flatMap (Part.answer params)) := by
  induction parts with
  | nil => rfl
  | cons part rest ih =>
    have hrest := ih h.tail hd.tail (by
      rw [List.flatMap_cons, List.map_append] at hkeys
      exact (List.nodup_append.mp hkeys).2.1)
    rw [List.flatMap_cons, List.flatMap_cons]
    cases part with
    | literal text optional =>
      show matchText (.literal text optional :: rest) (text ++ rest.flatMap (Part.text params)) = _
      rw [matchText, Text.after?_append]
      exact hrest
    | capture c =>
      obtain ⟨t, hne, hg⟩ :=
        value_of_isFixed (h.isFixed _ List.mem_cons_self) (h.fits _ List.mem_cons_self)
      have hm : c.multiple = false := (h.isFixed _ List.mem_cons_self).2
      have hanswer : (Part.capture c).answer params = [(c.key, .one t)] := by simp [Part.answer, hg]
      -- the value ends at the first place where the next part could begin
      have hcut : cutValue (nextLeading rest) (t ++ rest.flatMap (Part.text params)) =
          (t, rest.flatMap (Part.text params)) := by
        cases rest with
        | nil => simp [nextLeading, cutValue]
        | cons next others =>
          have hend : EndsBefore t next.leading := hd.1 _ hg t (by simp [Captured.texts])
          obtain ⟨more, hmore⟩ := leading_prefix_text (h.isFixed next (by simp)) (h.fits next (by simp))
          rw [nextLeading, List.flatMap_cons, ← hmore, List.append_assoc]
          exact cutValue_append _ hne hend
      have hfresh : ∀ key ∈ (rest.flatMap (Part.answer params)).map (·.1),
          key ∉ [(c.key, Captured.one t)].map (·.1) := by
        intro key hk hm'
        rw [List.flatMap_cons, List.map_append, hanswer] at hkeys
        exact (List.nodup_append.mp hkeys).2.2 key hm' key hk rfl
      have hnodup : ((rest.flatMap (Part.answer params)).map (·.1)).Nodup := by
        rw [List.flatMap_cons, List.map_append] at hkeys
        exact (List.nodup_append.mp hkeys).2.1
      have hempty : t.isEmpty = false := by simpa using hne
      rw [text_of_value hg, List.append_assoc, matchText, Text.after?_append]
      simp only [hcut, hempty, hm, Bool.false_eq_true, if_false]
      rw [hrest, Option.map_some, Table.putAll_of_disjoint hnodup hfresh, hanswer]

open Cursor (behind)

def writtenSegments (params : Params) (parts : List Part) : List Text :=
  splitPath (parts.flatMap (Part.text params))

/-- Before `rest` the parts of a segment take what they wrote and give back the values. -/
def Inverts (params : Params) (query : Query) (parts : List Part) (rest : List Text) : Prop :=
  ∀ done, (Step.ofParts parts).run query (behind done (writtenSegments params parts ++ rest)) =
    some (parts.flatMap (Part.answer params), behind (done ++ writtenSegments params parts) rest)

theorem writtenSegments_of_fixed {params : Params} {parts : List Part} (h : FixedParts params parts)
    (hne : parts ≠ []) (hslash : ∀ part ∈ parts, ¬ part.Uses params '/') :
    writtenSegments params parts = [parts.flatMap (Part.text params)] := by
  apply splitPath_of_notMem
  · obtain ⟨part, rest, rfl⟩ := List.exists_cons_of_ne_nil hne
    have htext := text_ne_nil (h.isFixed part (by simp)) (h.fits part (by simp)) (h.sound part (by simp))
    simp [htext]
  · intro hm
    obtain ⟨part, hp, hx⟩ := List.mem_flatMap.mp hm
    cases part with
    | literal text _ => exact hslash _ hp hx
    | capture c =>
      obtain ⟨t, -, hg⟩ := value_of_isFixed (h.isFixed _ hp) (h.fits _ hp)
      rw [text_of_value hg] at hx
      rcases List.mem_append.mp hx with hx | hx
      · exact hslash _ hp (.inl hx)
      · exact hslash _ hp (.inr ⟨_, hg, t, by simp [Captured.texts], hx⟩)

theorem matchCapture_cons {params : Params} {c : Capture} {t : Text} {ts rest done : List Text}
    {captured : Captured} (hg : Table.get? c.key params = some captured)
    (hfits : c.Fits (some captured)) (htexts : captured.texts = t :: ts)
    (hrest : c.multiple = true → rest = []) :
    matchCapture c (behind done ((c.lead ++ t) :: ts ++ rest)) =
      some ((Part.capture c).answer params, behind (done ++ (c.lead ++ t) :: ts) rest) := by
  have hanswer : (Part.capture c).answer params = [(c.key, captured)] := by simp [Part.answer, hg]
  rw [matchCapture, List.cons_append, Cursor.head?_behind_cons, Option.bind_some, Text.after?_append,
    hanswer]
  cases captured with
  | one u =>
    obtain ⟨rfl, rfl⟩ : u = t ∧ [] = ts := by simpa [Captured.texts] using htexts
    obtain ⟨hm, hne⟩ : c.multiple = false ∧ u ≠ [] := hfits
    simp only [hm, Bool.false_eq_true, if_false]
    rw [Cursor.head?_strip, Cursor.advance_strip]
    simp [hne]
  | many us =>
    obtain rfl : us = t :: ts := htexts
    obtain ⟨hm, hne, -⟩ : c.multiple = true ∧ (∀ u ∈ t :: ts, u ≠ []) ∧ _ := hfits
    obtain rfl := hrest hm
    have hfilter : (t :: ts).filter (!·.isEmpty) = t :: ts := by
      rw [List.filter_eq_self]
      intro u hu
      simpa using hne u hu
    simp only [hm, if_true]
    rw [Cursor.remaining_strip, List.drop_left, List.append_nil, hfilter, Cursor.exhaust_strip]
    simp

theorem matchCapture_nil {params : Params} {c : Capture} {done : List Text}
    (hfits : (Part.capture c).Fits params)
    (hnone : ∀ captured ∈ Table.get? c.key params, captured.texts = []) :
    matchCapture c (behind done []) = some ((Part.capture c).answer params, behind done []) := by
  have hfits : c.Fits (Table.get? c.key params) := hfits
  rw [matchCapture, Cursor.head?_behind_nil, Option.bind_none, Part.answer]
  rcases hfits.cases with ⟨hg, ho⟩ | ⟨t, hg, -, hne⟩ | ⟨ts, hg, hm, -, ho⟩
  · simp [hg, ho]
  · simpa [Captured.texts] using hnone _ hg
  · obtain rfl : ts = [] := hnone _ hg
    simp [hg, ho rfl, hm]

/-- Fixed parts invert what they wrote, whatever follows. -/
theorem inverts_of_fixed {params : Params} {parts : List Part} (query : Query)
    (h : FixedParts params parts) (hne : parts ≠ []) (hd : Delimited params parts)
    (hslash : ∀ part ∈ parts, ¬ part.Uses params '/')
    (hkeys : ((parts.flatMap (Part.answer params)).map (·.1)).Nodup) (rest : List Text) :
    Inverts params query parts rest := by
  intro done
  rw [writtenSegments_of_fixed h hne hslash, List.singleton_append]
  match parts with
  | [] => contradiction
  | [.literal text optional] =>
    simp [Step.ofParts, Step.run, matchSingle, Part.text, Part.answer, Cursor.head?_behind_cons,
      Cursor.advance_behind]
  | [.capture c] =>
    obtain ⟨t, hnt, hg⟩ :=
      value_of_isFixed (h.isFixed _ List.mem_cons_self) (h.fits _ List.mem_cons_self)
    have hm : c.multiple = false := (h.isFixed _ List.mem_cons_self).2
    have htext : [Part.capture c].flatMap (Part.text params) = c.lead ++ t := by
      simp [text_of_value hg]
    have hmatch : matchCapture c (behind done ((c.lead ++ t) :: [] ++ rest)) =
        some ((Part.capture c).answer params, behind (done ++ [c.lead ++ t]) rest) :=
      matchCapture_cons hg ⟨hm, hnt⟩ rfl (by simp [hm])
    rw [htext, Step.ofParts, Step.run, matchSingle]
    simpa using hmatch
  | first :: second :: others =>
    rw [Step.ofParts, Step.run, matchCompound, Cursor.head?_behind_cons]
    · show Option.map _ (matchText (first :: second :: others) _) = _
      rw [matchText_eq h hd hkeys, Cursor.advance_behind]
      rfl
    · simp

theorem splitPath_join {t : Text} {ts : List Text} (ht : t ≠ []) (hts : ∀ u ∈ ts, u ≠ [])
    (hslash : ∀ u ∈ t :: ts, '/' ∉ u) : splitPath (Text.join ['/'] (t :: ts)) = t :: ts := by
  rw [splitPath, Text.split_join (by simp) hslash, List.filter_eq_self]
  intro u hu
  rcases List.mem_cons.mp hu with rfl | hu
  · simpa using ht
  · simpa using hts u hu

/-- A capture that stands last inverts what it wrote, be it optional or a repetition. -/
theorem inverts_of_last {params : Params} {c : Capture} (query : Query)
    (h : (Part.capture c).Fits params) (hslash : ¬ (Part.capture c).Uses params '/') :
    Inverts params query [.capture c] [] := by
  intro done
  have hfits : c.Fits (Table.get? c.key params) := h
  have hanswer : [Part.capture c].flatMap (Part.answer params) = (Part.capture c).answer params := by simp
  rw [hanswer, Step.ofParts, Step.run, matchSingle]
  have hwritten : writtenSegments params [.capture c] = splitPath ((Part.capture c).text params) := by
    simp [writtenSegments]
  rw [hwritten]
  cases hg : Table.get? c.key params with
  | none =>
    have htext : (Part.capture c).text params = [] := by simp [Part.text, hg]
    rw [htext, splitPath_nil]
    have hnil : matchCapture c (behind done []) =
        some ((Part.capture c).answer params, behind done []) := matchCapture_nil h (by simp [hg])
    simpa using hnil
  | some captured =>
    rw [hg] at hfits
    cases htexts : captured.texts with
    | nil =>
      have htext : (Part.capture c).text params = [] := by simp [Part.text, hg, htexts]
      rw [htext, splitPath_nil]
      have hnil : matchCapture c (behind done []) =
          some ((Part.capture c).answer params, behind done []) :=
        matchCapture_nil h (by simp [hg, htexts])
      simpa using hnil
    | cons t ts =>
      have hclean : ∀ u ∈ t :: ts, '/' ∉ u := fun u hu hx =>
        hslash (.inr ⟨captured, hg, u, htexts ▸ hu, hx⟩)
      have hne : ∀ u ∈ t :: ts, u ≠ [] := by
        cases captured with
        | one u =>
          obtain ⟨rfl, rfl⟩ : u = t ∧ [] = ts := by simpa [Captured.texts] using htexts
          simpa using hfits.2
        | many us =>
          obtain rfl : us = t :: ts := htexts
          exact hfits.2.1
      have hjoin : c.lead ++ Text.join ['/'] (t :: ts) = Text.join ['/'] ((c.lead ++ t) :: ts) := by
        cases ts with
        | nil => simp [Text.join]
        | cons u us => simp [Text.join_cons]
      have htext : splitPath ((Part.capture c).text params) = (c.lead ++ t) :: ts := by
        have hlead : '/' ∉ c.lead := fun hx => hslash (.inl hx)
        have hfirst : c.lead ++ t ≠ [] := by simp [hne t (by simp)]
        rw [Part.text, hg]
        simp only [htexts, List.cons_ne_nil, if_false]
        rw [hjoin, splitPath_join hfirst (fun u hu => hne u (List.mem_cons_of_mem _ hu))]
        intro u hu
        rcases List.mem_cons.mp hu with rfl | hu
        · simp [hlead, hclean t (by simp)]
        · exact hclean u (List.mem_cons_of_mem _ hu)
      rw [htext]
      exact matchCapture_cons hg hfits htexts (by simp)

end RoutePattern
