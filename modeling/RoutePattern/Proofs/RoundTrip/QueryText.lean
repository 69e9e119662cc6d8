import RoutePattern.Proofs.QueryDecoding
import RoutePattern.Proofs.RoundTrip.Segments
import RoutePattern.Proofs.RoundTrip.Written

/-!
Queries that were written and are read back: the pieces of a query come apart as they were put together,
and every entry finds its own values.
-/

namespace RoutePattern

/-- A key and a value that a query can hold as they stand. -/
structure PlainPair (pair : Text × Text) : Prop where
  equals : '=' ∉ pair.1
  ampersand : '&' ∉ pieceOf pair
  percent : '%' ∉ pieceOf pair
  plus : '+' ∉ pieceOf pair

theorem decodeQueryPiece_pieceOf {pair : Text × Text} (h : '=' ∉ pair.1) :
    decodeQueryPiece (pieceOf pair) = (decodeQueryText pair.1, decodeQueryText pair.2) := by
  rw [decodeQueryPiece, pieceOf, Text.cut_append pair.2 h]

/-- The pairs that a query is put together from come apart, and each is decoded. -/
theorem queryPairs_join_pieceOf {pairs : List (Text × Text)} (hequals : ∀ pair ∈ pairs, '=' ∉ pair.1)
    (hampersand : ∀ pair ∈ pairs, '&' ∉ pieceOf pair) :
    queryPairs (Text.join ['&'] (pairs.map pieceOf)) =
      pairs.map fun pair => (decodeQueryText pair.1, decodeQueryText pair.2) := by
  by_cases hnil : pairs = []
  · subst hnil
    rfl
  · have hsplit : Text.split '&' (Text.join ['&'] (pairs.map pieceOf)) = pairs.map pieceOf := by
      apply Text.split_join (by simpa using hnil)
      intro piece hm
      obtain ⟨pair, hp, rfl⟩ := List.mem_map.mp hm
      exact hampersand pair hp
    have hfilter : (pairs.map pieceOf).filter (!·.isEmpty) = pairs.map pieceOf := by
      rw [List.filter_eq_self]
      intro piece hm
      obtain ⟨pair, -, rfl⟩ := List.mem_map.mp hm
      simp [pieceOf]
    rw [queryPairs, hsplit, hfilter, List.map_map]
    exact List.map_congr_left fun pair hp => decodeQueryPiece_pieceOf (hequals pair hp)

/-- The pairs of a query are the ones that it was put together from. -/
theorem queryPairs_join {pairs : List (Text × Text)} (h : ∀ pair ∈ pairs, PlainPair pair) :
    queryPairs (Text.join ['&'] (pairs.map pieceOf)) = pairs := by
  have hdecode : ∀ pair ∈ pairs, (decodeQueryText pair.1, decodeQueryText pair.2) = pair := by
    intro pair hp
    have hpercent : '%' ∉ pair.1 ∧ '%' ∉ pair.2 := by simpa [pieceOf] using (h pair hp).percent
    have hplus : '+' ∉ pair.1 ∧ '+' ∉ pair.2 := by simpa [pieceOf] using (h pair hp).plus
    rw [decodeQueryText_of_notMem hpercent.1 hplus.1, decodeQueryText_of_notMem hpercent.2 hplus.2]
  rw [queryPairs_join_pieceOf (fun pair hp => (h pair hp).equals) fun pair hp => (h pair hp).ampersand]
  exact (List.map_congr_left hdecode).trans (List.map_id pairs)

/-- A query entry whose value is a literal with some text or a single capture. -/
def SimpleEntry : List Part → Prop
  | [.literal text _] => text ≠ []
  | [.capture _] => True
  | _ => False

instance : DecidablePred SimpleEntry
  | [.literal text _] => inferInstanceAs (Decidable (text ≠ []))
  | [.capture _] => isTrue trivial
  | [] => isFalse id
  | .literal _ _ :: _ :: _ => isFalse id
  | .capture _ :: _ :: _ => isFalse id

theorem SimpleEntry.cases {parts : List Part} (h : SimpleEntry parts) :
    (∃ text optional, text ≠ [] ∧ parts = [.literal text optional]) ∨ ∃ c, parts = [.capture c] := by
  match parts with
  | [] => exact h.elim
  | [.literal text optional] => exact .inl ⟨text, optional, h, rfl⟩
  | [.capture c] => exact .inr ⟨c, rfl⟩
  | .literal _ _ :: _ :: _ => exact h.elim
  | .capture _ :: _ :: _ => exact h.elim

def entryPairs (params : Params) (e : Text × List Part) : List (Text × Text) :=
  (e.2.flatMap (Part.values params)).map (e.1, ·)

theorem entryTexts_of_simple {params : Params} {parts : List Part} (hs : SimpleEntry parts) :
    entryTexts params parts = parts.flatMap (Part.values params) := by
  rcases hs.cases with ⟨text, optional, hne, rfl⟩ | ⟨c, rfl⟩
  · simp [entryTexts, Part.text, Part.values, hne]
  · simp [entryTexts]

theorem entryPieces_of_simple {params : Params} {entries : List (Text × List Part)}
    (hs : ∀ e ∈ entries, SimpleEntry e.2) :
    entryPieces params entries = (entries.flatMap (entryPairs params)).map pieceOf := by
  rw [entryPieces, List.map_flatMap]
  refine List.flatMap_congr fun e he => ?_
  rw [entryTexts_of_simple (hs e he), entryPairs, List.map_map]
  rfl

theorem mapM_after?_append (lead : Text) (texts : List Text) :
    (texts.map (lead ++ ·)).mapM (Text.after? lead) = some texts := by
  induction texts with
  | nil => rfl
  | cons t rest ih =>
    rw [List.map_cons, List.mapM_cons, Text.after?_append, ih]
    rfl

theorem matchValues_eq {params : Params} {part : Part} (h : part.Fits params) :
    matchValues part (part.values params) = some (part.answer params) := by
  cases part with
  | literal text optional => simp [matchValues, Part.values, Part.answer]
  | capture c =>
    have hfits : c.Fits (Table.get? c.key params) := h
    rw [matchValues, Part.values, mapM_after?_append, Option.bind_some, Part.answer]
    rcases hfits.cases with ⟨hg, ho⟩ | ⟨t, hg, hm, hne⟩ | ⟨ts, hg, hm, hne, ho⟩
    · simp [hg, ho]
    · simp [hg, Captured.texts, hm, hne]
    · have hfilter : ts.filter (!·.isEmpty) = ts := by
        rw [List.filter_eq_self]
        exact fun t ht => by simpa using hne t ht
      simp only [hg, Option.map_some, Option.getD_some, Captured.texts, hfilter]
      cases ts with
      | nil => simp [ho rfl, hm]
      | cons t rest => simp [hm]

theorem matchEntry_eq {params : Params} {parts : List Part} (hs : SimpleEntry parts)
    (h : ∀ part ∈ parts, part.Fits params) :
    matchEntry parts (parts.flatMap (Part.values params)) =
      some (parts.flatMap (Part.answer params)) := by
  have hsingle : ∃ part, parts = [part] := by
    rcases hs.cases with ⟨_, _, -, hparts⟩ | ⟨_, hparts⟩ <;> exact ⟨_, hparts⟩
  obtain ⟨part, rfl⟩ := hsingle
  have hvalues : [part].flatMap (Part.values params) = part.values params := by simp
  have hanswer : [part].flatMap (Part.answer params) = part.answer params := by simp
  rw [hvalues, hanswer, matchEntry]
  exact matchValues_eq (h part (by simp))

def entryAnswers (params : Params) (entries : List (Text × List Part)) : Params :=
  entries.flatMap fun e => e.2.flatMap (Part.answer params)

theorem matchQuery_eq {params : Params} {query : Query} {entries : List (Text × List Part)}
    (hs : ∀ e ∈ entries, SimpleEntry e.2) (h : ∀ e ∈ entries, ∀ part ∈ e.2, part.Fits params)
    (hvalues : ∀ e ∈ entries, query.all e.1 = e.2.flatMap (Part.values params))
    (hkeys : ((entryAnswers params entries).map (·.1)).Nodup) :
    matchQuery query entries = some (entryAnswers params entries) := by
  induction entries with
  | nil => rfl
  | cons e rest ih =>
    obtain ⟨key, parts⟩ := e
    have hcons : entryAnswers params ((key, parts) :: rest) =
        parts.flatMap (Part.answer params) ++ entryAnswers params rest := List.flatMap_cons
    rw [hcons, List.map_append] at hkeys
    obtain ⟨-, hnodup, hdisjoint⟩ := List.nodup_append.mp hkeys
    have hrest := ih (fun f hf => hs f (List.mem_cons_of_mem _ hf))
      (fun f hf => h f (List.mem_cons_of_mem _ hf))
      (fun f hf => hvalues f (List.mem_cons_of_mem _ hf)) hnodup
    have hfirst : query.all key = parts.flatMap (Part.values params) := hvalues _ List.mem_cons_self
    rw [matchQuery, hfirst, matchEntry_eq (hs _ List.mem_cons_self) (h _ List.mem_cons_self), hrest,
      Option.bind_some, Option.map_some, hcons, Table.putAll_of_disjoint hnodup]
    exact fun k hk hm => hdisjoint k hm k hk rfl

theorem all_ofPairs_entryPairs {params : Params} {entries : List (Text × List Part)}
    (hkeys : (entries.map (·.1)).Nodup) :
    ∀ e ∈ entries, Query.all e.1 (Query.ofPairs (entries.flatMap (entryPairs params))) =
      e.2.flatMap (Part.values params) := by
  have hother : ∀ (key : Text) (rest : List (Text × List Part)), key ∉ rest.map (·.1) →
      ((rest.flatMap (entryPairs params)).filter fun pair => pair.1 == key) = [] := by
    intro key rest hkey
    rw [List.filter_eq_nil_iff]
    intro pair hp
    obtain ⟨f, hf, hm⟩ := List.mem_flatMap.mp hp
    obtain ⟨value, -, rfl⟩ := List.mem_map.mp hm
    have hne : f.1 ≠ key := fun he => hkey (List.mem_map.mpr ⟨f, hf, he⟩)
    simpa using hne
  have hown : ∀ e : Text × List Part,
      ((entryPairs params e).filter fun pair => pair.1 == e.1) = entryPairs params e := by
    intro e
    rw [List.filter_eq_self]
    intro pair hp
    obtain ⟨value, -, rfl⟩ := List.mem_map.mp hp
    simp
  have hsnd : ∀ e : Text × List Part,
      (entryPairs params e).map (·.2) = e.2.flatMap (Part.values params) := by
    intro e
    rw [entryPairs, List.map_map]
    exact List.map_id _
  intro e he
  rw [Query.all_ofPairs]
  induction entries with
  | nil => simp at he
  | cons f rest ih =>
    obtain ⟨hfresh, hrest⟩ := List.nodup_cons.mp hkeys
    rw [List.flatMap_cons, List.filter_append, List.map_append]
    rcases List.mem_cons.mp he with rfl | hm
    · rw [hown, hother e.1 rest hfresh, hsnd]
      simp
    · have hne : f.1 ≠ e.1 := fun heq => hfresh (List.mem_map.mpr ⟨e, hm, heq.symm⟩)
      have hfirst : ((entryPairs params f).filter fun pair => pair.1 == e.1) = [] := by
        rw [List.filter_eq_nil_iff]
        intro pair hp
        obtain ⟨value, -, rfl⟩ := List.mem_map.mp hp
        simpa using hne
      rw [hfirst]
      exact ih hrest hm

end RoutePattern
