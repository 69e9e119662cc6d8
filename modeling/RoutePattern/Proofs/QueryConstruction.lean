import RoutePattern.Proofs.AbsentItems
import RoutePattern.Proofs.QueryValues

/-!
Query blocks that are put together from keys and values, and query blocks that are read from the text of
these entries. They are the same where every value is one segment or the bare separator. Where one is not,
they write different texts: the slashes of a value are lost in one of them.
-/

namespace RoutePattern

variable {σ : Type}

namespace Pattern

theorem entryParts_of_values {R : Text → List Part → Prop} {Q : Text → Pattern σ → Prop}
    (hQ : ∀ value p, Q value p → ∀ first, ∃ parts,
      (p.stops first false).mapM Stop.part? = some parts ∧ R value parts)
    {entries : List (Text × Text)} {es : List (Text × Pattern σ)}
    (h : List.Forall₂ (fun e f => f.1 = e.1 ∧ Q e.2 f.2) entries es) (first : Nat) :
    ∃ block : List (Text × List Part), entryParts first es = block.map (fun e => (e.1, some e.2)) ∧
      List.Forall₂ (fun e f => f.1 = e.1 ∧ R e.2 f.2) entries block := by
  induction h generalizing first with
  | nil => exact ⟨[], rfl, .nil⟩
  | @cons e f entries es hfirst _ ih =>
    obtain ⟨hkey, hvalue⟩ := hfirst
    obtain ⟨parts, hparts, hown⟩ := hQ e.2 f.2 hvalue first
    obtain ⟨block, hblock, hrest⟩ := ih (first + f.2.unnamedCount)
    refine ⟨(f.1, parts) :: block, ?_, .cons ⟨hkey, hown⟩ hrest⟩
    rw [entryParts, hparts, hblock]
    rfl

theorem layout_of_entryParts {es : List (Text × Pattern σ)} {block : List (Text × List Part)}
    (h : entryParts 0 es = block.map fun e => (e.1, some e.2)) :
    (queryParams root es).layout.steps = .ok [.query block] := by
  have hgroups : (queryParams root es).groups =
      [.query (queryParams root es) (block.map fun e => (e.1, some e.2))] := by
    rw [← h]
    rfl
  rw [layout, hgroups, Group.layoutAll, Group.layout, Group.layoutEntries_map]
  rfl

end Pattern

theorem renderRoute_block {params : Params} {block : List (Text × List Part)}
    (h : ∀ e ∈ block, ∀ part ∈ e.2, part.Fits params) :
    renderRoute (argumentsOf params) [.query block] =
      .ok (orRoot (withQuery [] (Text.join ['&'] (entryPieces params block)))) := by
  have hlast : renderLastQuery (argumentsOf params) [.query block] =
      .ok (Text.join ['&'] (entryPieces params block)) := by
    have hquery := renderQuery_eq h
    simp only [renderLastQuery, List.filterMap_cons, List.filterMap_nil, List.getLast?_singleton, hquery]
    rfl
  rw [renderRoute, renderSteps, hlast]
  rfl

def Capture.sample (c : Capture) : Captured := if c.multiple then .many [['x']] else .one ['x']

def samples (cs : List Capture) : Params := cs.map fun c => (c.key, c.sample)

def Sampled (params : Params) : Prop :=
  ∀ entry ∈ params, entry.2 = .one ['x'] ∨ entry.2 = .many [['x']]

theorem sampled_samples (cs : List Capture) : Sampled (samples cs) := by
  intro entry hentry
  obtain ⟨c, -, rfl⟩ := List.mem_map.mp hentry
  cases hm : c.multiple <;> simp [Capture.sample, hm]

theorem get?_samples {cs : List Capture} (hkeys : (cs.map Capture.key).Nodup) {c : Capture} (hc : c ∈ cs) :
    Table.get? c.key (samples cs) = some c.sample := by
  have hkeys : ((samples cs).map (·.1)).Nodup := by
    rw [samples, List.map_map]
    exact hkeys
  have hmem : (c.key, c.sample) ∈ samples cs := List.mem_map_of_mem hc
  exact Table.get?_of_mem hkeys hmem

theorem Capture.fits_sample (c : Capture) : c.Fits (some c.sample) := by
  cases hm : c.multiple <;> simp [sample, Fits, hm]

theorem Sampled.get? {params : Params} (h : Sampled params) (key : Key) :
    Table.get? key params = none ∨ Table.get? key params = some (.one ['x']) ∨
      Table.get? key params = some (.many [['x']]) := by
  cases hget : Table.get? key params with
  | none => exact .inl rfl
  | some captured =>
    have hmem := Table.mem_of_get? hget
    obtain hone | hmany := h _ hmem
    · exact .inr (.inl (congrArg some hone))
    · exact .inr (.inr (congrArg some hmany))

theorem Sampled.fits {params : Params} (h : Sampled params) {c : Capture} {ts : List Text}
    (hwrites : c.Writes (((Table.get? c.key params).map Captured.value).getD .null) ts) :
    c.Fits (Table.get? c.key params) := by
  obtain hget | hget | hget := h.get? c.key <;> rw [hget] at hwrites ⊢
  · exact (Capture.writes_null_iff.mp hwrites).1
  · cases hm : c.multiple with
    | false => exact ⟨hm, by simp⟩
    | true =>
      obtain ⟨items, hitems, -⟩ := (Capture.writes_items_iff hm (by simp [Captured.value])).mp hwrites
      cases hitems
  · cases hm : c.multiple with
    | false =>
      obtain ⟨hitems, -⟩ := (Capture.writes_single_iff hm (by simp [Captured.value])).mp hwrites
      cases hitems
    | true => exact ⟨hm, by simp, by simp⟩

section

variable {params : Params} (h : Sampled params)

include h

theorem Sampled.fits_of_renderPart {part : Part} {text : Text}
    (hr : renderPart (argumentsOf params) part = .ok text) : part.Fits params := by
  cases part with
  | literal _ _ => trivial
  | capture c =>
    rw [renderPart_capture] at hr
    obtain ⟨ts, hts, -⟩ := Except.map_eq_ok.mp hr
    exact h.fits ((Capture.texts_eq_ok (argument_eq c.key params)).mp hts)

theorem Sampled.fits_of_renderParts {parts : List Part} {text : Text}
    (hr : renderParts (argumentsOf params) parts = .ok text) : ∀ part ∈ parts, part.Fits params := by
  induction parts generalizing text with
  | nil => nofun
  | cons part rest ih =>
    obtain ⟨first, hfirst, hr⟩ := Except.bind_eq_ok.mp hr
    obtain ⟨others, hothers, -⟩ := Except.bind_eq_ok.mp hr
    exact List.forall_mem_cons.mpr ⟨h.fits_of_renderPart hfirst, ih hothers⟩

theorem Sampled.fits_of_renderEntry {key : Text} {parts : List Part} {pieces : List Text}
    (hr : renderEntry (argumentsOf params) key parts = .ok pieces) : ∀ part ∈ parts, part.Fits params := by
  have hjoined : ∀ {others : List Part}, (renderParts (argumentsOf params) others).map
        (fun text => if text.isEmpty then [] else [key ++ '=' :: text]) = .ok pieces →
      ∀ part ∈ others, part.Fits params := by
    intro others hothers
    obtain ⟨text, htext, -⟩ := Except.map_eq_ok.mp hothers
    exact h.fits_of_renderParts htext
  match parts, hr with
  | [], hr => exact hjoined hr
  | [.literal _ _], hr => exact hjoined hr
  | .literal _ _ :: _ :: _, hr => exact hjoined hr
  | .capture _ :: _ :: _, hr => exact hjoined hr
  | [.capture c], hr =>
    rw [renderEntry] at hr
    split at hr
    next hm =>
      obtain ⟨ts, hts, -⟩ := Except.map_eq_ok.mp hr
      have htexts : c.texts (argumentsOf params) = .ok ts := by rw [Capture.texts, if_pos hm, hts]
      have hfits := h.fits ((Capture.texts_eq_ok (argument_eq c.key params)).mp htexts)
      exact List.forall_mem_singleton.mpr hfits
    next => exact hjoined hr

theorem Sampled.fits_of_renderQuery {block : List (Text × List Part)} {pieces : List Text}
    (hr : renderQuery (argumentsOf params) block = .ok pieces) :
    ∀ e ∈ block, ∀ part ∈ e.2, part.Fits params := by
  induction block generalizing pieces with
  | nil => nofun
  | cons e rest ih =>
    obtain ⟨first, hfirst, hr⟩ := Except.bind_eq_ok.mp hr
    obtain ⟨others, hothers, -⟩ := Except.bind_eq_ok.mp hr
    exact List.forall_mem_cons.mpr ⟨h.fits_of_renderEntry hfirst, ih hothers⟩

theorem Sampled.fits_of_renderRoute {block : List (Text × List Part)} {text : Text}
    (hr : renderRoute (argumentsOf params) [.query block] = .ok text) :
    ∀ e ∈ block, ∀ part ∈ e.2, part.Fits params := by
  obtain ⟨written, hwritten, -⟩ := Except.map_eq_ok.mp hr
  obtain ⟨query, hquery, -⟩ := Except.bind_eq_ok.mp hwritten
  obtain ⟨pieces, hpieces, -⟩ := Except.map_eq_ok.mp
    (show (renderQuery (argumentsOf params) block).map (Text.join ['&']) = .ok query from hquery)
  exact h.fits_of_renderQuery hpieces

theorem Sampled.mem_text {part : Part} {c : Char} (hc : c ∈ part.text params) :
    c ∈ part.leading ∨ c = 'x' := by
  cases part with
  | literal text loose => exact .inl hc
  | capture d =>
    obtain hget | hget | hget := h.get? d.key
    · simp [Part.text, hget] at hc
    · have hc : c ∈ d.lead ++ ['x'] := by simpa [Part.text, hget, Captured.texts, Text.join] using hc
      simpa [Part.leading] using hc
    · have hc : c ∈ d.lead ++ ['x'] := by simpa [Part.text, hget, Captured.texts, Text.join] using hc
      simpa [Part.leading] using hc

theorem Sampled.values_capture {c : Capture} (hget : Table.get? c.key params ≠ none) :
    (Part.capture c).values params = [c.lead ++ ['x']] ∧ (Part.capture c).text params = c.lead ++ ['x'] := by
  obtain hnone | hget | hget := h.get? c.key
  · contradiction
  · simp [Part.values, Part.text, hget, Captured.texts, Text.join]
  · simp [Part.values, Part.text, hget, Captured.texts, Text.join]

theorem Sampled.mem_entryTexts {parts : List Part} {t : Text} (ht : t ∈ entryTexts params parts) {c : Char}
    (hc : c ∈ t) : c = 'x' ∨ ∃ part ∈ parts, c ∈ part.leading := by
  have hjoined : ∀ {others : List Part}, t ∈ [others.flatMap (Part.text params)].filter (!·.isEmpty) →
      c = 'x' ∨ ∃ part ∈ others, c ∈ part.leading := by
    intro others ht
    obtain rfl := List.mem_singleton.mp (List.mem_filter.mp ht).1
    obtain ⟨part, hpart, hc⟩ := List.mem_flatMap.mp hc
    obtain hlead | hx := h.mem_text hc
    · exact .inr ⟨part, hpart, hlead⟩
    · exact .inl hx
  match parts, ht with
  | [], ht => exact hjoined ht
  | [.literal _ _], ht => exact hjoined ht
  | .literal _ _ :: _ :: _, ht => exact hjoined ht
  | .capture _ :: _ :: _, ht => exact hjoined ht
  | [.capture d], ht =>
    cases hget : Table.get? d.key params with
    | none => simp [entryTexts, Part.values, hget] at ht
    | some captured =>
      rw [entryTexts, (h.values_capture (by simp [hget])).1] at ht
      obtain rfl := List.mem_singleton.mp ht
      simpa [Part.leading, or_comm] using hc

/-- Parts of which none is empty write something where all captures have a value. -/
theorem Sampled.exists_entryText {parts : List Part} (hne : parts ≠ []) (hsound : ∀ part ∈ parts, part.Sound)
    (hfilled : ∀ c, .capture c ∈ parts → Table.get? c.key params ≠ none) :
    ∃ t, t ∈ entryTexts params parts := by
  have htext : ∀ part ∈ parts, part.text params ≠ [] := by
    intro part hpart
    cases part with
    | literal text loose => exact (hsound _ hpart).1
    | capture c =>
      rw [(h.values_capture (hfilled c hpart)).2]
      simp
  have hjoined : parts.flatMap (Part.text params) ≠ [] := by
    obtain ⟨part, hpart⟩ := List.exists_mem_of_ne_nil parts hne
    exact fun hnil => htext part hpart (List.flatMap_eq_nil_iff.mp hnil part hpart)
  have hmem : parts.flatMap (Part.text params) ∈ [parts.flatMap (Part.text params)].filter (!·.isEmpty) :=
    List.mem_filter.mpr ⟨List.mem_singleton_self _, by simpa using hjoined⟩
  match parts, hfilled, hmem with
  | [.capture c], hfilled, _ =>
    have hvalues := (h.values_capture (hfilled c (List.mem_singleton_self _))).1
    refine ⟨c.lead ++ ['x'], ?_⟩
    rw [entryTexts, hvalues]
    exact List.mem_singleton_self _
  | [], _, hmem => exact ⟨_, hmem⟩
  | [.literal _ _], _, hmem => exact ⟨_, hmem⟩
  | .literal _ _ :: _ :: _, _, hmem => exact ⟨_, hmem⟩
  | .capture _ :: _ :: _, _, hmem => exact ⟨_, hmem⟩

end

namespace Pattern

section

variable {params : Params} {value : Text} {parts : List Part}

theorem ConstructedParts.mem_of_mem_leading (hp : ConstructedParts value parts) {part : Part} (hpart : part ∈ parts)
    {c : Char} (hc : c ∈ part.leading) (hne : c ≠ '/') : c ∈ value := by
  by_cases htexts : ∃ c ∈ value, c ≠ '/'
  · exact (((hp.texts htexts).2 part hpart).2 c hc).1
  · have hslashes : ∀ d ∈ value, d = '/' := fun d hd => by_contra fun hd' => htexts ⟨d, hd, hd'⟩
    rw [hp.slashes hslashes] at hpart
    obtain rfl := List.mem_singleton.mp hpart
    exact absurd (List.mem_singleton.mp hc) hne

/-- With a value for every capture a value that has segments is written without its slashes. -/
theorem ConstructedParts.exists_text (hp : ConstructedParts value parts) (h : Sampled params)
    (hfilled : ∀ c, .capture c ∈ parts → Table.get? c.key params ≠ none) :
    ∃ t ∈ entryTexts params parts, ((∀ c ∈ value, c = '/') → t = ['/']) ∧
      ((∃ c ∈ value, c ≠ '/') → '/' ∉ t) := by
  by_cases hslashes : ∀ c ∈ value, c = '/'
  · refine ⟨['/'], ?_, fun _ => rfl, fun ⟨c, hc, hne⟩ => absurd (hslashes c hc) hne⟩
    rw [hp.slashes hslashes]
    exact List.mem_singleton_self _
  · have htexts : ∃ c ∈ value, c ≠ '/' := by
      obtain ⟨c, hc⟩ := not_forall.mp hslashes
      obtain ⟨hmem, hne⟩ := Classical.not_imp.mp hc
      exact ⟨c, hmem, hne⟩
    obtain ⟨hne, hall⟩ := hp.texts htexts
    obtain ⟨t, ht⟩ := h.exists_entryText hne (fun part hpart => (hall part hpart).1) hfilled
    refine ⟨t, ht, fun hs => absurd hs hslashes, fun _ hslash => ?_⟩
    obtain hx | ⟨part, hpart, hlead⟩ := h.mem_entryTexts ht hslash
    · cases hx
    · exact ((hall part hpart).2 _ hlead).2 rfl

theorem ParsedParts.slash_of_mem (hp : ParsedParts value parts) (hcut : '/' ∈ value) {t : Text}
    (ht : t ∈ entryTexts params parts) : '/' ∈ t := by
  obtain ⟨text, hmem, hslash⟩ := hp.cut hcut
  have hjoined : t = parts.flatMap (Part.text params) := by
    match parts, hmem, ht with
    | [.literal _ _], _, ht => exact List.mem_singleton.mp (List.mem_filter.mp ht).1
    | .literal _ _ :: _ :: _, _, ht => exact List.mem_singleton.mp (List.mem_filter.mp ht).1
    | .capture _ :: _ :: _, _, ht => exact List.mem_singleton.mp (List.mem_filter.mp ht).1
    | [.capture _], hmem, _ => simp at hmem
  rw [hjoined]
  exact List.mem_flatMap.mpr ⟨_, hmem, hslash⟩

theorem ParsedParts.singleSegment (hp : ParsedParts value parts) {t : Text} (ht : t ∈ entryTexts params parts)
    (hslashes : (∀ c ∈ value, c = '/') → t = ['/']) (htexts : (∃ c ∈ value, c ≠ '/') → '/' ∉ t) :
    SingleSegment value := by
  by_cases hall : ∀ c ∈ value, c = '/'
  · rw [hp.slashes hall] at ht
    have hvalue : t = [Part.literal value false].flatMap (Part.text params) :=
      List.mem_singleton.mp (List.mem_filter.mp ht).1
    rw [List.flatMap_singleton, Part.text] at hvalue
    exact .inl (hvalue.symm.trans (hslashes hall))
  · obtain ⟨c, hc⟩ := not_forall.mp hall
    obtain ⟨hmem, hne⟩ := Classical.not_imp.mp hc
    refine .inr ⟨List.ne_nil_of_mem hmem, fun hcut => ?_⟩
    exact htexts ⟨c, hmem, hne⟩ (hp.slash_of_mem hcut ht)

end

theorem ConstructedParts.singleSegment {value : Text} {parts : List Part} (hc : ConstructedParts value parts)
    (hp : ParsedParts value parts) : SingleSegment value := by
  by_cases hall : ∀ c ∈ value, c = '/'
  · have hparts := (hp.slashes hall).symm.trans (hc.slashes hall)
    have hvalue : value = ['/'] := by simpa using hparts
    exact .inl hvalue
  · obtain ⟨c, hc'⟩ := not_forall.mp hall
    obtain ⟨hmem, hne⟩ := Classical.not_imp.mp hc'
    refine .inr ⟨List.ne_nil_of_mem hmem, fun hcut => ?_⟩
    obtain ⟨text, htext, hslash⟩ := hp.cut hcut
    exact (((hc.texts ⟨c, hmem, hne⟩).2 _ htext).2 '/' hslash).2 rfl

theorem ReadPath.eq_readFrom {value : Text} {p q : Pattern σ} (hs : SingleSegment value)
    (hp : ReadPath value p) (hq : ReadFrom value q) : p = q := by
  obtain ⟨ps, hread, rfl⟩ := hp
  obtain rfl | ⟨hne, hslash⟩ := hs
  · have hsplit : splitPath ['/'] = [] := by decide
    rw [hsplit] at hread
    obtain rfl := List.forall₂_nil_left_iff.mp hread
    exact Except.ok.inj ((ofSegment_slashes (by simp)).symm.trans hq)
  · rw [splitPath_of_notMem hne hslash] at hread
    obtain ⟨first, rest, hfirst, hrest, rfl⟩ := List.forall₂_cons_left_iff.mp hread
    obtain rfl := List.forall₂_nil_left_iff.mp hrest
    exact Except.ok.inj (hfirst.symm.trans hq)

end Pattern

/-- Texts of entries that neither end an entry nor hide where their keys end. -/
theorem pieceOf_inj {key other : Text} (hkey : '=' ∉ key) (hother : '=' ∉ other) {s t : Text}
    (h : pieceOf (key, s) = pieceOf (other, t)) : key = other ∧ s = t := by
  have hcut := congrArg (Text.cut '=') h
  rw [pieceOf, pieceOf, Text.cut_append s hkey, Text.cut_append t hother] at hcut
  simpa using hcut

theorem written_query_inj {s t : Text} (h : orRoot (withQuery [] s) = orRoot (withQuery [] t)) : s = t := by
  have hwritten : ∀ c rest, orRoot (withQuery [] (c :: rest)) = '/' :: '?' :: c :: rest := fun _ _ => rfl
  have hempty : orRoot (withQuery [] []) = ['/'] := rfl
  cases s with
  | nil =>
    cases t with
    | nil => rfl
    | cons d other => simp [hempty, hwritten] at h
  | cons c rest =>
    cases t with
    | nil => simp [hempty, hwritten] at h
    | cons d other => simpa [hwritten] using h

section

variable {params : Params} {entries : List (Text × Text)} {built read : List (Text × List Part)}
  (h : Sampled params) (hkeys : (entries.map (·.1)).Nodup)
  (hequals : ∀ e ∈ entries, '=' ∉ e.1) (hampersand : ∀ e ∈ entries, '&' ∉ e.1 ∧ '&' ∉ e.2)
  (hbuilt : List.Forall₂ (fun e f => f.1 = e.1 ∧ Pattern.ConstructedParts e.2 f.2) entries built)
  (hread : List.Forall₂ (fun e f => f.1 = e.1 ∧ Pattern.ParsedParts e.2 f.2) entries read)

include h

theorem Sampled.ampersand_notMem_entryPieces {block : List (Text × List Part)}
    (hblock : ∀ e ∈ block, '&' ∉ e.1 ∧ ∀ part ∈ e.2, '&' ∉ part.leading) :
    ∀ piece ∈ entryPieces params block, '&' ∉ piece := by
  intro piece hpiece
  obtain ⟨e, he, hpiece⟩ := List.mem_flatMap.mp hpiece
  obtain ⟨t, ht, rfl⟩ := List.mem_map.mp hpiece
  obtain ⟨hkey, hleading⟩ := hblock e he
  have htext : '&' ∉ t := by
    intro hc
    obtain hx | ⟨part, hpart, hlead⟩ := h.mem_entryTexts ht hc
    · cases hx
    · exact hleading part hpart hlead
  simpa [pieceOf, hkey] using htext

include hkeys hequals hbuilt hread

/-- Blocks that write the same entries come from values that are one segment each. -/
theorem Sampled.singleSegment_of_entryPieces
    (hfilled : ∀ e ∈ built, ∀ c, .capture c ∈ e.2 → Table.get? c.key params ≠ none)
    (hpieces : entryPieces params built = entryPieces params read) : ∀ e ∈ entries, SingleSegment e.2 := by
  intro e he
  obtain ⟨f, hf, hkey, hown⟩ := exists_of_mem_right hbuilt.flip he
  obtain ⟨t, ht, hslashes, htexts⟩ := hown.exists_text h (hfilled f hf)
  have hpiece : pieceOf (f.1, t) ∈ entryPieces params read := by
    rw [← hpieces]
    exact List.mem_flatMap.mpr ⟨f, hf, List.mem_map_of_mem ht⟩
  obtain ⟨g, hg, hpiece⟩ := List.mem_flatMap.mp hpiece
  obtain ⟨s, hs, heq⟩ := List.mem_map.mp hpiece
  obtain ⟨e', he', hkey', hparsed⟩ := exists_of_mem_right hread hg
  obtain ⟨hsame, rfl⟩ := pieceOf_inj (hkey' ▸ hequals e' he') (hkey ▸ hequals e he) heq
  obtain rfl : e' = e := List.inj_on_of_nodup_map hkeys he' he (by rw [← hkey', ← hkey, hsame])
  exact hparsed.singleSegment hs hslashes htexts

include hampersand

theorem Sampled.singleSegment_of_written
    (hfilled : ∀ e ∈ built, ∀ c, .capture c ∈ e.2 → Table.get? c.key params ≠ none)
    (hwritten : orRoot (withQuery [] (Text.join ['&'] (entryPieces params built))) =
      orRoot (withQuery [] (Text.join ['&'] (entryPieces params read)))) :
    ∀ e ∈ entries, SingleSegment e.2 := by
  have hne : ∀ block : List (Text × List Part), ∀ piece ∈ entryPieces params block, piece ≠ [] := by
    intro block piece hpiece
    obtain ⟨e, -, hpiece⟩ := List.mem_flatMap.mp hpiece
    obtain ⟨t, -, rfl⟩ := List.mem_map.mp hpiece
    simp [pieceOf]
  have hbuilt' : ∀ piece ∈ entryPieces params built, '&' ∉ piece := by
    refine h.ampersand_notMem_entryPieces fun f hf => ?_
    obtain ⟨e, he, hkey, hown⟩ := exists_of_mem_right hbuilt hf
    obtain ⟨hfirst, hsecond⟩ := hampersand e he
    exact ⟨hkey ▸ hfirst, fun part hpart hc => hsecond (hown.mem_of_mem_leading hpart hc (by decide))⟩
  have hread' : ∀ piece ∈ entryPieces params read, '&' ∉ piece := by
    refine h.ampersand_notMem_entryPieces fun f hf => ?_
    obtain ⟨e, he, hkey, hown⟩ := exists_of_mem_right hread hf
    obtain ⟨hfirst, hsecond⟩ := hampersand e he
    exact ⟨hkey ▸ hfirst, fun part hpart hc => hsecond (hown.leading part hpart _ hc)⟩
  refine h.singleSegment_of_entryPieces hkeys hequals hbuilt hread hfilled ?_
  have hjoin := congrArg Pattern.queryPieces (written_query_inj hwritten)
  rwa [Pattern.queryPieces_join (hne built) hbuilt', Pattern.queryPieces_join (hne read) hread'] at hjoin

end

namespace Route

/-- Entries that can be told apart in a source, with values in which no query begins or ends. -/
structure Entries (entries : List (Text × Text)) : Prop where
  distinct : (entries.map (·.1)).Nodup
  keys : ∀ e ∈ entries, e.1 ≠ [] ∧ '&' ∉ e.1 ∧ '=' ∉ e.1 ∧ '?' ∉ e.1
  values : ∀ e ∈ entries, '&' ∉ e.2 ∧ '?' ∉ e.2

namespace Entries

variable {entries : List (Text × Text)} (h : Entries entries)

include h

theorem mark_notMem : '?' ∉ Text.join ['&'] (entries.map pieceOf) := by
  intro hmem
  obtain hsep | ⟨piece, hpiece, hmark⟩ := Text.mem_of_mem_join hmem
  · exact absurd hsep (by decide)
  · obtain ⟨e, he, rfl⟩ := List.mem_map.mp hpiece
    obtain ⟨-, -, -, hkey⟩ := h.keys e he
    simp [pieceOf, hkey, (h.values e he).2] at hmark

theorem readPath {es : List (Text × Pattern Schema)}
    (hes : entries.mapM (fun e => (Pattern.ofText e.2).map (e.1, ·)) = .ok es) :
    List.Forall₂ (fun e f => f.1 = e.1 ∧ Pattern.ReadPath e.2 f.2) entries es := by
  have hall := (List.forall₂_and_left entries es).mpr ⟨h.values, forall₂_of_mapM_eq_ok hes⟩
  refine hall.imp fun e f hf => ?_
  obtain ⟨⟨-, hmark⟩, hf⟩ := hf
  obtain ⟨p, hp, rfl⟩ := Except.map_eq_ok.mp hf
  obtain ⟨hpath, hquery⟩ := QuerySplit.ofSource_of_notMem hmark
  cases Pattern.ofText_eq_ok_iff.mp hp with
  | plain _ hread => exact ⟨rfl, hpath ▸ hread⟩
  | query hsome _ _ => simp [hquery] at hsome

theorem exists_readFrom {atEnd : Bool} {q : Route}
    (hq : parse ('?' :: Text.join ['&'] (entries.map pieceOf)) atEnd = .ok q) :
    ∃ es, q = query es atEnd ∧
      List.Forall₂ (fun e f => f.1 = e.1 ∧ Pattern.ReadFrom e.2 f.2) entries es := by
  obtain ⟨p, hp, rfl⟩ := Except.map_eq_ok.mp hq
  obtain ⟨hpath, hquery⟩ := QuerySplit.ofSource_query h.mark_notMem
  cases Pattern.ofText_eq_ok_iff.mp hp with
  | plain hnone _ => simp [hquery] at hnone
  | @query front text es hsome hfront hes =>
    rw [hpath] at hfront
    obtain ⟨ps, hps, rfl⟩ := hfront
    rw [splitPath_nil] at hps
    obtain rfl := List.forall₂_nil_left_iff.mp hps
    obtain rfl : Text.join ['&'] (entries.map pieceOf) = text := Option.some.inj (hquery.symm.trans hsome)
    refine ⟨es, rfl, ?_⟩
    have hpieces : Pattern.queryPieces (Text.join ['&'] (entries.map pieceOf)) = entries.map pieceOf := by
      refine Pattern.queryPieces_join (fun piece hpiece => ?_) fun piece hpiece => ?_
      · obtain ⟨e, -, rfl⟩ := List.mem_map.mp hpiece
        simp [pieceOf]
      · obtain ⟨e, he, rfl⟩ := List.mem_map.mp hpiece
        obtain ⟨-, hkey, -, -⟩ := h.keys e he
        simp [pieceOf, hkey, (h.values e he).1]
    have hread := hes.1
    rw [hpieces, List.forall₂_map_left_iff] at hread
    refine ((List.forall₂_and_left entries es).mpr ⟨h.keys, hread⟩).imp fun e f hf => ?_
    obtain ⟨⟨-, -, hequals, -⟩, value, hentry, hother, -, hvalue⟩ := hf
    obtain ⟨hkey, rfl⟩ := pieceOf_inj hequals hother hentry
    exact ⟨hkey.symm, hvalue⟩

end Entries

section

variable {entries : List (Text × Text)} {es fs : List (Text × Pattern Schema)}
  (hbuilt : List.Forall₂ (fun e f => f.1 = e.1 ∧ Pattern.ReadPath e.2 f.2) entries es)

include hbuilt

theorem eq_of_singleSegment (hs : ∀ e ∈ entries, SingleSegment e.2)
    (hread : List.Forall₂ (fun e f => f.1 = e.1 ∧ Pattern.ReadFrom e.2 f.2) entries fs) : es = fs := by
  induction hbuilt generalizing fs with
  | nil => exact (List.forall₂_nil_left_iff.mp hread).symm
  | @cons e f entries es hf _ ih =>
    obtain ⟨hfirst, hrest⟩ := List.forall_mem_cons.mp hs
    obtain ⟨g, others, hg, hothers, rfl⟩ := List.forall₂_cons_left_iff.mp hread
    have hkey : f.1 = g.1 := hf.1.trans hg.1.symm
    have hvalue : f.2 = g.2 := Pattern.ReadPath.eq_readFrom hfirst hf.2 hg.2
    rw [Prod.ext hkey hvalue, ih hrest hothers]

theorem singleSegment_of_same
    (hread : List.Forall₂ (fun e f => f.1 = e.1 ∧ Pattern.ReadFrom e.2 f.2) entries es) :
    ∀ e ∈ entries, SingleSegment e.2 := by
  intro e he
  have hboth := List.Forall₂.mp (fun e f hp hr => (⟨hp, hr⟩ : _ ∧ _)) hbuilt hread
  obtain ⟨f, -, ⟨-, hpath⟩, -, hvalue⟩ := exists_of_mem_right hboth.flip he
  obtain ⟨parts, hparts, hconstructed⟩ := hpath.constructedParts 0
  obtain ⟨others, hothers, hparsed⟩ := hvalue.parsedParts hpath 0
  obtain rfl : parts = others := Option.some.inj (hparts.symm.trans hothers)
  exact hconstructed.singleSegment hparsed

/-- A value that is cut, or lost, in one of the blocks shows in what the blocks write. -/
theorem singleSegment_of_render {atEnd : Bool} (h : Entries entries)
    (hread : List.Forall₂ (fun e f => f.1 = e.1 ∧ Pattern.ReadFrom e.2 f.2) entries fs)
    (hkeys : (((query es atEnd).pattern.captures 0 false).map (·.1.key)).Nodup)
    (hsame : ∀ args, (query es atEnd).render args = (query fs atEnd).render args) :
    ∀ e ∈ entries, SingleSegment e.2 := by
  obtain ⟨built, hblock, hconstructed⟩ :=
    Pattern.entryParts_of_values (fun _ _ hp first => hp.constructedParts first) hbuilt 0
  have hpaths : ∀ e ∈ entries, ∃ p : Pattern Schema, Pattern.ReadPath e.2 p := by
    intro e he
    obtain ⟨f, -, -, hf⟩ := exists_of_mem_right hbuilt.flip he
    exact ⟨f.2, hf⟩
  have hvalues : List.Forall₂ (fun e f => f.1 = e.1 ∧
      (∃ p : Pattern Schema, Pattern.ReadPath e.2 p) ∧ Pattern.ReadFrom e.2 f.2) entries fs :=
    ((List.forall₂_and_left entries fs).mpr ⟨hpaths, hread⟩).imp fun e f hf => ⟨hf.2.1, hf.1, hf.2.2⟩
  obtain ⟨read, hothers, hparsed⟩ := Pattern.entryParts_of_values
    (Q := fun value p => (∃ q : Pattern Schema, Pattern.ReadPath value q) ∧ Pattern.ReadFrom value p)
    (fun _ _ hp first => hp.2.parsedParts hp.1.choose_spec first) hvalues 0
  have hsteps := Pattern.layout_of_entryParts hblock
  let cs := stepCaptures false [.query built]
  have hnodup : (cs.map Capture.key).Nodup := by
    have hcaptures : cs = ((query es atEnd).pattern.captures 0 false).map (·.1) := Pattern.captures_of_layout hsteps
    rw [hcaptures, List.map_map]
    exact hkeys
  have hmem : ∀ e ∈ built, ∀ c, .capture c ∈ e.2 → c ∈ cs := by
    intro e he c hc
    simp only [cs, stepCaptures_singleton, Step.captures]
    exact List.mem_flatMap.mpr ⟨e, he, List.mem_flatMap.mpr ⟨_, hc, by simp [Part.captured]⟩⟩
  have hsampled : Sampled (samples cs) := sampled_samples cs
  have hfilled : ∀ e ∈ built, ∀ c, .capture c ∈ e.2 → Table.get? c.key (samples cs) ≠ none := by
    intro e he c hc
    simp [get?_samples hnodup (hmem e he c hc)]
  have hfits : ∀ e ∈ built, ∀ part ∈ e.2, part.Fits (samples cs) := by
    intro e he part hpart
    cases part with
    | literal _ _ => trivial
    | capture c =>
      rw [Part.Fits, get?_samples hnodup (hmem e he c hpart)]
      exact c.fits_sample
  have hwritten := (render_eq_ok_iff (r := query es atEnd) hsteps).mpr (renderRoute_block hfits)
  rw [hsame] at hwritten
  have hroute := (render_eq_ok_iff (r := query fs atEnd) (Pattern.layout_of_entryParts hothers)).mp hwritten
  have hfits' := hsampled.fits_of_renderRoute hroute
  rw [renderRoute_block hfits'] at hroute
  exact hsampled.singleSegment_of_written h.distinct (fun e he => (h.keys e he).2.2.1)
    (fun e he => ⟨(h.keys e he).2.1, (h.values e he).1⟩) hconstructed hparsed hfilled
    (Except.ok.inj hroute).symm

end

/-- A query block that is put together from patterns of values is the one that is read from the entries
where every value is one segment. Otherwise they are not rendered alike. -/
theorem query_agrees_iff {entries : List (Text × Text)} (h : Entries entries) {atEnd : Bool}
    {es : List (Text × Pattern Schema)} {q : Route}
    (hes : entries.mapM (fun e => (Pattern.ofText e.2).map (e.1, ·)) = .ok es)
    (hq : parse ('?' :: Text.join ['&'] (entries.map pieceOf)) atEnd = .ok q) :
    (query es atEnd = q ↔ ∀ e ∈ entries, SingleSegment e.2) ∧
    ((((query es atEnd).pattern.captures 0 false).map (·.1.key)).Nodup →
      (((∀ target, (query es atEnd).accept target = q.accept target) ∧
          ∀ args, (query es atEnd).render args = q.render args) ↔
        ∀ e ∈ entries, SingleSegment e.2)) := by
  have hbuilt := h.readPath hes
  obtain ⟨fs, rfl, hread⟩ := h.exists_readFrom hq
  have hsame : (∀ e ∈ entries, SingleSegment e.2) → query es atEnd = query fs atEnd := fun hs =>
    congrArg (query · atEnd) (eq_of_singleSegment hbuilt hs hread)
  refine ⟨⟨fun heq => ?_, hsame⟩, fun hkeys => ⟨fun hagree => ?_, fun hs => ?_⟩⟩
  · have hentries : es = fs := by
      injection heq with hpattern
      injection hpattern
    exact singleSegment_of_same hbuilt (hentries ▸ hread)
  · exact singleSegment_of_render hbuilt h hread hkeys hagree.2
  · rw [hsame hs]
    exact ⟨fun _ => rfl, fun _ => rfl⟩

/-- A value with a slash, next to one that is a capture. -/
theorem query_agrees_iff_cut :
    let es : List (Text × Pattern Schema) := [("q", .param "q"), ("k", .concat (.literal "a") (.literal "b") false)]
    let q : Route := query [("q", .param "q"), ("k", .literal "a/b")] false
    parse "?q=:q&k=a/b" false = .ok q ∧
      ¬ ((∀ target, (query es false).accept target = q.accept target) ∧
        ∀ args, (query es false).render args = q.render args) := by
  intro es q
  have hentries : Entries [("q", ":q"), ("k", "a/b")] := ⟨by decide, by decide, by decide⟩
  have hes : ([("q", ":q"), ("k", "a/b")] : List (Text × Text)).mapM
      (fun e => (Pattern.ofText e.2).map (e.1, ·)) = .ok es := by rfl
  have hq : parse "?q=:q&k=a/b" false = .ok q := by rfl
  have hiff := (query_agrees_iff hentries hes hq).2 (by decide)
  refine ⟨hq, fun hagree => ?_⟩
  exact absurd (hiff.mp hagree ("k", "a/b") (by simp)) (by decide)

/-- An empty value is the separator as a pattern of its own, and nothing as a segment. -/
theorem empty_value_differs :
    ∃ (p : Pattern Schema) (q : Route), Pattern.ofText [] = .ok p ∧ parse "?k=" false = .ok q ∧
      (query [("k", p)] false).accept "/?k=" = .ok none ∧ q.accept "/?k=" = .ok (some []) ∧
      (query [("k", p)] false).render (.map []) = .ok ("/?k=/" : Text) ∧ q.render (.map []) = .ok ("/" : Text) :=
  ⟨.root, query [("k", .literal [])] false, by rfl, by rfl, by rfl, by rfl, by rfl, by rfl⟩

end Route

end RoutePattern
