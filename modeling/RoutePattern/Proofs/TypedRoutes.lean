import RoutePattern.Proofs.CodecTexts
import RoutePattern.Proofs.Tagging
import RoutePattern.Proofs.VerbatimQuery
import RoutePattern.Proofs.RoundTrip

/-!
Typed captures that come back. A route of one typed capture writes the text of a value into a target and reads
it from there, and the value comes back just where the text means the same in that place.
-/

namespace RoutePattern

namespace Schema

/-- The schema of a route of nothing but a required single capture that a codec decodes. -/
def sole (name : Text) (codec : Codec) : Schema :=
  .route [.attached (field name codec) [.named name false false] (soleKeys name)]

variable {name : Text} {codec : Codec}

theorem exists_text_of_encode_sole {v params : Value}
    (h : (sole name codec).encode (.map [(.text name, v)]) = .ok params) :
    ∃ t, t ≠ [] ∧ codec.encode v = .ok t ∧ params = argumentsOf (soleParams name (some (.one t))) := by
  obtain ⟨own, hown, hshape⟩ := encode_sole_eq_ok.mp h
  obtain ⟨given, made, hgiven, rfl, hmade⟩ := encode_struct_eq_ok.mp hown
  obtain rfl := Value.map.inj hgiven
  obtain ⟨⟨k, u⟩, _, hentry, hnil, rfl⟩ := List.forall₂_cons_left_iff.mp hmade
  obtain rfl := List.forall₂_nil_left_iff.mp hnil
  obtain rfl : k = .text name := hentry.1
  have hconverts := convertsField_sole.mp hentry
  obtain ⟨captured, hcaptured⟩ := exists_captured_of_encode_field hown
  have hkey : (Capture.named name false false).key = .name name := rfl
  obtain ⟨haccepts, rfl⟩ := (checkShape_made hkey hcaptured).mp hshape
  have hu : u = (captured.map Captured.value).getD .null := by
    simpa [Table.ofEntries, Table.putAll, Table.put, Table.get?] using hcaptured
  have hgiven : ∃ t, t ≠ [] ∧ captured = some (.one t) := by
    rcases captured with _ | t | ts
    · cases haccepts
    · refine ⟨t, ?_, rfl⟩
      rintro rfl
      cases haccepts
    · cases ts <;> cases haccepts
  obtain ⟨t, ht, rfl⟩ := hgiven
  obtain rfl : u = .text t := hu
  have hencode : codec.encode v = .ok t := by
    cases hconverts with
    | one _ _ hw =>
      obtain ⟨text, htext, heq⟩ := encodeField_eq_ok.mp hw
      rw [htext, Value.text.inj heq]
  have hone : (some (Captured.one t)).bind Captured.given? = some (.one t) := by
    simp [Captured.given?, ht]
  exact ⟨t, ht, hencode, by rw [hone]⟩

theorem decode_sole_text {t : Text} {u : Value} :
    (sole name codec).decode (argumentsOf (soleParams name (some (.one t)))) = .ok u ↔
      ∃ w, codec.decode t = .ok w ∧ u = .map [(.text name, w)] := by
  have hargs : Value.map (Route.paramEntries (soleParams name (some (.one t)))) =
      argumentsOf (soleParams name (some (.one t))) := rfl
  rw [sole, decode_sole_eq_ok]
  simp only [localize_soleParams, Except.ok.injEq, exists_eq_left', hargs, decode_field_eq_ok]
  constructor
  · rintro (⟨hnone, -⟩ | ⟨own, w, hown, hconverts, rfl⟩)
    · cases hnone
    · obtain rfl := Option.some.inj hown
      cases hconverts with
      | items hitems _ => cases hitems
      | one _ _ hw => exact ⟨w, hw, rfl⟩
  · rintro ⟨w, hw, rfl⟩
    exact .inr ⟨.one t, w, rfl, .one (by simp [Captured.value]) rfl hw, rfl⟩

end Schema

namespace Place

/-- The target that a typed capture writes its text into. -/
def target (text : Text) : Place → Text
  | segment => '/' :: text
  | value key => '/' :: '?' :: pieceOf (key, text)

/-- The key of a query consists of letters. -/
def IsSound : Place → Prop
  | segment => True
  | value key => ∀ c ∈ key, c.isAlpha

-- the instance is spelled out: another one runs through all characters there are
instance : DecidablePred IsSound
  | segment => isTrue trivial
  | value key => List.decidableBAll (fun c : Char => c.isAlpha = true) key

variable {t : Text} (hplain : ∀ c ∈ t, Text.isPlain c)

include hplain

theorem notMem_of_isPlain {x : Char} (hx : Text.isPlain x = false) : x ∉ t := by
  intro hmem
  simp [hplain x hmem] at hx

theorem decodeQueryText_eq_spaced : decodeQueryText t = spaced t := by
  have hpercent : '%' ∉ spaced t := by
    intro hmem
    obtain ⟨c, hc, heq⟩ := List.mem_map.mp hmem
    split at heq
    · cases heq
    · obtain rfl : c = '%' := heq
      exact notMem_of_isPlain hplain rfl hc
  exact percentDecode_of_unescaped [] (by simp) (holdsPercentEscape_of_notMem hpercent)

theorem ofText_target_segment (ht : t ≠ []) : Target.ofText (segment.target t) = ⟨[t], []⟩ := by
  have hslash : '/' ∉ t := notMem_of_isPlain hplain rfl
  have hquestion : '?' ∉ '/' :: t := by simpa using notMem_of_isPlain hplain rfl
  have hhash : '#' ∉ '/' :: t := by simpa using notMem_of_isPlain hplain rfl
  have htarget := Target.ofText_withQuery hquestion hhash List.not_mem_nil
  rw [splitPath_slash_cons, splitPath_of_notMem ht hslash] at htarget
  exact htarget

theorem ofText_target_value {key : Text} (hkey : ∀ c ∈ key, c.isAlpha) :
    Target.ofText ((value key).target t) = ⟨[], [(key, [spaced t])]⟩ := by
  have hequals : '=' ∉ key := notMem_of_isAlpha hkey rfl
  have hhash : '#' ∉ pieceOf (key, t) := by
    simpa [pieceOf] using ⟨notMem_of_isAlpha hkey rfl, notMem_of_isPlain hplain rfl⟩
  have hampersand : '&' ∉ pieceOf (key, t) :=
    ampersand_notMem_pieceOf hkey (notMem_of_isPlain hplain rfl)
  have hpairs : queryPairs (pieceOf (key, t)) = [(key, spaced t)] := by
    have hjoin := @queryPairs_join_pieceOf [(key, t)] (by simpa using hequals) (by simpa using hampersand)
    simpa [Text.join, decode_key hkey, decodeQueryText_eq_spaced hplain] using hjoin
  have hwritten : orRoot (withQuery [] (pieceOf (key, t))) = (value key).target t := by
    simp [withQuery, pieceOf, orRoot, target]
  have htarget := Target.ofText_withQuery List.not_mem_nil List.not_mem_nil hhash
  rw [hpairs, hwritten] at htarget
  exact htarget

end Place

theorem Matcher.accept_singleton {step : Step} {query : Query} {segments : List Text} {params : Params}
    {last : Cursor} (atEnd : Bool) (h : step.run query (.start segments) = some (params, last))
    (hlast : last.isExhausted = true) : (Matcher.mk [step] atEnd).accept segments query = some params := by
  have hsteps : runSteps query (.start segments) [step] = some (params, last) := by
    rw [runSteps, h]
    rfl
  have hrun : (Matcher.mk [step] atEnd).run query (.start segments) = some (params, last) :=
    Matcher.run_eq_some.mpr ⟨hsteps, fun _ => hlast⟩
  rw [accept, hrun]
  rfl

namespace Route

def typedAt (name : Text) (codec : Codec) (atEnd : Bool) : Place → Route
  | .segment => paramWith name codec atEnd
  | .value key => query [(key, (paramWith name codec atEnd).pattern)] atEnd

theorem schema_typedAt (name : Text) (codec : Codec) (atEnd : Bool) (place : Place) :
    (typedAt name codec atEnd place).schema = .sole name codec := by
  cases place <;> rfl

section

variable {t : Text} (ht : t ≠ []) (hplain : ∀ c ∈ t, Text.isPlain c)

include ht

theorem fits_sole (name : Text) :
    (Part.capture (.named name false false)).Fits (soleParams name (some (.one t))) := by
  show (Capture.named name false false).Fits (Table.get? (.name name) (soleParams name (some (.one t))))
  rw [get?_soleParams]
  exact ⟨rfl, ht⟩

include hplain

theorem render_typedAt (name : Text) (codec : Codec) (atEnd : Bool) (place : Place) :
    (typedAt name codec atEnd place).render (argumentsOf (soleParams name (some (.one t)))) =
      .ok (place.target t) := by
  have hfits := fits_sole ht name
  cases place with
  | segment =>
    have htrim : Text.trim '/' t = t := Text.trim_of_notMem (Place.notMem_of_isPlain hplain rfl)
    have htext : (Part.capture (.named name false false)).text (soleParams name (some (.one t))) = t := by
      simp [Part.text, Capture.named, get?_soleParams, Captured.texts, Text.join]
    have hrenderer : (typedAt name codec atEnd .segment).renderer =
        .ok ⟨[.single (.capture (.named name false false))], false⟩ := rfl
    simp only [render, hrenderer, bind, Except.bind, argumentsOf, Renderer.run_map]
    rw [← argumentsOf]
    simp [renderRoute, renderSteps, renderPaths, Step.render, renderPart_eq hfits, htext, renderLastQuery,
      withQuery, Except.map, bind, Except.bind, pure, Except.pure, joinPath_singleton, htrim, ht, orRoot,
      Except.mapError, Place.target]
  | value key =>
    have hrenderer : (typedAt name codec atEnd (.value key)).renderer =
        .ok ⟨[.query [(key, [.capture (.named name false false)])]], false⟩ := rfl
    have hquery : renderQuery (argumentsOf (soleParams name (some (.one t))))
        [(key, [.capture (.named name false false)])] = .ok [pieceOf (key, t)] := by
      rw [renderQuery_eq (by simpa using hfits)]
      simp [entryPieces, entryTexts, Part.values, Capture.named, get?_soleParams, Captured.texts]
    simp only [render, hrenderer, bind, Except.bind, argumentsOf, Renderer.run_map]
    rw [← argumentsOf]
    simp [renderRoute, renderSteps, renderPaths, Step.render, hquery, renderLastQuery,
      withQuery, Except.map, bind, Except.bind, pure, Except.pure, orRoot,
      Except.mapError, Place.target, joinPath, Text.join, pieceOf]

theorem accept_typedAt (name : Text) (codec : Codec) (atEnd : Bool) {place : Place}
    (hplace : place.IsSound) :
    (typedAt name codec atEnd place).accept (place.target t) =
      .ok (some (soleParams name (some (.one (place.read t))))) := by
  cases place with
  | segment =>
    have hmatcher : (typedAt name codec atEnd .segment).matcher =
        .ok ⟨[.single (.capture (.named name false false))], atEnd⟩ := rfl
    have hanswer : (Part.capture (.named name false false)).answer (soleParams name (some (.one t))) =
        soleParams name (some (.one t)) := by
      simp [Part.answer, Capture.named, soleParams]
    have hcapture : matchCapture (.named name false false) (.start [t]) =
        some (soleParams name (some (.one t)), .behind [t] []) := by
      have hget := get?_soleParams name (some (.one t))
      have hfits : (Capture.named name false false).Fits (some (.one t)) := ⟨rfl, ht⟩
      have hcons := @matchCapture_cons _ (.named name false false) t [] [] [] _ hget hfits rfl (by simp)
      rw [hanswer] at hcons
      exact hcons
    have hstep : Step.run [] (.start [t]) (.single (.capture (.named name false false))) =
        some (soleParams name (some (.one t)), .behind [t] []) := hcapture
    have haccept := Matcher.accept_singleton atEnd hstep (Cursor.isExhausted_behind [t])
    rw [accept, hmatcher, Except.map, Place.ofText_target_segment hplain ht]
    exact congrArg Except.ok haccept
  | value key =>
    have hmatcher : (typedAt name codec atEnd (.value key)).matcher =
        .ok ⟨[.query [(key, [.capture (.named name false false)])]], atEnd⟩ := rfl
    have hne : spaced t ≠ [] := by simpa [spaced] using ht
    have hquery : matchQuery [(key, [spaced t])] [(key, [.capture (.named name false false)])] =
        some (soleParams name (some (.one (spaced t)))) := by
      have hbodies : [spaced t].mapM (Text.after? []) = some [spaced t] := by
        simpa using mapM_after?_append [] [spaced t]
      simp [matchQuery, matchEntry, matchValues, Query.all, Table.get?, Capture.named, hne, hbodies,
        soleParams, Table.putAll]
    have hstep : Step.run [(key, [spaced t])] (.start [])
        (.query [(key, [.capture (.named name false false)])]) =
          some (soleParams name (some (.one (spaced t))), .behind [] []) := by
      rw [Step.run, hquery]
      rfl
    have haccept := Matcher.accept_singleton atEnd hstep (Cursor.isExhausted_behind [])
    rw [accept, hmatcher, Except.map, Place.ofText_target_value hplain hplace]
    exact congrArg Except.ok haccept

theorem decode_typedAt_iff (name : Text) (codec : Codec) (atEnd : Bool) {place : Place}
    (hplace : place.IsSound) {u : Value} :
    (typedAt name codec atEnd place).decode (place.target t) = .ok (.ok u) ↔
      ∃ w, codec.decode (place.read t) = .ok w ∧ u = .map [(.text name, w)] := by
  rw [decode_eq_ok_iff, accept_typedAt ht hplain name codec atEnd hplace, schema_typedAt]
  simp only [Except.ok.injEq, Option.some.injEq, exists_eq_left', Schema.decode_sole_text]

end

/-- What a typed capture writes for a value it reads back with that value's text just where the codec reads
that text, and means the same by it in the place where it stands. -/
theorem typed_reads_back_iff {kind : Text} {codec : Codec} (hkind : kind ∈ Codec.exactKinds)
    (hcodec : Registry.standard.find kind = .ok codec) (name : Text) (atEnd : Bool) {place : Place}
    (hplace : place.IsSound) {v : Value} {s : Text}
    (hs : (typedAt name codec atEnd place).encode (.map [(.text name, v)]) = .ok (.ok s)) :
    ∃ t, codec.encode v = .ok t ∧
      ((∃ w, codec.decode t = .ok w ∧
          (typedAt name codec atEnd place).decode s = .ok (.ok (.map [(.text name, w)]))) ↔
        place.Holds kind v) := by
  have hlegible := Codec.legible_standard hkind hcodec
  obtain ⟨params, hparams, hrender⟩ := encode_eq_ok_iff.mp hs
  rw [schema_typedAt] at hparams
  obtain ⟨t, ht, hencode, rfl⟩ := Schema.exists_text_of_encode_sole hparams
  refine ⟨t, hencode, ?_⟩
  rw [← hlegible.back place hencode]
  by_cases hread : ∃ w, codec.decode t = .ok w
  · obtain ⟨w, hw⟩ := hread
    have hplain := hlegible.plain hencode hw
    rw [render_typedAt ht hplain name codec atEnd place] at hrender
    obtain rfl := Except.ok.inj hrender
    refine exists_congr fun w => and_congr_right fun _ => ?_
    rw [decode_typedAt_iff ht hplain name codec atEnd hplace]
    constructor
    · rintro ⟨x, hx, heq⟩
      obtain rfl : w = x := by simpa using heq
      exact hx
    · intro hx
      exact ⟨w, hx, rfl⟩
  · constructor <;> rintro ⟨w, hw, -⟩ <;> exact absurd ⟨w, hw⟩ hread

/-- Small numbers come back from a query, exponents and all. -/
theorem typed_reads_back_small :
    let v : Value := .decimal (.finite true 125 (-9))
    let r := typedAt "x" .decimal true (.value "q")
    ("decimal".toList ∈ Codec.exactKinds) ∧ Registry.standard.find "decimal" = .ok .decimal ∧
      (Place.value "q").IsSound ∧ r.encode (.map [(.text "x", v)]) = .ok (.ok "/?q=-1.25E-7") ∧
      Codec.decimal.encode v = .ok "-1.25E-7" ∧
      ∃ w, Codec.decimal.decode "-1.25E-7" = .ok w ∧
        r.decode "/?q=-1.25E-7" = .ok (.ok (.map [(.text "x", w)])) := by
  intro v r
  have hkind : "decimal".toList ∈ Codec.exactKinds := by decide
  have hcodec : Registry.standard.find "decimal" = .ok .decimal := by rfl
  have hplace : (Place.value "q").IsSound := by decide
  have hs : r.encode (.map [(.text "x", v)]) = .ok (.ok "/?q=-1.25E-7") := by rfl
  have ht : Codec.decimal.encode v = .ok "-1.25E-7" := by rfl
  obtain ⟨t, hencode, hback⟩ := typed_reads_back_iff hkind hcodec "x" true hplace hs
  obtain rfl := Except.ok.inj (ht.symm.trans hencode)
  exact ⟨hkind, hcodec, hplace, hs, ht, hback.mpr fun _ => ⟨by decide, .inr (by decide)⟩⟩

/-- In a query the plus sign of an exponent is read as a space. -/
theorem exponent_not_read_back :
    let v : Value := .decimal (.finite false 1 5)
    let r := typedAt "x" .decimal true (.value "q")
    r.encode (.map [(.text "x", v)]) = .ok (.ok "/?q=1E+5") ∧ Codec.decimal.encode v = .ok "1E+5" ∧
      Codec.decimal.decode "1E+5" = .ok v ∧ ∀ u, r.decode "/?q=1E+5" ≠ .ok (.ok u) := by
  intro v r
  refine ⟨by rfl, by rfl, by rfl, fun u hu => ?_⟩
  have htens : (Decimal.finite false 1 5).Tens := by decide
  have hplain : ∀ c ∈ ("1E+5" : Text), Text.isPlain c := List.all_eq_true.mp (by decide)
  have hplace : (Place.value "q").IsSound := by decide
  obtain ⟨w, hw, -⟩ := (decode_typedAt_iff (by decide) hplain "x" .decimal true hplace).mp hu
  exact htens.decode_spaced hw

end Route

end RoutePattern
