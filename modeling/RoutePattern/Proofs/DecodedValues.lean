import RoutePattern.Proofs.CodecTexts
import RoutePattern.Proofs.OuterStructs

/-!
Decoded values encoded again. Where codecs write what they read in a way that they read alike, the schema of a
route gives back the keys that were captured, and values that decode alike.
-/

namespace RoutePattern

/-- A value that the codec reads is a single one; the codec writes it as some text, and reads that text as the
same value. -/
def Codec.IsLawful (c : Codec) : Prop :=
  ∀ raw v, raw ≠ [] → c.decode raw = .ok v →
    v ≠ .null ∧ v.items? = none ∧ ∃ t, c.encode v = .ok t ∧ t ≠ [] ∧ c.decode t = .ok v

theorem Codec.isLawful_text : Codec.text.IsLawful := by
  intro raw v hne h
  obtain rfl := Except.ok.inj h
  exact ⟨nofun, rfl, raw, rfl, hne, rfl⟩

theorem Codec.isLawful_bool : Codec.bool.IsLawful := by
  intro raw v _ h
  have hbool : ∃ b, v = .bool b := by
    have h : decodeBool raw = .ok v := h
    simp only [decodeBool] at h
    split at h
    · exact ⟨true, (Except.ok.inj h).symm⟩
    · split at h
      · exact ⟨false, (Except.ok.inj h).symm⟩
      · cases h
  obtain ⟨b, rfl⟩ := hbool
  cases b
  · exact ⟨by simp, rfl, "false", rfl, by decide, by rfl⟩
  · exact ⟨by simp, rfl, "true", rfl, by decide, by rfl⟩

def Value.isEmptyList : Value → Bool
  | list vs => vs.isEmpty
  | _ => false

theorem isEmptyList_captured (captured : Captured) :
    captured.value.isEmptyList = (captured == .many []) := by
  cases captured with
  | one t => rfl
  | many ts => cases ts <;> rfl

namespace Schema

def capturedField (entry : Key × Captured) : Value × Value := (entry.1.value, entry.2.value)

/-- A field that was decoded from what was captured, and the one that it is encoded to. -/
structure Returns (fields : Table Value Codec) (given : Key × Captured) (made : Value × Value)
    (own : Key × Captured) : Prop where
  key : own.1 = given.1
  fits : ∀ c : Capture, c.Fits (some given.2) → c.Fits (some own.2)
  empty : (own.2 == .many []) = (given.2 == .many [])
  emptyMade : made.2.isEmptyList = (given.2 == .many [])
  encoded : ConvertsField fields encodeField made (capturedField own)
  decoded : ConvertsField fields Codec.apply (capturedField own) made

section

variable {codec : Codec} (hcodec : codec.IsLawful)

include hcodec

theorem exists_texts {ts : List Text} {ws : List Value} (hts : ∀ t ∈ ts, t ≠ [])
    (h : List.Forall₂ (fun v w => codec.apply v = .ok w) (ts.map .text) ws) :
    ∃ own : List Text, (∀ t ∈ own, t ≠ []) ∧ own.length = ts.length ∧ ws.length = ts.length ∧
      List.Forall₂ (fun v w => encodeField codec v = .ok w) ws (own.map .text) ∧
      List.Forall₂ (fun v w => codec.apply v = .ok w) (own.map .text) ws := by
  induction ts generalizing ws with
  | nil =>
    obtain rfl := List.forall₂_nil_left_iff.mp h
    exact ⟨[], by simp, rfl, rfl, .nil, .nil⟩
  | cons t rest ih =>
    obtain ⟨ht, hrest⟩ := List.forall_mem_cons.mp hts
    obtain ⟨w, others, hw, hothers, rfl⟩ := List.forall₂_cons_left_iff.mp h
    obtain ⟨own, hown, hlength, hmade, hencoded, hdecoded⟩ := ih hrest hothers
    obtain ⟨-, -, s, hs, hne, hread⟩ := hcodec t w ht hw
    have hencode : encodeField codec w = .ok (.text s) := by rw [encodeField, hs]; rfl
    have hdecode : codec.apply (.text s) = .ok w := hread
    exact ⟨s :: own, List.forall_mem_cons.mpr ⟨hne, hown⟩, by simp [hlength], by simp [hmade],
      .cons hencode hencoded, .cons hdecode hdecoded⟩

/-- What a codec makes of what was captured, it writes as something of the same shape that it reads alike. -/
theorem exists_captured {c : Capture} {captured : Captured} {w : Value} (hfits : c.Fits (some captured))
    (h : Converts codec.apply captured.value w) :
    ∃ own : Captured, (∀ d : Capture, d.Fits (some captured) → d.Fits (some own)) ∧
      (own == .many []) = (captured == .many []) ∧ w.isEmptyList = (captured == .many []) ∧
      Converts (encodeField codec) w own.value ∧ Converts codec.apply own.value w := by
  cases captured with
  | one t =>
    cases h with
    | items hitems _ => cases hitems
    | one _ _ hw =>
      obtain ⟨hnull, hitems, s, hs, hne, hread⟩ := hcodec t w hfits.2 hw
      have hencode : encodeField codec w = .ok (.text s) := by rw [encodeField, hs]; rfl
      have hempty : w.isEmptyList = false := by
        cases w with
        | list _ => cases hitems
        | _ => rfl
      exact ⟨.one s, fun d hd => ⟨hd.1, hne⟩, rfl, hempty, .one hnull hitems hencode,
        .one nofun rfl hread⟩
  | many ts =>
    cases h with
    | one _ hone _ => cases hone
    | @items _ vs ws hitems hws =>
      obtain rfl := Option.some.inj hitems
      obtain ⟨own, hown, hlength, hmade, hencoded, hdecoded⟩ := exists_texts hcodec hfits.2.1 hws
      have hnil : own = [] ↔ ts = [] := by
        rw [← List.length_eq_zero_iff, ← List.length_eq_zero_iff, hlength]
      have hmadeNil : ws = [] ↔ ts = [] := by
        rw [← List.length_eq_zero_iff, ← List.length_eq_zero_iff, hmade]
      refine ⟨.many own, fun d hd => ⟨hd.1, hown, fun h => hd.2.2 (hnil.mp h)⟩, ?_, ?_,
        .items rfl hencoded, .items rfl hdecoded⟩
      · rw [Bool.eq_iff_iff]
        simp [hnil]
      · rw [Bool.eq_iff_iff]
        simp [Value.isEmptyList, hmadeNil]

end

theorem exists_returns {fields : Table Value Codec} (hfields : ∀ e ∈ fields, e.2.IsLawful)
    {c : Capture} {given : Key × Captured} {made : Value × Value} (hfits : c.Fits (some given.2))
    (h : ConvertsField fields Codec.apply (capturedField given) made) :
    ∃ own, Returns fields given made own := by
  obtain ⟨key, captured⟩ := given
  obtain ⟨k, w⟩ := made
  obtain ⟨hkey, h⟩ := h
  obtain rfl : k = key.value := hkey
  cases hcodec : Table.get? key.value fields with
  | none =>
    simp only [capturedField, hcodec] at h
    subst h
    exact ⟨(key, captured), rfl, fun _ => id, rfl, isEmptyList_captured captured,
      ⟨rfl, by simp [capturedField, hcodec]⟩, ⟨rfl, by simp [capturedField, hcodec]⟩⟩
  | some codec =>
    simp only [capturedField, hcodec] at h
    obtain ⟨e, he⟩ := Table.exists_mem_of_get? hcodec
    obtain ⟨own, hown, hempty, hmade, hencoded, hdecoded⟩ := exists_captured (hfields _ he) hfits h
    exact ⟨(key, own), rfl, hown, hempty, hmade, ⟨rfl, by simpa [capturedField, hcodec] using hencoded⟩,
      ⟨rfl, by simpa [capturedField, hcodec] using hdecoded⟩⟩

/-- Fields that were decoded from what was captured, and those that they are encoded to. -/
inductive Returned (fields : Table Value Codec) : Params → Table Value Value → Params → Prop where
  | nil : Returned fields [] [] []
  | cons {given own : Key × Captured} {made : Value × Value} {params owns : Params}
      {entries : Table Value Value} (hfirst : Returns fields given made own)
      (hrest : Returned fields params entries owns) :
      Returned fields (given :: params) (made :: entries) (own :: owns)

theorem exists_returned {fields : Table Value Codec} (hfields : ∀ e ∈ fields, e.2.IsLawful)
    {cs : List Capture} {params : Params} (hgiven : Given cs params) {entries : Table Value Value}
    (h : List.Forall₂ (ConvertsField fields Codec.apply) (Route.paramEntries params) entries) :
    ∃ own, Returned fields params entries own ∧ Given cs own := by
  induction hgiven generalizing entries with
  | nil =>
    obtain rfl := List.forall₂_nil_left_iff.mp h
    exact ⟨[], .nil, .nil⟩
  | @cons c captured cs params hfits hrest ih =>
    cases captured with
    | none =>
      obtain ⟨own, hreturned, hown⟩ := ih h
      exact ⟨own, hreturned, @Given.cons c none cs own hfits hown⟩
    | some captured =>
      have hentries : Route.paramEntries ((some captured).toList.map (c.key, ·) ++ params) =
          capturedField (c.key, captured) :: Route.paramEntries params := by
        simp only [paramEntries_eq_map, Option.toList_some, List.map_cons, List.map_nil,
          List.singleton_append]
        rfl
      rw [hentries] at h
      obtain ⟨made, others, hmade, hothers, rfl⟩ := List.forall₂_cons_left_iff.mp h
      obtain ⟨own, hreturned, hown⟩ := ih hothers
      obtain ⟨⟨key, text⟩, hfirst⟩ := exists_returns hfields hfits hmade
      obtain rfl : key = c.key := hfirst.key
      exact ⟨_, .cons hfirst hreturned, @Given.cons c (some text) cs _ (hfirst.fits c hfits) hown⟩

namespace Returned

variable {fields : Table Value Codec} {params own : Params} {entries : Table Value Value}
  (h : Returned fields params entries own)

include h

theorem keys_withoutEmpty : (withoutEmpty own).map (·.1) = (withoutEmpty params).map (·.1) := by
  induction h with
  | nil => rfl
  | @cons given own made params owns entries hfirst _ ih =>
    simp only [withoutEmpty, List.filter_cons, bne, hfirst.empty] at ih ⊢
    split
    · rw [List.map_cons, List.map_cons, ih, hfirst.key]
    · exact ih

theorem encoded : List.Forall₂ (ConvertsField fields encodeField) entries (Route.paramEntries own) := by
  rw [paramEntries_eq_map]
  induction h with
  | nil => exact .nil
  | cons hfirst _ ih => exact .cons hfirst.encoded ih

/-- What is left without empty lists decodes to what was decoded, without empty lists. -/
theorem decoded :
    List.Forall₂ (ConvertsField fields Codec.apply) (Route.paramEntries (withoutEmpty own))
      (entries.filter fun entry => !entry.2.isEmptyList) := by
  rw [paramEntries_eq_map]
  induction h with
  | nil => exact .nil
  | @cons given own made params owns entries hfirst _ ih =>
    simp only [withoutEmpty, List.filter_cons, bne, hfirst.empty, hfirst.emptyMade] at ih ⊢
    split
    · exact .cons hfirst.decoded ih
    · exact ih

end Returned

end Schema

namespace Pattern

open Schema

/-- Encoding undoes decoding. Where the outermost schemas of a pattern are structs of lawful codecs, what a
match decodes to is encoded. That gives the keys of the match whose values are no empty lists, and it decodes
to the same value without its empty lists. -/
theorem encode_decoded {p : Pattern Schema} {atEnd : Bool} {m : Matcher} (hm : p.matcher atEnd = .ok m)
    (hs : ∀ s ∈ p.outerSchemas, s.IsStructOver Codec.IsLawful)
    (hkeys : ((p.captures 0 false).map (·.1.key)).Nodup) {query : Query} {cursor last : Cursor}
    {params : Params} (h : m.run query cursor = some (params, last)) {v : Value}
    (hv : p.schema.decode (argumentsOf params) = .ok v) :
    ∃ entries own, v = .map entries ∧ p.schema.encode v = .ok (argumentsOf own) ∧
      own.map (·.1) = (withoutEmpty params).map (·.1) ∧
      p.schema.decode (argumentsOf own) =
        .ok (.map (entries.filter fun entry => !entry.2.isEmptyList)) := by
  have hready := ready_of_layout (layout_of_matcher hm).1
  have hparts := structParts hready hs hkeys
  have hsignatures := hready.signatures_schema
  have hgiven : Given p.schema.captures params := (given_run hm hkeys h).of_signatures (by
    rw [List.map_map]
    exact hsignatures.symm)
  have hroute : p.schema.captures.map Capture.key =
      (p.schemaItems 0 false false).flatMap SchemaItem.routeKeys := List.map_flatMap
  have hnodup : (p.schema.captures.map Capture.key).Nodup := hroute ▸ hparts.keys
  have horder := hroute ▸ inOrder_paramEntries hgiven
  have hlawful : ∀ e ∈ p.schema.declared, e.2.IsLawful := by
    intro e he
    obtain ⟨key, -, he⟩ := List.mem_flatMap.mp he
    obtain ⟨codec, hcodec, rfl⟩ := Option.map_eq_some_iff.mp (Option.mem_toList.mp he)
    exact of_codecFor hparts hcodec
  have hstruct : p.schema.decode (argumentsOf params) = _ := hparts.decode_eq [] horder
  obtain ⟨_, entries, hparams, rfl, hconverts⟩ := decode_struct_eq_ok.mp (hstruct ▸ hv)
  obtain rfl := Value.map.inj hparams
  obtain ⟨own, hreturned, hown⟩ := exists_returned hlawful hgiven hconverts
  refine ⟨entries, withoutEmpty own, rfl, ?_, hreturned.keys_withoutEmpty, ?_⟩
  · have hentries : InOrder ((p.schemaItems 0 false false).flatMap SchemaItem.routeKeys) entries := by
      obtain ⟨keys, hsub, hown⟩ := horder
      exact ⟨keys, hsub, (keys_of_converts hconverts).trans hown⟩
    have hencode : (Schema.struct [] p.schema.declared).encode (.map entries) = .ok (argumentsOf own) :=
      encode_struct_eq_ok.mpr ⟨entries, _, rfl, rfl, hreturned.encoded⟩
    have hshape := checkShape_given hown hnodup
    refine (hparts.encode_eq [] hentries).trans ?_
    exact (congrArg (Except.bind · _) hencode).trans hshape
  · have hleft : InOrder ((p.schemaItems 0 false false).flatMap SchemaItem.routeKeys)
        (Route.paramEntries (withoutEmpty own)) := by
      refine ⟨(withoutEmpty own).map (·.1), ?_, by simp [paramEntries_eq_map, Function.comp_def]⟩
      exact hroute ▸ (List.filter_sublist.map _).trans hown.keys_sublist
    refine (hparts.decode_eq [] hleft).trans ?_
    exact decode_struct_eq_ok.mpr ⟨_, _, rfl, rfl, hreturned.decoded⟩

/-- What was written in other words is encoded in its own, and a repetition of nothing is left out. -/
theorem encode_decoded_other_words :
    let first : Pattern Schema := .withSchema .unnamed (.struct "First" [(.int 0, .bool)])
    let others : Pattern Schema :=
      .withSchema (.modified .zeroOrMore .unnamed) (.struct "Others" [(.int 0, .text)])
    let p : Pattern Schema := .concat first others false
    let v : Value := .map [(.int 0, .bool true), (.int 1, .list [])]
    p.schema.decode (argumentsOf [(.index 0, .one "yes"), (.index 1, .many [])]) = .ok v ∧
      ∃ own, p.schema.encode v = .ok (argumentsOf own) ∧ own.map (·.1) = [.index 0] ∧
        p.schema.decode (argumentsOf own) = .ok (.map [(.int 0, .bool true)]) := by
  intro first others p v
  let params : Params := [(.index 0, .one "yes"), (.index 1, .many [])]
  obtain ⟨m, hm⟩ : ∃ m, p.matcher true = .ok m := ⟨_, rfl⟩
  have hs : ∀ s ∈ p.outerSchemas, s.IsStructOver Codec.IsLawful :=
    List.forall_mem_cons.mpr ⟨List.forall_mem_singleton.mpr Codec.isLawful_bool,
      List.forall_mem_singleton.mpr (List.forall_mem_singleton.mpr Codec.isLawful_text)⟩
  obtain ⟨last, hrun⟩ : ∃ last, m.run [] (.start ["yes".toList]) = some (params, last) := by
    obtain rfl := Except.ok.inj hm
    exact ⟨_, rfl⟩
  have hv : p.schema.decode (argumentsOf params) = .ok v := by with_unfolding_all rfl
  obtain ⟨entries, own, heq, hencode, hkeys, hdecode⟩ := encode_decoded hm hs (by decide) hrun hv
  obtain rfl := Value.map.inj heq
  exact ⟨hv, own, hencode, hkeys, hdecode⟩

end Pattern

end RoutePattern
