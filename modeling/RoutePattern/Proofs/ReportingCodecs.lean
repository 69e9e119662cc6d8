import RoutePattern.Proofs.Codecs
import RoutePattern.Schema

/-!
Codecs whose refusals are reported: a text that is not read and a value that is not written give an issue and
end nothing. All the standard codecs are such.
-/

namespace RoutePattern

namespace Registry

/-- What holds of each of the standard codecs holds of all that are found among them. -/
theorem of_standard {P : Codec → Prop} (h : ∀ c ∈ [Codec.text, .int, .float, .decimal, .bool, .uuid, .ulid,
    .date, .slug, .base64url], P c) {name : Text} {c : Codec} (hc : standard.find name = .ok c) : P c := by
  have hmem : ∃ key, (key, c) ∈ standard := by
    unfold find at hc
    split at hc
    next d hget =>
      obtain rfl := Except.ok.inj hc
      exact Table.exists_mem_of_get? hget
    next => cases hc
  obtain ⟨key, hmem⟩ := hmem
  have hcodecs : standard.map (·.2) = [Codec.text, .int, .float, .decimal, .bool, .uuid, .ulid, .date, .slug,
      .base64url] := by rfl
  exact h c (hcodecs ▸ List.mem_map_of_mem hmem)

end Registry

namespace Codec

open Schema (isReported)

/-- A text that the codec does not read is reported. -/
def ReportsRead (c : Codec) : Prop := ∀ raw r, c.decode raw = .error r → isReported r

/-- A value that the codec does not write is reported. -/
def ReportsWrite (c : Codec) : Prop := ∀ v r, c.encode v = .error r → isReported r

theorem reported_of_map {α β : Type} {x : Except Refusal α} {f : α → β} {r : Refusal}
    (hx : ∀ s, x = .error s → isReported s) (h : x.map f = .error r) : isReported r :=
  hx r (Except.map_eq_error.mp h)

theorem reported_of_mapError {ε α : Type} {x : Except ε α} {f : ε → Refusal} {r : Refusal}
    (hf : ∀ e, isReported (f e)) (h : x.mapError f = .error r) : isReported r := by
  obtain ⟨e, -, rfl⟩ := Except.mapError_eq_error.mp h
  exact hf e

theorem reported_of_bind {α β : Type} {x : Except Refusal α} {f : α → Except Refusal β} {r : Refusal}
    (hx : ∀ s, x = .error s → isReported s) (hf : ∀ a s, f a = .error s → isReported s)
    (h : x >>= f = .error r) : isReported r := by
  rcases Except.bind_eq_error.mp h with h | ⟨a, -, h⟩
  · exact hx r h
  · exact hf a r h

theorem reported_readUuid {raw : Text} {r : Refusal} (h : readUuid raw = .error r) : isReported r :=
  reported_of_mapError (fun _ => rfl) h

theorem reported_readUlid {raw : Text} {r : Refusal} (h : readUlid raw = .error r) : isReported r := by
  simp only [readUlid] at h
  split at h
  · cases h
  · obtain rfl := Except.error.inj h
    rfl

theorem reported_readSlug {raw : Text} {r : Refusal} (h : readSlug raw = .error r) : isReported r := by
  unfold readSlug at h
  split at h
  · cases h
  · obtain rfl := Except.error.inj h
    rfl

theorem reportsRead_int : int.ReportsRead := by
  intro raw r h
  have h : decodeInt raw = .error r := h
  unfold decodeInt at h
  split at h
  · exact reported_of_map (fun _ => reported_of_mapError fun _ => rfl) h
  · obtain rfl := Except.error.inj h
    rfl

theorem reportsRead_float : float.ReportsRead := by
  intro raw r h
  have h : decodeFloat raw = .error r := h
  unfold decodeFloat finiteFloat at h
  split at h
  · split at h
    · cases h
    · obtain rfl := Except.error.inj h
      rfl
  · obtain rfl := Except.error.inj h
    rfl

theorem reportsRead_decimal : decimal.ReportsRead := by
  intro raw r h
  have h : decodeDecimal raw = .error r := h
  unfold decodeDecimal at h
  split at h
  · split at h
    · cases h
    · obtain rfl := Except.error.inj h
      rfl
  · obtain rfl := Except.error.inj h
    rfl

theorem reportsRead_bool : bool.ReportsRead := by
  intro raw r h
  have h : decodeBool raw = .error r := h
  simp only [decodeBool] at h
  split at h
  · cases h
  · split at h
    · cases h
    · obtain rfl := Except.error.inj h
      rfl

theorem reportsRead_date : date.ReportsRead := by
  intro raw r h
  exact reported_of_map (fun _ => reported_of_mapError fun _ => rfl) h

theorem reportsRead_base64url : base64url.ReportsRead := by
  intro raw r h
  have h : decodeBase64 raw = .error r := h
  unfold decodeBase64 at h
  split at h
  · cases h
  · obtain rfl := Except.error.inj h
    rfl
  · obtain rfl := Except.error.inj h
    rfl

theorem reportsRead_standard {name : Text} {c : Codec} (h : Registry.standard.find name = .ok c) :
    c.ReportsRead := by
  refine Registry.of_standard (fun c hc => ?_) h
  simp only [List.mem_cons, List.not_mem_nil, or_false] at hc
  rcases hc with rfl | rfl | rfl | rfl | rfl | rfl | rfl | rfl | rfl | rfl
  · exact fun _ _ => nofun
  · exact reportsRead_int
  · exact reportsRead_float
  · exact reportsRead_decimal
  · exact reportsRead_bool
  · exact fun _ _ => reported_of_map fun _ => reported_readUuid
  · exact fun _ _ => reported_of_map fun _ => reported_readUlid
  · exact reportsRead_date
  · exact fun _ _ => reported_of_map fun _ => reported_readSlug
  · exact reportsRead_base64url

theorem reported_digits {n : Int} {r : Refusal} (h : (Whole.write n).mapError Refusal.digits = .error r) :
    isReported r :=
  reported_of_mapError (fun _ => rfl) h

theorem reported_textOf {v : Value} {r : Refusal} (h : v.textOf = .error r) : isReported r :=
  reported_of_mapError (fun _ => rfl) h

theorem reported_wrongKind {α : Type} {wanted : String} {v : Value} {r : Refusal}
    (h : (wrongKind wanted v : Except Refusal α) = .error r) : isReported r := by
  obtain rfl := Except.error.inj h
  rfl

theorem reported_encodeText {v : Value} {r : Refusal} (h : encodeText v = .error r) : isReported r := by
  unfold encodeText at h
  split at h
  · cases h
  · exact reported_wrongKind h

theorem reportsWrite_int : int.ReportsWrite := by
  intro v r h
  have h : encodeInt v = .error r := h
  unfold encodeInt at h
  split at h
  · exact reported_digits h
  · exact reported_wrongKind h

theorem reportsWrite_float : float.ReportsWrite := by
  intro v r h
  have h : encodeFloat v = .error r := h
  unfold encodeFloat at h
  split at h
  · cases h
  · exact reported_digits h
  · exact reported_wrongKind h

theorem reportsWrite_decimal : decimal.ReportsWrite := by
  intro v r h
  have h : encodeDecimal v = .error r := h
  unfold encodeDecimal at h
  split at h
  · cases h
  · exact reported_digits h
  · exact reported_wrongKind h

theorem reportsWrite_bool : bool.ReportsWrite := by
  intro v r h
  have h : encodeBool v = .error r := h
  unfold encodeBool at h
  split at h
  · cases h
  · exact reported_wrongKind h

theorem reportsWrite_uuid : uuid.ReportsWrite := by
  intro v r h
  have h : encodeUuid v = .error r := h
  unfold encodeUuid at h
  split at h
  · cases h
  · refine reported_of_bind (fun _ => reported_textOf) (fun _ _ => ?_) h
    exact reported_of_bind (fun _ => reported_readUuid) fun _ _ => nofun

theorem reportsWrite_date : date.ReportsWrite := by
  intro v r h
  have h : encodeDate v = .error r := h
  unfold encodeDate at h
  split at h
  · cases h
  · exact reported_wrongKind h

theorem reportsWrite_base64url : base64url.ReportsWrite := by
  intro v r h
  have h : encodeBase64 v = .error r := h
  unfold encodeBase64 at h
  split at h
  · cases h
  · cases h
  · exact reported_wrongKind h

theorem reportsWrite_standard {name : Text} {c : Codec} (h : Registry.standard.find name = .ok c) :
    c.ReportsWrite := by
  refine Registry.of_standard (fun c hc => ?_) h
  simp only [List.mem_cons, List.not_mem_nil, or_false] at hc
  rcases hc with rfl | rfl | rfl | rfl | rfl | rfl | rfl | rfl | rfl | rfl
  · exact fun _ _ => reported_encodeText
  · exact reportsWrite_int
  · exact reportsWrite_float
  · exact reportsWrite_decimal
  · exact reportsWrite_bool
  · exact reportsWrite_uuid
  · exact fun _ _ => reported_of_bind (fun _ => reported_encodeText) fun _ _ => reported_readUlid
  · exact reportsWrite_date
  · exact fun _ _ => reported_of_bind (fun _ => reported_encodeText) fun _ _ => reported_readSlug
  · exact reportsWrite_base64url

end Codec

end RoutePattern
