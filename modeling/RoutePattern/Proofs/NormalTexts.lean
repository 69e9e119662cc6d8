import RoutePattern.Proofs.CodecTexts

/-!
Texts in normal form. What a codec reads from any spelling of a value it writes in one way, and this text it
reads as the same value.
-/

namespace RoutePattern

theorem Text.digit_lt_of_isDigit {c : Char} (h : c.isDigit) : digitsToNat.digit c < 10 := by
  obtain ⟨hlow, hhigh⟩ := Char.isDigit_iff_toNat.mp h
  have hlow : 0x30 ≤ c.toNat := hlow
  have hhigh : c.toNat ≤ 0x39 := hhigh
  rw [← digitChar_sub h, digit_digitChar (by omega)]
  omega

open Text

namespace Date

theorem isDay_of_checked {year month day : Nat} {d : Date} (h : checked year month day = .ok d) :
    d.IsDay := by
  obtain ⟨rfl, -⟩ := eq_of_checked h
  exact h

theorem fixedDigits_lt {count n : Nat} {text rest : Text} (h : fixedDigits count text = some (n, rest)) :
    n < 10 ^ count := by
  simp only [fixedDigits, Bool.and_eq_true, decide_eq_true_eq, Option.ite_none_right_eq_some,
    Option.some.injEq, Prod.mk.injEq] at h
  obtain ⟨⟨hlength, hdigits⟩, rfl, -⟩ := h
  have hlt : digitsToNat 10 (text.take count) < 10 ^ (text.take count).length :=
    digitsToNat_lt fun c hc => digit_lt_of_isDigit (List.all_eq_true.mp hdigits c hc)
  rwa [hlength] at hlt

theorem firstWeekday_lt (year : Nat) : firstWeekday year < 7 := by
  unfold firstWeekday
  omega

/-- Weeks start in the year itself or at most three days before it, and the first year starts with one. -/
theorem isDay_of_ofWeek {year week weekday : Nat} {d : Date} (hyear : year < 10 ^ 4) (hweek : 1 ≤ week)
    (hweekday : 1 ≤ weekday) (h : ofWeek year week weekday = .ok d) : d.IsDay := by
  have hone : firstWeekday 1 = 0 := by decide
  have hweekdays := firstWeekday_lt year
  unfold ofWeek at h
  dsimp only at h
  generalize hoffset : (if firstWeekday year ≤ 3 then -(firstWeekday year : Int) else 7 - firstWeekday year) +
    ((week : Int) - 1) * 7 + ((weekday : Int) - 1) = offset at h
  split at h
  next => cases h
  next hzero =>
    split at h
    next hbefore =>
      have hlow : -3 ≤ offset := by
        rw [← hoffset]
        split <;> omega
      have hfirst : year ≠ 1 := by
        rintro rfl
        rw [hone] at hoffset
        simp at hoffset
        omega
      have hdecember : daysInMonth (year - 1) 12 = 31 := rfl
      cases h
      show checked (year - 1) 12 (32 + offset).toNat = _
      rw [checked, if_neg (by omega), if_neg (by omega), if_neg (by omega)]
    next => exact isDay_of_checked h

theorem isDay_of_form? {text : Text} {d : Date} (h : form? text = some (.ok d)) : d.IsDay := by
  obtain ⟨⟨year, rest⟩, hyear, h⟩ := Option.bind_eq_some_iff.mp h
  have hyear := fixedDigits_lt hyear
  dsimp only at h
  split at h
  next =>
    obtain ⟨⟨week, after⟩, hweek, h⟩ := Option.bind_eq_some_iff.mp h
    have hrange : ∀ weekday, (if week < 1 ∨ 53 < week ∨ (week = 53 ∧ !hasLongWeeks year) ∨ weekday < 1 ∨
        7 < weekday then none else some (ofWeek year week weekday)) = some (.ok d) → d.IsDay := by
      intro weekday h
      split at h
      next => cases h
      next hrange => exact isDay_of_ofWeek hyear (by omega) (by omega) (Option.some.inj h)
    dsimp only at h
    split at h
    next => exact hrange 1 h
    next =>
      obtain ⟨⟨weekday, last⟩, -, h⟩ := Option.bind_eq_some_iff.mp h
      exact hrange weekday h
  next =>
    obtain ⟨⟨month, after⟩, -, h⟩ := Option.bind_eq_some_iff.mp h
    obtain ⟨⟨day, last⟩, -, h⟩ := Option.bind_eq_some_iff.mp h
    exact isDay_of_checked (Option.some.inj h)

theorem isDay_of_read {text : Text} {d : Date} (h : read text = .ok d) : d.IsDay := by
  unfold read at h
  dsimp only at h
  split at h
  next =>
    cases hform : form? text with
    | none =>
      rw [hform] at h
      cases h
    | some result =>
      rw [hform] at h
      obtain rfl : result = .ok d := h
      exact isDay_of_form? hform
  next => cases h

end Date

namespace Decimal

theorem held_of_magnitude? {negative : Bool} {text : Text} {d : Decimal} (hfinite : d.isFinite)
    (h : magnitude? negative text = some d) : d.Held := by
  unfold magnitude? at h
  dsimp only at h
  split at h
  next =>
    cases h
    cases hfinite
  next =>
    split at h
    next hword =>
      cases h
      rw [undefined?_not_finite hword] at hfinite
      cases hfinite
    next =>
      have hscanned : ∀ fraction rest : Text,
          (if (text.takeWhile Char.isDigit).isEmpty && fraction.isEmpty then none
          else
            (exponent? rest).bind fun e =>
              if inRange (digitsToNat 10 (text.takeWhile Char.isDigit ++ fraction)) (e - fraction.length) then
                some (finite negative (digitsToNat 10 (text.takeWhile Char.isDigit ++ fraction))
                  (e - fraction.length))
              else none) = some d → d.Held := by
        intro fraction rest h
        split at h
        next => cases h
        next =>
          obtain ⟨e, -, h⟩ := Option.bind_eq_some_iff.mp h
          obtain ⟨hrange, h⟩ := Option.ite_none_right_eq_some.mp h
          cases h
          exact hrange
      split at h
      next => exact hscanned _ _ h
      next => exact hscanned _ _ h

theorem held_of_read? {text : Text} {d : Decimal} (hfinite : d.isFinite) (h : read? text = some d) :
    d.Held := by
  unfold read? at h
  split at h
  next => exact held_of_magnitude? hfinite h
  next => exact held_of_magnitude? hfinite h
  next => exact held_of_magnitude? hfinite h

end Decimal

namespace Codec

/-- The codec reads the value that it has read from some text again from the text that it writes for it. -/
def Normalises (c : Codec) : Prop :=
  ∀ raw v, c.decode raw = .ok v → ∃ text, c.encode v = .ok text ∧ c.decode text = .ok v

theorem normalises_int : int.Normalises := by
  intro raw v h
  have h : decodeInt raw = .ok v := h
  unfold decodeInt at h
  split at h
  next =>
    obtain ⟨n, hn, rfl⟩ := Except.map_eq_ok.mp h
    have hwrite := Whole.write_of_read (Except.mapError_eq_ok.mp hn)
    obtain ⟨hsmall, -⟩ := Whole.write_eq_ok.mp hwrite
    refine ⟨ofInt n, ?_, ?_⟩
    · simp only [int, encodeInt, hwrite]
      rfl
    · simp only [int, decodeInt, isInteger_ofInt, if_true, Whole.read_ofInt hsmall]
      rfl
  next => cases h

theorem normalises_decimal : decimal.Normalises := by
  intro raw v h
  have h : decodeDecimal raw = .ok v := h
  unfold decodeDecimal at h
  split at h
  next d hread =>
    split at h
    next hfinite =>
      cases h
      exact ⟨d.write, rfl, decodeDecimal_write.mpr ⟨Decimal.held_of_read? hfinite hread, rfl⟩⟩
    next => cases h
  next => cases h

theorem normalises_bool : bool.Normalises := by
  intro raw v h
  have h : decodeBool raw = .ok v := h
  simp only [decodeBool] at h
  split at h
  next =>
    cases h
    exact ⟨"true", rfl, rfl⟩
  next =>
    split at h
    next =>
      cases h
      exact ⟨"false", rfl, rfl⟩
    next => cases h

theorem normalises_uuid : uuid.Normalises := by
  intro raw v h
  obtain ⟨u, -, rfl⟩ := Except.map_eq_ok.mp h
  refine ⟨u.write, rfl, ?_⟩
  simp only [uuid, decodeUuid, readUuid, Uuid.read_write]
  rfl

theorem normalises_ulid : ulid.Normalises := by
  intro raw v h
  obtain ⟨text, htext, rfl⟩ := Except.map_eq_ok.mp h
  have hread := readUlid_of_isUlid (readUlid_eq_ok.mp htext).1
  exact ⟨text, hread, congrArg (Except.map Value.text) hread⟩

theorem normalises_date : date.Normalises := by
  intro raw v h
  obtain ⟨d, hd, rfl⟩ := Except.map_eq_ok.mp h
  exact ⟨d.write, rfl, decodeDate_write.mpr ⟨Date.isDay_of_read (Except.mapError_eq_ok.mp hd), rfl⟩⟩

theorem normalises_slug : slug.Normalises := by
  intro raw v h
  have hdecode := h
  obtain ⟨text, htext, rfl⟩ := Except.map_eq_ok.mp h
  unfold readSlug at htext
  split at htext
  next hslug =>
    cases htext
    exact ⟨raw, if_pos hslug, hdecode⟩
  next => cases htext

/-- The kinds of single values other than plain text, floats and bytes. -/
def scalarKinds : List Text := ["int", "decimal", "bool", "uuid", "ulid", "date", "slug"]

/-- What is read as a scalar has a text in normal form: it is written, read as the same value, and written in
the same way again. -/
theorem scalar_normal_form {kind : Text} {c : Codec} (hkind : kind ∈ scalarKinds)
    (hcodec : Registry.standard.find kind = .ok c) {raw : Text} {v : Value} (h : c.decode raw = .ok v) :
    ∃ text, c.encode v = .ok text ∧ c.decode text = .ok v ∧
      ∀ w, c.decode text = .ok w → c.encode w = .ok text := by
  have hnormalises : c.Normalises := by
    simp only [scalarKinds, List.mem_cons, List.not_mem_nil, or_false] at hkind
    rcases hkind with rfl | rfl | rfl | rfl | rfl | rfl | rfl
    · obtain rfl : int = c := Except.ok.inj hcodec
      exact normalises_int
    · obtain rfl : decimal = c := Except.ok.inj hcodec
      exact normalises_decimal
    · obtain rfl : bool = c := Except.ok.inj hcodec
      exact normalises_bool
    · obtain rfl : uuid = c := Except.ok.inj hcodec
      exact normalises_uuid
    · obtain rfl : ulid = c := Except.ok.inj hcodec
      exact normalises_ulid
    · obtain rfl : date = c := Except.ok.inj hcodec
      exact normalises_date
    · obtain rfl : slug = c := Except.ok.inj hcodec
      exact normalises_slug
  obtain ⟨text, hencode, hdecode⟩ := hnormalises raw v h
  refine ⟨text, hencode, hdecode, fun w hw => ?_⟩
  rw [hdecode] at hw
  cases hw
  exact hencode

/-- A number with an exponent, as it is given and as it is written. -/
theorem scalar_normal_form_exponent :
    decimal.decode " +1_50e0004 " = .ok (.decimal (.finite false 150 4)) ∧
      decimal.encode (.decimal (.finite false 150 4)) = .ok "1.50E+6" ∧
      decimal.decode "1.50E+6" = .ok (.decimal (.finite false 150 4)) := by
  have hread : decimal.decode " +1_50e0004 " = .ok (.decimal (.finite false 150 4)) := rfl
  have hkind : ("decimal" : Text) ∈ scalarKinds := by decide
  obtain ⟨text, hencode, hdecode, -⟩ := scalar_normal_form hkind rfl hread
  have htext : text = "1.50E+6".toList := (Except.ok.inj hencode).symm
  exact ⟨hread, htext ▸ hencode, htext ▸ hdecode⟩

end Codec

end RoutePattern
