import Mathlib.Data.List.Induction
import Mathlib.Tactic.Ring
import RoutePattern.Codec
import RoutePattern.Proofs.Results
import RoutePattern.Proofs.Tables

/-!
What codecs read they can write. The value that any of the standard codecs reads from a text is a single
value, and its text is not empty unless the text that was read is.
-/

namespace RoutePattern

namespace Text

theorem ofNat_ne_nil (n : Nat) : ofNat n ≠ [] := List.ne_nil_of_length_pos Nat.length_toDigits_pos

theorem ofInt_ne_nil (n : Int) : ofInt n ≠ [] := by
  cases n with
  | ofNat n => exact ofNat_ne_nil n
  | negSucc n => simp [ofInt]

theorem digitsToNat_append_singleton (base : Nat) (digits : Text) (c : Char) :
    digitsToNat base (digits ++ [c]) = digitsToNat base digits * base + digitsToNat.digit c := by
  simp [digitsToNat]

theorem digitsToNat_lt {base : Nat} {digits : Text} (h : ∀ c ∈ digits, digitsToNat.digit c < base) :
    digitsToNat base digits < base ^ digits.length := by
  induction digits using List.reverseRecOn with
  | nil => simp [digitsToNat]
  | append_singleton rest c ih =>
    have hrest : digitsToNat base rest < base ^ rest.length := ih fun d hd => h d (by simp [hd])
    have hc : digitsToNat.digit c < base := h c (by simp)
    rw [digitsToNat_append_singleton, List.length_append, List.length_singleton, pow_succ]
    calc digitsToNat base rest * base + digitsToNat.digit c
        < digitsToNat base rest * base + base := by omega
      _ = (digitsToNat base rest + 1) * base := by ring
      _ ≤ base ^ rest.length * base := Nat.mul_le_mul_right base hrest

end Text

namespace Whole

theorem digit_lt_of_isDigitIn {base : Nat} {c : Char} (h : isDigitIn base c) :
    Text.digitsToNat.digit c < base := by
  have hc := (Bool.and_eq_true_iff.mp h).2
  simpa [Text.digitsToNat] using hc

theorem digit_lt_of_digits? {base : Nat} {text digits : Text} (h : digits? base text = some digits) :
    ∀ c ∈ digits, Text.digitsToNat.digit c < base := by
  fun_induction digits? base text generalizing digits with
  | case1 => cases h
  | case2 c hc =>
    obtain rfl := Option.some.inj h
    simpa using digit_lt_of_isDigitIn hc
  | case3 => cases h
  | case4 c rest hc ih =>
    obtain ⟨others, hrest, rfl⟩ := Option.map_eq_some_iff.mp h
    exact List.forall_mem_cons.mpr ⟨digit_lt_of_isDigitIn hc, ih hrest⟩
  | case5 => cases h
  | case6 c rest _ _ hc ih =>
    obtain ⟨others, hrest, rfl⟩ := Option.map_eq_some_iff.mp h
    exact List.forall_mem_cons.mpr ⟨digit_lt_of_isDigitIn hc, ih hrest⟩
  | case7 => cases h

theorem write_of_read {text : Text} {n : Int} (h : read 10 text = .ok n) :
    write n = .ok (Text.ofInt n) := by
  simp only [read] at h
  split at h
  · cases h
  next digits hdigits =>
    split at h
    · cases h
    next hlength =>
      split at h
      · cases h
      · have hn : n.natAbs = Text.digitsToNat 10 digits := by
          obtain rfl := Except.ok.inj h
          split <;> simp
        have hsmall : ∀ limit, digits.length ≤ limit → n.natAbs < Nat.pow 10 limit := by
          intro limit hlimit
          rw [hn]
          calc Text.digitsToNat 10 digits
              < 10 ^ digits.length := Text.digitsToNat_lt (digit_lt_of_digits? hdigits)
            _ ≤ 10 ^ limit := Nat.pow_le_pow_right (by decide) hlimit
        rw [write, if_pos (hsmall digitLimit (by simpa using hlength))]

end Whole

theorem FloatText.write_ne_nil (x : Float) : write x ≠ [] := by
  have hdigits : ∀ d : Digits, (if positional d.exponent then placePoint d else withExponent d) ≠ [] := by
    intro d
    split
    · unfold placePoint
      split <;> simp
    · simp only [withExponent]
      split <;> split <;> simp
  unfold write
  split
  · split
    · decide
    · split <;> decide
  next b _ =>
    simp only
    split
    · simp
    · exact hdigits _

theorem Decimal.write_ne_nil (negative : Bool) (coefficient : Nat) (exponent : Int) :
    (finite negative coefficient exponent).write ≠ [] := by
  have hscientific : ∀ (digits : Text) (adjusted : Int), scientific digits adjusted ≠ [] := by
    intro digits adjusted
    simp only [scientific]
    split <;> split <;> simp
  have hplaces : ∀ places : Nat, withPlaces (Text.ofNat coefficient) places ≠ [] := by
    intro places
    unfold withPlaces
    split
    · exact Text.ofNat_ne_nil coefficient
    · split <;> simp
  simp only [write]
  split
  · simp
  · split
    · exact hplaces _
    · exact hscientific _ _

theorem toNat_of_isUlidChar {c : Char} (h : Codec.isUlidChar c) :
    (48 ≤ c.toNat ∧ c.toNat ≤ 57) ∨ (65 ≤ c.toNat ∧ c.toNat ≤ 90) := by
  rcases Bool.or_eq_true_iff.mp h with hdigit | hupper
  · exact .inl (Char.isDigit_iff_toNat.mp hdigit)
  · have hupper : c.isUpper := by
      simp only [Bool.and_eq_true] at hupper
      exact hupper.1.1.1.1
    obtain ⟨hlow, hhigh⟩ : 'A'.val ≤ c.val ∧ c.val ≤ 'Z'.val := of_decide_eq_true hupper
    exact .inr ⟨UInt32.le_iff_toNat_le.mp hlow, UInt32.le_iff_toNat_le.mp hhigh⟩

theorem Text.upperAscii_of_isUlidChar {text : Text} (h : ∀ c ∈ text, Codec.isUlidChar c) :
    upperAscii text = text := by
  have hbeyond : ∀ entry ∈ asciiCapitals, 128 ≤ entry.1 := by decide
  induction text with
  | nil => rfl
  | cons c rest ih =>
    obtain ⟨hc, hrest⟩ := List.forall_mem_cons.mp h
    have hcode := toNat_of_isUlidChar hc
    have hupper : c.toUpper = c := by
      have hsmall : ¬ ('a'.val ≤ c.val ∧ c.val ≤ 'z'.val) := by
        rintro ⟨ha, -⟩
        have ha : 97 ≤ c.toNat := UInt32.le_iff_toNat_le.mp ha
        omega
      exact dif_neg hsmall
    have hnone : asciiCapitals.find? (fun entry => entry.1 == c.toNat) = none := by
      rw [List.find?_eq_none]
      intro entry hentry
      have hentry := hbeyond entry hentry
      have hne : entry.1 ≠ c.toNat := by omega
      simpa using hne
    have ih := ih hrest
    rw [upperAscii] at ih
    rw [upperAscii, List.flatMap_cons, ih, hnone, hupper]
    rfl

theorem Base64.bytes_ne_nil {values : List Nat} (hne : values ≠ []) (h : values.length % 4 ≠ 1) :
    bytes values ≠ [] := by
  match values with
  | [] => contradiction
  | [_] => simp at h
  | [_, _] => simp [bytes]
  | [_, _, _] => simp [bytes]
  | _ :: _ :: _ :: _ :: _ => simp [bytes]

theorem Base64.encode_ne_nil {bs : List UInt8} (h : bs ≠ []) : encode bs ≠ [] := by
  match bs with
  | [] => contradiction
  | [_] => simp [encode]
  | [_, _] => simp [encode]
  | _ :: _ :: _ :: _ => simp [encode]

namespace Codec

/-- What the codec reads from some text is a single value that it writes as some text. -/
def Reencodes (c : Codec) : Prop :=
  ∀ raw v, raw ≠ [] → c.decode raw = .ok v →
    v ≠ .null ∧ v.items? = none ∧ ∃ text, c.encode v = .ok text ∧ text ≠ []

theorem reencodes_text : text.Reencodes := by
  intro raw v hraw h
  obtain rfl := Except.ok.inj h
  exact ⟨by simp, rfl, raw, rfl, hraw⟩

theorem reencodes_int : int.Reencodes := by
  intro raw v _ h
  have h : decodeInt raw = .ok v := h
  unfold decodeInt at h
  split at h
  · obtain ⟨n, hn, rfl⟩ := Except.map_eq_ok.mp h
    have hread := Except.mapError_eq_ok.mp hn
    refine ⟨by simp, rfl, Text.ofInt n, ?_, Text.ofInt_ne_nil n⟩
    simp [int, encodeInt, Whole.write_of_read hread, Except.mapError]
  · cases h

theorem reencodes_float : float.Reencodes := by
  intro raw v _ h
  have h : decodeFloat raw = .ok v := h
  unfold decodeFloat finiteFloat at h
  split at h
  next x _ =>
    split at h
    · obtain rfl := Except.ok.inj h
      exact ⟨by simp, rfl, FloatText.write x, rfl, FloatText.write_ne_nil x⟩
    · cases h
  next => cases h

theorem reencodes_decimal : decimal.Reencodes := by
  intro raw v _ h
  have h : decodeDecimal raw = .ok v := h
  unfold decodeDecimal at h
  split at h
  next d _ =>
    split at h
    next hfinite =>
      obtain rfl := Except.ok.inj h
      cases d with
      | finite negative coefficient exponent =>
        exact ⟨by simp, rfl, _, rfl, Decimal.write_ne_nil negative coefficient exponent⟩
      | infinite negative => cases hfinite
      | undefined negative signaling payload => cases hfinite
    next => cases h
  next => cases h

theorem reencodes_bool : bool.Reencodes := by
  intro raw v _ h
  have h : decodeBool raw = .ok v := h
  simp only [decodeBool] at h
  split at h
  · obtain rfl := Except.ok.inj h
    exact ⟨by simp, rfl, _, rfl, by decide⟩
  · split at h
    · obtain rfl := Except.ok.inj h
      exact ⟨by simp, rfl, _, rfl, by decide⟩
    · cases h

theorem reencodes_uuid : uuid.Reencodes := by
  intro raw v _ h
  have h : (readUuid raw).map .uuid = .ok v := h
  obtain ⟨u, -, rfl⟩ := Except.map_eq_ok.mp h
  refine ⟨by simp, rfl, u.write, rfl, ?_⟩
  simp [Uuid.write, Text.join, List.intercalate]

theorem isUlidChar_of_isUlid {text : Text} (h : isUlid text) : ∀ c ∈ text, isUlidChar c := by
  cases text with
  | nil => simp
  | cons c rest =>
    simp only [isUlid, Bool.and_eq_true, decide_eq_true_eq] at h
    obtain ⟨⟨⟨hlow, hhigh⟩, -⟩, hrest⟩ := h
    have hdigit : c.isDigit := by
      have hlow : 48 ≤ c.toNat := UInt32.le_iff_toNat_le.mp hlow
      have hhigh : c.toNat ≤ 55 := UInt32.le_iff_toNat_le.mp hhigh
      exact Char.isDigit_iff_toNat.mpr ⟨hlow, Nat.le_trans hhigh (by decide)⟩
    refine List.forall_mem_cons.mpr ⟨by simp [isUlidChar, hdigit], ?_⟩
    simpa using hrest

theorem readUlid_eq_ok {raw text : Text} :
    readUlid raw = .ok text ↔ isUlid text ∧ text = Text.upperAscii raw := by
  simp only [readUlid]
  split
  next hulid =>
    constructor
    · intro h
      obtain rfl := Except.ok.inj h
      exact ⟨hulid, rfl⟩
    · rintro ⟨-, rfl⟩
      rfl
  next hulid =>
    constructor
    · intro h
      cases h
    · rintro ⟨h, rfl⟩
      exact absurd h hulid

theorem readUlid_of_isUlid {text : Text} (h : isUlid text) : readUlid text = .ok text :=
  readUlid_eq_ok.mpr ⟨h, (Text.upperAscii_of_isUlidChar (isUlidChar_of_isUlid h)).symm⟩

theorem reencodes_ulid : ulid.Reencodes := by
  intro raw v _ h
  obtain ⟨text, htext, rfl⟩ := Except.map_eq_ok.mp h
  obtain ⟨hulid, -⟩ := readUlid_eq_ok.mp htext
  refine ⟨by simp, rfl, text, readUlid_of_isUlid hulid, ?_⟩
  rintro rfl
  cases hulid

theorem reencodes_date : date.Reencodes := by
  intro raw v _ h
  have h : decodeDate raw = .ok v := h
  unfold decodeDate at h
  obtain ⟨d, -, rfl⟩ := Except.map_eq_ok.mp h
  exact ⟨by simp, rfl, d.write, rfl, by simp [Date.write]⟩

theorem reencodes_slug : slug.Reencodes := by
  intro raw v hraw h
  have h : (readSlug raw).map .text = .ok v := h
  unfold readSlug at h
  split at h
  next hslug =>
    obtain rfl := Except.ok.inj h
    refine ⟨by simp, rfl, raw, ?_, hraw⟩
    have hread : readSlug raw = .ok raw := if_pos hslug
    exact hread
  next => cases h

theorem reencodes_base64url : base64url.Reencodes := by
  intro raw v hraw h
  have h : decodeBase64 raw = .ok v := h
  unfold decodeBase64 Base64.decode at h
  cases hvalues : raw.mapM Base64.value? with
  | none =>
    rw [hvalues] at h
    cases h
  | some values =>
    simp only [hvalues] at h
    split at h
    next bytes hbytes =>
      split at hbytes
      · cases hbytes
      next hlength =>
        obtain rfl := Except.ok.inj hbytes
        obtain rfl := Except.ok.inj h
        have hne : values ≠ [] := by
          obtain ⟨c, rest, rfl⟩ := List.exists_cons_of_ne_nil hraw
          rw [List.mapM_cons] at hvalues
          obtain ⟨value, -, hvalues⟩ := Option.bind_eq_some_iff.mp hvalues
          obtain ⟨others, -, hvalues⟩ := Option.bind_eq_some_iff.mp hvalues
          rw [← Option.some.inj hvalues]
          exact List.cons_ne_nil _ _
        exact ⟨by simp, rfl, _, rfl, Base64.encode_ne_nil (Base64.bytes_ne_nil hne hlength)⟩
    next => cases h
    next => cases h

/-- What any of the standard codecs reads it can write. -/
theorem reencodes_standard {name : Text} {c : Codec} (h : Registry.standard.find name = .ok c) :
    c.Reencodes := by
  have hstandard : Registry.standard = [("str".toList, text), ("int".toList, int),
      ("float".toList, float), ("decimal".toList, decimal), ("bool".toList, bool),
      ("uuid".toList, uuid), ("ulid".toList, ulid), ("date".toList, date), ("slug".toList, slug),
      ("base64url".toList, base64url)] := by rfl
  have hmem : ∃ key, (key, c) ∈ Registry.standard := by
    unfold Registry.find at h
    split at h
    next d hget =>
      obtain rfl := Except.ok.inj h
      exact Table.exists_mem_of_get? hget
    next => cases h
  obtain ⟨key, hmem⟩ := hmem
  simp only [hstandard, List.mem_cons, Prod.mk.injEq, List.not_mem_nil, or_false] at hmem
  rcases hmem with ⟨-, rfl⟩ | ⟨-, rfl⟩ | ⟨-, rfl⟩ | ⟨-, rfl⟩ | ⟨-, rfl⟩ | ⟨-, rfl⟩ | ⟨-, rfl⟩ |
    ⟨-, rfl⟩ | ⟨-, rfl⟩ | ⟨-, rfl⟩
  · exact reencodes_text
  · exact reencodes_int
  · exact reencodes_float
  · exact reencodes_decimal
  · exact reencodes_bool
  · exact reencodes_uuid
  · exact reencodes_ulid
  · exact reencodes_date
  · exact reencodes_slug
  · exact reencodes_base64url

end Codec

end RoutePattern
