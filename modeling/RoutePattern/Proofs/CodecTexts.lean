import RoutePattern.Proofs.DecimalTexts
import RoutePattern.Proofs.IdentifierTexts

/-!
What codecs read from their own texts. A query turns plus signs into spaces, and a path leaves texts as they
are; only the texts of decimals hold plus signs.
-/

namespace RoutePattern

open Text

/-- Where a text stands in a target: it is a segment of the path, or the value of a query key. -/
inductive Place where
  | segment
  | value (key : Text)

/-- Plain text as it is read from a place. -/
def Place.read : Place → Text → Text
  | segment, text => text
  | value _, text => spaced text

theorem Place.read_eq_self (place : Place) {text : Text} (h : '+' ∉ text) : place.read text = text := by
  cases place with
  | segment => rfl
  | value key => exact spaced_eq_self h

namespace Decimal

/-- A number whose last digit stands for tens or more. -/
def Tens : Decimal → Prop
  | finite _ _ exponent => 0 < exponent
  | _ => False

instance : DecidablePred Tens
  | finite _ _ exponent => inferInstanceAs (Decidable (0 < exponent))
  | infinite _ => isFalse id
  | undefined .. => isFalse id

variable {d : Decimal}

theorem Held.isPlain (h : d.Held) : ∀ c ∈ d.write, isPlain c := by
  match d, h with
  | finite _ _ _, _ => exact fun c hc => isPlain_of_mem_write hc

theorem Held.plus_mem_iff (h : d.Held) : '+' ∈ d.write ↔ d.Tens := by
  match d, h with
  | finite negative coefficient exponent, _ => exact plus_mem_write negative coefficient exponent

theorem Tens.decode_spaced (h : d.Tens) {v : Value} : Codec.decodeDecimal (spaced d.write) ≠ .ok v := by
  match d, h with
  | finite negative coefficient exponent, h =>
    have hnone : read? (spaced (finite negative coefficient exponent).write) = none :=
      read?_write_spaced negative coefficient h
    simp [Codec.decodeDecimal, hnone]

theorem write_ofInt (n : Int) : (finite (n < 0) n.natAbs 0).write = ofInt n := by
  have hplaces : unsigned n.natAbs 0 = ofNat n.natAbs := by
    have hlength := List.length_pos_of_ne_nil (ofNat_ne_nil n.natAbs)
    have hleast : (-6 : Int) ≤ 0 + (ofNat n.natAbs).length - 1 := by omega
    simp [unsigned, withPlaces]
    omega
  rw [write_finite, hplaces]
  cases n with
  | ofNat m => rfl
  | negSucc m => simp [ofInt, signText, Int.negSucc_lt_zero]

theorem held_ofInt {n : Int} (h : n.natAbs < 10 ^ Whole.digitLimit) : (finite (n < 0) n.natAbs 0).Held := by
  have hlength : (ofNat n.natAbs).length ≤ Whole.digitLimit := (length_ofNat_le_iff (by decide)).mpr h
  have hlimit : Whole.digitLimit = 4300 := rfl
  have hrange : inRange n.natAbs 0 = true := by
    simp only [inRange, leastExponent, greatestExponent]
    split <;> simp
    omega
  exact hrange

end Decimal

namespace Codec

/-- A codec that reads its own texts, which are plain and without plus signs. -/
def Plain (c : Codec) : Prop :=
  ∀ v t, c.encode v = .ok t → (∀ x ∈ t, isPlain x ∧ x ≠ '+') ∧ ∃ w, c.decode t = .ok w

theorem isInteger_ofInt (n : Int) : isInteger (ofInt n) = true := by
  have hempty : (ofNat n.natAbs).isEmpty = false := by simpa using ofNat_ne_nil n.natAbs
  have hall : (ofNat n.natAbs).all isDecimalDigit = true :=
    List.all_eq_true.mpr fun c hc => isDecimalDigit_of_isDigit ((digitsIn_ofNat n.natAbs).isDigit c hc)
  simp only [isInteger, Whole.sign_ofInt, hempty, hall]
  rfl

theorem encodeInt_eq_ok {v : Value} {t : Text} (h : encodeInt v = .ok t) :
    ∃ n : Int, v = .int n ∧ n.natAbs < 10 ^ Whole.digitLimit ∧ t = ofInt n := by
  cases v with
  | int n =>
    have h : (Whole.write n).mapError Refusal.digits = .ok t := h
    obtain ⟨hsmall, rfl⟩ := Whole.write_eq_ok.mp (Except.mapError_eq_ok.mp h)
    exact ⟨n, rfl, hsmall, rfl⟩
  | _ => cases h

theorem plain_int : int.Plain := by
  intro v t h
  obtain ⟨n, -, hsmall, rfl⟩ := encodeInt_eq_ok h
  refine ⟨fun x hx => ⟨isPlain_of_mem_ofInt hx, ?_⟩, .int n, ?_⟩
  · rintro rfl
    exact plus_notMem_ofInt n hx
  · simp only [int, decodeInt, isInteger_ofInt, if_true, Whole.read_ofInt hsmall]
    rfl

theorem isPlain_of_isAlphanum {c : Char} (h : c.isAlphanum) : isPlain c ∧ c ≠ '+' := by
  refine ⟨by simp [isPlain, h], ?_⟩
  rintro rfl
  cases h

theorem plain_bool : bool.Plain := by
  have hwords : ∀ word : Text, word.all Char.isAlphanum = true → ∀ x ∈ word, isPlain x ∧ x ≠ '+' :=
    fun word hword x hx => isPlain_of_isAlphanum (List.all_eq_true.mp hword x hx)
  intro v t h
  cases v with
  | bool b =>
    obtain rfl := Except.ok.inj h
    cases b
    · exact ⟨hwords "false" (by decide), .bool false, by rfl⟩
    · exact ⟨hwords "true" (by decide), .bool true, by rfl⟩
  | _ => cases h

theorem encodeUuid_eq_ok {v : Value} {t : Text} (h : encodeUuid v = .ok t) :
    ∃ u : Uuid, t = u.write := by
  unfold encodeUuid at h
  split at h
  next u => exact ⟨u, (Except.ok.inj h).symm⟩
  next =>
    obtain ⟨text, -, h⟩ := Except.bind_eq_ok.mp h
    obtain ⟨u, -, h⟩ := Except.bind_eq_ok.mp h
    exact ⟨u, (Except.ok.inj h).symm⟩

theorem plain_uuid : uuid.Plain := by
  intro v t h
  obtain ⟨u, rfl⟩ := encodeUuid_eq_ok h
  refine ⟨fun x hx => ⟨Uuid.isPlain_of_mem_write hx, ?_⟩, .uuid u, ?_⟩
  · rintro rfl
    rcases Uuid.mem_write hx with hdigit | hdash
    · exact u.digitsIn_digits.notMem (by decide) (by decide) hdigit
    · cases hdash
  · simp only [uuid, decodeUuid, readUuid, Uuid.read_write]
    rfl

theorem isAlphanum_of_isUlidChar {c : Char} (h : isUlidChar c) : c.isAlphanum := by
  rcases Bool.or_eq_true_iff.mp h with hdigit | hupper
  · simp [Char.isAlphanum, hdigit]
  · have hupper : c.isUpper := by
      simp only [Bool.and_eq_true] at hupper
      exact hupper.1.1.1.1
    exact Bool.or_eq_true_iff.mpr (.inl (Bool.or_eq_true_iff.mpr (.inl hupper)))

theorem plain_ulid : ulid.Plain := by
  intro v t h
  obtain ⟨raw, -, h⟩ := Except.bind_eq_ok.mp h
  obtain ⟨hulid, -⟩ := readUlid_eq_ok.mp h
  have hchars := isUlidChar_of_isUlid hulid
  refine ⟨fun x hx => isPlain_of_isAlphanum (isAlphanum_of_isUlidChar (hchars x hx)), .text t, ?_⟩
  simp only [ulid, readUlid_of_isUlid hulid]
  rfl

theorem isPlain_of_isSlugFrom {inWord : Bool} {text : Text} (h : isSlugFrom inWord text = true) :
    ∀ c ∈ text, isPlain c ∧ c ≠ '+' := by
  induction text generalizing inWord with
  | nil => simp
  | cons c rest ih =>
    rw [isSlugFrom] at h
    split at h
    next halphanum => exact List.forall_mem_cons.mpr ⟨isPlain_of_isAlphanum halphanum, ih h⟩
    next =>
      simp only [Bool.and_eq_true, Bool.or_eq_true, beq_iff_eq] at h
      obtain ⟨⟨-, rfl | rfl⟩, hrest⟩ := h
      · exact List.forall_mem_cons.mpr ⟨by decide, ih hrest⟩
      · exact List.forall_mem_cons.mpr ⟨by decide, ih hrest⟩

theorem plain_slug : slug.Plain := by
  intro v t h
  obtain ⟨raw, -, h⟩ := Except.bind_eq_ok.mp h
  have hread := h
  unfold readSlug at h
  split at h
  next hslug =>
    obtain rfl := Except.ok.inj h
    refine ⟨isPlain_of_isSlugFrom hslug, .text raw, ?_⟩
    simp only [slug, hread]
    rfl
  next => cases h

theorem plain_base64url : base64url.Plain := by
  have hdigits : ∀ n < 64, isPlain (Base64.digit n) ∧ Base64.digit n ≠ '+' := by decide
  intro v t h
  have hbytes : ∃ bs, t = Base64.encode bs := by
    cases v with
    | text s => exact ⟨_, (Except.ok.inj h).symm⟩
    | bytes bs => exact ⟨bs, (Except.ok.inj h).symm⟩
    | _ => cases h
  obtain ⟨bs, rfl⟩ := hbytes
  refine ⟨fun x hx => ?_, .bytes bs, ?_⟩
  · rw [Base64.encode_eq] at hx
    obtain ⟨n, hn, rfl⟩ := List.mem_map.mp hx
    exact hdigits n (Base64.sextets_lt bs n hn)
  · show decodeBase64 (Base64.encode bs) = .ok (.bytes bs)
    rw [decodeBase64, Base64.decode_encode]

theorem encodeDecimal_eq_ok {v : Value} {t : Text} (h : encodeDecimal v = .ok t) :
    (∃ d : Decimal, v = .decimal d ∧ t = d.write) ∨
      ∃ n : Int, v = .int n ∧ n.natAbs < 10 ^ Whole.digitLimit ∧ t = ofInt n := by
  cases v with
  | decimal d => exact .inl ⟨d, rfl, (Except.ok.inj h).symm⟩
  | int n => exact .inr (encodeInt_eq_ok h)
  | _ => cases h

theorem encodeDate_eq_ok {v : Value} {t : Text} (h : encodeDate v = .ok t) :
    ∃ d : Date, v = .date d ∧ t = d.write := by
  cases v with
  | date d => exact ⟨d, rfl, (Except.ok.inj h).symm⟩
  | _ => cases h

theorem decodeDate_write {d : Date} {v : Value} :
    decodeDate d.write = .ok v ↔ d.IsDay ∧ v = .date d := by
  rw [decodeDate, Except.map_eq_ok]
  simp only [Except.mapError_eq_ok, Date.read_write]
  constructor
  · rintro ⟨_, ⟨hday, rfl⟩, rfl⟩
    exact ⟨hday, rfl⟩
  · rintro ⟨hday, rfl⟩
    exact ⟨d, ⟨hday, rfl⟩, rfl⟩

/-- Which values a codec reads back from the texts that it writes for them. What it reads at all is written as
plain text. -/
structure Legible (c : Codec) (Holds : Place → Value → Prop) : Prop where
  plain : ∀ {v w t}, c.encode v = .ok t → c.decode t = .ok w → ∀ x ∈ t, isPlain x
  back : ∀ {v t} (place : Place), c.encode v = .ok t →
    ((∃ w, c.decode t = .ok w ∧ c.decode (place.read t) = .ok w) ↔ Holds place v)

theorem Plain.legible {c : Codec} (h : c.Plain) {Holds : Place → Value → Prop}
    (hall : ∀ place v, Holds place v) : c.Legible Holds where
  plain hencode _ x hx := ((h _ _ hencode).1 x hx).1
  back place hencode := by
    obtain ⟨hplain, w, hdecode⟩ := h _ _ hencode
    have hread := place.read_eq_self fun hplus => (hplain '+' hplus).2 rfl
    rw [hread]
    exact iff_of_true ⟨w, hdecode, hdecode⟩ (hall _ _)

end Codec

/-- Whether what the codec of a kind writes for a value can be read from a place: numbers of which a query would
lose the plus sign, and what is no number or no day, cannot. -/
def Place.Holds (place : Place) (kind : Text) : Value → Prop
  | .decimal d => kind = "decimal".toList → d.Held ∧ (place = segment ∨ ¬ d.Tens)
  | .date d => kind = "date".toList → d.IsDay
  | _ => True

namespace Codec

theorem legible_decimal : decimal.Legible fun place v => place.Holds "decimal" v where
  plain := by
    intro v w t hencode hdecode
    rcases encodeDecimal_eq_ok hencode with ⟨d, -, rfl⟩ | ⟨n, -, -, rfl⟩
    · exact (decodeDecimal_write.mp hdecode).1.isPlain
    · exact fun x hx => isPlain_of_mem_ofInt hx
  back := by
    intro v t place hencode
    rcases encodeDecimal_eq_ok hencode with ⟨d, rfl, rfl⟩ | ⟨n, rfl, hsmall, rfl⟩
    · show (∃ w, decodeDecimal d.write = .ok w ∧ decodeDecimal (place.read d.write) = .ok w) ↔
        ("decimal".toList = "decimal".toList → d.Held ∧ (place = .segment ∨ ¬ d.Tens))
      simp only [forall_const, decodeDecimal_write]
      constructor
      · rintro ⟨_, ⟨hheld, rfl⟩, hread⟩
        refine ⟨hheld, ?_⟩
        cases place with
        | segment => exact .inl rfl
        | value key => exact .inr fun htens => htens.decode_spaced hread
      · rintro ⟨hheld, hplace⟩
        have hread : place.read d.write = d.write := by
          rcases hplace with rfl | htens
          · rfl
          · exact place.read_eq_self (mt hheld.plus_mem_iff.mp htens)
        rw [hread]
        exact ⟨.decimal d, ⟨hheld, rfl⟩, decodeDecimal_write.mpr ⟨hheld, rfl⟩⟩
    · have hdecode : decodeDecimal (ofInt n) = .ok (.decimal (.finite (n < 0) n.natAbs 0)) := by
        rw [← Decimal.write_ofInt]
        exact decodeDecimal_write.mpr ⟨Decimal.held_ofInt hsmall, rfl⟩
      rw [place.read_eq_self (plus_notMem_ofInt n)]
      exact iff_of_true ⟨_, hdecode, hdecode⟩ trivial

theorem legible_date : date.Legible fun place v => place.Holds "date" v where
  plain := by
    intro v w t hencode _
    obtain ⟨d, -, rfl⟩ := encodeDate_eq_ok hencode
    exact fun x hx => (Date.isPlain_of_mem_write hx).1
  back := by
    intro v t place hencode
    obtain ⟨d, rfl, rfl⟩ := encodeDate_eq_ok hencode
    rw [place.read_eq_self fun hplus => (Date.isPlain_of_mem_write hplus).2 rfl]
    show (∃ w, decodeDate d.write = .ok w ∧ decodeDate d.write = .ok w) ↔
      ("date".toList = "date".toList → d.IsDay)
    simp only [forall_const, and_self, decodeDate_write]
    constructor
    · rintro ⟨_, hday, -⟩
      exact hday
    · intro hday
      exact ⟨.date d, hday, rfl⟩

/-- The kinds of captures whose values have one text each. -/
def exactKinds : List Text := ["int", "decimal", "bool", "uuid", "ulid", "date", "slug", "base64url"]

theorem legible_standard {kind : Text} {c : Codec} (hkind : kind ∈ exactKinds)
    (hcodec : Registry.standard.find kind = .ok c) : c.Legible fun place v => place.Holds kind v := by
  have hall : ∀ {kind : Text}, kind ≠ "decimal".toList → kind ≠ "date".toList → ∀ place v,
      Place.Holds place kind v := by
    intro kind hdecimal hdate place v
    cases v with
    | decimal d => exact fun h => absurd h hdecimal
    | date d => exact fun h => absurd h hdate
    | _ => trivial
  simp only [exactKinds, List.mem_cons, List.not_mem_nil, or_false] at hkind
  rcases hkind with rfl | rfl | rfl | rfl | rfl | rfl | rfl | rfl
  · obtain rfl : int = c := Except.ok.inj hcodec
    exact plain_int.legible (hall (by decide) (by decide))
  · obtain rfl : decimal = c := Except.ok.inj hcodec
    exact legible_decimal
  · obtain rfl : bool = c := Except.ok.inj hcodec
    exact plain_bool.legible (hall (by decide) (by decide))
  · obtain rfl : uuid = c := Except.ok.inj hcodec
    exact plain_uuid.legible (hall (by decide) (by decide))
  · obtain rfl : ulid = c := Except.ok.inj hcodec
    exact plain_ulid.legible (hall (by decide) (by decide))
  · obtain rfl : date = c := Except.ok.inj hcodec
    exact legible_date
  · obtain rfl : slug = c := Except.ok.inj hcodec
    exact plain_slug.legible (hall (by decide) (by decide))
  · obtain rfl : base64url = c := Except.ok.inj hcodec
    exact plain_base64url.legible (hall (by decide) (by decide))

end Codec

end RoutePattern
