import RoutePattern.Proofs.IdentifierTexts

/-!
Texts of bytes. Every text in the alphabet stands for bytes, unless a single character is left over, and it is
the text of these bytes just where the bits of the last character that make no whole byte are zero.
-/

namespace RoutePattern

namespace Base64

/-- Letters and digits of ASCII, dashes and underscores. -/
def InAlphabet (c : Char) : Prop := c.isAlphanum ∨ c = '-' ∨ c = '_'

instance : DecidablePred InAlphabet := fun c =>
  inferInstanceAs (Decidable (c.isAlphanum ∨ c = '-' ∨ c = '_'))

theorem value?_eq_some {c : Char} {n : Nat} : value? c = some n ↔
    (65 ≤ c.toNat ∧ c.toNat ≤ 90 ∧ n = c.toNat - 65) ∨
    (97 ≤ c.toNat ∧ c.toNat ≤ 122 ∧ n = c.toNat - 97 + 26) ∨
    (48 ≤ c.toNat ∧ c.toNat ≤ 57 ∧ n = c.toNat - 48 + 52) ∨ (c.toNat = 45 ∧ n = 62) ∨
    (c.toNat = 95 ∧ n = 63) := by
  have hle : ∀ {d e : Char}, d ≤ e ↔ d.toNat ≤ e.toNat := UInt32.le_iff_toNat_le
  simp only [value?, hle, ← Char.toNat_inj, Char.reduceToNat]
  split_ifs with hupper hlower hdigit hdash hline
  · rw [Option.some.injEq]
    omega
  · rw [Option.some.injEq]
    omega
  · rw [Option.some.injEq]
    omega
  · rw [Option.some.injEq]
    omega
  · rw [Option.some.injEq]
    omega
  · simp only [false_iff]
    omega

theorem digit_of_value? {c : Char} {n : Nat} (h : value? c = some n) : n < 64 ∧ digit n = c := by
  have hcode : Char.ofNat c.toNat = c := Char.ofNat_toNat c
  rcases value?_eq_some.mp h with ⟨hlow, hhigh, rfl⟩ | ⟨hlow, hhigh, rfl⟩ | ⟨hlow, hhigh, rfl⟩ |
    ⟨hdash, rfl⟩ | ⟨hline, rfl⟩
  · have hsum : 'A'.toNat + (c.toNat - 65) = c.toNat := Nat.add_sub_of_le hlow
    refine ⟨by omega, ?_⟩
    rw [digit, if_pos (by omega), hsum, hcode]
  · have hsum : 'a'.toNat + (c.toNat - 97) = c.toNat := Nat.add_sub_of_le hlow
    refine ⟨by omega, ?_⟩
    rw [digit, if_neg (by omega), if_pos (by omega), Nat.add_sub_cancel, hsum, hcode]
  · have hsum : '0'.toNat + (c.toNat - 48) = c.toNat := Nat.add_sub_of_le hlow
    refine ⟨by omega, ?_⟩
    rw [digit, if_neg (by omega), if_neg (by omega), if_pos (by omega), Nat.add_sub_cancel, hsum, hcode]
  · exact ⟨by decide, Char.toNat_inj.mp hdash.symm⟩
  · exact ⟨by decide, Char.toNat_inj.mp hline.symm⟩

theorem inAlphabet_digit {n : Nat} (h : n < 64) : InAlphabet (digit n) := by
  have hdigits : ∀ n < 64, InAlphabet (digit n) := by decide
  exact hdigits n h

theorem exists_value?_iff {c : Char} : (∃ n, value? c = some n) ↔ InAlphabet c := by
  constructor
  · rintro ⟨n, hn⟩
    obtain ⟨hlt, rfl⟩ := digit_of_value? hn
    exact inAlphabet_digit hlt
  · rintro (halphanum | rfl | rfl)
    · rcases Text.toNat_of_isAlphanum halphanum with ⟨hlow, hhigh⟩ | ⟨hlow, hhigh⟩ | ⟨hlow, hhigh⟩
      · exact ⟨_, value?_eq_some.mpr (.inr (.inr (.inl ⟨hlow, hhigh, rfl⟩)))⟩
      · exact ⟨_, value?_eq_some.mpr (.inl ⟨hlow, hhigh, rfl⟩)⟩
      · exact ⟨_, value?_eq_some.mpr (.inr (.inl ⟨hlow, hhigh, rfl⟩))⟩
    · exact ⟨62, rfl⟩
    · exact ⟨63, rfl⟩

theorem mapM_value?_eq_some {text : Text} {values : List Nat} :
    text.mapM value? = some values ↔ text = values.map digit ∧ ∀ n ∈ values, n < 64 := by
  constructor
  · intro h
    induction text generalizing values with
    | nil =>
      cases h
      simp
    | cons c rest ih =>
      rw [List.mapM_cons] at h
      obtain ⟨n, hn, h⟩ := Option.bind_eq_some_iff.mp h
      obtain ⟨others, hothers, h⟩ := Option.bind_eq_some_iff.mp h
      cases h
      obtain ⟨hlt, rfl⟩ := digit_of_value? hn
      obtain ⟨rfl, hrest⟩ := ih hothers
      exact ⟨rfl, List.forall_mem_cons.mpr ⟨hlt, hrest⟩⟩
  · rintro ⟨rfl, hlt⟩
    exact mapM_value?_digit hlt

theorem exists_values_iff {text : Text} :
    (∃ values, text.mapM value? = some values) ↔ ∀ c ∈ text, InAlphabet c := by
  constructor
  · rintro ⟨values, hvalues⟩ c hc
    exact exists_value?_iff.mp (mem_of_mapM_eq_some hvalues c hc)
  · intro h
    induction text with
    | nil => exact ⟨[], rfl⟩
    | cons c rest ih =>
      obtain ⟨hc, hrest⟩ := List.forall_mem_cons.mp h
      obtain ⟨n, hn⟩ := exists_value?_iff.mpr hc
      obtain ⟨values, hvalues⟩ := ih hrest
      exact ⟨n :: values, by rw [List.mapM_cons, hn, hvalues]; rfl⟩

def spareBits (count : Nat) : Nat := 6 * count % 8

/-- The bits of the last character that make no whole byte are zero. -/
def IsCanonical (text : Text) : Prop :=
  ∀ c ∈ text.getLast?, ∀ n, value? c = some n → n % 2 ^ spareBits text.length = 0

/-- Bytes are cut into the numbers that they were made of, if no bit was dropped. -/
theorem sextets_bytes_iff {values : List Nat} (hlt : ∀ n ∈ values, n < 64)
    (hlength : values.length % 4 ≠ 1) :
    sextets (bytes values) = values ↔ ∀ n ∈ values.getLast?, n % 2 ^ spareBits values.length = 0 := by
  have hbyte : ∀ n < 256, (UInt8.ofNat n).toNat = n := fun n hn => UInt8.toNat_ofNat_of_lt' hn
  fun_induction bytes values with
  | case1 a b c d rest ih =>
    simp only [List.forall_mem_cons] at hlt
    obtain ⟨ha, hb, hc, hd, hrest⟩ := hlt
    have hspare : spareBits (a :: b :: c :: d :: rest).length = spareBits rest.length := by
      simp only [spareBits, List.length_cons]
      omega
    have hlast : (∀ n ∈ (a :: b :: c :: d :: rest).getLast?, n % 2 ^ spareBits rest.length = 0) ↔
        ∀ n ∈ rest.getLast?, n % 2 ^ spareBits rest.length = 0 := by
      cases rest with
      | nil => simp [spareBits, Nat.mod_one]
      | cons e others => simp
    have hfirst : (a * 4 + b / 16) / 4 = a := by omega
    have hsecond : (a * 4 + b / 16) % 4 * 16 + (b % 16 * 16 + c / 4) / 16 = b := by omega
    have hthird : (b % 16 * 16 + c / 4) % 16 * 4 + (c % 4 * 64 + d) / 64 = c := by omega
    have hfourth : (c % 4 * 64 + d) % 64 = d := by omega
    have hshorter : rest.length % 4 ≠ 1 := by
      simp only [List.length_cons] at hlength
      omega
    rw [hspare, hlast]
    refine Iff.trans ?_ (ih hrest hshorter)
    simp only [sextets, hbyte (a * 4 + b / 16) (by omega), hbyte (b % 16 * 16 + c / 4) (by omega),
      hbyte (c % 4 * 64 + d) (by omega), hfirst, hsecond, hthird, hfourth, List.cons.injEq, true_and]
  | case2 a b c =>
    simp only [List.forall_mem_cons] at hlt
    obtain ⟨ha, hb, hc, -⟩ := hlt
    simp only [sextets, hbyte (a * 4 + b / 16) (by omega), hbyte (b % 16 * 16 + c / 4) (by omega),
      List.cons.injEq, and_true]
    simp [spareBits]
    omega
  | case3 a b =>
    simp only [List.forall_mem_cons] at hlt
    obtain ⟨ha, hb, -⟩ := hlt
    simp only [sextets, hbyte (a * 4 + b / 16) (by omega), List.cons.injEq, and_true]
    simp [spareBits]
    omega
  | case4 values hfour hthree htwo =>
    rcases values with _ | ⟨a, _ | ⟨b, _ | ⟨c, _ | ⟨d, rest⟩⟩⟩⟩
    · simp [sextets]
    · simp at hlength
    · exact absurd rfl (htwo a b)
    · exact absurd rfl (hthree a b c)
    · exact absurd rfl (hfour a b c d rest)

/-- A text is the digits of numbers that make whole bytes, or it leaves the alphabet, or one character is left
over. -/
theorem decode_cases (text : Text) :
    (∃ values, text = values.map digit ∧ (∀ n ∈ values, n < 64) ∧ values.length % 4 ≠ 1 ∧
      decode text = .ok (bytes values)) ∨
    (¬ (∀ c ∈ text, InAlphabet c) ∧ decode text = .error .alphabet) ∨
    ((∀ c ∈ text, InAlphabet c) ∧ text.length % 4 = 1 ∧
      decode text = .error (.dangling text.length)) := by
  cases hvalues : text.mapM value? with
  | none =>
    have houtside : ¬ ∀ c ∈ text, InAlphabet c := by
      intro hall
      obtain ⟨values, hsome⟩ := exists_values_iff.mpr hall
      rw [hvalues] at hsome
      cases hsome
    exact .inr (.inl ⟨houtside, by rw [decode, hvalues]⟩)
  | some values =>
    obtain ⟨htext, hlt⟩ := mapM_value?_eq_some.mp hvalues
    have hlength : text.length = values.length := by rw [htext, List.length_map]
    by_cases hone : values.length % 4 = 1
    · refine .inr (.inr ⟨exists_values_iff.mp ⟨values, hvalues⟩, by rw [hlength, hone], ?_⟩)
      simp only [decode, hvalues, if_pos hone, hlength]
    · refine .inl ⟨values, htext, hlt, hone, ?_⟩
      simp only [decode, hvalues, if_neg hone]

theorem encode_bytes_iff {values : List Nat} (hlt : ∀ n ∈ values, n < 64)
    (hlength : values.length % 4 ≠ 1) :
    encode (bytes values) = values.map digit ↔ IsCanonical (values.map digit) := by
  have hdigits : encode (bytes values) = values.map digit ↔ sextets (bytes values) = values := by
    rw [encode_eq]
    constructor
    · intro h
      have hsextets := mapM_value?_digit (sextets_lt (bytes values))
      rw [h, mapM_value?_digit hlt] at hsextets
      exact (Option.some.inj hsextets).symm
    · intro h
      rw [h]
  have hlast : IsCanonical (values.map digit) ↔
      ∀ n ∈ values.getLast?, n % 2 ^ spareBits values.length = 0 := by
    simp only [IsCanonical, List.getLast?_map, List.length_map, Option.mem_def, Option.map_eq_some_iff]
    constructor
    · intro h n hn
      exact h _ ⟨n, hn, rfl⟩ n (value?_digit (hlt n (List.mem_of_mem_getLast? hn)))
    · rintro h _ ⟨n, hn, rfl⟩ m hm
      rw [value?_digit (hlt n (List.mem_of_mem_getLast? hn))] at hm
      exact Option.some.inj hm ▸ h n hn
  rw [hdigits, hlast, sextets_bytes_iff hlt hlength]

theorem isCanonical_of_whole {text : Text} (h : text.length % 4 = 0) : IsCanonical text := by
  have hspare : spareBits text.length = 0 := by
    rw [spareBits]
    omega
  intro c _ n _
  rw [hspare, pow_zero, Nat.mod_one]

end Base64

namespace Codec

open Base64 (InAlphabet IsCanonical)

/-- Bytes are read from their text, which holds nothing but characters of the alphabet. A text of such
characters is read, unless its length is one more than a multiple of four, and all others are refused as bad
values. What is read has the text that it was read from, just where this text has no spare bits that are set;
and where its length is a multiple of four there are none. -/
theorem base64url_canonical :
    (∀ bs, ∃ text, base64url.encode (.bytes bs) = .ok text ∧ (∀ c ∈ text, InAlphabet c) ∧
      base64url.decode text = .ok (.bytes bs)) ∧
    ∀ raw, ((∃ v, base64url.decode raw = .ok v) ↔ (∀ c ∈ raw, InAlphabet c) ∧ raw.length % 4 ≠ 1) ∧
      (∀ r, base64url.decode raw = .error r → r.kind = .badValue ∨ r.kind = .badEncoding) ∧
      (∀ v, base64url.decode raw = .ok v → (base64url.encode v = .ok raw ↔ IsCanonical raw)) ∧
      (raw.length % 4 = 0 → IsCanonical raw) := by
  have hcodec : ∀ raw, base64url.decode raw = decodeBase64 raw := fun _ => rfl
  simp only [hcodec]
  refine ⟨fun bs => ⟨Base64.encode bs, rfl, ?_, ?_⟩, fun raw => ?_⟩
  · intro c hc
    rw [Base64.encode_eq] at hc
    obtain ⟨n, hn, rfl⟩ := List.mem_map.mp hc
    exact Base64.inAlphabet_digit (Base64.sextets_lt bs n hn)
  · rw [decodeBase64, Base64.decode_encode]
  · rw [← and_assoc, ← and_assoc]
    refine ⟨?_, Base64.isCanonical_of_whole⟩
    have hrefused : ∀ {r : Refusal}, decodeBase64 raw = .error r →
        (r.kind = .badValue ∨ r.kind = .badEncoding) →
        ¬ ((∀ c ∈ raw, InAlphabet c) ∧ raw.length % 4 ≠ 1) →
        (((∃ v, decodeBase64 raw = .ok v) ↔ (∀ c ∈ raw, InAlphabet c) ∧ raw.length % 4 ≠ 1) ∧
          ∀ r, decodeBase64 raw = .error r → r.kind = .badValue ∨ r.kind = .badEncoding) ∧
        ∀ v, decodeBase64 raw = .ok v → (base64url.encode v = .ok raw ↔ IsCanonical raw) := by
      intro r hr hkind hnot
      simp [hr, hkind, hnot]
    rcases Base64.decode_cases raw with ⟨values, rfl, hlt, hlength, hdecode⟩ | ⟨houtside, hdecode⟩ |
      ⟨-, hlength, hdecode⟩
    · have hread : decodeBase64 (values.map Base64.digit) = .ok (.bytes (Base64.bytes values)) := by
        rw [decodeBase64, hdecode]
      have hinside : ∀ c ∈ values.map Base64.digit, InAlphabet c :=
        Base64.exists_values_iff.mp ⟨values, Base64.mapM_value?_digit hlt⟩
      refine ⟨⟨iff_of_true ⟨_, hread⟩ ⟨hinside, by rwa [List.length_map]⟩, fun r hr => ?_⟩, fun v hv => ?_⟩
      · rw [hread] at hr
        cases hr
      · rw [hread] at hv
        cases hv
        rw [← Base64.encode_bytes_iff hlt hlength]
        exact ⟨Except.ok.inj, congrArg _⟩
    · exact hrefused (by rw [decodeBase64, hdecode]) (.inl rfl) fun h => houtside h.1
    · exact hrefused (by rw [decodeBase64, hdecode]) (.inr rfl) fun h => h.2 hlength

/-- Two texts stand for the same byte, and one of them is its text. -/
theorem base64url_canonical_spare :
    base64url.decode "QQ" = .ok (.bytes [0x41]) ∧ base64url.encode (.bytes [0x41]) = .ok "QQ" ∧
      base64url.decode "QR" = .ok (.bytes [0x41]) ∧ base64url.encode (.bytes [0x41]) ≠ .ok "QR" := by
  have hread : base64url.decode "QR" = .ok (.bytes [0x41]) := rfl
  have hspare : ¬ IsCanonical "QR" := fun h => absurd (h 'R' rfl 17 rfl) (by decide)
  obtain ⟨-, -, hwritten, -⟩ := base64url_canonical.2 "QR"
  exact ⟨rfl, rfl, hread, fun h => hspare ((hwritten _ hread).mp h)⟩

end Codec

end RoutePattern
