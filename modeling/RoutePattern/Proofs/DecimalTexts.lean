import RoutePattern.Proofs.DigitTexts

/-!
Texts of decimals. A decimal is read from its text with the same coefficient and exponent if these can be
held; what is written for an infinity or for no number is not read as a number.
-/

namespace RoutePattern

/-- A text as a query gives it back, if nothing but plus signs stands for other characters. -/
def spaced (text : Text) : Text := text.map fun c => if c = '+' then ' ' else c

theorem spaced_eq_self {text : Text} (h : '+' ∉ text) : spaced text = text := by
  refine (List.map_congr_left fun c hc => if_neg ?_).trans (List.map_id text)
  rintro rfl
  exact h hc

theorem spaced_append (front back : Text) : spaced (front ++ back) = spaced front ++ spaced back :=
  List.map_append

namespace Decimal

open Text

def shiftText (shift : Int) : Text :=
  'E' :: (if shift < 0 then '-' else '+') :: ofNat shift.natAbs

/-- Digits, others behind a point, and an exponent. -/
structure Spelling where
  whole : Text
  fraction : Option Text
  shift : Option Int

namespace Spelling

def decimals (s : Spelling) : Text := s.fraction.getD []

def pointPart (s : Spelling) : Text := (s.fraction.map ('.' :: ·)).getD []

def digits (s : Spelling) : Text := s.whole ++ s.pointPart

def shiftPart (s : Spelling) : Text := (s.shift.map shiftText).getD []

def text (s : Spelling) : Text := s.digits ++ s.shiftPart

@[simp] theorem text_mk (whole : Text) (fraction : Option Text) (shift : Option Int) :
    (mk whole fraction shift).text =
      whole ++ (fraction.map ('.' :: ·)).getD [] ++ (shift.map shiftText).getD [] := rfl

structure Of (s : Spelling) (coefficient : Nat) (exponent : Int) : Prop where
  ne_nil : s.whole ≠ []
  front : DigitsIn 10 s.whole
  back : DigitsIn 10 s.decimals
  coefficient_eq : digitsToNat 10 (s.whole ++ s.decimals) = coefficient
  exponent_eq : s.shift.getD 0 - s.decimals.length = exponent

variable {s : Spelling} {coefficient : Nat} {exponent : Int}

theorem mem_shiftText {shift : Int} {c : Char} (h : c ∈ shiftText shift) :
    c.isDigit ∨ c ∈ ['.', 'E', '-', '+'] := by
  simp only [shiftText, List.mem_cons] at h
  rcases h with rfl | rfl | h
  · exact .inr (by decide)
  · refine .inr ?_
    split <;> decide
  · exact .inl ((digitsIn_ofNat _).isDigit c h)

theorem Of.mem_digits (h : s.Of coefficient exponent) {c : Char} (hc : c ∈ s.digits) :
    c.isDigit ∨ c = '.' := by
  obtain ⟨whole, fraction, shift⟩ := s
  rcases List.mem_append.mp hc with hc | hc
  · exact .inl (h.front.isDigit c hc)
  · cases fraction with
    | none => cases hc
    | some digits =>
      rcases List.mem_cons.mp hc with rfl | hc
      · exact .inr rfl
      · exact .inl (h.back.isDigit c hc)

theorem Of.mem_text (h : s.Of coefficient exponent) {c : Char} (hc : c ∈ s.text) :
    c.isDigit ∨ c ∈ ['.', 'E', '-', '+'] := by
  rcases List.mem_append.mp hc with hc | hc
  · rcases h.mem_digits hc with hdigit | rfl
    · exact .inl hdigit
    · exact .inr (by decide)
  · rw [shiftPart] at hc
    cases hn : s.shift with
    | none => simp [hn] at hc
    | some n =>
      rw [hn] at hc
      exact mem_shiftText hc

theorem Of.exists_digit (h : s.Of coefficient exponent) : ∃ c rest, s.digits = c :: rest ∧ c.isDigit := by
  obtain ⟨c, rest, hcons⟩ := List.exists_cons_of_ne_nil h.ne_nil
  exact ⟨c, rest ++ _, by rw [digits, hcons]; rfl, h.front.isDigit c (by simp [hcons])⟩

theorem Of.plus_notMem_digits (h : s.Of coefficient exponent) : '+' ∉ s.digits := by
  intro hmem
  have hdigits := h.mem_digits hmem
  simp at hdigits

theorem Of.plus_mem_text (h : s.Of coefficient exponent) :
    '+' ∈ s.text ↔ ∃ n, s.shift = some n ∧ 0 ≤ n := by
  rw [text, List.mem_append, or_iff_right h.plus_notMem_digits, shiftPart]
  cases s.shift with
  | none => simp
  | some n =>
    have hn : '+' ∉ ofNat n.natAbs := (digitsIn_ofNat _).notMem (by decide) (by decide)
    by_cases hneg : n < 0
    · simp [shiftText, hneg, hn]
    · simp [shiftText, hneg, Int.not_lt.mp hneg]

theorem exponent?_signed (negative : Bool) (n : Nat) :
    exponent? ('E' :: (if negative then '-' else '+') :: ofNat n) =
      some (if negative then -(n : Int) else n) := by
  have hne : (ofNat n).isEmpty = false := by simpa using ofNat_ne_nil n
  have hall : (ofNat n).all Char.isDigit = true := List.all_eq_true.mpr (digitsIn_ofNat n).isDigit
  cases negative <;> simp [exponent?, hne, hall, digitsToNat_ofNat]

theorem exponent?_shift (shift : Option Int) :
    exponent? ((shift.map shiftText).getD []) = some (shift.getD 0) := by
  cases shift with
  | none => rfl
  | some n =>
    have hsigned := exponent?_signed (decide (n < 0)) n.natAbs
    simp only [decide_eq_true_eq] at hsigned
    refine hsigned.trans (congrArg some ?_)
    show (if n < 0 then -(n.natAbs : Int) else n.natAbs) = n
    split <;> omega

theorem toLower_of_isDigit {c : Char} (h : c.isDigit) : c.toLower = c := by
  obtain ⟨-, hhigh⟩ := Char.isDigit_iff_toNat.mp h
  have hhigh : c.toNat ≤ 0x39 := hhigh
  refine dif_neg ?_
  rintro ⟨hlow, -⟩
  have hlow : 0x41 ≤ c.toNat := UInt32.le_iff_toNat_le.mp hlow
  omega

theorem word_of_isDigit (negative : Bool) {c : Char} (hc : c.isDigit) (rest : Text) :
    (lowerAscii (c :: rest) == "inf".toList || lowerAscii (c :: rest) == "infinity".toList) = false ∧
      undefined? negative (lowerAscii (c :: rest)) = none := by
  have hletter : ∀ x : Char, x.isDigit = false → x ≠ c := by
    rintro x hx rfl
    simp [hc] at hx
  have hi : 'i' ≠ c := hletter 'i' rfl
  have hn : 'n' ≠ c := hletter 'n' rfl
  have hs : 's' ≠ c := hletter 's' rfl
  have hword : lowerAscii (c :: rest) = c :: lowerAscii rest := by
    rw [lowerAscii, List.map_cons, toLower_of_isDigit hc]
    rfl
  constructor
  · simp [hword, hi.symm]
  · simp [undefined?, after?, hword, hn, hs, List.isPrefixOf]

theorem split_digits {digits tail : Text} (h : ∀ c ∈ digits, c.isDigit)
    (htail : ∀ c ∈ tail.head?, c.isDigit = false) :
    (digits ++ tail).takeWhile Char.isDigit = digits ∧ (digits ++ tail).dropWhile Char.isDigit = tail := by
  have hnone : tail.takeWhile Char.isDigit = [] := by
    cases tail with
    | nil => rfl
    | cons c rest => simp [htail c (by simp)]
  rw [List.takeWhile_append_of_pos h, List.dropWhile_append_of_pos h, hnone, List.append_nil,
    dropWhile_eq_self htail]
  exact ⟨rfl, rfl⟩

theorem head?_pointPart_append {tail : Text} (htail : ∀ c ∈ tail.head?, c.isDigit = false) :
    ∀ c ∈ (s.pointPart ++ tail).head?, c.isDigit = false := by
  rw [pointPart]
  cases s.fraction with
  | none => exact htail
  | some fraction => simp

/-- Digits are read together with what stands behind them, which can only be an exponent. -/
theorem Of.magnitude?_append (h : s.Of coefficient exponent) (negative : Bool) {tail : Text}
    (htail : ∀ c ∈ tail.head?, c = 'E') :
    magnitude? negative (s.digits ++ tail) =
      (exponent? tail).bind fun e =>
        if inRange coefficient (e - s.decimals.length) then
          some (finite negative coefficient (e - s.decimals.length))
        else none := by
  have hbehind : ∀ c ∈ tail.head?, c.isDigit = false := by
    intro c hc
    rw [htail c hc]
    rfl
  have hempty : s.whole.isEmpty = false := by simpa using h.ne_nil
  have hcoefficient := h.coefficient_eq
  have hback := h.back
  obtain ⟨c, rest, hcons, hc⟩ := h.exists_digit
  obtain ⟨hword, hundefined⟩ := word_of_isDigit negative hc (rest ++ tail)
  rw [← List.cons_append, ← hcons] at hword hundefined
  obtain ⟨htake, hdrop⟩ := split_digits h.front.isDigit (head?_pointPart_append hbehind)
  rw [← List.append_assoc, ← digits] at htake hdrop
  simp only [Decimal.magnitude?, hword, hundefined, Bool.false_eq_true, if_false, htake, hdrop]
  cases hf : s.fraction with
  | none =>
    simp only [decimals, hf, Option.getD_none, List.append_nil] at hcoefficient ⊢
    simp only [pointPart, hf, Option.map_none, Option.getD_none, List.nil_append]
    cases tail with
    | nil => simp [hempty, hcoefficient]
    | cons x more =>
      obtain rfl : x = 'E' := htail x (by simp)
      simp [hempty, hcoefficient]
  | some fraction =>
    simp only [decimals, hf, Option.getD_some] at hcoefficient hback ⊢
    obtain ⟨htakeBack, hdropBack⟩ := split_digits hback.isDigit hbehind
    simp [pointPart, hf, hempty, hcoefficient, htakeBack, hdropBack]

theorem Of.magnitude? (h : s.Of coefficient exponent) (negative : Bool) :
    magnitude? negative s.text =
      if inRange coefficient exponent then some (finite negative coefficient exponent) else none := by
  have hshift : ∀ c ∈ s.shiftPart.head?, c = 'E' := by
    intro c hc
    rw [shiftPart] at hc
    cases hn : s.shift with
    | none => simp [hn] at hc
    | some n => simpa [hn, shiftText, eq_comm] using hc
  rw [text, h.magnitude?_append negative hshift, shiftPart, exponent?_shift, Option.bind_some,
    h.exponent_eq]

end Spelling

def signText (negative : Bool) : Text := if negative then ['-'] else []

theorem mem_signText {negative : Bool} {c : Char} (h : c ∈ signText negative) : c = '-' := by
  cases negative with
  | true => exact List.mem_singleton.mp h
  | false => cases h

def unsigned (coefficient : Nat) (exponent : Int) : Text :=
  let digits := ofNat coefficient
  let adjusted := exponent + digits.length - 1
  if exponent ≤ 0 && -6 ≤ adjusted then withPlaces digits exponent.natAbs
  else scientific digits adjusted

theorem write_finite (negative : Bool) (coefficient : Nat) (exponent : Int) :
    (finite negative coefficient exponent).write = signText negative ++ unsigned coefficient exponent := by
  simp only [write, unsigned]
  cases negative <;> rfl

theorem withPlaces_spelling {digits : Text} (hne : digits ≠ []) (hdigits : DigitsIn 10 digits)
    (places : Nat) :
    ∃ s : Spelling, withPlaces digits places = s.text ∧
      s.Of (digitsToNat 10 digits) (-(places : Int)) ∧ s.shift = none := by
  have hpart : ∀ {part : Text}, part ⊆ digits → DigitsIn 10 part := fun hsub c hc => hdigits c (hsub hc)
  unfold withPlaces
  split
  next hzero =>
    refine ⟨⟨digits, none, none⟩, by simp, ⟨hne, hdigits, ?_, ?_, ?_⟩, rfl⟩
    · simp [Spelling.decimals, DigitsIn]
    · simp [Spelling.decimals]
    · simp [Spelling.decimals, hzero]
  next hplaces =>
    split
    next hlt =>
      let count := digits.length - places
      refine ⟨⟨digits.take count, some (digits.drop count), none⟩, by simp [count],
        ⟨?_, hpart (List.take_subset _ _), hpart (List.drop_subset _ _), ?_, ?_⟩, rfl⟩
      · refine List.ne_nil_of_length_pos ?_
        simp only [List.length_take, count]
        omega
      · simp [Spelling.decimals]
      · simp only [Spelling.decimals, Option.getD_some, Option.getD_none, List.length_drop, count]
        omega
    -- too few digits for the places: zeros stand in front of them
    next hge =>
      let zeros := List.replicate (places - digits.length) '0'
      refine ⟨⟨['0'], some (zeros ++ digits), none⟩, by simp [zeros],
        ⟨by simp, digitsIn_replicate (by decide) 1, ?_, ?_, ?_⟩, rfl⟩
      · exact (digitsIn_replicate (by decide) _).append hdigits
      · have hzeros := digitsToNat_zeros 10 (1 + (places - digits.length)) digits
        rw [List.replicate_add, List.append_assoc] at hzeros
        exact hzeros
      · simp only [Spelling.decimals, Option.getD_some, Option.getD_none, List.length_append,
          List.length_replicate, zeros]
        omega

theorem scientific_spelling {digits : Text} (hne : digits ≠ []) (hdigits : DigitsIn 10 digits)
    (adjusted : Int) :
    ∃ s : Spelling, scientific digits adjusted = s.text ∧
      s.Of (digitsToNat 10 digits) (adjusted + 1 - digits.length) ∧ s.shift = some adjusted := by
  have hshift : (if adjusted < 0 then "E-" else "E+").toList ++ ofNat adjusted.natAbs =
      shiftText adjusted := by
    unfold shiftText
    split <;> rfl
  match digits, hne with
  | [first], _ =>
    refine ⟨⟨[first], none, some adjusted⟩, ?_, ⟨by simp, hdigits, ?_, ?_, ?_⟩, rfl⟩
    · simp [scientific, hshift]
    · simp [Spelling.decimals, DigitsIn]
    · simp [Spelling.decimals]
    · simp [Spelling.decimals]
  | first :: second :: rest, _ =>
    obtain ⟨hfirst, hrest⟩ := List.forall_mem_cons.mp hdigits
    refine ⟨⟨[first], some (second :: rest), some adjusted⟩, ?_, ⟨by simp, ?_, hrest, ?_, ?_⟩, rfl⟩
    · simp [scientific, hshift]
    · simpa [DigitsIn] using hfirst
    · simp [Spelling.decimals]
    · simp only [Spelling.decimals, Option.getD_some, List.length_cons]
      omega

/-- A plus sign is written just where the last digit stands for tens or more. -/
theorem unsigned_spelling (coefficient : Nat) (exponent : Int) :
    ∃ s : Spelling, unsigned coefficient exponent = s.text ∧ s.Of coefficient exponent ∧
      ('+' ∈ s.text ↔ 0 < exponent) := by
  have hvalue := digitsToNat_ofNat coefficient
  have hdigits := digitsIn_ofNat coefficient
  have hne := ofNat_ne_nil coefficient
  have hlength := List.length_pos_of_ne_nil hne
  simp only [unsigned]
  split
  next hplaces =>
    have hle : exponent ≤ 0 := by simpa using (Bool.and_eq_true_iff.mp hplaces).1
    obtain ⟨s, htext, hof, hshift⟩ := withPlaces_spelling hne hdigits exponent.natAbs
    have hexponent : -(exponent.natAbs : Int) = exponent := by omega
    rw [hvalue, hexponent] at hof
    refine ⟨s, htext, hof, ?_⟩
    rw [hof.plus_mem_text, hshift]
    simpa using hle
  -- the exponent that is written is below -6 unless the last digit stands for tens or more
  next hplaces =>
    obtain ⟨s, htext, hof, hshift⟩ :=
      scientific_spelling hne hdigits (exponent + (ofNat coefficient).length - 1)
    have hexponent : exponent + (ofNat coefficient).length - 1 + 1 - (ofNat coefficient).length =
        exponent := by omega
    rw [hvalue, hexponent] at hof
    refine ⟨s, htext, hof, ?_⟩
    rw [hof.plus_mem_text, hshift]
    simp only [Option.some.injEq, exists_eq_left']
    simp only [Bool.and_eq_true, decide_eq_true_eq] at hplaces
    omega

theorem mem_write {negative : Bool} {coefficient : Nat} {exponent : Int} {c : Char}
    (h : c ∈ (finite negative coefficient exponent).write) : c.isDigit ∨ c ∈ ['.', 'E', '-', '+'] := by
  obtain ⟨s, htext, hof, -⟩ := unsigned_spelling coefficient exponent
  rw [write_finite, htext] at h
  rcases List.mem_append.mp h with h | h
  · rw [mem_signText h]
    exact .inr (by decide)
  · exact hof.mem_text h

theorem plus_mem_write (negative : Bool) (coefficient : Nat) (exponent : Int) :
    '+' ∈ (finite negative coefficient exponent).write ↔ 0 < exponent := by
  obtain ⟨s, htext, -, hplus⟩ := unsigned_spelling coefficient exponent
  have hsign : '+' ∉ signText negative := fun hmem => absurd (mem_signText hmem) (by decide)
  rw [write_finite, htext, List.mem_append, ← hplus, or_iff_right hsign]

theorem isPlain_of_mem_write {negative : Bool} {coefficient : Nat} {exponent : Int} {c : Char}
    (h : c ∈ (finite negative coefficient exponent).write) : isPlain c := by
  have hmarks : ∀ c ∈ ['.', 'E', '-', '+'], isPlain c := List.all_eq_true.mp rfl
  rcases mem_write h with hdigit | hmark
  · exact isPlain_of_isDigit hdigit
  · exact hmarks c hmark

theorem read?_of_filter {text : Text} (negative : Bool) {c : Char} {rest : Text} (hminus : c ≠ '-')
    (hplus : c ≠ '+')
    (h : (plainDigits (trimBlank text)).filter (· != '_') = signText negative ++ c :: rest) :
    read? text = magnitude? negative (c :: rest) := by
  rw [read?, h]
  cases negative with
  | true => rfl
  | false =>
    simp only [signText, Bool.false_eq_true, if_false, List.nil_append]
    split
    next heq => exact absurd (List.cons.inj heq).1 hminus
    next heq => exact absurd (List.cons.inj heq).1 hplus
    next => rfl

theorem read?_signed (negative : Bool) {body : Text} (hascii : ∀ c ∈ body, c.toNat < 0x80 ∧ c ≠ '_')
    (hfirst : ∃ c rest, body = c :: rest ∧ c.isDigit) (hlast : ∀ c ∈ body.getLast?, isBlank c = false) :
    read? (signText negative ++ body) = magnitude? negative body := by
  obtain ⟨c, rest, rfl, hc⟩ := hfirst
  have hmem : ∀ x ∈ signText negative ++ c :: rest, x.toNat < 0x80 ∧ x ≠ '_' := by
    intro x hx
    rcases List.mem_append.mp hx with hx | hx
    · rw [mem_signText hx]
      decide
    · exact hascii x hx
  have htrim : trimBlank (signText negative ++ c :: rest) = signText negative ++ c :: rest := by
    refine trimWhere_eq_self ?_ ?_
    · cases negative with
      | true => simpa [signText] using isBlank_of_isPlain (c := '-') rfl
      | false => simpa [signText] using isBlank_of_isPlain (isPlain_of_isDigit hc)
    · rw [List.getLast?_append_of_ne_nil _ (List.cons_ne_nil c rest)]
      exact hlast
  refine read?_of_filter negative ?_ ?_ ?_
  · rintro rfl
    cases hc
  · rintro rfl
    cases hc
  · rw [htrim, plainDigits_eq_self fun x hx => (hmem x hx).1]
    exact List.filter_eq_self.mpr fun x hx => bne_iff_ne.mpr (hmem x hx).2

/-- A decimal is read from its text, if it can be held. -/
theorem read?_write (negative : Bool) (coefficient : Nat) (exponent : Int) :
    read? (finite negative coefficient exponent).write =
      if inRange coefficient exponent then some (finite negative coefficient exponent) else none := by
  obtain ⟨s, htext, hof, -⟩ := unsigned_spelling coefficient exponent
  have hplain : ∀ c ∈ s.text, isPlain c := by
    intro c hc
    refine @isPlain_of_mem_write negative coefficient exponent c ?_
    rw [write_finite, htext]
    exact List.mem_append_right _ hc
  have hascii : ∀ c ∈ s.text, c.toNat < 0x80 ∧ c ≠ '_' := by
    intro c hc
    refine ⟨(toNat_of_isPlain (hplain c hc)).2, ?_⟩
    rintro rfl
    simpa using hof.mem_text hc
  obtain ⟨c, rest, hcons, hc⟩ := hof.exists_digit
  have hfirst : ∃ c rest, s.text = c :: rest ∧ c.isDigit := ⟨c, _, by rw [Spelling.text, hcons]; rfl, hc⟩
  rw [write_finite, htext, read?_signed negative hascii hfirst
    fun c hc => isBlank_of_isPlain (hplain c (List.mem_of_mem_getLast? hc))]
  exact hof.magnitude? negative

theorem read?_write_spaced (negative : Bool) (coefficient : Nat) {exponent : Int} (h : 0 < exponent) :
    read? (spaced (finite negative coefficient exponent).write) = none := by
  obtain ⟨s, htext, hof, hplus⟩ := unsigned_spelling coefficient exponent
  obtain ⟨n, hn, hnonneg⟩ := hof.plus_mem_text.mp (hplus.mpr h)
  have hdigits := digitsIn_ofNat n.natAbs
  have hspaced : spaced (finite negative coefficient exponent).write =
      signText negative ++ (s.digits ++ ['E', ' '] ++ ofNat n.natAbs) := by
    have hshift : s.shiftPart = ['E'] ++ (['+'] ++ ofNat n.natAbs) := by
      simp [Spelling.shiftPart, hn, shiftText, hnonneg]
    have hsign : '+' ∉ signText negative := fun hmem => absurd (mem_signText hmem) (by decide)
    rw [write_finite, htext, Spelling.text, hshift]
    simp only [spaced_append, spaced_eq_self hsign, spaced_eq_self hof.plus_notMem_digits,
      spaced_eq_self (hdigits.notMem (by decide) (by decide))]
    simp [spaced]
  have hascii : ∀ c ∈ s.digits ++ ['E', ' '] ++ ofNat n.natAbs, c.toNat < 0x80 ∧ c ≠ '_' := by
    have hdigit : ∀ c : Char, c.isDigit → c.toNat < 0x80 ∧ c ≠ '_' := by
      intro c hc
      refine ⟨(toNat_of_isPlain (isPlain_of_isDigit hc)).2, ?_⟩
      rintro rfl
      cases hc
    intro c hc
    simp only [List.mem_append, List.mem_cons, List.not_mem_nil, or_false] at hc
    rcases hc with (hc | rfl | rfl) | hc
    · rcases hof.mem_digits hc with hc | rfl
      · exact hdigit c hc
      · decide
    · decide
    · decide
    · exact hdigit c (hdigits.isDigit c hc)
  have hlast : ∀ c ∈ (s.digits ++ ['E', ' '] ++ ofNat n.natAbs).getLast?, isBlank c = false := by
    intro c hc
    rw [List.getLast?_append_of_ne_nil _ (ofNat_ne_nil n.natAbs)] at hc
    exact isBlank_of_isPlain (isPlain_of_isDigit (hdigits.isDigit c (List.mem_of_mem_getLast? hc)))
  obtain ⟨c, rest, hcons, hc⟩ := hof.exists_digit
  have hfirst : ∃ c rest, s.digits ++ ['E', ' '] ++ ofNat n.natAbs = c :: rest ∧ c.isDigit :=
    ⟨c, _, by rw [hcons]; rfl, hc⟩
  -- behind its letter the exponent begins with the space, which is neither a sign nor a digit
  rw [hspaced, read?_signed negative hascii hfirst hlast, List.append_assoc,
    hof.magnitude?_append negative (by simp)]
  simp [exponent?]

theorem undefined?_not_finite {negative : Bool} {word : Text} {d : Decimal}
    (h : undefined? negative word = some d) : d.isFinite = false := by
  simp only [undefined?] at h
  split at h
  · split at h
    · rw [← Option.some.inj h]
      rfl
    · cases h
  · split at h
    · rw [← Option.some.inj h]
      rfl
    · cases h
  · cases h

theorem magnitude?_of_letter {negative : Bool} {c : Char} {rest : Text} {d : Decimal}
    (hdigit : c.isDigit = false) (hpoint : c ≠ '.') (h : magnitude? negative (c :: rest) = some d) :
    d.isFinite = false := by
  simp only [magnitude?] at h
  split at h
  · rw [← Option.some.inj h]
    rfl
  · split at h
    next e he =>
      obtain rfl := Option.some.inj h
      exact undefined?_not_finite he
    next => simp [hdigit, hpoint] at h

theorem trimBlank_append {front : Text} (h : ∀ c ∈ front, isBlank c = false) (hne : front ≠ [])
    (rest : Text) :
    trimBlank (front ++ rest) = front ++ (rest.reverse.dropWhile isBlank).reverse := by
  have hfront : (front ++ rest).dropWhile isBlank = front ++ rest :=
    dropWhile_eq_self fun c hc => by
      rw [List.head?_append_of_ne_nil _ hne] at hc
      exact h c (List.mem_of_mem_head? hc)
  have hback : front.reverse.dropWhile isBlank = front.reverse :=
    dropWhile_eq_self fun c hc => h c (List.mem_reverse.mp (List.mem_of_mem_head? hc))
  rw [trimBlank, trimWhere, hfront, List.reverse_append, List.dropWhile_append]
  split
  next hnil => simp [hback, List.isEmpty_iff.mp hnil]
  next => simp

/-- What begins as a word does, behind a sign or without one, is at most a word. -/
theorem read?_of_letter (negative : Bool) {c : Char} {rest : Text} {d : Decimal}
    (hletter : c ∈ ['I', 'N', 's']) (h : read? (signText negative ++ c :: rest) = some d) :
    d.isFinite = false := by
  obtain ⟨hplain, hdigit, hpoint, hminus, hplus, hunderscore⟩ :
      isPlain c ∧ c.isDigit = false ∧ c ≠ '.' ∧ c ≠ '-' ∧ c ≠ '+' ∧ c ≠ '_' := by
    simp only [List.mem_cons, List.not_mem_nil, or_false] at hletter
    rcases hletter with rfl | rfl | rfl <;> decide
  have hfront : ∀ x ∈ signText negative ++ [c], isPlain x := by
    intro x hx
    rcases List.mem_append.mp hx with hx | hx
    · rw [mem_signText hx]
      decide
    · rw [List.mem_singleton.mp hx]
      exact hplain
  have hkept : (signText negative ++ [c]).filter (· != '_') = signText negative ++ [c] := by
    refine List.filter_eq_self.mpr fun x hx => bne_iff_ne.mpr ?_
    rintro rfl
    rcases List.mem_append.mp hx with hx | hx
    · exact absurd (mem_signText hx) (by decide)
    · exact hunderscore (List.mem_singleton.mp hx).symm
  have hread : (plainDigits (trimBlank (signText negative ++ c :: rest))).filter (· != '_') =
      signText negative ++ c ::
        (plainDigits (rest.reverse.dropWhile isBlank).reverse).filter (· != '_') := by
    have hmap : ∀ {front back : Text},
        plainDigits (front ++ back) = plainDigits front ++ plainDigits back := List.map_append
    rw [List.append_cons, trimBlank_append (fun x hx => isBlank_of_isPlain (hfront x hx)) (by simp),
      hmap, plainDigits_of_isPlain hfront, List.filter_append, hkept, ← List.append_cons]
  rw [read?_of_filter negative hminus hplus hread] at h
  exact magnitude?_of_letter hdigit hpoint h

theorem read?_write_not_finite {d e : Decimal} (hd : d.isFinite = false) (h : read? d.write = some e) :
    e.isFinite = false := by
  match d, hd with
  | infinite negative, _ =>
    cases negative
    · exact read?_of_letter (c := 'I') false (by decide) h
    · exact read?_of_letter (c := 'I') true (by decide) h
  | undefined negative signaling payload, _ =>
    cases negative <;> cases signaling
    · exact read?_of_letter (c := 'N') false (by decide) h
    · exact read?_of_letter (c := 's') false (by decide) h
    · exact read?_of_letter (c := 'N') true (by decide) h
    · exact read?_of_letter (c := 's') true (by decide) h

/-- A number that can be held without rounding. -/
def Held : Decimal → Prop
  | finite _ coefficient exponent => inRange coefficient exponent
  | _ => False

instance : DecidablePred Held
  | finite _ coefficient exponent => inferInstanceAs (Decidable (inRange coefficient exponent = true))
  | infinite _ => isFalse id
  | undefined .. => isFalse id

end Decimal

namespace Codec

/-- Just the numbers that can be held are read from their texts. -/
theorem decodeDecimal_write {d : Decimal} {v : Value} :
    decodeDecimal d.write = .ok v ↔ d.Held ∧ v = .decimal d := by
  cases hd : d.isFinite with
  | true =>
    match d, hd with
    | .finite negative coefficient exponent, _ =>
      rw [decodeDecimal, Decimal.read?_write, Decimal.Held]
      by_cases hrange : Decimal.inRange coefficient exponent = true
      · simp [hrange, Decimal.isFinite, eq_comm]
      · simp [hrange]
  | false =>
    have hheld : ¬ d.Held := by
      cases d
      · cases hd
      · exact id
      · exact id
    rw [decodeDecimal]
    cases hread : Decimal.read? d.write with
    | none => simp [hheld]
    | some e => simp [Decimal.read?_write_not_finite hd hread, hheld]

end Codec

end RoutePattern
