import Mathlib.Data.List.TakeWhile
import RoutePattern.Codec
import RoutePattern.Proofs.Codecs

/-!
Texts of numbers. White space and digits of other scripts are looked for around and within what is read, but
are not found in what was written; the digits that are written for a number are read as that number.
-/

namespace RoutePattern

namespace Text

/-- Letters and digits of ASCII, and the marks that stand among them where values are written. -/
def isPlain (c : Char) : Bool := c.isAlphanum || ['-', '.', '_', '+'].contains c

theorem toNat_of_isAlpha {c : Char} (h : c.isAlpha) :
    (0x41 ≤ c.toNat ∧ c.toNat ≤ 0x5A) ∨ (0x61 ≤ c.toNat ∧ c.toNat ≤ 0x7A) := by
  rcases Bool.or_eq_true_iff.mp h with hupper | hlower
  · obtain ⟨hlow, hhigh⟩ := of_decide_eq_true hupper
    exact .inl ⟨UInt32.le_iff_toNat_le.mp hlow, UInt32.le_iff_toNat_le.mp hhigh⟩
  · obtain ⟨hlow, hhigh⟩ := Bool.and_eq_true_iff.mp hlower
    exact .inr ⟨UInt32.le_iff_toNat_le.mp (of_decide_eq_true hlow),
      UInt32.le_iff_toNat_le.mp (of_decide_eq_true hhigh)⟩

theorem toNat_of_isAlphanum {c : Char} (h : c.isAlphanum) :
    (0x30 ≤ c.toNat ∧ c.toNat ≤ 0x39) ∨ (0x41 ≤ c.toNat ∧ c.toNat ≤ 0x5A) ∨
      (0x61 ≤ c.toNat ∧ c.toNat ≤ 0x7A) := by
  rcases Bool.or_eq_true_iff.mp h with halpha | hdigit
  · exact .inr (toNat_of_isAlpha halpha)
  · exact .inl (Char.isDigit_iff_toNat.mp hdigit)

theorem toNat_of_isPlain {c : Char} (h : isPlain c) : 0x20 < c.toNat ∧ c.toNat < 0x80 := by
  rcases Bool.or_eq_true_iff.mp h with halphanum | hmark
  · have hcode := toNat_of_isAlphanum halphanum
    omega
  · simp only [List.contains_iff_mem, List.mem_cons, List.not_mem_nil, or_false] at hmark
    rcases hmark with rfl | rfl | rfl | rfl <;> decide

theorem isPlain_of_isDigit {c : Char} (h : c.isDigit) : isPlain c := by
  simp [isPlain, Char.isAlphanum, h]

theorem isBlank_of_isPlain {c : Char} (h : isPlain c) : isBlank c = false := by
  obtain ⟨hlow, hhigh⟩ := toNat_of_isPlain h
  simp only [isBlank, blankRuns, List.any_cons, List.any_nil, Bool.or_false, Bool.or_eq_false_iff,
    Bool.and_eq_false_iff, decide_eq_false_iff_not]
  omega

theorem dropWhile_eq_self {class_ : Char → Bool} {text : Text}
    (h : ∀ c ∈ text.head?, class_ c = false) : text.dropWhile class_ = text := by
  cases text with
  | nil => rfl
  | cons c rest => simp [h c (by simp)]

theorem trimWhere_eq_self {class_ : Char → Bool} {text : Text}
    (hfirst : ∀ c ∈ text.head?, class_ c = false) (hlast : ∀ c ∈ text.getLast?, class_ c = false) :
    trimWhere class_ text = text := by
  rw [trimWhere, dropWhile_eq_self hfirst, dropWhile_eq_self (by simpa using hlast),
    List.reverse_reverse]

theorem digitValue?_eq_none {c : Char} (hlow : c.toNat < 0x80) (hdigit : c.isDigit = false) :
    digitValue? c = none := by
  have hcode : ¬ (0x30 ≤ c.toNat ∧ c.toNat ≤ 0x39) := by
    rw [← Bool.not_eq_true, Char.isDigit_iff_toNat] at hdigit
    exact hdigit
  have hzeros : ∀ first ∈ digitZeros, first = 0x30 ∨ 0x80 ≤ first := by decide
  rw [digitValue?, Option.map_eq_none_iff, List.find?_eq_none]
  intro first hfirst
  have hzero := hzeros first hfirst
  simp only [Bool.and_eq_true, decide_eq_true_eq]
  omega

theorem digitValue?_of_isDigit {c : Char} (h : c.isDigit) : digitValue? c = some (c.toNat - 0x30) := by
  have hfind : digitZeros.find? (fun first => first ≤ c.toNat && c.toNat ≤ first + 9) = some 0x30 := by
    refine List.find?_cons_of_pos ?_
    simpa using Char.isDigit_iff_toNat.mp h
  rw [digitValue?, hfind]
  rfl

theorem isDecimalDigit_of_isDigit {c : Char} (h : c.isDigit) : isDecimalDigit c := by
  simp [isDecimalDigit, digitValue?_of_isDigit h]

theorem digitChar_sub {c : Char} (h : c.isDigit) : Nat.digitChar (c.toNat - 0x30) = c := by
  obtain ⟨hlow, hhigh⟩ := Char.isDigit_iff_toNat.mp h
  have hlow : 0x30 ≤ c.toNat := hlow
  have hhigh : c.toNat ≤ 0x39 := hhigh
  have hdigit : (Nat.digitChar (c.toNat - 0x30)).toNat = c.toNat := by
    rw [Nat.toNat_digitChar_of_lt_ten (by omega)]
    omega
  exact Char.toNat_inj.mp hdigit

theorem plainDigits_eq_self {text : Text} (h : ∀ c ∈ text, c.toNat < 0x80) : plainDigits text = text := by
  refine (List.map_congr_left fun c hc => ?_).trans (List.map_id text)
  by_cases hdigit : c.isDigit
  · simp only [digitValue?_of_isDigit hdigit]
    exact digitChar_sub hdigit
  · simp [digitValue?_eq_none (h c hc) (by simpa using hdigit)]

section

variable {text : Text} (h : ∀ c ∈ text, isPlain c)

include h

theorem trimMargin_of_isPlain : trimMargin text = text := by
  have hmargin : ∀ c ∈ text, isMargin c = false := fun c hc => by
    simp [isMargin, isBlank_of_isPlain (h c hc)]
  exact trimWhere_eq_self (fun c hc => hmargin c (List.mem_of_mem_head? hc))
    fun c hc => hmargin c (List.mem_of_mem_getLast? hc)

theorem plainDigits_of_isPlain : plainDigits text = text :=
  plainDigits_eq_self fun c hc => (toNat_of_isPlain (h c hc)).2

end

theorem digit_digitChar {d : Nat} (h : d < 16) : digitsToNat.digit d.digitChar = d := by
  have hdigits : ∀ d < 16, digitsToNat.digit d.digitChar = d := by decide
  exact hdigits d h

theorem isPlain_digitChar {d : Nat} (h : d < 16) : isPlain d.digitChar := by
  have hdigits : ∀ d < 16, isPlain d.digitChar := by decide
  exact hdigits d h

/-- Text that consists of digits as they are written in a base. -/
def DigitsIn (base : Nat) (text : Text) : Prop := ∀ c ∈ text, ∃ d < base, c = d.digitChar

theorem DigitsIn.isPlain {base : Nat} {text : Text} (h : DigitsIn base text) (hbase : base ≤ 16) :
    ∀ c ∈ text, isPlain c := by
  intro c hc
  obtain ⟨d, hd, rfl⟩ := h c hc
  exact isPlain_digitChar (by omega)

theorem DigitsIn.notMem {base : Nat} {text : Text} (h : DigitsIn base text) (hbase : base ≤ 16)
    {x : Char} (hx : ∀ d < 16, d.digitChar ≠ x) : x ∉ text := by
  intro hmem
  obtain ⟨d, hd, hdigit⟩ := h x hmem
  exact hx d (by omega) hdigit.symm

theorem DigitsIn.isDigit {text : Text} (h : DigitsIn 10 text) : ∀ c ∈ text, c.isDigit := by
  intro c hc
  obtain ⟨d, hd, rfl⟩ := h c hc
  simpa [Nat.isDigit_digitChar] using hd

theorem DigitsIn.append {base : Nat} {front back : Text} (hfront : DigitsIn base front)
    (hback : DigitsIn base back) : DigitsIn base (front ++ back) := by
  intro c hc
  rcases List.mem_append.mp hc with hc | hc
  · exact hfront c hc
  · exact hback c hc

theorem digitsIn_replicate {base : Nat} (hbase : 0 < base) (count : Nat) :
    DigitsIn base (List.replicate count '0') := by
  intro c hc
  exact ⟨0, hbase, List.eq_of_mem_replicate hc⟩

theorem digitsIn_toDigits {base : Nat} (hbase : 1 < base) (n : Nat) :
    DigitsIn base (Nat.toDigits base n) := by
  induction n using Nat.strong_induction_on with
  | _ n ih =>
    by_cases hn : n < base
    · rw [Nat.toDigits_of_lt_base hn]
      simpa [DigitsIn] using ⟨n, hn, rfl⟩
    · rw [Nat.toDigits_of_base_le hbase (by omega)]
      refine (ih (n / base) (Nat.div_lt_self (by omega) hbase)).append ?_
      simpa [DigitsIn] using ⟨n % base, Nat.mod_lt n (by omega), rfl⟩

theorem digitsToNat_toDigits {base : Nat} (hbase : 1 < base) (hle : base ≤ 16) (n : Nat) :
    digitsToNat base (Nat.toDigits base n) = n := by
  induction n using Nat.strong_induction_on with
  | _ n ih =>
    by_cases hn : n < base
    · rw [Nat.toDigits_of_lt_base hn]
      simpa [digitsToNat] using digit_digitChar (by omega)
    · have hmod : n % base < base := Nat.mod_lt n (by omega)
      rw [Nat.toDigits_of_base_le hbase (by omega), digitsToNat_append_singleton,
        ih (n / base) (Nat.div_lt_self (by omega) hbase), digit_digitChar (by omega)]
      exact Nat.div_add_mod' n base

theorem digitsToNat_zeros (base count : Nat) (digits : Text) :
    digitsToNat base (List.replicate count '0' ++ digits) = digitsToNat base digits := by
  have hzero : digitsToNat.digit '0' = 0 := rfl
  induction count with
  | zero => rfl
  | succ count ih =>
    rw [List.replicate_succ, List.cons_append, ← ih]
    simp [digitsToNat, hzero]

theorem digitsIn_ofNat (n : Nat) : DigitsIn 10 (ofNat n) := digitsIn_toDigits (by decide) n

theorem digitsToNat_ofNat (n : Nat) : digitsToNat 10 (ofNat n) = n :=
  digitsToNat_toDigits (by decide) (by decide) n

theorem digitsIn_padded (width n : Nat) : DigitsIn 10 (padded width n) :=
  (digitsIn_replicate (by decide) _).append (digitsIn_ofNat n)

theorem digitsToNat_padded (width n : Nat) : digitsToNat 10 (padded width n) = n := by
  simp only [padded]
  rw [digitsToNat_zeros, digitsToNat_ofNat]

theorem length_ofNat_le_iff {n width : Nat} (h : 0 < width) :
    (ofNat n).length ≤ width ↔ n < 10 ^ width :=
  Nat.length_toDigits_le_iff (by decide) h

theorem isPlain_of_mem_ofInt {n : Int} {c : Char} (h : c ∈ ofInt n) : isPlain c := by
  cases n with
  | ofNat n => exact (digitsIn_ofNat n).isPlain (by decide) c h
  | negSucc n =>
    rcases List.mem_cons.mp h with rfl | h
    · rfl
    · exact (digitsIn_ofNat (n + 1)).isPlain (by decide) c h

theorem plus_notMem_ofInt (n : Int) : '+' ∉ ofInt n := by
  have hdigits : ∀ m, '+' ∉ ofNat m := fun m => (digitsIn_ofNat m).notMem (by decide) (by decide)
  cases n with
  | ofNat n => exact hdigits n
  | negSucc n => simp [ofInt, hdigits]

end Text

namespace Whole

open Text

theorem isDigitIn_digitChar {base d : Nat} (hbase : base ≤ 16) (h : d < base) :
    isDigitIn base d.digitChar := by
  have hletters : ∀ d < 16, (d.digitChar.isDigit || ('a' ≤ d.digitChar && d.digitChar ≤ 'f') ||
      ('A' ≤ d.digitChar && d.digitChar ≤ 'F')) = true := by decide
  have hvalue : digitsToNat 16 [d.digitChar] = d := by
    simpa [digitsToNat] using digit_digitChar (by omega)
  rw [isDigitIn, hletters d (by omega), hvalue]
  simpa using h

theorem digits?_eq_self {base : Nat} {text : Text} (hne : text ≠ [])
    (h : ∀ c ∈ text, isDigitIn base c) : digits? base text = some text := by
  fun_induction digits? base text with
  | case1 => contradiction
  | case2 => rfl
  | case3 c hc => exact absurd (h c (by simp)) hc
  | case4 c rest hc ih =>
    have hunderscore : isDigitIn base '_' = true := h '_' (by simp)
    simp [isDigitIn] at hunderscore
  | case5 c rest hc => exact absurd (h c (by simp)) hc
  | case6 c rest hnil hunderscore hc ih =>
    rw [ih hnil fun d hd => h d (List.mem_cons_of_mem _ hd)]
    rfl
  | case7 c rest _ _ hc => exact absurd (h c (by simp)) hc

theorem sign_of_digitsIn {base : Nat} {text : Text} (hbase : base ≤ 16) (h : DigitsIn base text) :
    sign text = (false, text) := by
  unfold sign
  split
  next => exact absurd (by simp) (h.notMem hbase (x := '-') (by decide))
  next => exact absurd (by simp) (h.notMem hbase (x := '+') (by decide))
  next => rfl

theorem read_of_sign {base : Nat} {text body : Text} {negative : Bool} (hbase : base ≤ 16)
    (hplain : ∀ c ∈ text, isPlain c) (hsign : sign text = (negative, body)) (hne : body ≠ [])
    (hdigits : DigitsIn base body) (hmark : withoutMark base body = body)
    (hlimit : base = 10 → body.length ≤ digitLimit) :
    read base text =
      .ok (if negative then -(digitsToNat base body : Int) else (digitsToNat base body : Int)) := by
  have hdigit : ∀ c ∈ body, isDigitIn base c := by
    intro c hc
    obtain ⟨d, hd, rfl⟩ := hdigits c hc
    exact isDigitIn_digitChar hbase hd
  have hpart : ∀ c ∈ body, (isDigitIn base c || c == '_') = true := fun c hc => by simp [hdigit c hc]
  have hshort : (decide (base = 10) && decide (digitLimit < body.length)) = false := by
    by_cases hten : base = 10
    · simp [hten, hlimit hten]
    · simp [hten]
  have htake : body.takeWhile (fun c => isDigitIn base c || c == '_') = body :=
    List.takeWhile_eq_self_iff.mpr hpart
  have hdrop : body.dropWhile (fun c => isDigitIn base c || c == '_') = [] :=
    List.dropWhile_eq_nil_iff.mpr hpart
  simp only [read, trimMargin_of_isPlain hplain, plainDigits_of_isPlain hplain, hsign, hmark, htake, hdrop,
    digits?_eq_self hne hdigit, hshort]
  rfl

theorem write_eq_ok {n : Int} {text : Text} :
    write n = .ok text ↔ n.natAbs < 10 ^ digitLimit ∧ text = ofInt n := by
  simp only [write, Nat.pow_eq]
  split
  next h => simp only [h, true_and, Except.ok.injEq, eq_comm]
  next h => simp only [h, false_and, reduceCtorEq]

theorem sign_ofInt (n : Int) : (sign (ofInt n)).2 = ofNat n.natAbs := by
  cases n with
  | ofNat m => exact congrArg Prod.snd (sign_of_digitsIn (by decide) (digitsIn_ofNat m))
  | negSucc m => rfl

theorem read_ofInt {n : Int} (h : n.natAbs < 10 ^ digitLimit) : read 10 (Text.ofInt n) = .ok n := by
  have hdigits : ∀ m : Nat, m < 10 ^ digitLimit → ofNat m ≠ [] ∧ DigitsIn 10 (ofNat m) ∧
      withoutMark 10 (ofNat m) = ofNat m ∧ (10 = 10 → (ofNat m).length ≤ digitLimit) := by
    intro m hm
    refine ⟨ofNat_ne_nil m, digitsIn_ofNat m, ?_, fun _ => (length_ofNat_le_iff (by decide)).mpr hm⟩
    unfold withoutMark
    split <;> simp [mark?]
  cases n with
  | ofNat m =>
    obtain ⟨hne, hin, hmark, hlimit⟩ := hdigits m h
    have hread := read_of_sign (by decide) (hin.isPlain (by decide)) (sign_of_digitsIn (by decide) hin)
      hne hin hmark hlimit
    rw [digitsToNat_ofNat] at hread
    exact hread
  | negSucc m =>
    obtain ⟨hne, hin, hmark, hlimit⟩ := hdigits (m + 1) h
    have hplain : ∀ c ∈ ofInt (.negSucc m), isPlain c := fun c hc => isPlain_of_mem_ofInt hc
    have hread := read_of_sign (by decide) hplain rfl hne hin hmark hlimit
    rw [digitsToNat_ofNat] at hread
    exact hread

end Whole

end RoutePattern
