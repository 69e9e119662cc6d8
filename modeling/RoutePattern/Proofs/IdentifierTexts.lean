import RoutePattern.Proofs.DigitTexts
import RoutePattern.Proofs.JoinedPath

/-!
Texts of identifiers, dates and bytes. An identifier, a day of the calendar and any bytes are read from their
texts as they were.
-/

namespace RoutePattern

open Text

theorem Text.without_eq_self {c : Char} {more text : Text} (h : c ∉ text) :
    without (c :: more) text = text := by
  have hgo : ∀ (fuel : Nat) (t : Text), c ∉ t → without.go (c :: more) fuel t = t := by
    intro fuel t
    induction t generalizing fuel with
    | nil => intro _; cases fuel <;> rfl
    | cons d rest ih =>
      intro ht
      obtain ⟨hd, hrest⟩ : c ≠ d ∧ c ∉ rest := by simpa using ht
      cases fuel with
      | zero => rfl
      | succ fuel => simp [without.go, List.isPrefixOf, hd, ih fuel hrest]
  exact hgo _ text h

namespace Uuid

theorem length_hexDigits {width n : Nat} (hwidth : 0 < width) (h : n < 16 ^ width) :
    (hexDigits width n).length = width := by
  have hle : (Nat.toDigits 16 n).length ≤ width := (Nat.length_toDigits_le_iff (by decide) hwidth).mpr h
  simp only [hexDigits, List.length_append, List.length_replicate]
  omega

theorem digitsIn_hexDigits (width n : Nat) : DigitsIn 16 (hexDigits width n) :=
  (digitsIn_replicate (by decide) _).append (digitsIn_toDigits (by decide) n)

theorem digitsToNat_hexDigits (width n : Nat) : digitsToNat 16 (hexDigits width n) = n := by
  simp only [hexDigits]
  rw [digitsToNat_zeros, digitsToNat_toDigits (by decide) (by decide)]

theorem withoutMark_of_digitsIn {digits : Text} (h : DigitsIn 16 digits) :
    Whole.withoutMark 16 digits = digits := by
  have hlower : ∀ d < 16, d.digitChar.toLower ≠ 'x' := by decide
  unfold Whole.withoutMark
  split
  next letter rest =>
    obtain ⟨d, hd, rfl⟩ := h letter (by simp)
    simp [Whole.mark?, (hlower d hd).symm]
  next => rfl

/-- The digits of an identifier, without the dashes between its groups. -/
def digits (u : Uuid) : Text := hexDigits 32 u.bits.toNat

theorem length_digits (u : Uuid) : u.digits.length = 32 := length_hexDigits (by decide) u.bits.isLt

theorem digitsIn_digits (u : Uuid) : DigitsIn 16 u.digits := digitsIn_hexDigits 32 _

theorem mem_write {u : Uuid} {c : Char} (h : c ∈ u.write) : c ∈ u.digits ∨ c = '-' := by
  rcases mem_of_mem_join h with hdash | ⟨group, hgroup, hc⟩
  · exact .inr (List.mem_singleton.mp hdash)
  · refine .inl ?_
    simp only [List.mem_cons, List.not_mem_nil, or_false] at hgroup
    rcases hgroup with rfl | rfl | rfl | rfl | rfl
    · exact List.mem_of_mem_take hc
    · exact List.mem_of_mem_drop (List.mem_of_mem_take hc)
    · exact List.mem_of_mem_drop (List.mem_of_mem_take hc)
    · exact List.mem_of_mem_drop (List.mem_of_mem_take hc)
    · exact List.mem_of_mem_drop hc

theorem isPlain_of_mem_write {u : Uuid} {c : Char} (h : c ∈ u.write) : isPlain c := by
  rcases mem_write h with hdigit | rfl
  · exact u.digitsIn_digits.isPlain (by decide) c hdigit
  · rfl

theorem filter_write (u : Uuid) : u.write.filter (· != '-') = u.digits := by
  have hnone : '-' ∉ u.digits := u.digitsIn_digits.notMem (by decide) (by decide)
  have hkept : ∀ {group : Text}, group ⊆ u.digits → group.filter (· != '-') = group := by
    intro group hsub
    refine List.filter_eq_self.mpr fun c hc => bne_iff_ne.mpr ?_
    rintro rfl
    exact hnone (hsub hc)
  have hgroups : u.digits.take 8 ++ ((u.digits.drop 8).take 4 ++ ((u.digits.drop 12).take 4 ++
      ((u.digits.drop 16).take 4 ++ u.digits.drop 20))) = u.digits := by
    have h20 : u.digits.drop 20 = (u.digits.drop 16).drop 4 := by rw [List.drop_drop]
    have h16 : u.digits.drop 16 = (u.digits.drop 12).drop 4 := by rw [List.drop_drop]
    have h12 : u.digits.drop 12 = (u.digits.drop 8).drop 4 := by rw [List.drop_drop]
    rw [h20, List.take_append_drop, h16, List.take_append_drop, h12, List.take_append_drop,
      List.take_append_drop]
  have hdrop : ∀ n, u.digits.drop n ⊆ u.digits := fun n => List.drop_subset n _
  have htake : ∀ n m, (u.digits.drop n).take m ⊆ u.digits := fun n m c hc =>
    hdrop n (List.mem_of_mem_take hc)
  have hdash : List.filter (· != '-') ['-'] = [] := by rfl
  have hwrite : u.write = u.digits.take 8 ++ (['-'] ++ ((u.digits.drop 8).take 4 ++ (['-'] ++
      ((u.digits.drop 12).take 4 ++ (['-'] ++ ((u.digits.drop 16).take 4 ++ (['-'] ++
        u.digits.drop 20))))))) := by
    simp [write, digits, join, List.intercalate]
  simp only [hwrite, List.filter_append, hdash, List.nil_append, hkept (hdrop _), hkept (htake _ _),
    hkept (List.take_subset 8 u.digits)]
  exact hgroups

theorem bare_write (u : Uuid) : bare u.write = u.digits := by
  have hletter : 'u' ∉ u.write := by
    intro hmem
    rcases mem_write hmem with hdigit | hdash
    · exact u.digitsIn_digits.notMem (by decide) (by decide) hdigit
    · cases hdash
  have hurn : without "urn:" u.write = u.write := without_eq_self hletter
  have huuid : without "uuid:" u.write = u.write := without_eq_self hletter
  have hbrace : ∀ c ∈ u.write, (c == '\x7b' || c == '\x7d') = false := by
    intro c hc
    refine Bool.eq_false_iff.mpr fun hmark => ?_
    have hplain := isPlain_of_mem_write hc
    rcases Bool.or_eq_true_iff.mp hmark with hopen | hclose
    · obtain rfl := beq_iff_eq.mp hopen
      cases hplain
    · obtain rfl := beq_iff_eq.mp hclose
      cases hplain
  rw [bare, hurn, huuid, trimWhere_eq_self (fun c hc => hbrace c (List.mem_of_mem_head? hc))
    fun c hc => hbrace c (List.mem_of_mem_getLast? hc)]
  exact filter_write u

theorem read_digits (u : Uuid) : Whole.read 16 u.digits = .ok (u.bits.toNat : Int) := by
  have hin := u.digitsIn_digits
  have hne : u.digits ≠ [] := List.ne_nil_of_length_pos (by simp [length_digits])
  have hread := Whole.read_of_sign (by decide) (hin.isPlain (by decide))
    (Whole.sign_of_digitsIn (by decide) hin) hne hin (withoutMark_of_digitsIn hin) (by simp)
  have hvalue : digitsToNat 16 u.digits = u.bits.toNat := digitsToNat_hexDigits 32 _
  rw [hvalue] at hread
  exact hread

theorem read_write (u : Uuid) : read u.write = .ok u := by
  simp [read, bare_write, length_digits, read_digits]

end Uuid

theorem Utf8.length_encode {text : Text} (h : ∀ c ∈ text, c.toNat < 0x80) :
    (encode text).length = text.length := by
  induction text with
  | nil => rfl
  | cons c rest ih =>
    obtain ⟨hc, hrest⟩ := List.forall_mem_cons.mp h
    have hchar : encodeChar c = [c.toNat] := if_pos hc
    rw [encode, List.flatMap_cons, List.length_append, ← encode, ih hrest, hchar]
    simp [Nat.add_comm]

namespace Date

/-- A day of the calendar. -/
def IsDay (d : Date) : Prop := checked d.year d.month d.day = .ok d

instance (d : Date) : Decidable d.IsDay :=
  inferInstanceAs (Decidable (checked d.year d.month d.day = .ok d))

theorem length_padded {width : Nat} (h : 0 < width) (n : Nat) :
    width ≤ (padded width n).length ∧ ((padded width n).length = width ↔ n < 10 ^ width) := by
  have hle := length_ofNat_le_iff (n := n) h
  simp only [padded, List.length_append, List.length_replicate]
  omega

theorem fixedDigits_append {count : Nat} {digits : Text} (hlength : digits.length = count)
    (hdigits : DigitsIn 10 digits) (rest : Text) :
    fixedDigits count (digits ++ rest) = some (digitsToNat 10 digits, rest) := by
  have hall : digits.all Char.isDigit = true := List.all_eq_true.mpr hdigits.isDigit
  simp [fixedDigits, ← hlength, hall]

theorem fixedDigits_padded {width n : Nat} (hwidth : 0 < width) (h : n < 10 ^ width) (rest : Text) :
    fixedDigits width (padded width n ++ rest) = some (n, rest) := by
  have hfixed := fixedDigits_append ((length_padded hwidth n).2.mpr h) (digitsIn_padded width n) rest
  rwa [digitsToNat_padded] at hfixed

theorem mem_write {d : Date} {c : Char} (h : c ∈ d.write) : c.isDigit ∨ c = '-' := by
  have hpadded : ∀ width n, c ∈ padded width n → c.isDigit := fun width n hc =>
    (digitsIn_padded width n).isDigit c hc
  simp only [write, List.mem_append, List.mem_cons] at h
  rcases h with (h | rfl | h) | rfl | h
  · exact .inl (hpadded _ _ h)
  · exact .inr rfl
  · exact .inl (hpadded _ _ h)
  · exact .inr rfl
  · exact .inl (hpadded _ _ h)

theorem isPlain_of_mem_write {d : Date} {c : Char} (h : c ∈ d.write) : isPlain c ∧ c ≠ '+' := by
  rcases mem_write h with hdigit | rfl
  · refine ⟨isPlain_of_isDigit hdigit, ?_⟩
    rintro rfl
    cases hdigit
  · decide

theorem length_write (d : Date) :
    10 ≤ d.write.length ∧
      (d.write.length = 10 ↔ d.year < 10 ^ 4 ∧ d.month < 10 ^ 2 ∧ d.day < 10 ^ 2) := by
  have htwo : 0 < 2 := by decide
  have hfour : 0 < 4 := by decide
  obtain ⟨hyearLe, hyear⟩ := length_padded hfour d.year
  obtain ⟨hmonthLe, hmonth⟩ := length_padded htwo d.month
  obtain ⟨hdayLe, hday⟩ := length_padded htwo d.day
  rw [← hyear, ← hmonth, ← hday]
  simp only [write, List.length_append, List.length_cons]
  omega

theorem form?_write {d : Date} (h : d.write.length = 10) :
    form? d.write = some (checked d.year d.month d.day) := by
  obtain ⟨hyear, hmonth, hday⟩ := (length_write d).2.mp h
  have hfirst := fixedDigits_padded (by decide) hyear
    ('-' :: (padded 2 d.month ++ '-' :: padded 2 d.day))
  have hsecond := fixedDigits_padded (by decide) hmonth ('-' :: padded 2 d.day)
  have hthird := fixedDigits_padded (by decide) hday []
  rw [List.append_nil] at hthird
  have hform : monthForm d.year true (padded 2 d.month ++ '-' :: padded 2 d.day) =
      some (checked d.year d.month d.day) := by
    simp [monthForm, hsecond, dash, after?, hthird]
  have hwrite : d.write = padded 4 d.year ++ '-' :: (padded 2 d.month ++ '-' :: padded 2 d.day) := by
    simp [write]
  have hweek : ∀ rest, padded 2 d.month ++ '-' :: padded 2 d.day ≠ 'W' :: rest := by
    intro rest hrest
    have hpositive : 0 < 2 := by decide
    have hne : padded 2 d.month ≠ [] :=
      List.ne_nil_of_length_pos (Nat.lt_of_lt_of_le hpositive (length_padded hpositive d.month).1)
    obtain ⟨c, others, hcons⟩ := List.exists_cons_of_ne_nil hne
    rw [hcons] at hrest
    obtain ⟨rfl, -⟩ := List.cons.inj hrest
    exact (digitsIn_padded 2 d.month).notMem (by decide) (by decide) (hcons ▸ List.mem_cons_self)
  rw [form?, hwrite, hfirst]
  simp only [Option.bind_eq_bind, Option.bind_some, List.head?_cons, beq_self_eq_true, if_true,
    List.drop_succ_cons, List.drop_zero]
  exact hform

theorem eq_of_checked {year month day : Nat} {d : Date} (h : checked year month day = .ok d) :
    d = ⟨year, month, day⟩ ∧ year < 10 ^ 4 ∧ month < 10 ^ 2 ∧ day < 10 ^ 2 := by
  have hdays : daysInMonth year month ≤ 31 := by
    unfold daysInMonth
    split_ifs <;> decide
  unfold checked at h
  split_ifs at h with hyear hmonth hday
  exact ⟨(Except.ok.inj h).symm, by omega, by omega, by omega⟩

theorem read_write {d e : Date} : read d.write = .ok e ↔ d.IsDay ∧ e = d := by
  have hascii : ∀ c ∈ d.write, c.toNat < 0x80 := fun c hc =>
    (toNat_of_isPlain (isPlain_of_mem_write hc).1).2
  obtain ⟨hle, hsize⟩ := length_write d
  simp only [read, Utf8.length_encode hascii]
  by_cases h : d.write.length = 10
  · rw [if_pos (by omega), form?_write h, Option.getD_some]
    constructor
    · intro he
      obtain rfl : e = d := (eq_of_checked he).1
      exact ⟨he, rfl⟩
    · rintro ⟨hday, rfl⟩
      exact hday
  · rw [if_neg (by omega)]
    constructor
    · intro he
      cases he
    · rintro ⟨hday, -⟩
      exact absurd (hsize.mpr (eq_of_checked hday).2) h

end Date

namespace Base64

/-- The numbers below 64 that bytes are cut into. -/
def sextets : List UInt8 → List Nat
  | [] => []
  | [a] => [a.toNat / 4, a.toNat % 4 * 16]
  | [a, b] => [a.toNat / 4, a.toNat % 4 * 16 + b.toNat / 16, b.toNat % 16 * 4]
  | a :: b :: c :: rest =>
    (a.toNat / 4) :: (a.toNat % 4 * 16 + b.toNat / 16) :: (b.toNat % 16 * 4 + c.toNat / 64) ::
      (c.toNat % 64) :: sextets rest

theorem encode_eq (bs : List UInt8) : encode bs = (sextets bs).map digit := by
  fun_induction encode bs with
  | case1 => rfl
  | case2 => rfl
  | case3 => rfl
  | case4 a b c rest ih => simp [sextets, ih]

theorem sextets_lt (bs : List UInt8) : ∀ n ∈ sextets bs, n < 64 := by
  fun_induction sextets bs with
  | case1 => simp
  | case2 a =>
    have ha := a.toNat_lt
    simp only [List.forall_mem_cons, List.not_mem_nil, false_implies, implies_true, and_true]
    omega
  | case3 a b =>
    have ha := a.toNat_lt
    have hb := b.toNat_lt
    simp only [List.forall_mem_cons, List.not_mem_nil, false_implies, implies_true, and_true]
    omega
  | case4 a b c rest ih =>
    have ha := a.toNat_lt
    have hb := b.toNat_lt
    have hc := c.toNat_lt
    simp only [List.forall_mem_cons]
    exact ⟨by omega, by omega, by omega, by omega, ih⟩

theorem length_sextets (bs : List UInt8) : (sextets bs).length % 4 ≠ 1 := by
  fun_induction sextets bs with
  | case1 => simp
  | case2 => simp
  | case3 => simp
  | case4 a b c rest ih =>
    simp only [List.length_cons]
    omega

theorem bytes_sextets (bs : List UInt8) : bytes (sextets bs) = bs := by
  have hbyte : ∀ (b : UInt8) (n : Nat), n = b.toNat → UInt8.ofNat n = b := by
    rintro b n rfl
    exact UInt8.ofNat_toNat
  fun_induction sextets bs with
  | case1 => rfl
  | case2 a =>
    simp only [bytes, List.cons.injEq, and_true]
    exact hbyte a _ (by omega)
  | case3 a b =>
    have hb := b.toNat_lt
    simp only [bytes, List.cons.injEq, and_true]
    exact ⟨hbyte a _ (by omega), hbyte b _ (by omega)⟩
  | case4 a b c rest ih =>
    have hb := b.toNat_lt
    have hc := c.toNat_lt
    simp only [bytes, List.cons.injEq]
    exact ⟨hbyte a _ (by omega), hbyte b _ (by omega), hbyte c _ (by omega), ih⟩

theorem value?_digit {n : Nat} (h : n < 64) : value? (digit n) = some n := by
  have hdigits : ∀ n < 64, value? (digit n) = some n := by decide
  exact hdigits n h

theorem mapM_value?_digit {values : List Nat} (h : ∀ n ∈ values, n < 64) :
    (values.map digit).mapM value? = some values := by
  refine mapM_eq_some_of_map ?_
  rw [List.map_map]
  exact List.map_congr_left fun n hn => value?_digit (h n hn)

theorem decode_encode (bs : List UInt8) : decode (encode bs) = .ok bs := by
  rw [decode, encode_eq, mapM_value?_digit (sextets_lt bs)]
  simp [length_sextets, bytes_sextets]

end Base64

end RoutePattern
