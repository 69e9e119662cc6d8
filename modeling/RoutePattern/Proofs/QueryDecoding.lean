import RoutePattern.Target

/-!
What decoding does to the text of a query. It never makes a text longer, and it leaves a text as it is just
where the text holds no plus sign and no percent sign with two hexadecimal digits behind it.
-/

namespace RoutePattern

/-- Three characters that stand for one byte. -/
def isPercentEscape (c d e : Char) : Bool := c == '%' && (hexValue? d).isSome && (hexValue? e).isSome

/-- Whether three characters of the text stand for one byte. -/
def holdsPercentEscape : Text → Bool
  | c :: d :: e :: rest => isPercentEscape c d e || holdsPercentEscape (d :: e :: rest)
  | _ => false

theorem percentBytes_cons₃ (c d e : Char) (rest : Text) :
    percentBytes (c :: d :: e :: rest) =
      if isPercentEscape c d e then
        ((hexValue? d).getD 0 * 16 + (hexValue? e).getD 0) :: percentBytes rest
      else c.toNat :: percentBytes (d :: e :: rest) := by
  rw [percentBytes]
  by_cases hc : c = '%'
  · cases hd : hexValue? d <;> cases he : hexValue? e <;> simp [isPercentEscape, hc, hd, he]
  · simp [isPercentEscape, hc]

theorem percentBytes_of_unescaped {text : Text} (h : holdsPercentEscape text = false) :
    percentBytes text = text.map Char.toNat := by
  induction text with
  | nil => rfl
  | cons c rest ih =>
    match rest, ih with
    | [], _ => rfl
    | [_], _ => rfl
    | d :: e :: others, ih =>
      obtain ⟨hescape, hrest⟩ := Bool.or_eq_false_iff.mp h
      rw [percentBytes_cons₃, if_neg (by simp [hescape]), ih hrest]
      rfl

theorem length_percentBytes_le (text : Text) : (percentBytes text).length ≤ text.length := by
  match text with
  | [] => exact Nat.le_refl 0
  | [_] => exact Nat.le_refl 1
  | [_, _] => exact Nat.le_refl 2
  | c :: d :: e :: rest =>
    have hrest := length_percentBytes_le rest
    have hothers := length_percentBytes_le (d :: e :: rest)
    rw [percentBytes_cons₃]
    split <;> simp only [List.length_cons] at hothers ⊢ <;> omega

theorem length_percentBytes_lt {text : Text} (h : holdsPercentEscape text = true) :
    (percentBytes text).length < text.length := by
  match text, h with
  | c :: d :: e :: rest, h =>
    rw [percentBytes_cons₃]
    split
    next =>
      have hrest := length_percentBytes_le rest
      simp only [List.length_cons]
      omega
    next hescape =>
      have hrest : holdsPercentEscape (d :: e :: rest) = true := by
        simpa [holdsPercentEscape, hescape] using h
      exact Nat.succ_lt_succ (length_percentBytes_lt hrest)

theorem decode_ascii {text : Text} (h : ∀ c ∈ text, c.toNat < 0x80) :
    Utf8.decode none (text.map Char.toNat) = text := by
  induction text with
  | nil => rfl
  | cons c rest ih =>
    have hc : c.toNat < 0x80 := h c (by simp)
    have hrest := ih fun d hd => h d (List.mem_cons_of_mem _ hd)
    have hchar : Char.ofNat c.toNat = c := Char.ofNat_toNat c
    simp [Utf8.decode, Utf8.step, Utf8.begins, Utf8.start, hc, hrest, hchar]

namespace Utf8

def Pending.owed (pending : Option Pending) : Nat := if pending.isSome then 1 else 0

theorem length_begins (byte : Nat) : (begins byte).1.length + Pending.owed (begins byte).2 = 1 := by
  unfold begins
  cases start byte <;> rfl

/-- A byte gives at most one character, and besides the one that is owed for what was under way. -/
theorem length_step_le (pending : Option Pending) (byte : Nat) :
    (step pending byte).1.length + Pending.owed (step pending byte).2 ≤ Pending.owed pending + 1 := by
  have hbegins := length_begins byte
  cases pending with
  | none => exact Nat.le_of_eq hbegins
  | some p =>
    simp only [step]
    split
    · split <;> simp [Pending.owed]
    · simp only [List.length_cons, Pending.owed] at hbegins ⊢
      simp only [Option.isSome_some, if_true]
      omega

theorem length_decode_le (pending : Option Pending) (bytes : List Nat) :
    (decode pending bytes).length ≤ bytes.length + Pending.owed pending := by
  induction bytes generalizing pending with
  | nil => cases pending <;> simp [decode, Pending.owed]
  | cons byte rest ih =>
    have hstep := length_step_le pending byte
    have hrest := ih (step pending byte).2
    simp only [decode, List.length_append, List.length_cons]
    omega

end Utf8

theorem holdsPercentEscape_of_notMem {text : Text} (h : '%' ∉ text) :
    holdsPercentEscape text = false := by
  match text, h with
  | [], _ => rfl
  | [_], _ => rfl
  | [_, _], _ => rfl
  | c :: d :: e :: rest, h =>
    obtain ⟨hc, hrest⟩ : '%' ≠ c ∧ '%' ∉ d :: e :: rest := by simpa using h
    rw [holdsPercentEscape, holdsPercentEscape_of_notMem hrest]
    simp [isPercentEscape, Ne.symm hc]

theorem holdsPercentEscape_append_left {front : Text} (back : Text)
    (h : holdsPercentEscape front = true) : holdsPercentEscape (front ++ back) = true := by
  match front, h with
  | c :: d :: e :: rest, h =>
    rcases Bool.or_eq_true_iff.mp h with hescape | hrest
    · simp [holdsPercentEscape, hescape]
    · have hmore := holdsPercentEscape_append_left back hrest
      simpa [holdsPercentEscape] using Or.inr hmore

theorem holdsPercentEscape_cons {c : Char} {rest : Text} (h : holdsPercentEscape rest = true) :
    holdsPercentEscape (c :: rest) = true := by
  match rest, h with
  | d :: e :: others, h => simp [holdsPercentEscape, h]

theorem holdsPercentEscape_append_right (front : Text) {back : Text}
    (h : holdsPercentEscape back = true) : holdsPercentEscape (front ++ back) = true := by
  induction front with
  | nil => exact h
  | cons c rest ih => exact holdsPercentEscape_cons ih

theorem ascii_of_hexValue? {c : Char} (h : (hexValue? c).isSome) : c.toNat < 0x80 := by
  have hle : ∀ {d : Char}, c ≤ d → c.toNat ≤ d.toNat := fun h => UInt32.le_iff_toNat_le.mp h
  unfold hexValue? at h
  split at h
  next hdigit => exact Nat.lt_of_le_of_lt (Char.isDigit_iff_toNat.mp hdigit).2 (by decide)
  next =>
    split at h
    next hlower =>
      have hupper : c ≤ 'f' := by simpa using (Bool.and_eq_true_iff.mp hlower).2
      exact Nat.lt_of_le_of_lt (hle hupper) (by decide)
    next =>
      split at h
      next hcapital =>
        have hupper : c ≤ 'F' := by simpa using (Bool.and_eq_true_iff.mp hcapital).2
        exact Nat.lt_of_le_of_lt (hle hupper) (by decide)
      next => cases h

theorem ascii_of_isPercentEscape {c d e : Char} (h : isPercentEscape c d e = true) :
    ∀ x ∈ [c, d, e], x.toNat < 0x80 := by
  obtain ⟨hcd, he⟩ := Bool.and_eq_true_iff.mp h
  obtain ⟨hc, hd⟩ := Bool.and_eq_true_iff.mp hcd
  obtain rfl : c = '%' := by simpa using hc
  simpa using ⟨ascii_of_hexValue? hd, ascii_of_hexValue? he⟩

/-- An escape is ASCII, and therefore stands before or behind a character that is not. -/
theorem holdsPercentEscape_of_append {front back : Text} {c : Char} (hc : ¬ c.toNat < 0x80)
    (h : holdsPercentEscape (front ++ c :: back) = true) :
    holdsPercentEscape front = true ∨ holdsPercentEscape back = true := by
  have hstart : ∀ {x y z : Char}, isPercentEscape x y z = true → c ∉ [x, y, z] :=
    fun hescape hmem => hc (ascii_of_isPercentEscape hescape c hmem)
  have hdrop : ∀ {rest : Text}, holdsPercentEscape (c :: rest) = true →
      holdsPercentEscape rest = true := by
    intro rest hrest
    match rest, hrest with
    | y :: z :: more, hrest =>
      rcases Bool.or_eq_true_iff.mp hrest with hescape | hmore
      · exact absurd (by simp) (hstart hescape)
      · exact hmore
  induction front with
  | nil => exact .inr (hdrop h)
  | cons x rest ih =>
    have hrest : holdsPercentEscape (rest ++ c :: back) = true → holdsPercentEscape (x :: rest) = true ∨
        holdsPercentEscape back = true := fun hmore =>
      (ih hmore).imp_left holdsPercentEscape_cons
    match rest, h, hrest with
    | [], h, hrest =>
      match back, h with
      | z :: more, h =>
        rcases Bool.or_eq_true_iff.mp h with hescape | hmore
        · exact absurd (by simp) (hstart hescape)
        · exact hrest hmore
    | [y], h, hrest =>
      rcases Bool.or_eq_true_iff.mp h with hescape | hmore
      · exact absurd (by simp) (hstart hescape)
      · exact hrest hmore
    | y :: z :: more, h, hrest =>
      rcases Bool.or_eq_true_iff.mp h with hescape | hmore
      · exact .inl (by simp [holdsPercentEscape, hescape])
      · exact hrest hmore

theorem decode_run {run : Text} (hrun : ∀ c ∈ run, c.toNat < 0x80)
    (h : holdsPercentEscape run.reverse = false) :
    Utf8.decode none (percentBytes run.reverse) = run.reverse := by
  rw [percentBytes_of_unescaped h, decode_ascii]
  exact fun c hc => hrun c (List.mem_reverse.mp hc)

theorem length_decode_run_le (run : Text) :
    (Utf8.decode none (percentBytes run.reverse)).length ≤ run.length := by
  have hdecode := Utf8.length_decode_le none (percentBytes run.reverse)
  have hbytes := length_percentBytes_le run.reverse
  rw [List.length_reverse] at hbytes
  exact Nat.le_trans hdecode hbytes

theorem length_decode_run_lt {run : Text} (h : holdsPercentEscape run.reverse = true) :
    (Utf8.decode none (percentBytes run.reverse)).length < run.length := by
  have hdecode := Utf8.length_decode_le none (percentBytes run.reverse)
  have hbytes := length_percentBytes_lt h
  rw [List.length_reverse] at hbytes
  exact Nat.lt_of_le_of_lt hdecode hbytes

theorem percentDecode_of_unescaped (run : Text) {text : Text} (hrun : ∀ c ∈ run, c.toNat < 0x80)
    (h : holdsPercentEscape (run.reverse ++ text) = false) :
    percentDecode run text = run.reverse ++ text := by
  have hparts : ∀ {front back : Text}, holdsPercentEscape (front ++ back) = false →
      holdsPercentEscape front = false ∧ holdsPercentEscape back = false := by
    intro front back hboth
    refine ⟨?_, ?_⟩ <;> refine Bool.eq_false_iff.mpr fun hone => Bool.eq_false_iff.mp hboth ?_
    · exact holdsPercentEscape_append_left back hone
    · exact holdsPercentEscape_append_right front hone
  induction text generalizing run with
  | nil => rw [percentDecode, decode_run hrun (hparts h).1, List.append_nil]
  | cons c rest ih =>
    have happend : (c :: run).reverse ++ rest = run.reverse ++ c :: rest := by simp
    rw [percentDecode]
    split
    next hascii =>
      rw [← happend] at h ⊢
      exact ih (c :: run) (List.forall_mem_cons.mpr ⟨hascii, hrun⟩) h
    next =>
      have hrun := decode_run hrun (hparts h).1
      rw [← happend] at h
      rw [hrun, ih [] (by simp) (hparts h).2]
      rfl

theorem length_percentDecode_le (run text : Text) :
    (percentDecode run text).length ≤ run.length + text.length := by
  induction text generalizing run with
  | nil => exact length_decode_run_le run
  | cons c rest ih =>
    rw [percentDecode]
    split
    · have hmore := ih (c :: run)
      simp only [List.length_cons] at hmore ⊢
      omega
    · have hrest := ih []
      have hfront := length_decode_run_le run
      simp only [List.length_append, List.length_cons, List.length_nil] at hrest ⊢
      omega

theorem length_percentDecode_lt (run : Text) {text : Text}
    (h : holdsPercentEscape (run.reverse ++ text) = true) :
    (percentDecode run text).length < run.length + text.length := by
  induction text generalizing run with
  | nil => exact length_decode_run_lt (by simpa using h)
  | cons c rest ih =>
    have happend : (c :: run).reverse ++ rest = run.reverse ++ c :: rest := by simp
    rw [percentDecode]
    split
    · have hmore := ih (c :: run) (happend ▸ h)
      simp only [List.length_cons] at hmore ⊢
      omega
    next hascii =>
      have hrunLe := length_decode_run_le run
      have hrestLe := length_percentDecode_le [] rest
      simp only [List.length_append, List.length_cons, List.length_nil] at hrestLe ⊢
      rcases holdsPercentEscape_of_append hascii h with hrun | hrest
      · have hrunLt := length_decode_run_lt hrun
        omega
      · have hrestLt := ih [] hrest
        simp only [List.length_nil] at hrestLt
        omega

theorem length_decodeQueryText_le (text : Text) : (decodeQueryText text).length ≤ text.length := by
  have hle := length_percentDecode_le [] (text.map fun c => if c = '+' then ' ' else c)
  simpa [decodeQueryText] using hle

theorem decodeQueryText_eq_self_iff {text : Text} :
    decodeQueryText text = text ↔ '+' ∉ text ∧ holdsPercentEscape text = false := by
  have hspaces : ∀ {t : Text}, '+' ∉ t → (t.map fun c => if c = '+' then ' ' else c) = t := by
    intro t ht
    refine (List.map_congr_left fun c hc => if_neg ?_).trans (List.map_id t)
    rintro rfl
    exact ht hc
  constructor
  · intro h
    have hescape : holdsPercentEscape (text.map fun c => if c = '+' then ' ' else c) = false := by
      refine Bool.eq_false_iff.mpr fun hescape => ?_
      have hlt := length_percentDecode_lt [] hescape
      rw [decodeQueryText] at h
      rw [h] at hlt
      simp at hlt
    have hmap : (text.map fun c => if c = '+' then ' ' else c) = text := by
      rw [decodeQueryText, percentDecode_of_unescaped [] (by simp) hescape] at h
      exact h
    rw [hmap] at hescape
    refine ⟨fun hplus => ?_, hescape⟩
    rw [← hmap] at hplus
    obtain ⟨c, -, hc⟩ := List.mem_map.mp hplus
    split at hc
    · exact absurd hc (by decide)
    next hne => exact hne hc
  · rintro ⟨hplus, hescape⟩
    rw [decodeQueryText, hspaces hplus, percentDecode_of_unescaped [] (by simp) hescape]
    rfl

theorem decodeQueryText_of_notMem {text : Text} (hp : '%' ∉ text) (hs : '+' ∉ text) :
    decodeQueryText text = text :=
  decodeQueryText_eq_self_iff.mpr ⟨hs, holdsPercentEscape_of_notMem hp⟩

end RoutePattern
