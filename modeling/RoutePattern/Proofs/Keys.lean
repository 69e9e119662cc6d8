import Mathlib.Tactic.Positivity
import Mathlib.Tactic.Ring
import RoutePattern.Proofs.Renumbering
import RoutePattern.Proofs.Tables
import RoutePattern.Renderer

/-!
Keys of captures among the keys of a mapping, where numbers are equal by their value: a position is
found under every number that is equal to it.
-/

namespace RoutePattern

theorem strippedTens_go (tries : Nat) (c e : Int) :
    ∃ k : Nat, c = (Value.strippedTens.go tries c e).1 * 10 ^ k ∧
      (Value.strippedTens.go tries c e).2 = e + k := by
  induction tries generalizing c e with
  | zero => exact ⟨0, by simp [Value.strippedTens.go]⟩
  | succ tries ih =>
    unfold Value.strippedTens.go
    split
    next h =>
      obtain ⟨k, hc, he⟩ := ih (c / 10) (e + 1)
      refine ⟨k + 1, ?_, by rw [he]; push_cast; omega⟩
      have hten : c = c / 10 * 10 := by omega
      rw [Int.pow_succ, ← Int.mul_assoc, ← hc]
      exact hten
    next => exact ⟨0, by simp⟩

theorem strippedTens_spec (c : Int) :
    ∃ k : Nat, c = (Value.strippedTens c 0).1 * 10 ^ k ∧ (Value.strippedTens c 0).2 = k := by
  unfold Value.strippedTens
  split
  next hc => exact ⟨0, by simp [hc]⟩
  next =>
    obtain ⟨k, hk, he⟩ := strippedTens_go (Text.ofNat c.natAbs).length c 0
    exact ⟨k, hk, by simpa using he⟩

theorem strippedTens_injective {m n : Int}
    (h : Value.strippedTens m 0 = Value.strippedTens n 0) : m = n := by
  obtain ⟨j, hm, hj⟩ := strippedTens_spec m
  obtain ⟨k, hn, hk⟩ := strippedTens_spec n
  rw [h] at hm hj
  obtain rfl : j = k := by omega
  rw [hm, ← hn]

theorem Key.value_beq (k key : Key) : (k.value == key.value) = (k == key) := by
  cases k with
  | name s =>
    cases key with
    | name t =>
      have htext : (Key.name s == Key.name t) = (s == t) := by
        by_cases h : s = t <;> simp [h]
      rw [htext]
      rfl
    | index n => rfl
  | index m =>
    cases key with
    | name t => rfl
    | index n =>
      by_cases h : m = n
      · subst h
        have hsame : (Key.value (.index m) == Key.value (.index m)) =
            (Value.strippedTens m 0 == Value.strippedTens m 0) := rfl
        rw [hsame]
        simp
      · have hsame : (Key.value (.index m) == Key.value (.index n)) =
            (Value.strippedTens m 0 == Value.strippedTens n 0) := rfl
        have hne : Value.strippedTens m 0 ≠ Value.strippedTens n 0 := by
          intro heq
          have := strippedTens_injective heq
          omega
        rw [hsame]
        simp [h, hne]

namespace Value

theorem beq_text {v : Value} {t : Text} : (v == .text t) = true ↔ v = .text t := by
  by_cases htext : ∃ s, v = .text s
  · obtain ⟨s, rfl⟩ := htext
    have hsame : (text s == text t) = (s == t) := rfl
    simp [hsame]
  · have hsame : (v == text t) = same v (text t) := rfl
    have hnumber : (text t).number? = none := rfl
    have hinfinity : (text t).infinity? = none := rfl
    have hne : v ≠ .text t := fun h => htext ⟨t, h⟩
    rw [hsame, same, hnumber]
    · cases v.number? with
      | none => cases v.infinity? <;> simp [hinfinity, hne]
      | some number => simp [hne]
    all_goals simp_all

theorem text_beq {t : Text} {v : Value} : (.text t == v) = true ↔ v = .text t := by
  by_cases htext : ∃ s, v = .text s
  · obtain ⟨s, rfl⟩ := htext
    have hsame : (text t == text s) = (t == s) := rfl
    rw [hsame, beq_iff_eq, text.injEq, eq_comm]
  · have hsame : (text t == v) = same (text t) v := rfl
    have hnumber : (text t).number? = none := rfl
    have hinfinity : (text t).infinity? = none := rfl
    have hne : v ≠ .text t := fun h => htext ⟨t, h⟩
    rw [hsame, same, hnumber]
    · cases v.number? <;> simp [hinfinity, hne]
    all_goals simp_all

@[simp] theorem text_beq_self (t : Text) : (text t == text t) = true := beq_text.mpr rfl

theorem beq_text_congr {v w : Value} (h : (v == w) = true) (t : Text) :
    (v == .text t) = (w == .text t) := by
  rw [Bool.eq_iff_iff, beq_text, beq_text]
  constructor
  · rintro rfl
    exact text_beq.mp h
  · rintro rfl
    exact beq_text.mp h

end Value

namespace Table

variable {entries t : Table Value Value} {key : Text}

theorem get?_put_text {k v : Value} :
    get? (.text key) (put k v t) = if k == .text key then some v else get? (.text key) t := by
  induction t with
  | nil => rfl
  | cons e rest ih =>
    obtain ⟨k', a⟩ := e
    cases hk : k' == k with
    | true =>
      have hsame := Value.beq_text_congr hk key
      cases hkey : k == .text key <;> simp [put, get?, hk, hsame, hkey]
    | false =>
      cases hkey : k' == .text key with
      | true =>
        obtain rfl := Value.beq_text.mp hkey
        have hne : (k == .text key) = false := by
          rw [Bool.eq_false_iff]
          intro h
          obtain rfl := Value.beq_text.mp h
          simp at hk
        simp [put, get?, hk, hne]
      | false => simp [put, get?, hk, hkey, ih]

theorem get?_putAll_text {v : Value} (h : get? (.text key) (putAll t entries) = some v) :
    get? (.text key) t = some v ∨ (.text key, v) ∈ entries := by
  induction entries generalizing t with
  | nil => exact .inl h
  | cons e rest ih =>
    rcases ih h with hfirst | hrest
    · rw [get?_put_text] at hfirst
      split at hfirst
      next hkey =>
        have he : e = (.text key, v) := Prod.ext (Value.beq_text.mp hkey) (Option.some.inj hfirst)
        exact .inr (he ▸ List.mem_cons_self)
      next => exact .inl hfirst
    · exact .inr (List.mem_cons_of_mem _ hrest)

theorem mem_of_get?_ofEntries {v : Value} (h : get? (.text key) (ofEntries entries) = some v) :
    (.text key, v) ∈ entries :=
  (get?_putAll_text h).resolve_left nofun

end Table

namespace Value

/-- A coefficient that has no zeros left to strip. -/
def Stripped (number : Int × Int) : Prop := number = (0, 0) ∨ number.1 % 10 ≠ 0

theorem stripped_go {tries : Nat} {c e : Int} (hc : c ≠ 0) (h : c.natAbs < 10 ^ tries) :
    (strippedTens.go tries c e).1 % 10 ≠ 0 := by
  induction tries generalizing c e with
  | zero => omega
  | succ tries ih =>
    unfold strippedTens.go
    split
    next hten =>
      rw [Nat.pow_succ] at h
      exact ih (by omega) (by omega)
    next hten => exact hten

theorem stripped_strippedTens (c e : Int) : Stripped (strippedTens c e) := by
  unfold strippedTens
  split
  next => exact .inl rfl
  next hc =>
    have hlength : c.natAbs < 10 ^ (Text.ofNat c.natAbs).length :=
      (Nat.length_toDigits_le_iff (by decide) Nat.length_toDigits_pos).mp le_rfl
    exact .inr (stripped_go hc hlength)

theorem stripped_of_number? {v : Value} {number : Int × Int} (h : v.number? = some number) :
    Stripped number := by
  cases v with
  | bool b =>
    obtain rfl := Option.some.inj h
    cases b
    · exact .inl rfl
    · exact .inr (by decide)
  | int n =>
    obtain rfl := Option.some.inj h
    exact stripped_strippedTens _ _
  | float x =>
    obtain ⟨b, -, hb⟩ := Option.map_eq_some_iff.mp h
    simp only at hb
    split at hb <;> exact hb ▸ stripped_strippedTens _ _
  | decimal d =>
    cases d with
    | finite negative c e =>
      obtain rfl := Option.some.inj h
      exact stripped_strippedTens _ _
    | _ => cases h
  | _ => cases h

theorem Stripped.unique {c d : Int} {j k : Nat} (hc : Stripped (c, j)) (hd : Stripped (d, k))
    (h : c * 10 ^ j = d * 10 ^ k) : c = d ∧ j = k := by
  wlog hjk : j ≤ k generalizing c d j k
  · obtain ⟨hdc, hkj⟩ := this hd hc h.symm (by omega)
    exact ⟨hdc.symm, hkj.symm⟩
  obtain ⟨n, rfl⟩ := Nat.exists_eq_add_of_le hjk
  have hcd : c = d * 10 ^ n := by
    have hpos : (10 : Int) ^ j ≠ 0 := by positivity
    apply mul_right_cancel₀ hpos
    rw [h, pow_add]
    ring
  cases n with
  | zero => simpa using hcd
  | succ n =>
    have hten : c % 10 = 0 := by
      rw [hcd, pow_succ, ← mul_assoc]
      exact Int.mul_emod_left _ _
    rcases hc with hc | hc
    · obtain ⟨rfl, hj⟩ := Prod.mk.inj hc
      have hd0 : d = 0 := by
        have hpos : (10 : Int) ^ (n + 1) ≠ 0 := by positivity
        exact (mul_eq_zero.mp hcd.symm).resolve_right hpos
      rcases hd with hd | hd
      · have hk := (Prod.mk.inj hd).2
        omega
      · simp [hd0] at hd
    · exact absurd hten hc

/-- The integer that a key is equal to, if there is one. -/
def whole? (v : Value) : Option Int :=
  v.number?.bind fun number => if 0 ≤ number.2 then some (number.1 * 10 ^ number.2.toNat) else none

theorem strippedTens_eq_iff {number : Int × Int} (h : Stripped number) (m : Int) :
    number = strippedTens m 0 ↔ 0 ≤ number.2 ∧ number.1 * 10 ^ number.2.toNat = m := by
  obtain ⟨c, e⟩ := number
  obtain ⟨k, hm, hk⟩ := strippedTens_spec m
  constructor
  · intro heq
    rw [← heq] at hm hk
    obtain rfl : e = k := hk
    exact ⟨by simp, hm.symm⟩
  · rintro ⟨he, hc⟩
    obtain ⟨j, rfl⟩ := Int.eq_ofNat_of_zero_le he
    have hstripped : Stripped ((strippedTens m 0).1, (k : Int)) := by
      rw [← hk]
      exact stripped_strippedTens m 0
    obtain ⟨hcoefficient, rfl⟩ := h.unique hstripped (hc.trans hm)
    exact Prod.ext hcoefficient hk.symm

theorem beq_int (v : Value) (m : Int) : (v == .int m) = decide (v.whole? = some m) := by
  have hsame : (v == .int m) =
      match v.number? with
      | some number => number == strippedTens m 0
      | none => false := by
    cases v with
    | float x =>
      have hfloat : (float x == int m) = same (float x) (int m) := rfl
      have hint : (int m).number? = some (strippedTens m 0) := rfl
      rw [hfloat, same, hint]
      · cases (float x).number? <;> rfl
      all_goals simp
    | decimal d => cases d <;> rfl
    | _ => rfl
  rw [hsame, whole?]
  cases hnumber : v.number? with
  | none => rfl
  | some number =>
    have hiff := strippedTens_eq_iff (stripped_of_number? hnumber) m
    have hbeq : (number == strippedTens m 0) =
        decide (0 ≤ number.2 ∧ number.1 * 10 ^ number.2.toNat = m) := by
      rw [beq_eq_decide]
      exact decide_eq_decide.mpr hiff
    simp only [hbeq, Option.bind_some]
    by_cases he : 0 ≤ number.2 <;> simp [he]

theorem whole?_int (n : Int) : (int n).whole? = some n := by
  have hnumber : (int n).number? = some (strippedTens n 0) := rfl
  obtain ⟨he, hn⟩ := (strippedTens_eq_iff (stripped_strippedTens n 0) n).mp rfl
  rw [whole?, hnumber, Option.bind_some, if_pos he, hn]

theorem beq_text_of_number? {v : Value} (h : v.number?.isSome) (t : Text) : (v == .text t) = false := by
  cases htext : v == .text t with
  | false => rfl
  | true =>
    obtain rfl := beq_text.mp htext
    cases h

/-- A key moved down, if it is equal to an integer. -/
def lowered (count : Nat) (v : Value) : Value :=
  match v.whole? with
  | some n => int (n - count)
  | none => v

theorem lowered_beq (count : Nat) (v : Value) (key : Key) :
    (v.lowered count == key.value) = (v == (key.shift count).value) := by
  cases hwhole : v.whole? with
  | none =>
    rw [lowered, hwhole]
    cases key with
    | name t => rfl
    | index n => simp [Key.shift, Key.value, beq_int, hwhole]
  | some m =>
    rw [lowered, hwhole]
    cases key with
    | name t =>
      obtain ⟨number, hnumber, -⟩ := Option.bind_eq_some_iff.mp hwhole
      exact (beq_text_of_number? (by simp [hnumber]) t).symm
    | index n =>
      simp only [Key.shift, Key.value, beq_int, hwhole, whole?_int, decide_eq_decide,
        Option.some.injEq]
      omega

end Value

/-- Entries under the keys moved down, as far as these are integers. -/
def loweredEntries (count : Nat) (entries : Table Value Value) : Table Value Value :=
  entries.map fun entry => (entry.1.lowered count, entry.2)

theorem get?_loweredEntries (count : Nat) (key : Key) (entries : Table Value Value) :
    Table.get? key.value (loweredEntries count entries) =
      Table.get? (key.shift count).value entries := by
  induction entries with
  | nil => rfl
  | cons entry rest ih =>
    unfold loweredEntries at ih
    simp [loweredEntries, Table.get?, Value.lowered_beq, ih]

end RoutePattern
