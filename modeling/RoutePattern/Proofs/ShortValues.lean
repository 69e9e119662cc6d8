import RoutePattern.Fault
import RoutePattern.Proofs.DigitTexts

/-!
Values that can be written. Only an integer with too many digits keeps a value from being written, and what
equals a key of a mapping can itself be one.
-/

namespace RoutePattern

/-- A number without too many digits to be written. -/
def Whole.Short (n : Int) : Prop := n.natAbs < 10 ^ Whole.digitLimit

theorem Whole.write_eq_error {n : Int} {f : Whole.Fault} :
    Whole.write n = .error f ↔ f = .tooLongToWrite ∧ ¬ Whole.Short n := by
  have htooLong : ∀ {d : Whole.Fault}, Whole.write n = .error d → d = .tooLongToWrite := by
    intro d h
    unfold Whole.write at h
    split at h
    · cases h
    · exact (Except.error.inj h).symm
  constructor
  · refine fun h => ⟨htooLong h, fun hshort => ?_⟩
    rw [Whole.write_eq_ok.mpr ⟨hshort, rfl⟩] at h
    cases h
  · rintro ⟨rfl, hlong⟩
    cases hwrite : Whole.write n with
    | ok t => exact absurd (Whole.write_eq_ok.mp hwrite).1 hlong
    | error d => rw [htooLong hwrite]

theorem Whole.short_of_lt {m n : Nat} (h : n < m) (hm : m ≤ 10 ^ Whole.digitLimit) : Whole.Short n := by
  have hlt : n < 10 ^ Whole.digitLimit := h.trans_le hm
  rwa [← Int.natAbs_natCast n] at hlt

theorem Whole.ten_le_limit : 10 ≤ 10 ^ Whole.digitLimit := Nat.le_self_pow (by decide) 10

namespace Value

mutual

/-- No integer in a value has too many digits to be written, nor has the position of an item. -/
def Short : Value → Prop
  | int n => Whole.Short n
  | list vs => (∀ n < vs.length, Whole.Short n) ∧ ShortItems vs
  | tuple vs => (∀ n < vs.length, Whole.Short n) ∧ ShortItems vs
  | map es => ShortEntries es
  | _ => True

def ShortItems : List Value → Prop
  | [] => True
  | v :: vs => v.Short ∧ ShortItems vs

def ShortEntries : List (Value × Value) → Prop
  | [] => True
  | (k, v) :: es => (k.Short ∧ v.Short) ∧ ShortEntries es

end

theorem shortItems_iff {vs : List Value} : ShortItems vs ↔ ∀ v ∈ vs, v.Short := by
  induction vs with
  | nil => simp [ShortItems]
  | cons v rest ih => simp [ShortItems, ih]

theorem short_list_iff {vs : List Value} :
    (list vs).Short ↔ (∀ n < vs.length, Whole.Short n) ∧ ∀ v ∈ vs, v.Short :=
  and_congr_right fun _ => shortItems_iff

theorem short_map_iff {es : List (Value × Value)} : (map es).Short ↔ ∀ e ∈ es, e.1.Short ∧ e.2.Short := by
  have hentries : ShortEntries es ↔ ∀ e ∈ es, e.1.Short ∧ e.2.Short := by
    induction es with
    | nil => simp [ShortEntries]
    | cons e rest ih => simp [ShortEntries, ih]
  exact hentries

theorem short_of_items? {v : Value} {vs : List Value} (hitems : v.items? = some vs) (h : v.Short) :
    (∀ n < vs.length, Whole.Short n) ∧ ∀ w ∈ vs, w.Short := by
  cases v with
  | list ws =>
    obtain rfl := Option.some.inj hitems
    exact short_list_iff.mp h
  | tuple ws =>
    obtain rfl := Option.some.inj hitems
    exact ⟨h.1, shortItems_iff.mp h.2⟩
  | _ => cases hitems

theorem short_texts {ts : List Text} (h : ∀ n < ts.length, Whole.Short n) : (list (ts.map text)).Short := by
  rw [short_list_iff, List.length_map]
  refine ⟨h, fun v hv => ?_⟩
  obtain ⟨t, -, rfl⟩ := List.mem_map.mp hv
  trivial

mutual

theorem quoted_error {f : Whole.Fault} (v : Value) (h : v.quoted = .error f) :
    f = .tooLongToWrite ∧ ¬ v.Short := by
  cases v with
  | int n =>
    rw [quoted] at h
    exact Whole.write_eq_error.mp h
  | list vs =>
    rw [quoted] at h
    obtain ⟨hf, hshort⟩ := quotedItems_error vs (Except.map_eq_error.mp h)
    exact ⟨hf, fun hlist => hshort hlist.2⟩
  | tuple vs =>
    rw [quoted] at h
    obtain ⟨hf, hshort⟩ := quotedItems_error vs (Except.map_eq_error.mp h)
    exact ⟨hf, fun hlist => hshort hlist.2⟩
  | map es =>
    rw [quoted] at h
    exact quotedEntries_error es (Except.map_eq_error.mp h)
  | _ => cases h

theorem quotedItems_error {f : Whole.Fault} (vs : List Value) (h : quotedItems vs = .error f) :
    f = .tooLongToWrite ∧ ¬ ShortItems vs := by
  cases vs with
  | nil => cases h
  | cons v rest =>
    rcases Except.bind_eq_error.mp h with h | ⟨_, -, h⟩
    · obtain ⟨hf, hshort⟩ := quoted_error v h
      exact ⟨hf, fun hall => hshort hall.1⟩
    · obtain ⟨hf, hshort⟩ := quotedItems_error rest (Except.map_eq_error.mp h)
      exact ⟨hf, fun hall => hshort hall.2⟩

theorem quotedEntries_error {f : Whole.Fault} (es : List (Value × Value)) (h : quotedEntries es = .error f) :
    f = .tooLongToWrite ∧ ¬ ShortEntries es := by
  match es with
  | [] => cases h
  | (k, v) :: rest =>
    rcases Except.bind_eq_error.mp h with h | ⟨_, -, h⟩
    · obtain ⟨hf, hshort⟩ := quoted_error k h
      exact ⟨hf, fun hall => hshort hall.1.1⟩
    · rcases Except.bind_eq_error.mp h with h | ⟨_, -, h⟩
      · obtain ⟨hf, hshort⟩ := quoted_error v h
        exact ⟨hf, fun hall => hshort hall.1.2⟩
      · obtain ⟨hf, hshort⟩ := quotedEntries_error rest (Except.map_eq_error.mp h)
        exact ⟨hf, fun hall => hshort hall.2⟩

end

theorem textOf_error {v : Value} {r : Refusal} (h : v.textOf = .error r) :
    r = .digits .tooLongToWrite ∧ ¬ v.Short := by
  obtain ⟨f, hwrite, rfl⟩ := Except.mapError_eq_error.mp h
  have hquoted : v.quoted = .error f := by
    cases v with
    | text _ => cases hwrite
    | decimal _ => cases hwrite
    | uuid _ => cases hwrite
    | date _ => cases hwrite
    | datetime _ => cases hwrite
    | _ => exact hwrite
  obtain ⟨rfl, hshort⟩ := quoted_error v hquoted
  exact ⟨rfl, hshort⟩

theorem textsOf_error {vs : List Value} {r : Refusal} (h : textsOf vs = .error r) :
    r = .digits .tooLongToWrite ∧ ¬ ∀ v ∈ vs, v.Short := by
  induction vs with
  | nil => cases h
  | cons v rest ih =>
    rcases Except.bind_eq_error.mp h with h | ⟨_, -, h⟩
    · obtain ⟨hr, hshort⟩ := textOf_error h
      exact ⟨hr, fun hall => hshort (hall v List.mem_cons_self)⟩
    · obtain ⟨hr, hshort⟩ := ih (Except.map_eq_error.mp h)
      exact ⟨hr, fun hall => hshort fun w hw => hall w (List.mem_cons_of_mem v hw)⟩

theorem not_same_of_no_number {v w : Value} (hnumber : w.number? = none) (hinfinity : w.infinity? = none) :
    (match v.number?, w.number? with
      | some m, some n => m == n
      | none, none => v.infinity?.isSome && v.infinity? == w.infinity?
      | _, _ => false) = false := by
  rw [hnumber, hinfinity]
  cases v.number? with
  | some m => rfl
  | none => cases v.infinity? <;> rfl

mutual

theorem asKey_of_same (v w : Value) (h : v.same w = true) : w.asKey = .ok w := by
  have hother : ∀ {x : Value}, x.number? = none → x.infinity? = none →
      v.same x = (match v.number?, x.number? with
        | some m, some n => m == n
        | none, none => v.infinity?.isSome && v.infinity? == x.infinity?
        | _, _ => false) → v.same x = true → False := by
    intro x hnumber hinfinity hsame h
    rw [hsame, not_same_of_no_number hnumber hinfinity] at h
    cases h
  cases w with
  | list ws => exact (hother rfl rfl (by cases v <;> rfl) h).elim
  | map es => exact (hother rfl rfl (by cases v <;> rfl) h).elim
  | tuple ws =>
    cases v with
    | tuple vs => simp only [asKey, unkeyable?, unkeyableItem?_of_sameItems vs ws h]
    | _ => exact (hother rfl rfl rfl h).elim
  | decimal d =>
    cases d with
    | undefined negative signaling payload =>
      exact (hother rfl rfl (by cases v <;> rfl) h).elim
    | _ => rfl
  | _ => rfl

theorem unkeyableItem?_of_sameItems (vs ws : List Value) (h : sameItems vs ws = true) :
    unkeyableItem? ws = none := by
  match vs, ws with
  | _, [] => rfl
  | v :: vs, w :: ws =>
    obtain ⟨hfirst, hrest⟩ := Bool.and_eq_true_iff.mp h
    have hkey := asKey_of_same v w hfirst
    have hfirst : w.unkeyable? = none := by
      unfold asKey at hkey
      split at hkey
      · cases hkey
      · assumption
    rw [unkeyableItem?, hfirst, unkeyableItem?_of_sameItems vs ws hrest]
    rfl

end

end Value

theorem Issue.text_error {i : Issue} {r : Refusal} (h : i.text = .error r) :
    r = .digits .tooLongToWrite ∧ ¬ ∀ v ∈ i.path, v.Short := by
  unfold text at h
  split at h
  · cases h
  · exact Value.textsOf_error (Except.map_eq_error.mp h)

theorem IssueNote.writeAll_error {issues : List Issue} {r : Refusal}
    (h : writeAll (issues.map .issue) = .error r) :
    r = .digits .tooLongToWrite ∧ ¬ ∀ i ∈ issues, ∀ v ∈ i.path, v.Short := by
  induction issues with
  | nil => cases h
  | cons i rest ih =>
    rcases Except.bind_eq_error.mp h with h | ⟨_, -, h⟩
    · obtain ⟨hr, hshort⟩ := Issue.text_error h
      exact ⟨hr, fun hall => hshort (hall i List.mem_cons_self)⟩
    · obtain ⟨hr, hshort⟩ := ih (Except.map_eq_error.mp h)
      exact ⟨hr, fun hall => hshort fun j hj => hall j (List.mem_cons_of_mem i hj)⟩

/-- The fault of issues is made unless a key or an index has too many digits to be written. -/
theorem RoutingFault.ofNotes_cases (title code message : Text) (route : Option Text) (issues : List Issue) :
    (∃ f, ofNotes title code message route (issues.map .issue) = .ok f ∧
      f.detail = .issues (issues.map .issue)) ∨
    (ofNotes title code message route (issues.map .issue) = .error (.digits .tooLongToWrite) ∧
      ¬ ∀ i ∈ issues, ∀ v ∈ i.path, v.Short) := by
  rw [ofNotes]
  cases hwrite : IssueNote.writeAll (issues.map .issue) with
  | ok texts => exact .inl ⟨_, rfl, rfl⟩
  | error r =>
    obtain ⟨rfl, hlong⟩ := IssueNote.writeAll_error hwrite
    exact .inr ⟨rfl, hlong⟩

end RoutePattern
