import Mathlib.Data.Char
import Mathlib.Data.List.Lex
import Mathlib.Data.List.Perm.Basic
import RoutePattern.Proofs.Results
import RoutePattern.Settings.Routing

/-!
Keys in order, and unknown settings by name. Texts can always be sorted and listed; keys of other kinds are
sorted at best, and never listed.
-/

namespace RoutePattern

namespace Text

theorem before_iff {s t : Text} : before s t = true ↔ s < t := by
  induction s generalizing t with
  | nil => cases t <;> simp [before]
  | cons a as ih =>
    cases t with
    | nil => simp [before]
    | cons b bs =>
      have hchar : a.toNat < b.toNat ↔ a < b := Iff.rfl
      by_cases hab : a = b
      · subst hab
        simp [before, ih]
      · simp [before, hab, hchar, List.cons_lt_cons_iff]

theorem notBefore_iff {s t : Text} : (!before t s) = true ↔ s ≤ t := by
  rw [Bool.not_eq_true', Bool.eq_false_iff, ne_eq, before_iff, not_lt]

theorem sorted_perm (texts : List Text) : (sorted texts).Perm texts := List.mergeSort_perm ..

theorem pairwise_sorted (texts : List Text) : (sorted texts).Pairwise (· ≤ ·) := by
  have htrans : ∀ s t u : Text, (!before t s) = true → (!before u t) = true → (!before u s) = true := by
    intro s t u hst htu
    rw [notBefore_iff] at *
    exact hst.trans htu
  have htotal : ∀ s t : Text, (!before t s || !before s t) = true := by
    intro s t
    rw [Bool.or_eq_true, notBefore_iff, notBefore_iff]
    exact le_total s t
  exact (List.pairwise_mergeSort htrans htotal texts).imp notBefore_iff.mp

theorem eq_sorted {texts others : List Text} (hperm : others.Perm texts) (h : others.Pairwise (· ≤ ·)) :
    others = sorted texts :=
  List.Perm.eq_of_pairwise (fun _ _ _ _ => le_antisymm) h (pairwise_sorted texts)
    (hperm.trans (sorted_perm texts).symm)

end Text

namespace Settings

theorem insertKey_perm {key : Value} {keys out : List Value} (h : insertKey key keys = .ok out) :
    out.Perm (key :: keys) := by
  induction keys generalizing out with
  | nil =>
    cases h
    exact .refl _
  | cons k rest ih =>
    rw [insertKey] at h
    split at h
    next => cases h
    next =>
      cases h
      exact .refl _
    next =>
      obtain ⟨others, hothers, rfl⟩ := Except.map_eq_ok.mp h
      exact ((ih hothers).cons k).trans (.swap key k rest)

theorem insertKey_eq_error {key : Value} {keys : List Value} {r : Refusal}
    (h : insertKey key keys = .error r) : ∃ message, r = .raised .badType message := by
  induction keys with
  | nil => cases h
  | cons k rest ih =>
    rw [insertKey] at h
    split at h
    next =>
      cases h
      exact ⟨_, rfl⟩
    next => cases h
    next => exact ih (Except.map_eq_error.mp h)

theorem insertKey_texts (name : Text) {names : List Text} (h : names.Pairwise (· ≤ ·)) :
    ∃ out : List Text, insertKey (.text name) (names.map .text) = .ok (out.map .text) ∧
      out.Perm (name :: names) ∧ out.Pairwise (· ≤ ·) := by
  induction names with
  | nil => exact ⟨[name], rfl, .refl _, List.pairwise_singleton _ _⟩
  | cons first rest ih =>
    obtain ⟨hfirst, hrest⟩ := List.pairwise_cons.mp h
    cases hbefore : Text.before name first with
    | true =>
      have hlt : name < first := Text.before_iff.mp hbefore
      refine ⟨name :: first :: rest, by simp [insertKey, keyBefore?, hbefore], .refl _, ?_⟩
      refine List.pairwise_cons.mpr ⟨fun other hother => ?_, h⟩
      rcases List.mem_cons.mp hother with rfl | hother
      · exact hlt.le
      · exact hlt.le.trans (hfirst other hother)
    | false =>
      obtain ⟨out, hout, hperm, hpairwise⟩ := ih hrest
      have hle : first ≤ name := Text.notBefore_iff.mp (by rw [hbefore]; rfl)
      refine ⟨first :: out, by simp [insertKey, keyBefore?, hbefore, hout, Except.map],
        (hperm.cons first).trans (.swap name first rest), ?_⟩
      refine List.pairwise_cons.mpr ⟨fun other hother => ?_, hpairwise⟩
      rcases List.mem_cons.mp (hperm.mem_iff.mp hother) with rfl | hother
      · exact hle
      · exact hfirst other hother

theorem foldlM_insertKey_perm {keys acc out : List Value}
    (h : keys.foldlM (fun sorted key => insertKey key sorted) acc = .ok out) : out.Perm (keys ++ acc) := by
  induction keys generalizing acc with
  | nil =>
    cases h
    exact .refl _
  | cons key rest ih =>
    rw [List.foldlM_cons] at h
    obtain ⟨next, hnext, h⟩ := Except.bind_eq_ok.mp h
    exact ((ih h).trans ((insertKey_perm hnext).append_left rest)).trans List.perm_middle

theorem foldlM_insertKey_eq_error {keys acc : List Value} {r : Refusal}
    (h : keys.foldlM (fun sorted key => insertKey key sorted) acc = .error r) :
    ∃ message, r = .raised .badType message := by
  induction keys generalizing acc with
  | nil => cases h
  | cons key rest ih =>
    rw [List.foldlM_cons] at h
    rcases Except.bind_eq_error.mp h with h | ⟨_, -, h⟩
    · exact insertKey_eq_error h
    · exact ih h

theorem foldlM_insertKey_texts (names : List Text) {acc : List Text} (h : acc.Pairwise (· ≤ ·)) :
    ∃ out : List Text,
      (names.map Value.text).foldlM (fun sorted key => insertKey key sorted) (acc.map .text) =
        .ok (out.map .text) ∧
      out.Perm (names ++ acc) ∧ out.Pairwise (· ≤ ·) := by
  induction names generalizing acc with
  | nil => exact ⟨acc, rfl, .refl _, h⟩
  | cons name rest ih =>
    obtain ⟨next, hnext, hperm, hpairwise⟩ := insertKey_texts name h
    obtain ⟨out, hout, hpermOut, hpairwiseOut⟩ := ih hpairwise
    refine ⟨out, ?_, (hpermOut.trans (hperm.append_left rest)).trans List.perm_middle, hpairwiseOut⟩
    rw [List.map_cons, List.foldlM_cons, hnext]
    exact hout

theorem sortKeys_texts (names : List Text) :
    sortKeys (names.map .text) = .ok ((Text.sorted names).map .text) := by
  obtain ⟨out, hout, hperm, hpairwise⟩ := foldlM_insertKey_texts names .nil
  rw [List.append_nil] at hperm
  rw [← Text.eq_sorted hperm hpairwise]
  exact hout

theorem listNames_texts (index : Nat) (names : List Text) : listNames index (names.map .text) = .ok names := by
  induction names generalizing index with
  | nil => rfl
  | cons name rest ih => simp [listNames, ih, Except.map]

theorem listNames_of_no_text {keys : List Value} {key : Value} (hkey : key ∈ keys)
    (hno : ∀ name, key ≠ .text name) (index : Nat) :
    ∃ message, listNames index keys = .error (.raised .badType message) := by
  induction keys generalizing index with
  | nil => cases hkey
  | cons first rest ih =>
    cases first with
    | text name =>
      have hrest : key ∈ rest := (List.mem_cons.mp hkey).resolve_left (hno name)
      obtain ⟨message, hmessage⟩ := ih hrest (index + 1)
      exact ⟨message, by simp [listNames, hmessage, Except.map]⟩
    | _ => exact ⟨_, rfl⟩

/-- The keys of a section that are no names of settings. -/
def unknownKeys (section_ : Settings) : List Value :=
  (Table.keys section_).filter fun key => !RoutingSettings.isName key

/-- What is noted of unknown settings: all at once, in order. -/
def ignoring (names : List Text) : List Log.Record :=
  if names = [] then []
  else [⟨.warning, .settings, "Ignoring unknown routing settings: " ++ Text.join ", " (Text.sorted names)⟩]

section

variable {section_ : Settings}

theorem unknownRecords_of_texts {names : List Text} (h : unknownKeys section_ = names.map .text) :
    unknownRecords section_ = .ok (ignoring names) := by
  have hsort : sortKeys (unknownKeys section_) = .ok ((Text.sorted names).map .text) := by
    rw [h, sortKeys_texts]
  have hlist := listNames_texts 0 (Text.sorted names)
  have hempty : Text.sorted names = [] ↔ names = [] := by
    rw [← List.length_eq_zero_iff, (Text.sorted_perm names).length_eq, List.length_eq_zero_iff]
  rw [unknownKeys] at hsort
  rw [unknownRecords, hsort, ignoring]
  by_cases hnames : names = []
  · rw [if_pos hnames, hempty.mpr hnames]
    rfl
  · have hsome : ((Text.sorted names).map Value.text).isEmpty = false := by
      simpa [List.isEmpty_eq_false_iff, hempty] using hnames
    simp [bind, Except.bind, hsome, hlist, hnames, pure, Except.pure]

theorem unknownRecords_of_no_text {key : Value} (hkey : key ∈ unknownKeys section_)
    (hno : ∀ name, key ≠ .text name) :
    ∃ message, unknownRecords section_ = .error (.raised .badType message) := by
  rw [unknownKeys] at hkey
  rw [unknownRecords]
  cases hsort : sortKeys ((Table.keys section_).filter fun key => !RoutingSettings.isName key) with
  | error r =>
    obtain ⟨message, rfl⟩ := foldlM_insertKey_eq_error hsort
    exact ⟨message, rfl⟩
  | ok keys =>
    have hmem : key ∈ keys := by
      rw [(foldlM_insertKey_perm hsort).mem_iff, List.append_nil]
      exact hkey
    obtain ⟨message, hlist⟩ := listNames_of_no_text hmem hno 0
    have hsome : keys.isEmpty = false := by
      rw [List.isEmpty_eq_false_iff]
      exact List.ne_nil_of_mem hmem
    exact ⟨message, by simp [bind, Except.bind, hsome, hlist]⟩

end

end Settings
end RoutePattern
