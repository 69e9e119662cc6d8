import RoutePattern.Specificity
import Mathlib.Data.List.Forall2
import Mathlib.Data.List.Permutation

/-!
The order of templates by how specific they are. Templates are compared by the ranks of their segments, which
makes a total preorder; sorting by it leaves no choice but the order of ties, which stay as they were.
-/

namespace RoutePattern
namespace Specificity

/-- The place of a complexity among all: zero comes first, then that of an empty segment, then the others in
their order. -/
def rank (complexity : Int) : Nat := if complexity = 0 then 0 else (complexity + 2).toNat

def segmentRanks (segments : List Text) : List Nat := segments.map fun s => rank (complexity s)

def ranks (template : Text) : List Nat := segmentRanks (Text.split '/' template)

/-- One list of ranks before another: it has the lesser rank where the two first differ, or it goes on where
the other one ends. -/
inductive Before : List Nat → List Nat → Prop where
  | longer {m : Nat} {ms : List Nat} : Before (m :: ms) []
  | lesser {m n : Nat} {ms ns : List Nat} : m < n → Before (m :: ms) (n :: ns)
  | later {m : Nat} {ms ns : List Nat} : Before ms ns → Before (m :: ms) (m :: ns)

namespace Before

variable {ms ns os : List Nat}

theorem cons_iff {m n : Nat} : Before (m :: ms) (n :: ns) ↔ m < n ∨ m = n ∧ Before ms ns := by
  constructor
  · intro h
    cases h with
    | lesser hlt => exact .inl hlt
    | later h => exact .inr ⟨rfl, h⟩
  · rintro (hlt | ⟨rfl, h⟩)
    · exact .lesser hlt
    · exact .later h

theorem trans (h : Before ms ns) (h' : Before ns os) : Before ms os := by
  induction h generalizing os with
  | longer => cases h'
  | lesser hlt =>
    cases h' with
    | longer => exact .longer
    | lesser hlt' => exact .lesser (Nat.lt_trans hlt hlt')
    | later _ => exact .lesser hlt
  | later _ ih =>
    cases h' with
    | longer => exact .longer
    | lesser hlt => exact .lesser hlt
    | later h' => exact .later (ih h')

theorem irrefl (ms : List Nat) : ¬Before ms ms := by
  induction ms with
  | nil => nofun
  | cons m ms ih =>
    rw [cons_iff]
    rintro (hlt | ⟨-, h⟩)
    · exact Nat.lt_irrefl m hlt
    · exact ih h

end Before

theorem neg_one_le_complexity (segment : Text) : -1 ≤ complexity segment := by
  unfold complexity
  split <;> omega

theorem compareComplexity_eq {a b : Int} (ha : -1 ≤ a) (hb : -1 ≤ b) :
    compareComplexity a b = Ord.compare (rank a) (rank b) := by
  unfold compareComplexity rank
  grind [Nat.compare_eq_lt, Nat.compare_eq_eq, Nat.compare_eq_gt]

theorem compareSegments_cons (a b : Text) (as bs : List Text) :
    compareSegments (a :: as) (b :: bs) =
      (Ord.compare (rank (complexity a)) (rank (complexity b))).then (compareSegments as bs) := by
  rw [compareSegments, compareComplexity_eq (neg_one_le_complexity a) (neg_one_le_complexity b)]
  cases Ord.compare (rank (complexity a)) (rank (complexity b)) <;> rfl

theorem compareSegments_swap (as bs : List Text) :
    compareSegments bs as = (compareSegments as bs).swap := by
  induction as generalizing bs with
  | nil => cases bs <;> rfl
  | cons a as ih =>
    cases bs with
    | nil => rfl
    | cons b bs =>
      rw [compareSegments_cons, compareSegments_cons, ih, Ordering.swap_then, Nat.compare_swap]

theorem compareSegments_eq_lt {as bs : List Text} :
    compareSegments as bs = .lt ↔ Before (segmentRanks as) (segmentRanks bs) := by
  induction as generalizing bs with
  | nil => cases bs <;> exact ⟨nofun, nofun⟩
  | cons a as ih =>
    cases bs with
    | nil => exact ⟨fun _ => .longer, fun _ => rfl⟩
    | cons b bs =>
      rw [compareSegments_cons, Ordering.then_eq_lt, Nat.compare_eq_lt, Nat.compare_eq_eq, ih]
      exact Before.cons_iff.symm

theorem compareSegments_eq_eq {as bs : List Text} :
    compareSegments as bs = .eq ↔ segmentRanks as = segmentRanks bs := by
  induction as generalizing bs with
  | nil => cases bs <;> simp [compareSegments, segmentRanks]
  | cons a as ih =>
    cases bs with
    | nil => simp [compareSegments, segmentRanks]
    | cons b bs =>
      rw [compareSegments_cons, Ordering.then_eq_eq, Nat.compare_eq_eq, ih]
      exact List.cons_eq_cons.symm

section

variable {a b c : Text}

theorem compare_swap (a b : Text) : compare b a = (compare a b).swap := compareSegments_swap _ _

theorem compare_eq_lt : compare a b = .lt ↔ Before (ranks a) (ranks b) := compareSegments_eq_lt

theorem compare_eq_eq : compare a b = .eq ↔ ranks a = ranks b := compareSegments_eq_eq

theorem compare_eq_gt : compare a b = .gt ↔ Before (ranks b) (ranks a) := by
  rw [← compare_eq_lt, compare_swap a b, Ordering.swap_eq_lt]

theorem compare_ne_gt : compare a b ≠ .gt ↔ Before (ranks a) (ranks b) ∨ ranks a = ranks b := by
  rw [← compare_eq_lt, ← compare_eq_eq]
  cases compare a b <;> simp

/-- What does not come after what does not come after a third one does not come after that one. -/
theorem compare_ne_gt_trans (h : compare a b ≠ .gt) (h' : compare b c ≠ .gt) : compare a c ≠ .gt := by
  rw [compare_ne_gt] at *
  rcases h with h | h
  · rcases h' with h' | h'
    · exact .inl (h.trans h')
    · exact .inl (h' ▸ h)
  · rw [h]
    exact h'

end

section

variable {α : Type} (path : α → Text)

/-- The test that items are sorted by. -/
def notAfter (a b : α) : Bool := compare (path a) (path b) != .gt

theorem notAfter_iff {a b : α} : notAfter path a b = true ↔ compare (path a) (path b) ≠ .gt := bne_iff_ne

theorem notAfter_trans (a b c : α) (h : notAfter path a b = true) (h' : notAfter path b c = true) :
    notAfter path a c = true := by
  rw [notAfter_iff] at *
  exact compare_ne_gt_trans h h'

theorem notAfter_total (a b : α) : (notAfter path a b || notAfter path b a) = true := by
  rw [Bool.or_eq_true, notAfter_iff, notAfter_iff, compare_swap (path a) (path b)]
  cases compare (path a) (path b) <;> simp

theorem sortBy_perm (items : List α) : (sortBy path items).Perm items := List.mergeSort_perm ..

theorem pairwise_sortBy (items : List α) :
    (sortBy path items).Pairwise fun a b => compare (path a) (path b) ≠ .gt :=
  (List.pairwise_mergeSort (notAfter_trans path) (notAfter_total path) items).imp (notAfter_iff path).mp

theorem sortBy_of_pairwise {items : List α}
    (h : items.Pairwise fun a b => compare (path a) (path b) ≠ .gt) : sortBy path items = items :=
  List.mergeSort_of_pairwise (h.imp (notAfter_iff path).mpr)

theorem filter_sortBy (a : α) (items : List α) :
    (sortBy path items).filter (fun b => compare (path a) (path b) == .eq) =
      items.filter fun b => compare (path a) (path b) == .eq := by
  have hties : (items.filter fun b => compare (path a) (path b) == .eq).Pairwise
      fun b c => notAfter path b c = true := by
    refine List.pairwise_of_forall_mem_list fun b hb c hc => ?_
    have hab := compare_eq_eq.mp (beq_iff_eq.mp (List.mem_filter.mp hb).2)
    have hac := compare_eq_eq.mp (beq_iff_eq.mp (List.mem_filter.mp hc).2)
    exact (notAfter_iff path).mpr (compare_ne_gt.mpr (.inr (hab.symm.trans hac)))
  have hsublist := (List.sublist_mergeSort (notAfter_trans path) (notAfter_total path) hties
    List.filter_sublist).filter fun b => compare (path a) (path b) == .eq
  rw [List.filter_filter] at hsublist
  simp only [Bool.and_self] at hsublist
  exact (hsublist.eq_of_length ((sortBy_perm path items).filter _).length_eq.symm).symm

theorem forall₂_sortBy {items others : List α} (h : items.Perm others) :
    List.Forall₂ (fun a b => compare (path a) (path b) = .eq) (sortBy path items) (sortBy path others) := by
  let key (a : α) : List Nat := ranks (path a)
  have hperm : ((sortBy path items).map key).Perm ((sortBy path others).map key) :=
    (((sortBy_perm path items).trans h).trans (sortBy_perm path others).symm).map key
  have hsorted : ∀ items : List α,
      ((sortBy path items).map key).Pairwise fun ms ns => Before ms ns ∨ ms = ns := fun items =>
    List.pairwise_map.mpr ((pairwise_sortBy path items).imp compare_ne_gt.mp)
  have hkeys : (sortBy path items).map key = (sortBy path others).map key := by
    refine hperm.eq_of_pairwise (fun ms ns _ _ h h' => ?_) (hsorted items) (hsorted others)
    rcases h with h | h
    · rcases h' with h' | h'
      · exact absurd (h.trans h') (Before.irrefl ms)
      · exact h'.symm
    · exact h
  have hforall : List.Forall₂ (fun a b => key a = key b) (sortBy path items) (sortBy path others) := by
    have hrefl : List.Forall₂ (· = ·) ((sortBy path items).map key) ((sortBy path others).map key) := by
      rw [hkeys, List.forall₂_eq_eq_eq]
    exact List.forall₂_map_right_iff.mp (List.forall₂_map_left_iff.mp hrefl)
  exact hforall.imp fun _ _ => compare_eq_eq.mpr

/-- Comparing templates is comparing the lists of their ranks, which makes a total preorder. Sorting puts the
items in this order and keeps the order of ties; what is sorted stays as it is, and items in another order
are sorted alike but for ties. -/
theorem sortBy_canonical :
    (∀ a b, compare b a = (compare a b).swap) ∧
    (∀ a b c, compare a b ≠ .gt → compare b c ≠ .gt → compare a c ≠ .gt) ∧
    (∀ a b, (compare a b = .lt ↔ Before (ranks a) (ranks b)) ∧
      (compare a b = .eq ↔ ranks a = ranks b)) ∧
    ∀ items : List α,
      (sortBy path items).Perm items ∧
      (sortBy path items).Pairwise (fun a b => compare (path a) (path b) ≠ .gt) ∧
      (∀ a, (sortBy path items).filter (fun b => compare (path a) (path b) == .eq) =
        items.filter fun b => compare (path a) (path b) == .eq) ∧
      sortBy path (sortBy path items) = sortBy path items ∧
      ∀ others, items.Perm others →
        List.Forall₂ (fun a b => compare (path a) (path b) = .eq) (sortBy path items)
          (sortBy path others) := by
  refine ⟨compare_swap, fun _ _ _ => compare_ne_gt_trans, fun _ _ => ⟨compare_eq_lt, compare_eq_eq⟩,
    fun items => ⟨sortBy_perm path items, pairwise_sortBy path items, fun a => filter_sortBy path a items,
      sortBy_of_pairwise path (pairwise_sortBy path items), fun _ => forall₂_sortBy path⟩⟩

/-- Sorted from another order, two templates that tie have changed places. -/
theorem sortBy_canonical_ties :
    let items : List Text := ["/users", "/users/:id", "/users/me", "/users/*", "//:id"]
    let others : List Text := ["/users/*", "//:id", "/users/:id", "/users/me", "/users"]
    let sorted : List Text := ["/users/me", "/users/*", "/users/:id", "/users", "//:id"]
    let sortedOthers : List Text := ["/users/*", "/users/me", "/users/:id", "/users", "//:id"]
    (compare "/users/me" "/users/*" ≠ .gt ∧ compare "/users/*" "//:id" ≠ .gt ∧
      compare "/users/me" "//:id" ≠ .gt) ∧
    items.Perm others ∧ sortBy id items = sorted ∧ sortBy id others = sortedOthers ∧
    List.Forall₂ (fun a b => compare a b = .eq) sorted sortedOthers := by
  intro items others sorted sortedOthers
  obtain ⟨-, htrans, -, hsort⟩ := sortBy_canonical (id : Text → Text)
  have hme : compare "/users/me" "/users/*" ≠ .gt := by decide
  have hstar : compare "/users/*" "//:id" ≠ .gt := by decide
  have hperm : items.Perm others := by decide
  have hsorted : sortBy id items = sorted := by cbv
  have hsortedOthers : sortBy id others = sortedOthers := by cbv
  obtain ⟨-, -, -, -, hothers⟩ := hsort items
  have hties := hothers others hperm
  rw [hsorted, hsortedOthers] at hties
  exact ⟨⟨hme, hstar, htrans _ _ _ hme hstar⟩, hperm, hsorted, hsortedOthers, hties⟩

end

end Specificity
end RoutePattern
