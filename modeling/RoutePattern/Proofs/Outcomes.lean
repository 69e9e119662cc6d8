import RoutePattern.Schema

/-!
Outcomes with issues: how they are put side by side, when two of them come to the same, and what their
issues and refusals have in common.
-/

namespace RoutePattern
namespace Schema
namespace Outcome

variable {α β γ : Type}

/-- Nothing but a refusal. -/
def refused (r : Refusal) : Outcome α := .error r

def made (a : α) (issues : List Issue) : Outcome α := .ok (a, issues)

@[elab_as_elim, cases_eliminator]
theorem casesOutcome {motive : Outcome α → Prop} (refused : ∀ r, motive (refused r))
    (made : ∀ a issues, motive (made a issues)) (x : Outcome α) : motive x :=
  match x with
  | .error r => refused r
  | .ok (a, issues) => made a issues

theorem pure_eq (a : α) : (pure a : Outcome α) = made a [] := rfl

theorem refused_bind (r : Refusal) (k : α → Outcome β) : refused r >>= k = refused r := rfl

theorem made_bind (a : α) (issues : List Issue) (k : α → Outcome β) :
    made a issues >>= k =
      match k a with
      | .error r => refused r
      | .ok (b, more) => made b (issues ++ more) := rfl

theorem made_bind_refused {a : α} {r : Refusal} {k : α → Outcome β} (issues : List Issue)
    (h : k a = refused r) : made a issues >>= k = refused r := by
  rw [made_bind, h]
  rfl

theorem made_bind_made {a : α} {b : β} {more : List Issue} {k : α → Outcome β} (issues : List Issue)
    (h : k a = made b more) : made a issues >>= k = made b (issues ++ more) := by
  rw [made_bind, h]
  rfl

theorem made_bind_pure (a : α) (issues : List Issue) (f : α → β) :
    (made a issues >>= fun a => pure (f a)) = made (f a) issues := by
  rw [made_bind_made (k := fun a => pure (f a)) issues (pure_eq (f a)), List.append_nil]

theorem bind_pure_self (x : Outcome α) : x >>= pure = x := by
  cases x with
  | refused r => rfl
  | made a issues => rw [made_bind_made issues (pure_eq a), List.append_nil]

theorem pure_bind_eq (a : α) (k : α → Outcome β) : pure a >>= k = k a := by
  rw [pure_eq]
  cases hk : k a with
  | refused r => exact made_bind_refused [] hk
  | made b more => exact made_bind_made [] hk

theorem bind_bind (x : Outcome α) (k : α → Outcome β) (l : β → Outcome γ) :
    x >>= k >>= l = x >>= fun a => k a >>= l := by
  cases x with
  | refused r => rfl
  | made a issues =>
    cases hk : k a with
    | refused r =>
      have hrest : k a >>= l = refused r := by rw [hk, refused_bind]
      rw [made_bind_refused issues hk, refused_bind, made_bind_refused (k := fun a => k a >>= l) issues hrest]
    | made b more =>
      rw [made_bind_made issues hk]
      cases hl : l b with
      | refused r =>
        have hrest : k a >>= l = refused r := by rw [hk, made_bind_refused more hl]
        rw [made_bind_refused _ hl, made_bind_refused (k := fun a => k a >>= l) issues hrest]
      | made c others =>
        have hrest : k a >>= l = made c (more ++ others) := by rw [hk, made_bind_made more hl]
        rw [made_bind_made _ hl, made_bind_made (k := fun a => k a >>= l) issues hrest,
          List.append_assoc]

instance : LawfulMonad Outcome :=
  LawfulMonad.mk' Outcome bind_pure_self pure_bind_eq bind_bind

/-- The entries of both outcomes, and the issues of both. -/
def both (x y : Outcome (List α)) : Outcome (List α) :=
  x >>= fun a => y >>= fun b => pure (a ++ b)

theorem made_both (a b : List α) (issues more : List Issue) :
    both (made a issues) (made b more) = made (a ++ b) (issues ++ more) := by
  refine made_bind_made issues ?_
  have hpure := made_bind_made (k := fun b => pure (a ++ b)) more (pure_eq (a ++ b))
  rwa [List.append_nil] at hpure

theorem both_assoc (x y z : Outcome (List α)) : both (both x y) z = both x (both y z) := by
  simp only [both, bind_assoc, pure_bind, List.append_assoc]

theorem nil_both (y : Outcome (List α)) : both (pure []) y = y := by
  simp only [both, pure_bind, List.nil_append, bind_pure]

theorem bind_both (x : Outcome β) (y : Outcome (List α)) (g : β → List α) :
    (x >>= fun a => y >>= fun b => pure (g a ++ b)) = both (x >>= fun a => pure (g a)) y := by
  simp only [both, bind_assoc, pure_bind]

/-- The outcome with its value and its issues changed. -/
def under (g : α → β) (f : Issue → Issue) (x : Outcome α) : Outcome β := x.map (Prod.map g (List.map f))

variable {g : α → β} {f : Issue → Issue}

theorem under_made (a : α) (issues : List Issue) :
    under g f (made a issues) = made (g a) (issues.map f) := rfl

theorem under_refused (r : Refusal) : under g f (refused r) = refused r := rfl

theorem under_pure (a : α) : under g f (pure a) = pure (g a) := rfl

theorem under_bind (x : Outcome α) {k : α → Outcome β} {g : β → γ} :
    under g f (x >>= k) = under id f x >>= fun a => under g f (k a) := by
  cases x with
  | refused r => rfl
  | made a issues =>
    rw [under_made]
    cases hk : k a with
    | refused r =>
      rw [made_bind_refused issues hk, made_bind_refused _ (by rw [id, hk, under_refused]), under_refused]
    | made b more =>
      rw [made_bind_made issues hk, made_bind_made _ (by rw [id, hk, under_made]), under_made, List.map_append]

theorem under_both {g : α → β} (x y : Outcome (List α)) :
    under (List.map g) f (both x y) = both (under (List.map g) f x) (under (List.map g) f y) := by
  cases x with
  | refused r => rfl
  | made a issues =>
    cases y with
    | refused r => rfl
    | made b more => simp only [made_both, under_made, List.map_append]

/-- Both are refused alike, or both have the same issues. Where there are none they have the same value. -/
inductive Same : Outcome α → Outcome α → Prop
  | refused (r : Refusal) : Same (refused r) (refused r)
  | made {a b : α} (issues : List Issue) (h : issues = [] → a = b) : Same (made a issues) (made b issues)

theorem Same.refl (x : Outcome α) : Same x x := by
  cases x with
  | refused r => exact .refused r
  | made a issues => exact .made issues fun _ => rfl

theorem Same.both {x x' y y' : Outcome (List α)} (hx : Same x x') (hy : Same y y') :
    Same (both x y) (both x' y') := by
  cases hx with
  | refused r => exact .refused r
  | made issues ha =>
    cases hy with
    | refused r => exact .refused r
    | made more hb =>
      simp only [made_both]
      refine .made _ fun hnil => ?_
      obtain ⟨hissues, hmore⟩ := List.append_eq_nil_iff.mp hnil
      rw [ha hissues, hb hmore]

/-- What comes to the same is finished alike, also where its entries are put into a table that has them. -/
theorem Same.finish {x y : Outcome (Table Value Value)} {k : Table Value Value → Table Value Value}
    (h : Same x y) (hk : ∀ es, y = Outcome.made es [] → k es = es) :
    finish (x >>= fun es => pure (k es)) = finish y := by
  cases h with
  | refused r => rfl
  | @made a b issues hvalue =>
    rw [made_bind_pure]
    cases issues with
    | nil => rw [hvalue rfl, hk b rfl]
    | cons issue more => rfl

/-- A refusal, if there is one, is one of those, and otherwise the issues and the value are. -/
def Within (R : Refusal → Prop) (P : Issue → Prop) (V : α → Prop) : Outcome α → Prop
  | .error r => R r
  | .ok (a, issues) => (∀ i ∈ issues, P i) ∧ V a

section

variable {R : Refusal → Prop} {P : Issue → Prop} {V : α → Prop} {W : β → Prop}

theorem within_refused {r : Refusal} : (refused r : Outcome α).Within R P V ↔ R r := Iff.rfl

theorem within_made {a : α} {issues : List Issue} :
    (made a issues).Within R P V ↔ (∀ i ∈ issues, P i) ∧ V a := Iff.rfl

theorem within_pure {a : α} (h : V a) : (pure a : Outcome α).Within R P V := ⟨nofun, h⟩

theorem Within.bind {x : Outcome α} {k : α → Outcome β} (hx : x.Within R P V)
    (hk : ∀ a, V a → (k a).Within R P W) : (x >>= k).Within R P W := by
  cases x with
  | refused r => exact hx
  | made a issues =>
    obtain ⟨hissues, ha⟩ := hx
    have hka := hk a ha
    cases hout : k a with
    | refused r =>
      rw [hout] at hka
      rw [made_bind_refused issues hout]
      exact hka
    | made b more =>
      rw [hout] at hka
      rw [made_bind_made issues hout]
      exact ⟨List.forall_mem_append.mpr ⟨hissues, hka.1⟩, hka.2⟩

theorem within_ofExcept {x : Except Refusal α} (hr : ∀ r, x = .error r → R r) (ha : ∀ a, x = .ok a → V a) :
    (ofExcept x).Within R P V := by
  cases x with
  | error r => exact hr r rfl
  | ok a => exact within_pure (ha a rfl)

end

end Outcome

end Schema

end RoutePattern
