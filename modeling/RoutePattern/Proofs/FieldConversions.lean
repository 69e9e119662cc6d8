import RoutePattern.Proofs.KeyedEntries
import RoutePattern.Proofs.Localization
import RoutePattern.Proofs.Outcomes

/-!
Fields converted one after the other: every issue points to the key that it was met under, and under other
keys the fields are converted alike.
-/

namespace RoutePattern

theorem asKey_keyValue (key : Key) : key.value.asKey = .ok key.value := by cases key <;> rfl

/-- What an issue points to can be looked up among keys. -/
def Issue.IsKeyed (i : Issue) : Prop := ∀ v ∈ i.path.head?, v.asKey = .ok v

theorem Issue.isKeyed_of_key (kind : IssueKind) (key : Key) (rest : List Value) (message : Text) :
    (⟨kind, key.value :: rest, message⟩ : Issue).IsKeyed := by
  intro v hv
  obtain rfl := Option.some.inj hv
  exact asKey_keyValue key

namespace Schema

open Outcome

section

variable {convert : Value → Except Refusal Value} {label : Text} {path : List Value} {v w : Value} {r : Refusal}

theorem convertOne_of_ok (h : convert v = .ok w) : convertOne convert label path v = pure (some w) := by
  simp only [convertOne, h]

theorem convertOne_of_reported (h : convert v = .error r) (hr : isReported r) :
    convertOne convert label path v = made none [⟨.invalid, path, label ++ r.message⟩] := by
  simp only [convertOne, h, hr]
  rfl

theorem convertOne_of_refused (h : convert v = .error r) (hr : ¬ isReported r) :
    convertOne convert label path v = refused r := by
  simp only [convertOne, h, hr]
  rfl

end

section

variable {fields whole : Table Value Codec} {convert : Codec → Value → Except Refusal Value} {verb : Text}

def convertField (fields : Table Value Codec) (convert : Codec → Value → Except Refusal Value)
    (verb : Text) (key v : Value) : Outcome (Option Value) :=
  match Table.get? key fields, v with
  | none, v => pure (some v)
  | some _, .null => pure (some .null)
  | some codec, v => convertEntry (convert codec) ("Cannot " ++ verb ++ " " ++ codec.name ++ ": ") key v

def convertSingle (fields : Table Value Codec) (convert : Codec → Value → Except Refusal Value)
    (verb : Text) (entry : Value × Value) : Outcome (Table Value Value) :=
  convertField fields convert verb entry.1 entry.2 >>= fun out => pure (out.map (entry.1, ·)).toList

theorem convertFields_cons (entry : Value × Value) (rest : Table Value Value) :
    convertFields fields convert verb (entry :: rest) =
      both (convertSingle fields convert verb entry) (convertFields fields convert verb rest) := by
  obtain ⟨key, v⟩ := entry
  have hcons : convertFields fields convert verb ((key, v) :: rest) =
      convertField fields convert verb key v >>= fun out =>
        convertFields fields convert verb rest >>= fun others =>
          pure ((out.map (key, ·)).toList ++ others) := by
    simp only [convertFields, convertField]
    split <;> simp_all only
  rw [hcons, bind_both]
  rfl

theorem convertFields_append (front back : Table Value Value) :
    convertFields fields convert verb (front ++ back) =
      both (convertFields fields convert verb front) (convertFields fields convert verb back) := by
  induction front with
  | nil => exact (nil_both _).symm
  | cons entry rest ih =>
    rw [List.cons_append, convertFields_cons, ih, ← both_assoc, ← convertFields_cons]

variable {names : Table Value Value} {key other v : Value}

/-- An entry under another key, if there is one for it. -/
def renamed (names : Table Value Value) (entry : Value × Value) : Value × Value :=
  ((Table.get? entry.1 names).getD entry.1, entry.2)

/-- An outcome with its entries and its issues under other keys. -/
def rekeyed (names : Table Value Value) : Outcome (Table Value Value) → Outcome (Table Value Value) :=
  under (List.map (renamed names)) (Issue.rekeyed names)

theorem rekeyed_of_get? (h : Table.get? key names = some other) (kind : IssueKind) (rest : List Value)
    (message : Text) :
    Issue.rekeyed names ⟨kind, key :: rest, message⟩ = ⟨kind, other :: rest, message⟩ := by
  simp [Issue.rekeyed, Issue.rekeyed?, h]

section

variable {convert : Value → Except Refusal Value} {label : Text} (h : Table.get? key names = some other)

include h

theorem under_convertOne (rest : List Value) (v : Value) :
    under id (Issue.rekeyed names) (convertOne convert label (key :: rest) v) =
      convertOne convert label (other :: rest) v := by
  cases hv : convert v with
  | ok w =>
    rw [convertOne_of_ok hv, convertOne_of_ok hv]
    rfl
  | error r =>
    by_cases hr : isReported r
    · rw [convertOne_of_reported hv hr, convertOne_of_reported hv hr, under_made, List.map_singleton,
        rekeyed_of_get? h]
      rfl
    · rw [convertOne_of_refused hv hr, convertOne_of_refused hv hr, under_refused]

theorem under_convertItems (index : Nat) (vs : List Value) :
    under id (Issue.rekeyed names) (convertItems convert label key index vs) =
      convertItems convert label other index vs := by
  induction vs generalizing index with
  | nil => rfl
  | cons v rest ih =>
    rw [convertItems, convertItems, under_bind, under_convertOne h]
    refine congrArg _ (funext fun first => ?_)
    rw [under_bind, ih]
    rfl

theorem under_convertEntry (v : Value) :
    under id (Issue.rekeyed names) (convertEntry convert label key v) =
      convertEntry convert label other v := by
  unfold convertEntry
  split
  next items _ =>
    rw [under_bind, under_convertItems h]
    rfl
  next => exact under_convertOne h [] v

end

theorem rekeyed_convertSingle (h : Table.get? key names = some other)
    (hfields : Table.get? other whole = Table.get? key fields) :
    rekeyed names (convertSingle fields convert verb (key, v)) =
      convertSingle whole convert verb (other, v) := by
  have hfield : under id (Issue.rekeyed names) (convertField fields convert verb key v) =
      convertField whole convert verb other v := by
    unfold convertField
    rw [hfields]
    split
    next => rfl
    next => rfl
    next => exact under_convertEntry h _
  rw [rekeyed, convertSingle, under_bind, hfield, convertSingle]
  refine congrArg _ (funext fun out => ?_)
  rw [under_pure]
  cases out with
  | none => rfl
  | some w => simp [renamed, h]

variable {ρ : Key → Key} {keys : List Key}

theorem rekeyed_convertFields (hnames : ∀ k ∈ keys, Table.get? k.value names = some (ρ k).value)
    (hfields : ∀ k ∈ keys, Table.get? (ρ k).value whole = Table.get? k.value fields)
    (f : Key → Option Value) :
    rekeyed names (convertFields fields convert verb (entriesAt (fun k => f (ρ k)) keys)) =
      convertFields whole convert verb (entriesAt f (keys.map ρ)) := by
  induction keys with
  | nil => rfl
  | cons k rest ih =>
    obtain ⟨hname, hnames⟩ := List.forall_mem_cons.mp hnames
    obtain ⟨hfield, hfields⟩ := List.forall_mem_cons.mp hfields
    have ih := ih hnames hfields
    have hsplit : ∀ (g : Key → Option Value) (l : Key) (others : List Key),
        entriesAt g (l :: others) = ((g l).map (l.value, ·)).toList ++ entriesAt g others :=
      fun _ _ _ => rfl
    rw [List.map_cons, hsplit, hsplit]
    cases f (ρ k) with
    | none => exact ih
    | some v =>
      have hsingle : rekeyed names (convertSingle fields convert verb (k.value, v)) =
          convertSingle whole convert verb ((ρ k).value, v) := rekeyed_convertSingle hname hfield
      have happend : ∀ (l : Value) (others : Table Value Value),
          ((some v).map (l, ·)).toList ++ others = (l, v) :: others := fun _ _ => rfl
      rw [happend, happend, convertFields_cons, convertFields_cons, ← ih, ← hsingle]
      exact under_both _ _

end

section

variable {R : Refusal → Prop} {P : Issue → Prop}

theorem within_convertOne {convert : Value → Except Refusal Value} {label : Text} {path : List Value}
    {v : Value} (hR : ∀ r, convert v = .error r → ¬ isReported r → R r)
    (hP : ∀ message, P ⟨.invalid, path, message⟩) :
    (convertOne convert label path v).Within R P fun _ => True := by
  cases hv : convert v with
  | ok w =>
    rw [convertOne_of_ok hv]
    exact within_pure trivial
  | error r =>
    by_cases hr : isReported r
    · rw [convertOne_of_reported hv hr, within_made]
      exact ⟨List.forall_mem_singleton.mpr (hP _), trivial⟩
    · rw [convertOne_of_refused hv hr, within_refused]
      exact hR r hv hr

variable {convert : Value → Except Refusal Value} {label : Text} {key : Value}

theorem within_convertItems {index : Nat} {vs : List Value}
    (hR : ∀ v ∈ vs, ∀ r, convert v = .error r → ¬ isReported r → R r)
    (hP : ∀ n < vs.length, ∀ message, P ⟨.invalid, [key, .int (index + n : Nat)], message⟩) :
    (convertItems convert label key index vs).Within R P fun _ => True := by
  induction vs generalizing index with
  | nil => exact within_pure trivial
  | cons v rest ih =>
    obtain ⟨hv, hrest⟩ := List.forall_mem_cons.mp hR
    have hothers : ∀ n < rest.length, ∀ message, P ⟨.invalid, [key, .int (index + 1 + n : Nat)], message⟩ := by
      intro n hn message
      rw [Nat.add_assoc, Nat.add_comm 1 n]
      exact hP (n + 1) (Nat.succ_lt_succ hn) message
    have hfirst : (convertOne convert label [key, .int index] v).Within R P fun _ => True :=
      within_convertOne hv (hP 0 (Nat.succ_pos _))
    exact hfirst.bind fun _ _ => (ih hrest hothers).bind fun _ _ => within_pure trivial

/-- Where an issue within a value can be: at the value itself, or at an item of it. -/
def IsPlaceIn (v : Value) (rest : List Value) : Prop :=
  rest = [] ∨ ∃ (vs : List Value) (n : Nat), v.items? = some vs ∧ n < vs.length ∧ rest = [.int n]

theorem within_convertEntry {v : Value}
    (hR : ∀ w ∈ v.items?.getD [v], ∀ r, convert w = .error r → ¬ isReported r → R r)
    (hP : ∀ rest message, IsPlaceIn v rest → P ⟨.invalid, key :: rest, message⟩) :
    (convertEntry convert label key v).Within R P fun _ => True := by
  unfold convertEntry
  split
  next items hitems =>
    rw [hitems] at hR
    refine (within_convertItems hR fun n hn message => ?_).bind fun _ _ => within_pure trivial
    exact hP _ message (.inr ⟨items, n, hitems, hn, by rw [Nat.zero_add]⟩)
  next hitems =>
    rw [hitems] at hR
    exact within_convertOne (hR v (List.mem_singleton_self v)) fun message => hP [] message (.inl rfl)

end

theorem within_convertFields {R : Refusal → Prop} {P : Issue → Prop} {fields : Table Value Codec}
    {convert : Codec → Value → Except Refusal Value} {verb : Text} {entries : Table Value Value}
    (hR : ∀ e ∈ entries, ∀ c, Table.get? e.1 fields = some c → ∀ w ∈ e.2.items?.getD [e.2],
      ∀ r, convert c w = .error r → ¬ isReported r → R r)
    (hP : ∀ e ∈ entries, ∀ c, Table.get? e.1 fields = some c → ∀ rest message, IsPlaceIn e.2 rest →
      P ⟨.invalid, e.1 :: rest, message⟩) :
    (convertFields fields convert verb entries).Within R P fun _ => True := by
  induction entries with
  | nil => exact within_pure trivial
  | cons e rest ih =>
    obtain ⟨hRe, hRrest⟩ := List.forall_mem_cons.mp hR
    obtain ⟨hPe, hPrest⟩ := List.forall_mem_cons.mp hP
    have hfield : (convertField fields convert verb e.1 e.2).Within R P fun _ => True := by
      unfold convertField
      split
      next => exact within_pure trivial
      next => exact within_pure trivial
      next codec hcodec _ => exact within_convertEntry (hRe codec hcodec) (hPe codec hcodec)
    rw [convertFields_cons]
    have hentry : (convertSingle fields convert verb e).Within R P fun _ => True :=
      hfield.bind fun _ _ => within_pure trivial
    exact hentry.bind fun _ _ => (ih hRrest hPrest).bind fun _ _ => within_pure trivial

theorem rekeyIssues_of_keyed {keys : Table Key Key} {issues : List Issue} (h : ∀ i ∈ issues, i.IsKeyed) :
    SchemaItem.rekeyIssues keys issues =
      .ok (issues.map (Issue.rekeyed (SchemaItem.globalKeys keys))) := by
  induction issues with
  | nil => rfl
  | cons i rest ih =>
    obtain ⟨hi, hrest⟩ := List.forall_mem_cons.mp h
    have hhead : ∃ out, i.path.head?.mapM Value.asKey = .ok out := by
      cases hpath : i.path.head? with
      | none => exact ⟨none, rfl⟩
      | some v =>
        have hkey : (some v).mapM Value.asKey = v.asKey.map some := rfl
        exact ⟨some v, by rw [hkey, hi v hpath]; rfl⟩
    obtain ⟨out, hout⟩ := hhead
    rw [SchemaItem.rekeyIssues, hout, ih hrest]
    rfl

end Schema

end RoutePattern
