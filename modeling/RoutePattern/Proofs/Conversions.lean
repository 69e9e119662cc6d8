import RoutePattern.Proofs.RoundTrip.Parameters

/-!
What schemas make of values: when a conversion gives a result, and which one. A mapping is converted
entry by entry, and a list item by item.
-/

namespace RoutePattern

namespace Schema

namespace Outcome

variable {α β : Type}

/-- The outcome is a value, and no issue was met on the way. -/
def Gives (x : Outcome α) (a : α) : Prop := x = .ok (a, [])

theorem gives_pure {a b : α} : Gives (pure a) b ↔ b = a := by
  constructor
  · intro h
    exact (Prod.mk.inj (Except.ok.inj h)).1.symm
  · rintro rfl
    rfl

theorem gives_bind {x : Outcome α} {f : α → Outcome β} {b : β} :
    Gives (x >>= f) b ↔ ∃ a, x.Gives a ∧ (f a).Gives b := by
  constructor
  · intro h
    have h : x.bind f = .ok (b, []) := h
    match x with
    | .error r => cases h
    | .ok (a, issues) =>
      simp only [Outcome.bind] at h
      split at h
      · cases h
      next c more hfa =>
        obtain ⟨rfl, hissues⟩ := Prod.mk.inj (Except.ok.inj h)
        obtain ⟨rfl, rfl⟩ := List.append_eq_nil_iff.mp hissues
        exact ⟨a, rfl, hfa⟩
  · rintro ⟨a, rfl, hfa⟩
    have hbind : Outcome.bind (.ok (a, [])) f = .ok (b, []) := by
      rw [Outcome.bind, hfa]
      rfl
    exact hbind

theorem gives_ofExcept {x : Except Refusal α} {a : α} : (ofExcept x).Gives a ↔ x = .ok a := by
  unfold Gives ofExcept
  cases x with
  | error r => exact ⟨nofun, nofun⟩
  | ok b =>
    constructor
    · intro h
      rw [(Prod.mk.inj (Except.ok.inj h)).1]
    · intro h
      rw [Except.ok.inj h]
      rfl

theorem not_gives_report {issue : Issue} {issues : List Issue} {a : Option α} :
    ¬ (report (issue :: issues)).Gives a := nofun

theorem not_gives_error {r : Refusal} {a : α} : ¬ Gives (.error r) a := nofun

end Outcome

open Outcome

theorem finish_eq_ok {outcome : Outcome (Table Value Value)} {v : Value} :
    finish outcome = .ok v ↔ ∃ es, outcome.Gives es ∧ v = .map es := by
  constructor
  · intro h
    unfold finish at h
    split at h
    next es => exact ⟨es, rfl, (Except.ok.inj h).symm⟩
    next => cases h
    next => cases h
  · rintro ⟨es, hes, rfl⟩
    rw [hes]
    rfl

theorem applied_eq_ok {result : Except SchemaFault Value} {v : Value} :
    applied result = .ok v ↔ result = .ok v := by
  match result with
  | .ok w => rfl
  | .error (.issues issues) => rfl
  | .error (.refusal r) =>
    simp only [applied]
    split <;> simp [SchemaFault.single]

/-- A value and what a conversion makes of it: what is absent stays so, and items are converted each. -/
inductive Converts (convert : Value → Except Refusal Value) : Value → Value → Prop where
  | absent : Converts convert .null .null
  | items {v : Value} {vs ws : List Value} (hv : v.items? = some vs)
      (hws : List.Forall₂ (fun v w => convert v = .ok w) vs ws) : Converts convert v (.list ws)
  | one {v w : Value} (hv : v ≠ .null) (hone : v.items? = none) (hw : convert v = .ok w) :
      Converts convert v w

section

variable {convert : Value → Except Refusal Value} {label : Text} {path : List Value} {v : Value}

theorem gives_convertOne {out : Option Value} :
    (convertOne convert label path v).Gives out ↔ ∃ w, convert v = .ok w ∧ out = some w := by
  unfold convertOne
  cases hv : convert v with
  | ok w =>
    rw [gives_pure]
    simp
  | error r =>
    by_cases h : isReported r <;> simp [h, not_gives_report, not_gives_error]

theorem gives_convertItems {key : Value} {index : Nat} {vs ws : List Value} :
    (convertItems convert label key index vs).Gives ws ↔
      List.Forall₂ (fun v w => convert v = .ok w) vs ws := by
  induction vs generalizing index ws with
  | nil => rw [convertItems, gives_pure, List.forall₂_nil_left_iff]
  | cons v rest ih =>
    simp only [convertItems, gives_bind, gives_convertOne, ih, gives_pure,
      List.forall₂_cons_left_iff]
    constructor
    · rintro ⟨_, ⟨w, hw, rfl⟩, others, hothers, rfl⟩
      exact ⟨w, others, hw, hothers, rfl⟩
    · rintro ⟨w, others, hw, hothers, rfl⟩
      exact ⟨some w, ⟨w, hw, rfl⟩, others, hothers, rfl⟩

theorem gives_convertEntry {key : Value} {out : Option Value} (hv : v ≠ .null) :
    (convertEntry convert label key v).Gives out ↔ ∃ w, Converts convert v w ∧ out = some w := by
  unfold convertEntry
  cases hitems : v.items? with
  | none =>
    simp only [gives_convertOne]
    constructor
    · rintro ⟨w, hw, rfl⟩
      exact ⟨w, .one hv hitems hw, rfl⟩
    · rintro ⟨w, hw, rfl⟩
      cases hw with
      | absent => contradiction
      | items hvs _ =>
        rw [hitems] at hvs
        cases hvs
      | one _ _ hw => exact ⟨w, hw, rfl⟩
  | some vs =>
    simp only [gives_bind, gives_convertItems, gives_pure]
    constructor
    · rintro ⟨ws, hws, rfl⟩
      exact ⟨.list ws, .items hitems hws, rfl⟩
    · rintro ⟨w, hw, rfl⟩
      cases hw with
      | absent => contradiction
      | items hvs hws =>
        obtain rfl := Option.some.inj (hitems.symm.trans hvs)
        exact ⟨_, hws, rfl⟩
      | one _ hone _ =>
        rw [hitems] at hone
        cases hone

theorem converts_null {w : Value} : Converts convert .null w ↔ w = .null := by
  constructor
  · intro h
    cases h with
    | absent => rfl
    | items hvs _ => cases hvs
    | one hv _ _ => contradiction
  · rintro rfl
    exact .absent

end

/-- An entry and what the declared fields make of it. -/
def ConvertsField (fields : Table Value Codec) (convert : Codec → Value → Except Refusal Value)
    (given made : Value × Value) : Prop :=
  made.1 = given.1 ∧
    match Table.get? given.1 fields with
    | none => made.2 = given.2
    | some codec => Converts (convert codec) given.2 made.2

theorem gives_convertFields {fields : Table Value Codec}
    {convert : Codec → Value → Except Refusal Value} {verb : Text} {given made : Table Value Value} :
    (convertFields fields convert verb given).Gives made ↔
      List.Forall₂ (ConvertsField fields convert) given made := by
  induction given generalizing made with
  | nil => rw [convertFields, gives_pure, List.forall₂_nil_left_iff]
  | cons entry rest ih =>
    obtain ⟨key, v⟩ := entry
    have hentry : ∀ first : Outcome (Option Value),
        (∀ out, first.Gives out ↔ ∃ w, ConvertsField fields convert (key, v) (key, w) ∧ out = some w) →
        ((first >>= fun out => convertFields fields convert verb rest >>= fun others =>
            pure ((out.map (key, ·)).toList ++ others)).Gives made ↔
          List.Forall₂ (ConvertsField fields convert) ((key, v) :: rest) made) := by
      intro first hfirst
      simp only [gives_bind, hfirst, ih, gives_pure, List.forall₂_cons_left_iff]
      constructor
      · rintro ⟨_, ⟨w, hw, rfl⟩, others, hothers, rfl⟩
        exact ⟨(key, w), others, hw, hothers, rfl⟩
      · rintro ⟨⟨k, w⟩, others, hw, hothers, rfl⟩
        obtain rfl : k = key := hw.1
        exact ⟨some w, ⟨w, hw, rfl⟩, others, hothers, rfl⟩
    unfold convertFields
    split
    next hfield =>
      apply hentry
      simp [gives_pure, ConvertsField, hfield]
    next hfield =>
      apply hentry
      simp [gives_pure, ConvertsField, hfield, converts_null]
    next codec hfield hv =>
      apply hentry
      simp [gives_convertEntry hv, ConvertsField, hfield]

section

variable {name : Text} {fields : Table Value Codec} {inner : Schema} {conversion : Conversion}
  {captures : List Capture} {keys : Table Key Key} {params v : Value}

theorem decode_struct_eq_ok :
    (struct name fields).decode params = .ok v ↔
      ∃ given made, params = .map given ∧ v = .map made ∧
        List.Forall₂ (ConvertsField fields Codec.apply) given made := by
  cases params with
  | map given =>
    simp only [decode, finish_eq_ok, gives_convertFields, Value.map.injEq]
    constructor
    · rintro ⟨made, hmade, rfl⟩
      exact ⟨given, made, rfl, rfl, hmade⟩
    · rintro ⟨_, made, rfl, rfl, hmade⟩
      exact ⟨made, hmade, rfl⟩
  | _ => simp [decode, SchemaFault.single]

theorem encode_struct_eq_ok :
    (struct name fields).encode v = .ok params ↔
      ∃ given made, v = .map given ∧ params = .map made ∧
        List.Forall₂ (ConvertsField fields encodeField) given made := by
  cases v with
  | map given =>
    simp only [encode, finish_eq_ok, gives_convertFields, Value.map.injEq]
    constructor
    · rintro ⟨made, hmade, rfl⟩
      exact ⟨given, made, rfl, rfl, hmade⟩
    · rintro ⟨_, made, rfl, rfl, hmade⟩
      exact ⟨made, hmade, rfl⟩
  | _ => simp [encode, notMapping, SchemaFault.single]

theorem decode_transform_eq_ok :
    (transform name inner conversion).decode params = .ok v ↔
      ∃ w, inner.decode params = .ok w ∧ conversion.decode w = .ok v := by
  simp only [decode, Except.bind_eq_ok, applied_eq_ok]

theorem encode_transform_eq_ok :
    (transform name inner conversion).encode v = .ok params ↔
      ∃ w, conversion.encode v = .ok w ∧ inner.encode w = .ok params := by
  simp only [encode, Except.bind_eq_ok, applied_eq_ok]

theorem decode_sole_eq_ok :
    (route [.attached inner captures keys]).decode params = .ok v ↔
      ∃ own, SchemaItem.localize params keys = .ok own ∧ inner.decode (.map own) = .ok v := by
  simp only [decode, decodeSole, Except.bind_eq_ok, Except.mapError_eq_ok]

theorem encode_sole_eq_ok :
    (route [.attached inner captures keys]).encode v = .ok params ↔
      ∃ own, inner.encode v = .ok own ∧
        checkShape captures (.map (SchemaItem.globalize keys (own.entries?.getD []))) = .ok params := by
  cases hinner : inner.encode v <;>
    simp [encode, encodeSole, hinner, SchemaItem.captures, Except.mapError, Except.map, Except.bind]

end

section

variable {tag key : Text}

theorem decode_tagging_eq_ok {v w : Value} :
    (tagging tag key).decode v = .ok w ↔
      ∃ entries, v = .map entries ∧ w = .map (Table.put (.text key) (.text tag) entries) := by
  cases v with
  | map entries =>
    constructor
    · intro h
      exact ⟨entries, rfl, (Except.ok.inj h).symm⟩
    · rintro ⟨_, hv, rfl⟩
      obtain rfl := Value.map.inj hv
      rfl
  | _ => simp [tagging]

theorem encode_tagging_put {entries : Table Value Value} (h : Table.get? (.text key) entries = none) :
    (tagging tag key).encode (.map (Table.put (.text key) (.text tag) entries)) =
      .ok (.map entries) := by
  have hput := Table.put_of_get?_eq_none (Value.text tag) h
  have hget : Table.get? (.text key) (Table.put (.text key) (.text tag) entries) =
      some (.text tag) := by
    simp [hput, Table.get?_append, h, Table.get?]
  have hfilter : (Table.put (.text key) (.text tag) entries).filter
      (fun entry => !(entry.1 == Value.text key)) = entries := by
    have hrest : ∀ entry ∈ entries, (!(entry.1 == Value.text key)) = true := by
      intro entry hentry
      simp [Table.get?_eq_none_iff_forall.mp h entry hentry]
    rw [hput, List.filter_append, List.filter_eq_self.mpr hrest]
    simp
  simp only [tagging, hget, Value.text_beq_self, if_true, hfilter]

end

end Schema

theorem SchemaItem.globalize_self (name : Text) (entries : Table Value Value) :
    globalize [(.name name, .name name)] entries = Table.ofEntries entries := by
  have hkeys : globalKeys [(.name name, .name name)] = [(.text name, .text name)] := by
    simp [globalKeys, toGlobal, Table.ofEntries, Table.putAll, Table.put, Key.value]
  have hentry : ∀ entry : Value × Value,
      ((Table.get? entry.1 [(.text name, .text name)]).getD entry.1, entry.2) = entry := by
    rintro ⟨k, v⟩
    cases hkey : Value.text name == k with
    | false => simp [Table.get?, hkey]
    | true =>
      obtain rfl := Value.text_beq.mp hkey
      simp [Table.get?, hkey]
  simp only [globalize, hkeys, hentry, List.map_id']

namespace Captured

/-- What is left of what was captured: nothing of what is empty. -/
def given? : Captured → Option Captured
  | one t => if t = [] then none else some (one t)
  | many ts => if ts = [] then none else some (many ts)

theorem isAbsent_value (captured : Captured) :
    Schema.isAbsent captured.value = captured.given?.isNone := by
  cases captured with
  | one t => by_cases h : t = [] <;> simp [value, Schema.isAbsent, given?, h]
  | many ts => by_cases h : ts = [] <;> simp [value, Schema.isAbsent, given?, h]

theorem eq_of_given? {captured given : Captured} (h : captured.given? = some given) :
    captured = given := by
  cases captured with
  | one t =>
    simp only [given?] at h
    split at h
    · cases h
    · exact Option.some.inj h
  | many ts =>
    simp only [given?] at h
    split at h
    · cases h
    · exact Option.some.inj h

theorem bind_given?_bind (captured : Option Captured) :
    (captured.bind given?).bind given? = captured.bind given? := by
  cases captured with
  | none => rfl
  | some captured =>
    cases h : captured.given? with
    | none => simp [h]
    | some given =>
      obtain rfl := eq_of_given? h
      simp [h]

end Captured

namespace Capture

/-- The presence and the cardinality of what is given are those of the capture. -/
def Accepts (c : Capture) : Option Captured → Prop
  | none => c.optional = true
  | some (.one _) => c.multiple = false
  | some (.many _) => c.multiple = true

theorem Fits.accepts {c : Capture} {captured : Option Captured} (h : c.Fits captured) :
    c.Accepts captured := by
  match captured with
  | none => exact h
  | some (.one _) => exact h.1
  | some (.many _) => exact h.1

theorem Fits.given {c : Capture} {captured : Option Captured} (h : c.Fits captured) :
    c.Fits (captured.bind Captured.given?) := by
  match captured with
  | none => exact h
  | some (.one t) =>
    have ht : Captured.given? (.one t) = some (.one t) := if_neg h.2
    rw [Option.bind_some, ht]
    exact h
  | some (.many ts) =>
    by_cases hts : ts = []
    · have hnone : Captured.given? (.many ts) = none := if_pos hts
      rw [Option.bind_some, hnone]
      exact h.2.2 hts
    · have hsome : Captured.given? (.many ts) = some (.many ts) := if_neg hts
      rw [Option.bind_some, hsome]
      exact h

end Capture

namespace Schema

open Outcome

theorem textOf_text (t : Text) : (Value.text t).textOf = .ok t := rfl

theorem textsOf_texts (ts : List Text) : Value.textsOf (ts.map .text) = .ok ts := by
  induction ts with
  | nil => rfl
  | cons t rest ih =>
    rw [List.map_cons, Value.textsOf, ih]
    rfl

theorem gives_shapeOf {c : Capture} {captured : Captured} {out : Option Value} :
    (shapeOf c captured.value).Gives out ↔ c.Accepts (some captured) ∧ out = some captured.value := by
  cases captured with
  | one t =>
    simp only [Captured.value, shapeOf, Value.items?, Capture.Accepts, textOf_text, Except.map]
    cases c.multiple with
    | false => simp [gives_ofExcept, eq_comm]
    | true => simp [not_gives_report]
  | many ts =>
    simp only [Captured.value, shapeOf, Value.items?, Capture.Accepts, textsOf_texts, Except.map]
    cases c.multiple with
    | false => simp [not_gives_report]
    | true => simp [gives_ofExcept, eq_comm]

theorem gives_shape {c : Capture} {captured : Option Captured} {missing : Outcome (Option Value)}
    (hmissing : ∀ out, ¬ missing.Gives out) {out : Option Value} :
    Gives (if isAbsent ((captured.map Captured.value).getD .null) then
        if c.optional then pure none else missing
      else shapeOf c ((captured.map Captured.value).getD .null)) out ↔
    c.Accepts (captured.bind Captured.given?) ∧
      out = (captured.bind Captured.given?).map Captured.value := by
  have habsent : Gives (if c.optional then pure none else missing) out ↔
      c.Accepts none ∧ out = none := by
    by_cases ho : c.optional <;> simp [ho, gives_pure, hmissing, Capture.Accepts]
  cases captured with
  | none => simpa [isAbsent] using habsent
  | some captured =>
    cases hgiven : captured.given? with
    | none => simpa [Captured.isAbsent_value, hgiven] using habsent
    | some given =>
      obtain rfl := Captured.eq_of_given? hgiven
      simpa [Captured.isAbsent_value, hgiven] using gives_shapeOf

theorem shapes_cons (c : Capture) (rest : List Capture) (entries : Table Value Value) :
    shapes entries (c :: rest) =
      (if isAbsent ((Table.get? c.key.value entries).getD .null) then
          if c.optional then pure none
          else report [⟨.missing, [c.key.value], "Required parameter is missing"⟩]
        else shapeOf c ((Table.get? c.key.value entries).getD .null)) >>= fun first =>
      shapes entries rest >>= fun others =>
        pure ((first.map (c.key.value, ·)).toList ++ others) := by
  simp only [shapes]
  split
  · split <;> rfl
  · rfl

theorem gives_shapes_cons {c : Capture} {rest : List Capture} {entries : Table Value Value}
    {captured : Option Captured} {params : Table Value Value}
    (h : (Table.get? c.key.value entries).getD .null = (captured.map Captured.value).getD .null) :
    (shapes entries (c :: rest)).Gives params ↔
      c.Accepts (captured.bind Captured.given?) ∧ ∃ others, (shapes entries rest).Gives others ∧
        params = (((captured.bind Captured.given?).map Captured.value).map (c.key.value, ·)).toList ++
          others := by
  rw [shapes_cons, h, gives_bind]
  simp only [gives_shape fun _ => not_gives_report, gives_bind, gives_pure]
  constructor
  · rintro ⟨_, ⟨haccepts, rfl⟩, others⟩
    exact ⟨haccepts, others⟩
  · rintro ⟨haccepts, others⟩
    exact ⟨_, ⟨haccepts, rfl⟩, others⟩

theorem checkShape_eq_ok {c : Capture} {entries : Table Value Value} {captured : Option Captured}
    {params : Value}
    (h : (Table.get? c.key.value entries).getD .null = (captured.map Captured.value).getD .null) :
    checkShape [c] (.map entries) = .ok params ↔
      c.Accepts (captured.bind Captured.given?) ∧
        params = argumentsOf ((captured.bind Captured.given?).toList.map (c.key, ·)) := by
  have hentries : ∀ given : Option Captured,
      Value.map (Table.ofEntries (((given.map Captured.value).map (c.key.value, ·)).toList ++ [])) =
        argumentsOf (given.toList.map (c.key, ·)) := by
    intro given
    match given with
    | none => rfl
    | some (.one _) => rfl
    | some (.many _) => rfl
  have hnil : ∀ others, (shapes entries []).Gives others ↔ others = [] := fun _ => gives_pure
  simp only [checkShape, finish_eq_ok, gives_bind, gives_shapes_cons h, hnil, gives_pure]
  constructor
  · rintro ⟨_, ⟨_, ⟨haccepts, _, rfl, rfl⟩, rfl⟩, rfl⟩
    exact ⟨haccepts, hentries _⟩
  · rintro ⟨haccepts, rfl⟩
    exact ⟨_, ⟨_, ⟨haccepts, _, rfl, rfl⟩, rfl⟩, (hentries _).symm⟩

end Schema

end RoutePattern
