import RoutePattern.CommandLine.Assignment
import RoutePattern.Proofs.DigitTexts
import RoutePattern.Proofs.Usable

/-!
Parameters as assignments. The assignments of one key stand in their order, and those of different keys do not
touch each other, so that any order of the rest is read as the same parameters.
-/

namespace RoutePattern

/-- The items of all rows, those of each row in their order; the rows take turns in any way. -/
inductive Interleaves {α : Type} : List (List α) → List α → Prop
  | done {rows : List (List α)} (h : ∀ row ∈ rows, row = []) : Interleaves rows []
  | next {front back : List (List α)} {row items : List α} {item : α}
    (h : Interleaves (front ++ row :: back) items) : Interleaves (front ++ (item :: row) :: back) (item :: items)

namespace Interleaves

variable {α β : Type} {rows : List (List α)} {items : List α}

theorem exists_of_map {f : α → β} {images : List β} (h : Interleaves (rows.map (List.map f)) images) :
    ∃ items, Interleaves rows items ∧ images = items.map f := by
  generalize hrows : rows.map (List.map f) = mapped at h
  induction h generalizing rows with
  | done hempty =>
    subst hrows
    refine ⟨[], .done fun row hrow => ?_, rfl⟩
    simpa using hempty _ (List.mem_map_of_mem hrow)
  | next _ ih =>
    obtain ⟨front, others, rfl, rfl, hothers⟩ := List.map_eq_append_iff.mp hrows
    obtain ⟨row, back, rfl, hrow, rfl⟩ := List.map_eq_cons_iff.mp hothers
    obtain ⟨item, row, rfl, rfl, rfl⟩ := List.map_eq_cons_iff.mp hrow
    have hmapped : (front ++ row :: back).map (List.map f) =
        front.map (List.map f) ++ row.map f :: back.map (List.map f) := by simp
    obtain ⟨items, hitems, rfl⟩ := ih hmapped
    exact ⟨item :: items, .next hitems, rfl⟩

theorem perm (h : Interleaves rows items) : items.Perm rows.flatten := by
  induction h with
  | done hempty => rw [List.flatten_eq_nil_iff.mpr hempty]
  | @next front back row items item _ ih =>
    rw [List.flatten_append, List.flatten_cons] at ih ⊢
    exact (ih.cons item).trans List.perm_middle.symm

theorem filter (p : α → Bool) (h : Interleaves rows items) :
    Interleaves (rows.map (List.filter p)) (items.filter p) := by
  induction h with
  | done hempty =>
    refine .done fun row hrow => ?_
    obtain ⟨row, hmem, rfl⟩ := List.mem_map.mp hrow
    simp [hempty row hmem]
  | @next front back row items item _ ih =>
    rw [List.map_append, List.map_cons] at ih ⊢
    by_cases hp : p item
    · rw [List.filter_cons_of_pos hp, List.filter_cons_of_pos hp]
      exact .next ih
    · rw [List.filter_cons_of_neg hp, List.filter_cons_of_neg hp]
      exact ih

theorem eq_flatten (h : Interleaves rows items) (hsole : rows.Pairwise fun row other => row = [] ∨ other = []) :
    items = rows.flatten := by
  induction h with
  | done hempty => exact (List.flatten_eq_nil_iff.mpr hempty).symm
  | @next front back row items item _ ih =>
    obtain ⟨hbefore, hbehind, hacross⟩ := List.pairwise_append.mp hsole
    obtain ⟨hrow, hlater⟩ := List.pairwise_cons.mp hbehind
    have hfront : ∀ other ∈ front, other = [] := fun other hother => by
      simpa using hacross other hother (item :: row) List.mem_cons_self
    have hback : ∀ other ∈ back, other = [] := fun other hother => by simpa using hrow other hother
    have hrest : (front ++ row :: back).Pairwise fun row other => row = [] ∨ other = [] := by
      refine List.pairwise_append.mpr ⟨hbefore, ?_, fun other hother _ _ => .inl (hfront other hother)⟩
      exact List.pairwise_cons.mpr ⟨fun other hother => .inr (hback other hother), hlater⟩
    have hitems := ih hrest
    rw [List.flatten_append, List.flatten_cons, List.flatten_eq_nil_iff.mpr hfront, List.nil_append] at hitems ⊢
    rw [hitems]
    rfl

end Interleaves

theorem isDigitLike_of_isNameStart {c : Char} (h : isNameStart c) : Text.isDigitLike c = false := by
  have hcode : (0x41 ≤ c.toNat ∧ c.toNat ≤ 0x5A) ∨ (0x61 ≤ c.toNat ∧ c.toNat ≤ 0x7A) ∨ c.toNat = 0x5F := by
    rcases Bool.or_eq_true_iff.mp h with halpha | hmark
    · have hletter := Text.toNat_of_isAlpha halpha
      omega
    · obtain rfl : c = '_' := by simpa using hmark
      decide
  have hdigit : c.isDigit = false := by
    have hcodes : '0'.toNat = 0x30 ∧ '9'.toNat = 0x39 := by decide
    rw [← Bool.not_eq_true, Char.isDigit_iff_toNat]
    omega
  have hloose : ∀ run ∈ Text.looseDigits, 0x80 ≤ run.1 := by decide
  rw [Text.isDigitLike, Text.isDecimalDigit, Text.digitValue?_eq_none (by omega) hdigit, Option.isSome_none,
    Bool.false_or, List.any_eq_false]
  intro run hrun
  have hlow := hloose run hrun
  simp only [Bool.and_eq_true, decide_eq_true_eq]
  omega

namespace Key

/-- A name that may stand in a pattern, or a number. -/
def Proper : Key → Prop
  | name t => isName t
  | index _ => True

theorem write_value {key : Key} {text : Text} :
    key.value.write = .ok text ↔ (∀ n, key = .index n → n < 10 ^ Whole.digitLimit) ∧ text = key.text := by
  cases key with
  | name t => simp [value, Value.write, Key.text, eq_comm]
  | index n =>
    have hwrite : Whole.write n = .ok text ↔ _ := Whole.write_eq_ok
    simpa [value, Value.write, Value.quoted, Key.text, Text.ofInt] using hwrite

/-- A key with a text that is read as the key. -/
def Assignable : Key → Prop
  | name t => isName t
  | index n => n < 10 ^ Whole.digitLimit

namespace Assignable

variable {key : Key}

theorem of_proper (h : key.Proper) (hlimit : ∀ n, key = .index n → n < 10 ^ Whole.digitLimit) : key.Assignable := by
  cases key with
  | name t => exact h
  | index n => exact hlimit n rfl

theorem equals_notMem (h : key.Assignable) : '=' ∉ key.text := by
  cases key with
  | name t => exact notMem_of_isName h (by decide)
  | index n => exact (Text.digitsIn_ofNat n).notMem (by decide) (by decide)

/-- A name does not begin with a digit, so that only numbers are read as numbers. -/
theorem read (h : key.Assignable) : Assignment.key key.text = .ok key.value := by
  cases key with
  | name t =>
    match t with
    | [] => cases h
    | c :: rest =>
      have hfirst : isNameStart c := (Bool.and_eq_true_iff.mp h).1
      simp [Assignment.key, text, value, isDigitLike_of_isNameStart hfirst]
  | index n =>
    have hdigits : (Text.ofNat n).all Text.isDigitLike = true := by
      refine List.all_eq_true.mpr fun c hc => ?_
      rw [Text.isDigitLike, Text.isDecimalDigit_of_isDigit ((Text.digitsIn_ofNat n).isDigit c hc), Bool.true_or]
    have hread : Whole.read 10 (Text.ofNat n) = .ok n := Whole.read_ofInt (n := n) h
    have hne : (Text.ofNat n).isEmpty = false := by simpa using Text.ofNat_ne_nil n
    rw [Assignment.key, text, hne, hdigits, hread]
    rfl

end Assignable

end Key

namespace Pattern

variable {σ : Type}

/-- All captures have names that may stand in a pattern, or numbers. -/
def Named (p : Pattern σ) : Prop := ∀ first, ∀ c ∈ p.captures first false, c.1.key.Proper

theorem soundCompositional_named : SoundCompositional (Named (σ := σ)) where
  empty _ _ hc := by cases hc
  piece piece hsound first c hc := by
    have hmem := List.mem_map_of_mem (f := (·.1)) hc
    rw [Piece.captures_pattern] at hmem
    match piece with
    | .literal _ => cases hmem
    | .capture lead none m =>
      have hkey : c.1.key = .index first := congrArg Capture.key (List.mem_singleton.mp hmem)
      rw [hkey]
      trivial
    | .capture lead (some name) m =>
      have hname : isName name := hsound.1 name rfl
      have hkey : c.1.key = .name name := congrArg Capture.key (List.mem_singleton.mp hmem)
      rw [hkey]
      exact hname
  concat joined hleft hright first c hc := by
    rw [captures] at hc
    rcases List.mem_append.mp hc with hc | hc
    · exact hleft first c hc
    · exact hright _ c hc

theorem named_of_entryCaptures {es : List (Text × Pattern σ)} (h : ∀ e ∈ es, e.2.Named) (first : Nat) :
    ∀ c ∈ captures.entryCaptures first false es, c.1.key.Proper := by
  induction es generalizing first with
  | nil => simp [captures.entryCaptures]
  | cons e rest ih =>
    obtain ⟨hfirst, hrest⟩ := List.forall_mem_cons.mp h
    intro c hc
    rw [captures.entryCaptures] at hc
    rcases List.mem_append.mp hc with hc | hc
    · obtain ⟨d, hd, rfl⟩ := List.mem_map.mp hc
      exact hfirst first d hd
    · exact ih hrest _ c hc

theorem ReadSplit.named {split : QuerySplit} {p : Pattern σ} (h : ReadSplit split p) : p.Named := by
  cases h with
  | plain _ hpath => exact soundCompositional_named.readPath hpath
  | query _ hpath hquery =>
    intro first c hc
    rw [captures] at hc
    rcases List.mem_append.mp hc with hc | hc
    · exact soundCompositional_named.readPath hpath first c hc
    · exact named_of_entryCaptures (soundCompositional_named.readQuery hquery) _ c hc

end Pattern

namespace Assignment

/-- The assignments of a parameter. A number with too many digits cannot be written. -/
def ofEntry (e : Key × Captured) : Except Whole.Fault (List Text) :=
  e.1.value.write.map fun name => write name e.2.value

def pairsOf (e : Key × Captured) : List (Key × Text) := e.2.texts.map (e.1, ·)

def spelled (pair : Key × Text) : Text := pair.1.text ++ '=' :: pair.2

theorem ofEntry_eq_ok_iff {e : Key × Captured} {row : List Text} :
    ofEntry e = .ok row ↔
      (∀ n, e.1 = .index n → n < 10 ^ Whole.digitLimit) ∧ row = (pairsOf e).map spelled := by
  have hrow : write e.1.text e.2.value = (pairsOf e).map spelled := by
    obtain ⟨key, captured⟩ := e
    cases captured with
    | one t => rfl
    | many ts =>
      calc write key.text (.list (ts.map .text))
        _ = ts.flatMap fun t => [key.text ++ '=' :: t] := List.flatMap_map ..
        _ = ts.map fun t => key.text ++ '=' :: t := List.map_eq_flatMap.symm
        _ = (pairsOf (key, .many ts)).map spelled := by rw [pairsOf, List.map_map]; rfl
  rw [ofEntry, Except.map_eq_ok, ← hrow]
  constructor
  · rintro ⟨name, hname, rfl⟩
    obtain ⟨hlimit, rfl⟩ := Key.write_value.mp hname
    exact ⟨hlimit, rfl⟩
  · rintro ⟨hlimit, rfl⟩
    exact ⟨e.1.text, Key.write_value.mpr ⟨hlimit, rfl⟩, rfl⟩

/-- The texts that pairs have for a key. -/
def textsOf (key : Key) (pairs : List (Key × Text)) : List Text :=
  (pairs.filter fun pair => pair.1 = key).map (·.2)

theorem textsOf_pairsOf (key : Key) (e : Key × Captured) :
    textsOf key (pairsOf e) = if e.1 = key then e.2.texts else [] := by
  split <;> simp_all [textsOf, pairsOf, List.filter_map, Function.comp_def]

theorem textsOf_flatMap {params : Params} (hkeys : (params.map (·.1)).Nodup) (key : Key) :
    textsOf key (params.flatMap pairsOf) = ((Table.get? key params).map Captured.texts).getD [] := by
  induction params with
  | nil => rfl
  | cons e rest ih =>
    obtain ⟨hfresh, hrest⟩ := List.nodup_cons.mp hkeys
    have hcons : textsOf key ((e :: rest).flatMap pairsOf) =
        textsOf key (pairsOf e) ++ textsOf key (rest.flatMap pairsOf) := by
      simp [textsOf]
    rw [hcons, ih hrest, textsOf_pairsOf, Table.get?]
    by_cases h : e.1 = key
    · have hnone : Table.get? key rest = none := Table.get?_eq_none_iff.mpr (h ▸ hfresh)
      simp [h, hnone]
    · simp [h]

theorem textsOf_of_interleaves {params : Params} {pairs : List (Key × Text)}
    (hkeys : (params.map (·.1)).Nodup) (h : Interleaves (params.map pairsOf) pairs) (key : Key) :
    textsOf key pairs = ((Table.get? key params).map Captured.texts).getD [] := by
  have hsole : ((params.map pairsOf).map (List.filter fun pair => pair.1 = key)).Pairwise
      fun row other => row = [] ∨ other = [] := by
    rw [List.map_map, List.pairwise_map]
    refine (List.pairwise_map.mp hkeys).imp fun {e other} hne => ?_
    by_cases he : e.1 = key
    · refine .inr ?_
      simp [pairsOf, ← he, Ne.symm hne]
    · refine .inl ?_
      simp [pairsOf, he]
  have hpairs := (h.filter fun pair => pair.1 = key).eq_flatten hsole
  rw [textsOf, hpairs, ← List.filter_flatten, ← List.flatMap_def]
  exact textsOf_flatMap hkeys key

/-- The texts of a list to which another text is added; nothing else is such a list. -/
def listed : Option Captured → List Text
  | some (.many texts) => texts
  | _ => []

/-- Parameters with one more text, which is put at the end of the list where the key is a repeated one. -/
def assigned (repeated : List Key) (params : Params) (pair : Key × Text) : Params :=
  Table.put pair.1
    (if pair.1 ∈ repeated then .many (listed (Table.get? pair.1 params) ++ [pair.2]) else .one pair.2) params

/-- What a key has when some texts were assigned to it. -/
def held (multiple : Prop) [Decidable multiple] (texts : List Text) : Option Captured :=
  if multiple then if texts = [] then none else some (.many texts)
  else texts.getLast?.map .one

theorem contains_map_value (repeated : List Key) (key : Key) :
    (repeated.map Key.value).contains key.value = decide (key ∈ repeated) := by
  induction repeated with
  | nil => rfl
  | cons k rest ih =>
    rw [List.map_cons, List.contains_cons, Key.value_beq, ih]
    by_cases h : key = k <;> simp [h]

theorem extended_value (captured : Option Captured) (text : Text) :
    extended (captured.map Captured.value) text = (Captured.many (listed captured ++ [text])).value := by
  match captured with
  | none => rfl
  | some (.one _) => rfl
  | some (.many texts) => simp [extended, Captured.value, listed]

theorem add_spelled {pair : Key × Text} (repeated : List Key) (params : Params) (h : pair.1.Assignable) :
    add (repeated.map Key.value) (Route.paramEntries params) (spelled pair) =
      .ok (Route.paramEntries (assigned repeated params pair)) := by
  obtain ⟨key, text⟩ := pair
  have hput := Table.put_map Key.value_beq Captured.value key
    (if key ∈ repeated then .many (listed (Table.get? key params) ++ [text]) else .one text) params
  have hvalue :
      (if key ∈ repeated then extended ((Table.get? key params).map Captured.value) text else .text text) =
      (if key ∈ repeated then Captured.many (listed (Table.get? key params) ++ [text]) else .one text).value := by
    split
    next => exact extended_value _ text
    next => rfl
  rw [add, spelled, Text.cut_append _ h.equals_notMem]
  simp only [h.read, Except.mapError, bind, Except.bind, pure, Except.pure, contains_map_value,
    decide_eq_true_eq, get?_paramEntries, hvalue]
  simp only [paramEntries_eq_map]
  exact congrArg Except.ok hput

theorem foldlM_add {pairs : List (Key × Text)} (repeated : List Key) (params : Params)
    (h : ∀ pair ∈ pairs, pair.1.Assignable) :
    (pairs.map spelled).foldlM (add (repeated.map Key.value)) (Route.paramEntries params) =
      .ok (Route.paramEntries (pairs.foldl (assigned repeated) params)) := by
  induction pairs generalizing params with
  | nil => rfl
  | cons pair rest ih =>
    obtain ⟨hfirst, hothers⟩ := List.forall_mem_cons.mp h
    rw [List.map_cons, List.foldlM_cons, add_spelled repeated params hfirst]
    exact ih _ hothers

theorem nodup_keys_assigned {params : Params} (repeated : List Key) (pairs : List (Key × Text))
    (h : (params.map (·.1)).Nodup) : ((pairs.foldl (assigned repeated) params).map (·.1)).Nodup := by
  induction pairs generalizing params with
  | nil => exact h
  | cons pair rest ih => exact ih (Table.nodup_keys_put _ _ h)

theorem get?_assigned (repeated : List Key) (pairs : List (Key × Text)) (key : Key) :
    Table.get? key (pairs.foldl (assigned repeated) []) = held (key ∈ repeated) (textsOf key pairs) := by
  induction pairs using List.reverseRecOn with
  | nil => simp [Table.get?, held, textsOf]
  | append_singleton pairs pair ih =>
    obtain ⟨k, text⟩ := pair
    rw [List.foldl_append, List.foldl_cons, List.foldl_nil, assigned, Table.get?_put]
    by_cases hk : k = key
    · subst hk
      have hown : textsOf k (pairs ++ [(k, text)]) = textsOf k pairs ++ [text] := by simp [textsOf]
      rw [if_pos (by simp), ih, hown]
      by_cases hmultiple : k ∈ repeated
      · have hlisted : listed (held (k ∈ repeated) (textsOf k pairs)) = textsOf k pairs := by
          by_cases hnil : textsOf k pairs = [] <;> simp [held, hmultiple, hnil, listed]
        rw [hlisted]
        simp [held, hmultiple]
      · simp [held, hmultiple]
    · have hown : textsOf key (pairs ++ [(k, text)]) = textsOf key pairs := by simp [textsOf, hk]
      rw [if_neg (by simpa using hk), ih, hown]

end Assignment

/-- What a capture may be given, be it empty: a text, or some texts where it is repeated. -/
def Capture.Admits (c : Capture) : Captured → Prop
  | .one _ => c.multiple = false
  | .many texts => c.multiple = true ∧ texts ≠ []

instance (c : Capture) : DecidablePred c.Admits
  | .one _ => inferInstanceAs (Decidable (_ = _))
  | .many _ => inferInstanceAs (Decidable (_ ∧ _))

theorem Capture.Admits.held_texts {c : Capture} {captured : Captured} (h : c.Admits captured) {multiple : Prop}
    [Decidable multiple] (hmultiple : multiple ↔ c.multiple) :
    Assignment.held multiple captured.texts = some captured := by
  cases captured with
  | one t =>
    have hone : c.multiple = false := h
    simp [Assignment.held, hmultiple, hone, Captured.texts]
  | many ts =>
    obtain ⟨hmany, hne⟩ : c.multiple = true ∧ ts ≠ [] := h
    simp [Assignment.held, hmultiple, hmany, hne, Captured.texts]

namespace Assignment

/-- Reading assignments gives the parameters for which they were written, whatever turns these took. -/
theorem readAll_of_interleaves {params : Params} {pairs : List (Key × Text)} (repeated : List Key)
    (hkeys : (params.map (·.1)).Nodup) (hassignable : ∀ e ∈ params, e.1.Assignable)
    (hheld : ∀ e ∈ params, held (e.1 ∈ repeated) e.2.texts = some e.2)
    (h : Interleaves (params.map pairsOf) pairs) :
    ∃ read, readAll (repeated.map Key.value) (pairs.map spelled) = .ok read ∧
      read.Perm (Route.paramEntries params) := by
  have hpairs : ∀ pair ∈ pairs, pair.1.Assignable := by
    intro pair hpair
    have hmem := h.perm.subset hpair
    rw [← List.flatMap_def] at hmem
    obtain ⟨e, he, hpair⟩ := List.mem_flatMap.mp hmem
    obtain ⟨text, -, rfl⟩ := List.mem_map.mp hpair
    exact hassignable e he
  refine ⟨_, foldlM_add repeated [] hpairs, ?_⟩
  have hnodup : ((pairs.foldl (assigned repeated) []).map (·.1)).Nodup :=
    nodup_keys_assigned repeated pairs .nil
  have hperm : (pairs.foldl (assigned repeated) []).Perm params := by
    refine Table.perm_of_get? hnodup hkeys fun key => ?_
    rw [get?_assigned, textsOf_of_interleaves hkeys h]
    cases hget : Table.get? key params with
    | none => simp [held]
    | some captured => exact hheld _ (Table.mem_of_get? hget)
  rw [paramEntries_eq_map, paramEntries_eq_map]
  exact hperm.map _

end Assignment

namespace Route

open Pattern

def repeatedKeys (r : Route) : List Key :=
  ((r.pattern.captures 0 false).filter fun c => c.1.multiple).map (·.1.key)

theorem mem_repeatedKeys {r : Route} (hkeys : ((r.pattern.captures 0 false).map (·.1.key)).Nodup)
    {c : Capture × Bool} (hc : c ∈ r.pattern.captures 0 false) : c.1.key ∈ r.repeatedKeys ↔ c.1.multiple := by
  constructor
  · intro hmem
    obtain ⟨d, hd, hkey⟩ := List.mem_map.mp hmem
    obtain ⟨hd, hmultiple⟩ := List.mem_filter.mp hd
    obtain rfl : d = c := List.inj_on_of_nodup_map hkeys hd hc hkey
    exact hmultiple
  · exact fun hmultiple => List.mem_map.mpr ⟨c, List.mem_filter.mpr ⟨hc, hmultiple⟩, rfl⟩

theorem repeatedKeys_schema {split : QuerySplit} {r : Route} (h : ReadSplit split r.pattern) :
    (r.schema.captures.filter Capture.multiple).map (fun c => c.key.value) = r.repeatedKeys.map Key.value := by
  have hsignatures := (ready_of_layout h.layout_steps).signatures_schema
  have hrepeated := congrArg (fun signatures => (signatures.filter (·.2.2)).map (·.1.value)) hsignatures
  simpa [List.filter_map, Function.comp_def, Capture.signature, repeatedKeys, schema] using hrepeated

/-- The parameters of a route can be assigned unless a number among their keys has too many digits. Their
assignments are read as the same parameters in whatever order they stand, as long as those of a list stand in its
order. -/
theorem assignments_read_back {source : Text} {atEnd : Bool} {r : Route} (h : parse source atEnd = .ok r)
    (hkeys : ((r.pattern.captures 0 false).map (·.1.key)).Nodup) {params : Params}
    (hparams : (params.map (·.1)).Nodup)
    (hadmits : ∀ e ∈ params, ∃ c ∈ r.pattern.captures 0 false, c.1.key = e.1 ∧ c.1.Admits e.2) :
    ((∃ rows, params.mapM Assignment.ofEntry = .ok rows) ↔
      ∀ n, .index n ∈ params.map (·.1) → n < 10 ^ Whole.digitLimit) ∧
    ∀ rows assignments, params.mapM Assignment.ofEntry = .ok rows → Interleaves rows assignments →
      ∃ read, Assignment.readAll ((r.schema.captures.filter Capture.multiple).map fun c => c.key.value) assignments =
          .ok read ∧ read.Perm (paramEntries params) := by
  have hread := parse_eq_ok h
  have hrows : ∀ rows, params.mapM Assignment.ofEntry = .ok rows ↔
      (∀ e ∈ params, ∀ n, e.1 = .index n → n < 10 ^ Whole.digitLimit) ∧
        rows = params.map fun e => (Assignment.pairsOf e).map Assignment.spelled :=
    fun rows => mapM_eq_ok_iff fun _ _ => Assignment.ofEntry_eq_ok_iff
  refine ⟨⟨?_, fun hlimit => ?_⟩, fun rows assignments hwritten hturns => ?_⟩
  · rintro ⟨rows, hwritten⟩ n hn
    obtain ⟨e, he, hkey⟩ := List.mem_map.mp hn
    exact ((hrows rows).mp hwritten).1 e he n hkey
  · exact ⟨_, (hrows _).mpr ⟨fun e he n hkey => hlimit n (List.mem_map.mpr ⟨e, he, hkey⟩), rfl⟩⟩
  · obtain ⟨hlimit, rfl⟩ := (hrows rows).mp hwritten
    have hmapped : (params.map fun e => (Assignment.pairsOf e).map Assignment.spelled) =
        (params.map Assignment.pairsOf).map (List.map Assignment.spelled) := by
      rw [List.map_map]
      rfl
    rw [hmapped] at hturns
    obtain ⟨pairs, hpairs, rfl⟩ := hturns.exists_of_map
    rw [repeatedKeys_schema hread]
    refine Assignment.readAll_of_interleaves r.repeatedKeys hparams (fun e he => ?_) (fun e he => ?_) hpairs
    · obtain ⟨c, hc, hkey, -⟩ := hadmits e he
      exact .of_proper (hkey ▸ hread.named 0 c hc) (hlimit e he)
    · obtain ⟨c, hc, hkey, hadmitted⟩ := hadmits e he
      exact hadmitted.held_texts (hkey ▸ mem_repeatedKeys hkeys hc)

/-- Other assignments stand between those of a list, and texts begin with an equals sign or are empty. -/
theorem assignments_read_back_in_turns :
    let params : Params := [(.name "a", .one "x=y"), (.index 0, .one ""), (.name "t", .many ["1", "=", "3"])]
    ∃ r read, parse "/:a/*?t=:t+" true = .ok r ∧
      Assignment.readAll ((r.schema.captures.filter Capture.multiple).map fun c => c.key.value)
        ["t=1", "0=", "t==", "a=x=y", "t=3"] = .ok read ∧ read.Perm (paramEntries params) := by
  intro params
  let pattern : Pattern Schema :=
    .queryParams (.concat (.param "a") .unnamed false) [("t", .modified .oneOrMore (.param "t"))]
  have hr : parse "/:a/*?t=:t+" true = .ok ⟨pattern, true⟩ := by rfl
  let whole : Text := "a=x=y"
  let empty : Text := "0="
  let first : Text := "t=1"
  let second : Text := "t=="
  let third : Text := "t=3"
  have hwritten : params.mapM Assignment.ofEntry = .ok [[whole], [empty], [first, second, third]] := by
    decide +kernel
  have hdone : Interleaves ([[], []] ++ [] :: []) ([] : List Text) := .done (by decide)
  have hthird : Interleaves ([[], []] ++ [third] :: []) [third] := .next hdone
  have hwhole : Interleaves ([] ++ [whole] :: [[], [third]]) [whole, third] := .next hthird
  have hsecond : Interleaves ([[whole], []] ++ [second, third] :: []) [second, whole, third] := .next hwhole
  have hempty : Interleaves ([[whole]] ++ [empty] :: [[second, third]]) [empty, second, whole, third] :=
    .next hsecond
  have hfirst : Interleaves ([[whole], [empty]] ++ [first, second, third] :: [])
      [first, empty, second, whole, third] := .next hempty
  have hparams : (params.map (·.1)).Nodup := by decide
  obtain ⟨-, hread⟩ := assignments_read_back hr (by decide) hparams (by decide)
  obtain ⟨read, hread⟩ := hread _ _ hwritten hfirst
  exact ⟨_, read, hr, hread⟩

end Route

end RoutePattern
