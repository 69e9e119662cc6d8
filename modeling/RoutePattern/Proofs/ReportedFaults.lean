import RoutePattern.Proofs.FieldConversions
import RoutePattern.Proofs.ReportingCodecs
import RoutePattern.Proofs.ShortValues

/-!
What schemas say of what they do not convert. Where codecs and functions report what they do not take, every
schema that is built from them gives at least one issue for it, however deep they are nested. Only a number that
has too many digits to be written is not reported. Throughout, `short` says that there are no such numbers.
-/

namespace RoutePattern

variable {α β : Type}

/-- An issue that can be moved to other keys, and that can be written where nothing is too long. -/
def Issue.Sound (short : Prop) (i : Issue) : Prop := i.IsKeyed ∧ (short → ∀ v ∈ i.path, v.Short)

theorem Issue.sound_of_no_path (short : Prop) (kind : IssueKind) (message : Text) :
    (⟨kind, [], message⟩ : Issue).Sound short := ⟨nofun, nofun⟩

theorem Issue.sound_of_key {short : Prop} {key : Key} (h : short → key.value.Short) (kind : IssueKind)
    (message : Text) : (⟨kind, [key.value], message⟩ : Issue).Sound short :=
  ⟨isKeyed_of_key kind key [] message, fun hshort => List.forall_mem_singleton.mpr (h hshort)⟩

/-- A fault tells issues, at least one, or it is a refusal of some kind. -/
def SchemaFault.Within (R : Refusal → Prop) (P : Issue → Prop) : SchemaFault → Prop
  | .issues told => told ≠ [] ∧ ∀ i ∈ told, P i
  | .refusal r => R r

namespace Schema

open SchemaItem

/-- A refusal that is not reported. -/
def Escapes (short : Prop) (r : Refusal) : Prop := r = .digits .tooLongToWrite ∧ ¬ short

/-- A refusal of a function that is reported. -/
def IsCaught (r : Refusal) : Prop := isReported r ∨ r.kind = .missingKey

/-- A result is of some kind, and so is a fault in its place. -/
def Yields (R : Refusal → Prop) (P : Issue → Prop) (V : α → Prop) : Except SchemaFault α → Prop
  | .ok a => V a
  | .error f => f.Within R P

section Yields

variable {R : Refusal → Prop} {P : Issue → Prop} {V : α → Prop} {W : β → Prop}

theorem Yields.bind {x : Except SchemaFault α} {k : α → Except SchemaFault β} (hx : Yields R P V x)
    (hk : ∀ a, V a → Yields R P W (k a)) : Yields R P W (x.bind k) := by
  cases x with
  | error f => exact hx
  | ok a => exact hk a hx

theorem Yields.mono {V' : α → Prop} {x : Except SchemaFault α} (hx : Yields R P V x)
    (hV : ∀ a, V a → V' a) : Yields R P V' x := by
  cases x with
  | error f => exact hx
  | ok a => exact hV a hx

theorem yields_single (kind : IssueKind) {path : List Value} {message : Text}
    (h : P ⟨kind, path, message⟩) : Yields R P V (SchemaFault.single kind path message) :=
  ⟨by simp, List.forall_mem_singleton.mpr h⟩

theorem yields_finish {V : Table Value Value → Prop} {x : Outcome (Table Value Value)}
    (h : x.Within R P V) : Yields R P (fun v => ∃ es, v = .map es ∧ V es) (finish x) := by
  cases x with
  | refused r => exact h
  | made es issues =>
    cases issues with
    | nil => exact ⟨es, rfl, h.2⟩
    | cons issue more => exact ⟨by simp, h.1⟩

theorem yields_applied {V : Value → Prop} {x : Except SchemaFault Value} (hx : Yields IsCaught P V x)
    (hP : ∀ message, P ⟨.transform, [], message⟩) : Yields R P V (applied x) := by
  match x with
  | .ok v => exact hx
  | .error (.issues issues) => exact hx
  | .error (.refusal r) =>
    have hcaught : (!isReported r && r.kind != .missingKey) = false := by
      rcases hx with hreported | hkey
      · simp [hreported]
      · simp [hkey]
    rw [applied, hcaught]
    exact yields_single .transform (hP r.message)

end Yields

variable {short : Prop}

theorem escapes_of_textOf {v : Value} {r : Refusal} (hv : short → v.Short) (h : v.textOf = .error r) :
    Escapes short r :=
  ⟨(Value.textOf_error h).1, fun hshort => (Value.textOf_error h).2 (hv hshort)⟩

theorem escapes_of_textsOf {vs : List Value} {r : Refusal} (hvs : short → ∀ v ∈ vs, v.Short)
    (h : Value.textsOf vs = .error r) : Escapes short r :=
  ⟨(Value.textsOf_error h).1, fun hshort => (Value.textsOf_error h).2 (hvs hshort)⟩

end Schema

/-- Functions that report what they do not take; short values they make short ones. -/
structure Conversion.Reports (short : Prop) (c : Conversion) : Prop where
  decode : ∀ v, Schema.Yields Schema.IsCaught (Issue.Sound short) (fun _ => True) (c.decode v)
  encode : ∀ v, (short → v.Short) →
    Schema.Yields Schema.IsCaught (Issue.Sound short) (fun w => short → w.Short) (c.encode v)

namespace Schema

open SchemaItem

/-- Keys that can be written where nothing is too long. -/
def ShortKeys (short : Prop) (cs : List Capture) (keys : Table Key Key) : Prop :=
  short → (∀ c ∈ cs, c.key.value.Short) ∧ ∀ e ∈ keys, e.1.value.Short ∧ e.2.value.Short

mutual

/-- A schema of codecs and functions that report what they do not take. -/
def Reports (short : Prop) : Schema → Prop
  | struct _ fields => ∀ e ∈ fields, e.2.ReportsRead ∧ e.2.ReportsWrite ∧ (short → e.1.Short)
  | transform _ inner conversion => inner.Reports short ∧ conversion.Reports short
  | route items => ItemsReport short items

def ItemsReport (short : Prop) : List (SchemaItem Schema) → Prop
  | [] => True
  | .bare c :: rest => ShortKeys short [c] [] ∧ ItemsReport short rest
  | .attached s cs keys :: rest => (s.Reports short ∧ ShortKeys short cs keys) ∧ ItemsReport short rest

end

variable {short : Prop}

/-- The standard codecs report what they do not take. -/
theorem reports_struct {name : Text} {fields : Table Value Codec}
    (hfields : ∀ e ∈ fields, ∃ kind, Registry.standard.find kind = .ok e.2)
    (hshort : short → ∀ e ∈ fields, e.1.Short) : (struct name fields).Reports short := by
  intro e he
  obtain ⟨kind, hkind⟩ := hfields e he
  exact ⟨Codec.reportsRead_standard hkind, Codec.reportsWrite_standard hkind, fun h => hshort h e he⟩

theorem reports_tagged {inner : Schema} (h : inner.Reports short) (tag key : Text) :
    (inner.tagged tag key).Reports short := by
  refine ⟨h, fun v => ?_, fun v hv => ?_⟩
  · cases v with
    | map es => trivial
    | _ => exact .inl rfl
  · cases v with
    | map es =>
      have hrest : short → (Value.map (es.filter fun e => !(e.1 == Value.text key))).Short := by
        intro hshort
        have hes := Value.short_map_iff.mp (hv hshort)
        exact Value.short_map_iff.mpr fun e he => hes e (List.mem_filter.mp he).1
      simp only [tagging]
      split
      · exact hrest
      · split
        · exact hrest
        · split
          · exact .inl rfl
          next r hquoted =>
            obtain ⟨f, -, rfl⟩ := Except.mapError_eq_error.mp hquoted
            exact .inl rfl
    | _ => exact .inl rfl

theorem short_globalKeys {cs : List Capture} {keys : Table Key Key} (h : ShortKeys short cs keys)
    (hshort : short) : ∀ e ∈ globalKeys keys, e.2.Short := by
  have hglobal : ∀ e ∈ toGlobal keys, True ∧ e.2.value.Short := by
    refine Table.forall_ofEntries (K := fun _ => True) (V := fun key : Key => key.value.Short) fun e he => ?_
    obtain ⟨pair, hpair, rfl⟩ := List.mem_map.mp he
    exact ⟨trivial, ((h hshort).2 pair hpair).1⟩
  intro e he
  obtain ⟨pair, hpair, rfl⟩ := List.mem_map.mp he
  exact (hglobal pair hpair).2

theorem sound_rekeyed {cs : List Capture} {keys : Table Key Key} (h : ShortKeys short cs keys) {i : Issue}
    (hi : i.Sound short) : (i.rekeyed (globalKeys keys)).Sound short := by
  cases hrekeyed : i.rekeyed? (globalKeys keys) with
  | none =>
    rw [Issue.rekeyed, hrekeyed]
    exact hi
  | some moved =>
    rw [Issue.rekeyed, hrekeyed, Option.getD_some]
    unfold Issue.rekeyed? at hrekeyed
    split at hrekeyed
    · cases hrekeyed
    next key rest hpath =>
      obtain ⟨name, hname, rfl⟩ := Option.map_eq_some_iff.mp hrekeyed
      obtain ⟨k, hk⟩ := Table.exists_mem_of_get? hname
      obtain ⟨pair, -, hpair⟩ := List.mem_map.mp hk
      obtain rfl : pair.2.value = name := (Prod.mk.inj hpair).2
      refine ⟨Issue.isKeyed_of_key _ _ _ _, fun hshort => ?_⟩
      have hrest := hi.2 hshort
      rw [hpath] at hrest
      exact List.forall_mem_cons.mpr ⟨short_globalKeys h hshort _ hk, (List.forall_mem_cons.mp hrest).2⟩

theorem rekeyIssues_of_sound {keys : Table Key Key} {issues : List Issue} (h : ∀ i ∈ issues, i.Sound short) :
    rekeyIssues keys issues = .ok (issues.map (Issue.rekeyed (globalKeys keys))) :=
  rekeyIssues_of_keyed fun i hi => (h i hi).1

theorem yields_rekeyFault {R : Refusal → Prop} {V : Value → Prop} {cs : List Capture}
    {keys : Table Key Key} (hkeys : ShortKeys short cs keys) {x : Except SchemaFault Value}
    (hx : Yields R (Issue.Sound short) V x) :
    Yields R (Issue.Sound short) V (x.mapError (rekeyFault keys)) := by
  match x with
  | .ok v => exact hx
  | .error (.refusal r) => exact hx
  | .error (.issues issues) =>
    obtain ⟨hne, hissues⟩ := hx
    simp only [Except.mapError, rekeyFault, rekeyIssues_of_sound hissues]
    refine ⟨by simpa using hne, fun i hi => ?_⟩
    obtain ⟨j, hj, rfl⟩ := List.mem_map.mp hi
    exact sound_rekeyed hkeys (hissues j hj)

theorem short_globalize {cs : List Capture} {keys : Table Key Key} (hkeys : ShortKeys short cs keys)
    {entries : Table Value Value} (h : short → (Value.map entries).Short) :
    short → (Value.map (globalize keys entries)).Short := by
  intro hshort
  refine Value.short_map_iff.mpr (Table.forall_ofEntries fun e he => ?_)
  obtain ⟨⟨key, v⟩, hentry, rfl⟩ := List.mem_map.mp he
  obtain ⟨hkey, hv⟩ := Value.short_map_iff.mp (h hshort) _ hentry
  have hmoved : ((Table.get? key (globalKeys keys)).getD key).Short := by
    cases hname : Table.get? key (globalKeys keys) with
    | none => exact hkey
    | some name =>
      obtain ⟨k, hk⟩ := Table.exists_mem_of_get? hname
      exact short_globalKeys hkeys hshort _ hk
  exact ⟨hmoved, hv⟩

theorem exists_localize (entries : Table Value Value) (keys : Table Key Key) :
    ∃ own, localize (.map entries) keys = .ok own ∧
      ∀ e ∈ own, (∃ pair ∈ keys, e.1 = pair.2.value) ∧ ∃ given ∈ entries, e.2 = given.2 := by
  induction keys with
  | nil => exact ⟨[], rfl, nofun⟩
  | cons pair rest ih =>
    obtain ⟨own, hown, hall⟩ := ih
    refine ⟨((Table.get? pair.1.value entries).map (pair.2.value, ·)).toList ++ own, ?_, ?_⟩
    · rw [localize, hown]
      rfl
    · refine List.forall_mem_append.mpr ⟨fun e he => ?_, fun e he => ?_⟩
      · obtain ⟨v, hv, rfl⟩ := Option.map_eq_some_iff.mp (Option.mem_toList.mp he)
        obtain ⟨k, hk⟩ := Table.exists_mem_of_get? hv
        exact ⟨⟨pair, List.mem_cons_self, rfl⟩, _, hk, rfl⟩
      · obtain ⟨⟨other, hother, hkey⟩, hvalue⟩ := hall e he
        exact ⟨⟨other, List.mem_cons_of_mem pair hother, hkey⟩, hvalue⟩

theorem short_localized {cs : List Capture} {keys : Table Key Key} (hkeys : ShortKeys short cs keys)
    {entries own : Table Value Value} (h : short → (Value.map entries).Short)
    (hown : ∀ e ∈ own, (∃ pair ∈ keys, e.1 = pair.2.value) ∧ ∃ given ∈ entries, e.2 = given.2) :
    short → (Value.map own).Short := by
  intro hshort
  refine Value.short_map_iff.mpr fun e he => ?_
  obtain ⟨⟨pair, hpair, hkey⟩, given, hgiven, hvalue⟩ := hown e he
  rw [hkey, hvalue]
  exact ⟨((hkeys hshort).2 pair hpair).2, (Value.short_map_iff.mp (h hshort) given hgiven).2⟩

theorem within_attachedOutcome {U : Table Value Value → Prop} {cs : List Capture} {keys : Table Key Key}
    (hkeys : ShortKeys short cs keys) {shown : Except Refusal Text} {result : Except SchemaFault Value}
    (hshown : ∀ r, shown = .error r → Escapes short r) (hnil : U [])
    (h : Yields (Escapes short) (Issue.Sound short)
      (fun v => ∀ es, v = .map es → U (globalize keys es)) result) :
    (attachedOutcome keys shown result).Within (Escapes short) (Issue.Sound short) U := by
  match result with
  | .error (.refusal r) => exact h
  | .error (.issues issues) =>
    simp only [attachedOutcome, rekeyIssues_of_sound h.2]
    refine ⟨fun i hi => ?_, hnil⟩
    obtain ⟨j, hj, rfl⟩ := List.mem_map.mp hi
    exact sound_rekeyed hkeys (h.2 j hj)
  | .ok v =>
    have hother : Outcome.Within (Escapes short) (Issue.Sound short) U (shown.map fun text => ([], [⟨.type, [],
        text ++ " must decode to a mapping when combined with other parameters"⟩])) := by
      cases hshow : shown with
      | error r => exact hshown r hshow
      | ok text => exact ⟨List.forall_mem_singleton.mpr (Issue.sound_of_no_path ..), hnil⟩
    cases v with
    | map es => exact Outcome.within_pure (h es rfl)
    | _ => exact hother

theorem escapes_of_fieldTexts {fields : Table Value Codec} {r : Refusal}
    (hfields : short → ∀ e ∈ fields, e.1.Short) (h : fieldTexts fields = .error r) : Escapes short r := by
  induction fields with
  | nil => cases h
  | cons e rest ih =>
    rcases Except.bind_eq_error.mp h with h | ⟨_, -, h⟩
    · obtain ⟨f, hquoted, rfl⟩ := Except.mapError_eq_error.mp h
      obtain ⟨rfl, hlong⟩ := Value.quoted_error e.1 hquoted
      exact ⟨rfl, fun hshort => hlong (hfields hshort e List.mem_cons_self)⟩
    · exact ih (fun hshort d hd => hfields hshort d (List.mem_cons_of_mem e hd)) (Except.map_eq_error.mp h)

theorem escapes_of_text {r : Refusal} : (s : Schema) → s.Reports short → s.text = .error r → Escapes short r
  | struct _ _, hs, h =>
    escapes_of_fieldTexts (fun hshort e he => (hs e he).2.2 hshort) (Except.map_eq_error.mp h)
  | transform _ inner _, hs, h => escapes_of_text inner hs.1 (Except.map_eq_error.mp h)

/-- Entries that were captured: texts and lists of texts under keys of captures. -/
def Captures (short : Prop) (entries : Table Value Value) : Prop :=
  (∀ e ∈ entries, (∃ key : Key, e.1 = key.value) ∧ ∃ captured : Captured, e.2 = captured.value) ∧
    (short → (Value.map entries).Short)

theorem Captures.localized {entries own : Table Value Value} {cs : List Capture} {keys : Table Key Key}
    (h : Captures short entries) (hkeys : ShortKeys short cs keys)
    (hown : ∀ e ∈ own, (∃ pair ∈ keys, e.1 = pair.2.value) ∧ ∃ given ∈ entries, e.2 = given.2) :
    Captures short own := by
  refine ⟨fun e he => ?_, short_localized hkeys h.2 hown⟩
  obtain ⟨⟨pair, -, hkey⟩, given, hgiven, hvalue⟩ := hown e he
  exact ⟨⟨pair.2, hkey⟩, hvalue ▸ (h.1 given hgiven).2⟩

theorem sound_of_isPlaceIn {entries : Table Value Value} (h : short → (Value.map entries).Short)
    {e : Value × Value} (he : e ∈ entries) (hkey : e.1.asKey = .ok e.1) {rest : List Value}
    (hrest : IsPlaceIn e.2 rest) (kind : IssueKind) (message : Text) :
    (⟨kind, e.1 :: rest, message⟩ : Issue).Sound short := by
  refine ⟨fun v hv => Option.some.inj hv ▸ hkey, fun hshort => ?_⟩
  obtain ⟨hfirst, hvalue⟩ := Value.short_map_iff.mp (h hshort) e he
  refine List.forall_mem_cons.mpr ⟨hfirst, ?_⟩
  rcases hrest with rfl | ⟨vs, n, hitems, hn, rfl⟩
  · simp
  · exact List.forall_mem_singleton.mpr ((Value.short_of_items? hitems hvalue).1 n hn)

theorem within_decodeFields {fields : Table Value Codec} {entries : Table Value Value}
    (hfields : ∀ e ∈ fields, e.2.ReportsRead) (h : Captures short entries) :
    (convertFields fields Codec.apply "decode" entries).Within (Escapes short) (Issue.Sound short)
      fun _ => True := by
  refine within_convertFields (fun e he c hc w hw r hr hnot => ?_) fun e he c _ rest message hrest => ?_
  · obtain ⟨k, hk⟩ := Table.exists_mem_of_get? hc
    obtain ⟨t, rfl⟩ : ∃ t, w = .text t := by
      obtain ⟨captured, hcaptured⟩ := (h.1 e he).2
      rw [hcaptured] at hw
      cases captured with
      | one t => exact ⟨t, List.mem_singleton.mp hw⟩
      | many ts =>
        obtain ⟨t, -, rfl⟩ := List.mem_map.mp hw
        exact ⟨t, rfl⟩
    exact absurd (hfields _ hk t r hr) hnot
  · obtain ⟨key, hkey⟩ := (h.1 e he).1
    exact sound_of_isPlaceIn h.2 he (hkey ▸ asKey_keyValue key) hrest _ message

theorem within_ownEntry {entries : Table Value Value} (c : Capture) {U : Table Value Value → Prop}
    (h : ∀ es, (∀ e ∈ es, e.1 = c.key.value ∧ ∃ given ∈ entries, e.2 = given.2) → U es) :
    (ownEntry c (.map entries)).Within (Escapes short) (Issue.Sound short) U := by
  refine Outcome.within_ofExcept nofun fun es hes => h es fun e he => ?_
  obtain rfl := Except.ok.inj hes
  obtain ⟨v, hv, rfl⟩ := Option.map_eq_some_iff.mp (Option.mem_toList.mp he)
  obtain ⟨k, hk⟩ := Table.exists_mem_of_get? hv
  exact ⟨rfl, _, hk, rfl⟩

mutual

/-- Decoding what was captured reports whatever is not read. -/
theorem yields_decode {entries : Table Value Value} (h : Captures short entries) : (s : Schema) →
    s.Reports short →
    Yields (Escapes short) (Issue.Sound short) (fun _ => True) (s.decode (.map entries))
  | struct _ fields, hs => by
    have hfields : ∀ e ∈ fields, e.2.ReportsRead := fun e he => (hs e he).1
    exact (yields_finish (within_decodeFields hfields h)).mono fun _ _ => trivial
  | transform _ inner conversion, hs =>
    (yields_decode h inner hs.1).bind fun v _ =>
      yields_applied (hs.2.decode v) (Issue.sound_of_no_path short .transform)
  | route items, hs => by
    have hsole := yields_decodeSole h items hs
    have hitems := within_decodeItems h items hs
    rw [decode]
    cases hresult : decodeSole (.map entries) items with
    | some result => exact hsole result hresult
    | none =>
      have hfinish := yields_finish (V := fun _ => True) (hitems.bind fun es _ =>
        Outcome.within_pure (a := Table.ofEntries es) trivial)
      exact hfinish.mono fun _ _ => trivial

theorem yields_decodeSole {entries : Table Value Value} (h : Captures short entries) :
    (items : List (SchemaItem Schema)) → ItemsReport short items → ∀ result,
    decodeSole (.map entries) items = some result →
    Yields (Escapes short) (Issue.Sound short) (fun _ => True) result
  | [.attached s cs keys], hs, result, hresult => by
    obtain ⟨⟨hs, hkeys⟩, -⟩ := hs
    -- what stands under keys of the part was captured as well, so that nested parts decode it alike
    obtain ⟨own, hlocal, hown⟩ := exists_localize entries keys
    have hdecode := yields_decode (h.localized hkeys hown) s hs
    simp only [decodeSole, hlocal, Option.some.injEq] at hresult
    rw [← hresult]
    exact yields_rekeyFault hkeys hdecode
  | [], _, _, hresult => by cases hresult
  | [.bare _], _, _, hresult => by cases hresult
  | .bare _ :: _ :: _, _, _, hresult => by cases hresult
  | .attached .. :: _ :: _, _, _, hresult => by cases hresult

theorem within_decodeItems {entries : Table Value Value} (h : Captures short entries) :
    (items : List (SchemaItem Schema)) → ItemsReport short items →
    (decodeItems (.map entries) items).Within (Escapes short) (Issue.Sound short) fun _ => True
  | [], _ => Outcome.within_pure trivial
  | .bare c :: rest, hs =>
    (within_ownEntry c fun _ _ => trivial).bind fun _ _ =>
      (within_decodeItems h rest hs.2).bind fun _ _ => Outcome.within_pure trivial
  | .attached s cs keys :: rest, hs => by
    obtain ⟨⟨hs, hkeys⟩, hrest⟩ := hs
    obtain ⟨own, hlocal, hown⟩ := exists_localize entries keys
    have hdecode := yields_decode (h.localized hkeys hown) s hs
    have hattached : (attachedOutcome keys s.text (s.decode (.map own))).Within (Escapes short)
        (Issue.Sound short) fun _ => True :=
      within_attachedOutcome hkeys (fun _ => escapes_of_text s hs) trivial
        (hdecode.mono fun _ _ _ _ => trivial)
    have hpure : Outcome.ofExcept (localize (.map entries) keys) = pure own := by
      rw [hlocal]
      rfl
    rw [decodeItems, hpure, pure_bind]
    exact hattached.bind fun _ _ =>
      (within_decodeItems h rest hrest).bind fun _ _ => Outcome.within_pure trivial

end

end Schema

end RoutePattern
