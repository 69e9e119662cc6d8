import Mathlib.Tactic.MkIffOfInductiveProp
import RoutePattern.Proofs.Precedence
import RoutePattern.Proofs.ShortValues
import RoutePattern.Proofs.SortedKeys

/-!
What comes of the routing settings: the settings that their values mean, a fault, or a refusal. It is a
refusal where an unknown key of the routing section is no text, and where the level has no text.
-/

namespace RoutePattern

theorem Log.Level.ofName?_eq_some {name : Text} {level : Level} :
    ofName? name = some level ↔ level.name = name := by
  constructor
  · intro h
    have hname := List.find?_some h
    exact beq_iff_eq.mp hname
  · rintro rfl
    cases level <;> rfl

namespace RoutingSettings

/-- A positive number means a time, and null that there is no end. -/
inductive LifetimeMeans : Value → Option Seconds → Prop
  | none : LifetimeMeans .null .none
  | whole {n : Int} (h : 0 < n) : LifetimeMeans (.int n) (some (.whole n))
  | float {x : Float} (h : ¬ x ≤ 0) : LifetimeMeans (.float x) (some (.float x))

/-- A value means the level whose name its text is in capitals. -/
def LevelMeans (v : Value) (level : Log.Level) : Prop :=
  ∃ name, v.textOf = .ok name ∧ Text.upperAscii name = level.name

/-- A setting is what its value means, or the usual one where no value is given. -/
def Means {α : Type} (means : Value → α → Prop) (usual : α) (value? : Option Value) (a : α) : Prop :=
  match value? with
  | some v => means v a
  | none => a = usual

/-- The settings are those that the values by name mean. -/
@[mk_iff]
structure Takes (value? : Text → Option Value) (s : RoutingSettings) : Prop where
  size : Means (fun v (n : Nat) => v = .int n) default.cacheSize (value? "cache_size") s.cacheSize
  lifetime : Means LifetimeMeans default.cacheLifetime (value? "cache_ttl") s.cacheLifetime
  atEnd : Means (fun v b => v = .bool b) default.defaultEnd (value? "default_end") s.defaultEnd
  level : Means LevelMeans default.logLevel (value? "log_level") s.logLevel

section

variable {v : Value}

theorem sizeOf_eq_ok {n : Nat} : sizeOf v = .ok n ↔ v = .int n := by
  cases v with
  | int m =>
    by_cases hm : m < 0
    · have hne : m ≠ n := by omega
      simp [sizeOf, refuse, hm, hne]
    · have heq : m.toNat = n ↔ m = n := by omega
      simp [sizeOf, hm, heq]
  | _ => simp [sizeOf, refuse]

theorem lifetimeOf_eq_ok {lifetime : Option Seconds} :
    lifetimeOf v = .ok lifetime ↔ LifetimeMeans v lifetime := by
  constructor
  · intro h
    unfold lifetimeOf at h
    split at h
    next =>
      cases h
      exact .none
    next n =>
      split at h
      next => cases h
      next hn =>
        cases h
        exact .whole (Int.not_le.mp hn)
    next x =>
      split at h
      next => cases h
      next hx =>
        cases h
        exact .float hx
    next => cases h
  · rintro (_ | hn | hx)
    · rfl
    · exact if_neg (Int.not_le.mpr hn)
    · exact if_neg hx

theorem endOf_eq_ok {b : Bool} : endOf v = .ok b ↔ v = .bool b := by
  cases v <;> simp [endOf, refuse]

theorem levelOf_eq_ok {level : Log.Level} : levelOf v = .ok level ↔ LevelMeans v level := by
  constructor
  · intro h
    obtain ⟨name, hname, h⟩ := Except.bind_eq_ok.mp h
    refine ⟨name, Except.mapError_eq_ok.mp hname, ?_⟩
    split at h
    next hlevel =>
      cases h
      exact (Log.Level.ofName?_eq_some.mp hlevel).symm
    next => cases h
  · rintro ⟨name, hname, hlevel⟩
    refine Except.bind_eq_ok.mpr ⟨name, Except.mapError_eq_ok.mpr hname, ?_⟩
    rw [Log.Level.ofName?_eq_some.mpr hlevel.symm]
    rfl

variable {e : SettingsError}

theorem sizeOf_eq_error (h : sizeOf v = .error e) : ∃ f, e = .fault f := by
  unfold sizeOf at h
  split at h
  next =>
    split at h
    · exact ⟨_, (Except.error.inj h).symm⟩
    · cases h
  next => exact ⟨_, (Except.error.inj h).symm⟩

theorem lifetimeOf_eq_error (h : lifetimeOf v = .error e) : ∃ f, e = .fault f := by
  unfold lifetimeOf at h
  split at h
  next => cases h
  next =>
    split at h
    · exact ⟨_, (Except.error.inj h).symm⟩
    · cases h
  next =>
    split at h
    · exact ⟨_, (Except.error.inj h).symm⟩
    · cases h
  next => exact ⟨_, (Except.error.inj h).symm⟩

theorem endOf_eq_error (h : endOf v = .error e) : ∃ f, e = .fault f := by
  unfold endOf at h
  split at h
  next => cases h
  next => exact ⟨_, (Except.error.inj h).symm⟩

theorem levelOf_eq_refusal {r : Refusal} :
    levelOf v = .error (.refusal r) ↔ v.textOf = .error r := by
  constructor
  · intro h
    rcases Except.bind_eq_error.mp h with h | ⟨name, -, h⟩
    · obtain ⟨r', hr, hrefusal⟩ := Except.mapError_eq_error.mp h
      cases hrefusal
      exact hr
    · split at h
      · cases h
      · cases h
  · intro h
    exact Except.bind_eq_error.mpr (.inl (Except.mapError_eq_error.mpr ⟨r, h, rfl⟩))

end

section

variable {α : Type} {given : Settings} {name : String} {read : Value → Except SettingsError α} {usual : α}

theorem field_eq_ok {means : Value → α → Prop} (hread : ∀ {v a}, read v = .ok a ↔ means v a) {a : α} :
    field given name read usual = .ok a ↔ Means means usual (Table.get? (.text name) given) a := by
  unfold field Means
  cases Table.get? (.text name) given with
  | none => simp [eq_comm]
  | some v => exact hread

theorem field_eq_error {e : SettingsError} :
    field given name read usual = .error e ↔
      ∃ v, Table.get? (.text name) given = some v ∧ read v = .error e := by
  unfold field
  cases Table.get? (.text name) given <;> simp

theorem field_ne_refusal (hread : ∀ {v e}, read v = .error e → ∃ f, e = .fault f) {r : Refusal} :
    field given name read usual ≠ .error (.refusal r) := by
  intro h
  obtain ⟨v, -, hv⟩ := field_eq_error.mp h
  obtain ⟨f, hf⟩ := hread hv
  cases hf

end

theorem ofValues_eq_ok {given : Settings} {s : RoutingSettings} :
    ofValues given = .ok s ↔ Takes (fun name => Table.get? (.text name) given) s := by
  constructor
  · intro h
    obtain ⟨size, hsize, h⟩ := Except.bind_eq_ok.mp h
    obtain ⟨lifetime, hlifetime, h⟩ := Except.bind_eq_ok.mp h
    obtain ⟨atEnd, hend, h⟩ := Except.bind_eq_ok.mp h
    obtain ⟨level, hlevel, h⟩ := Except.bind_eq_ok.mp h
    cases h
    exact ⟨(field_eq_ok sizeOf_eq_ok).mp hsize, (field_eq_ok lifetimeOf_eq_ok).mp hlifetime,
      (field_eq_ok endOf_eq_ok).mp hend, (field_eq_ok levelOf_eq_ok).mp hlevel⟩
  · intro h
    have hsize := (field_eq_ok sizeOf_eq_ok).mpr h.size
    have hlifetime := (field_eq_ok lifetimeOf_eq_ok).mpr h.lifetime
    have hend := (field_eq_ok endOf_eq_ok).mpr h.atEnd
    have hlevel := (field_eq_ok levelOf_eq_ok).mpr h.level
    simp [ofValues, hsize, hlifetime, hend, hlevel, bind, Except.bind, pure, Except.pure]

/-- Only the text of the level can be refused, and the level is read last. -/
theorem ofValues_eq_refusal {given : Settings} {r : Refusal} :
    ofValues given = .error (.refusal r) ↔
      (∃ v, Table.get? (.text "log_level") given = some v ∧ v.textOf = .error r) ∧
      ∃ s, Takes (Function.update (fun name => Table.get? (.text name) given) "log_level" none) s := by
  constructor
  · intro h
    rcases Except.bind_eq_error.mp h with h | ⟨size, hsize, h⟩
    · exact absurd h (field_ne_refusal sizeOf_eq_error)
    rcases Except.bind_eq_error.mp h with h | ⟨lifetime, hlifetime, h⟩
    · exact absurd h (field_ne_refusal lifetimeOf_eq_error)
    rcases Except.bind_eq_error.mp h with h | ⟨atEnd, hend, h⟩
    · exact absurd h (field_ne_refusal endOf_eq_error)
    rcases Except.bind_eq_error.mp h with h | ⟨_, -, h⟩
    · obtain ⟨v, hget, hv⟩ := field_eq_error.mp h
      exact ⟨⟨v, hget, levelOf_eq_refusal.mp hv⟩, ⟨size, lifetime, atEnd, default.logLevel⟩,
        (field_eq_ok sizeOf_eq_ok).mp hsize, (field_eq_ok lifetimeOf_eq_ok).mp hlifetime,
        (field_eq_ok endOf_eq_ok).mp hend, rfl⟩
    · cases h
  · rintro ⟨⟨v, hget, hv⟩, s, hs⟩
    have hsize : field given "cache_size" sizeOf default.cacheSize = .ok s.cacheSize :=
      (field_eq_ok sizeOf_eq_ok).mpr hs.size
    have hlifetime : field given "cache_ttl" lifetimeOf default.cacheLifetime = .ok s.cacheLifetime :=
      (field_eq_ok lifetimeOf_eq_ok).mpr hs.lifetime
    have hend : field given "default_end" endOf default.defaultEnd = .ok s.defaultEnd :=
      (field_eq_ok endOf_eq_ok).mpr hs.atEnd
    have hlevel : field given "log_level" levelOf default.logLevel = .error (.refusal r) :=
      field_eq_error.mpr ⟨v, hget, levelOf_eq_refusal.mpr hv⟩
    simp [ofValues, hsize, hlifetime, hend, hlevel, bind, Except.bind]

end RoutingSettings

namespace Settings

open RoutingSettings (Takes)

/-- The value of a routing setting: the one in the routing section, or else the one at the top. -/
def valueOf? (s : Settings) (name : Text) : Option Value :=
  (find? (inSection name) (.map s)).or (find? (atTop name) (.map s))

/-- The settings without what is unknown in their routing section. -/
def onlyKnown (section_ s : Settings) : Settings :=
  Table.put (.text "routing") (.map (section_.filter fun e => RoutingSettings.isName e.1)) s

theorem filter_put_of_not {key : Text} {p : Value → Bool} (hp : p (.text key) = false) (v : Value)
    (s : Settings) : (Table.put (.text key) v s).filter (fun e => p e.1) = s.filter fun e => p e.1 := by
  induction s with
  | nil => simp [Table.put, hp]
  | cons e rest ih =>
    obtain ⟨k, w⟩ := e
    rw [Table.put]
    split
    next hk =>
      obtain rfl := Value.beq_text.mp hk
      simp [hp]
    next => simp only [List.filter_cons, ih]

theorem routing_of_section {s section_ : Settings} {names : List Text}
    (hsection : (Table.get? (.text "routing") s).getD (.map []) = .map section_)
    (hnames : unknownKeys section_ = names.map .text) :
    routing s = (ignoring names, RoutingSettings.ofValues (routingValues section_ s)) := by
  simp only [routing, hsection, unknownRecords_of_texts hnames]

/-- What is unknown makes no difference to the settings. -/
theorem routing_onlyKnown (section_ s : Settings) :
    (routing (onlyKnown section_ s)).2 = RoutingSettings.ofValues (routingValues section_ s) := by
  have hsection : Table.get? (.text "routing") (onlyKnown section_ s) =
      some (.map (section_.filter fun e => RoutingSettings.isName e.1)) := by
    rw [onlyKnown, Table.get?_put_text, Value.text_beq_self, if_pos rfl]
  have hvalues : routingValues (section_.filter fun e => RoutingSettings.isName e.1) (onlyKnown section_ s) =
      routingValues section_ s := by
    rw [routingValues, routingValues, onlyKnown, filter_put_of_not rfl, List.filter_filter]
    simp only [Bool.and_self]
  rw [routing_of_names hsection fun e he => (List.mem_filter.mp he).2, hvalues]

theorem takes_congr {value? other? : Text → Option Value} {settings : RoutingSettings}
    (h : ∀ name ∈ RoutingSettings.names, value? name = other? name) :
    Takes value? settings ↔ Takes other? settings := by
  have hsize := h "cache_size" (by simp [RoutingSettings.names])
  have hlifetime := h "cache_ttl" (by simp [RoutingSettings.names])
  have hend := h "default_end" (by simp [RoutingSettings.names])
  have hlevel := h "log_level" (by simp [RoutingSettings.names])
  simp only [RoutingSettings.takes_iff, hsize, hlifetime, hend, hlevel]

/-- How the routing settings turn out. Without a routing section that is a mapping there is a fault, and with
an unknown key in it that is no text a refusal. Otherwise all unknown keys are noted in one warning and make no
difference; there are settings just where each value means one, and a refusal just where only the level
cannot be read, since its text is too long. Everything else is a fault. -/
theorem routing_outcome {s : Settings} (hs : (Value.map s).Proper) :
    ((∀ section_, (Table.get? (.text "routing") s).getD (.map []) ≠ .map section_) →
      routing s = ([], .error (.fault .noSection))) ∧
    ∀ section_, (Table.get? (.text "routing") s).getD (.map []) = .map section_ →
      (∀ key ∈ unknownKeys section_, (∀ name, key ≠ .text name) →
        ∃ message, routing s = ([], .error (.refusal (.raised .badType message)))) ∧
      ∀ names, unknownKeys section_ = names.map .text →
        (routing s).1 = ignoring names ∧ (routing s).2 = (routing (onlyKnown section_ s)).2 ∧
        (∀ settings, (routing s).2 = .ok settings ↔ Takes (valueOf? s) settings) ∧
        ∀ r, (routing s).2 = .error (.refusal r) ↔ r = .digits .tooLongToWrite ∧
          (∃ v, valueOf? s "log_level" = some v ∧ v.textOf = .error r) ∧
          ∃ settings, Takes (Function.update (valueOf? s) "log_level" none) settings := by
  refine ⟨fun hno => ?_, fun section_ hsection => ⟨fun key hkey hno => ?_, fun names hnames => ?_⟩⟩
  · unfold routing
    split
    next section_ hsection => exact absurd hsection (hno section_)
    next => rfl
  · obtain ⟨message, hmessage⟩ := unknownRecords_of_no_text hkey hno
    exact ⟨message, by simp only [routing, hsection, hmessage]⟩
  · have hrouting := routing_of_section hsection hnames
    have hget : ∀ name ∈ RoutingSettings.names,
        Table.get? (.text name) (routingValues section_ s) = valueOf? s name := fun name hname =>
      get?_routing hname hs hsection
    have hlevel := hget "log_level" (by simp [RoutingSettings.names])
    rw [hrouting, routing_onlyKnown]
    refine ⟨rfl, rfl, fun settings => ?_, fun r => ?_⟩
    · rw [RoutingSettings.ofValues_eq_ok]
      exact takes_congr hget
    · have htakes : ∀ settings, Takes (Function.update
          (fun name => Table.get? (.text name) (routingValues section_ s)) "log_level" none) settings ↔
          Takes (Function.update (valueOf? s) "log_level" none) settings := fun settings =>
        takes_congr fun name hname => by simp only [Function.update_apply, hget name hname]
      rw [RoutingSettings.ofValues_eq_refusal, hlevel]
      simp only [htakes]
      refine (and_iff_right_of_imp fun h => ?_).symm
      obtain ⟨⟨v, -, hv⟩, -⟩ := h
      exact (Value.textOf_error hv).1

/-- A misspelt setting in the section and a level in small letters. -/
theorem routing_outcome_misspelt :
    let s : Settings := [(.text "cache_size", .int 5),
      (.text "routing", .map [(.text "cache_sise", .int 3), (.text "log_level", .text "debug")])]
    (Value.map s).Proper ∧ (routing s).1 = ignoring ["cache_sise"] ∧
      (routing s).2 = .ok ⟨5, none, false, .debug⟩ := by
  intro s
  have hsection : (Value.map [(.text "cache_sise", .int 3), (.text "log_level", .text "debug")]).Proper :=
    (Value.proper_empty.put (.plain rfl) (.text "cache_sise")).put (.plain rfl) (.text "log_level")
  have hs : (Value.map s).Proper :=
    (Value.proper_empty.put (.plain rfl) (.text "cache_size")).put hsection (.text "routing")
  obtain ⟨hrecords, -, hok, -⟩ := ((routing_outcome hs).2 _ rfl).2 ["cache_sise"] rfl
  have htakes : Takes (valueOf? s) ⟨5, none, false, .debug⟩ := ⟨rfl, rfl, rfl, "debug", rfl, rfl⟩
  exact ⟨hs, hrecords, (hok _).mpr htakes⟩

/-- A number as a key in the routing section is neither ignored nor a fault. -/
theorem routing_refuses_number :
    let s : Settings := [(.text "routing", .map [(.int 1, .int 2)])]
    (Value.map s).Proper ∧
      routing s = ([], .error (.refusal (.raised .badType
        "sequence item 0: expected str instance, int found"))) ∧
      (routing (onlyKnown [(.int 1, .int 2)] s)).2 = .ok RoutingSettings.default := by
  intro s
  have hs : (Value.map s).Proper :=
    Value.proper_empty.put (Value.proper_empty.put (.plain rfl) (.int 1)) (.text "routing")
  exact ⟨hs, rfl, rfl⟩

end Settings

end RoutePattern
