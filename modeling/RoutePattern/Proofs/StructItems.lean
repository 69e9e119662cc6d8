import RoutePattern.Proofs.FieldConversions

/-!
Schemas of routes whose parts are structs. Each part converts its captures under the keys that they have
within the part, and what it says of them is moved to the keys of the route. All parts together are one
struct over the whole route, with the codecs that are declared for its keys.
-/

namespace RoutePattern

namespace SchemaItem

/-- A capture by itself, or captures under a struct with codecs of a kind. The struct knows them by the keys
that they have within their part of the route, where positions count from zero. -/
inductive StructOver (P : Codec → Prop) : SchemaItem Schema → Prop
  | bare (c : Capture) : StructOver P (.bare c)
  | attached {name : Text} {fields : Table Value Codec} {cs own : List Capture} {count n : Nat}
      (hfields : ∀ e ∈ fields, P e.2)
      (hkeys : cs.map Capture.key = (own.map Capture.key).map (Key.shift count))
      (hindices : (own.map Capture.key).filterMap Key.index? = List.range' 0 n) :
      StructOver P (.attached (.struct name fields) cs (pairing (Key.shift count) own))

def routeKeys (item : SchemaItem Schema) : List Key := item.captures.map Capture.key

theorem find?_pairing {f : Key → Key} (hf : Function.Injective f) {own : List Capture} {key : Key}
    (hkey : key ∈ own.map Capture.key) :
    (pairing f own).find? (fun entry => entry.1.value == (f key).value) = some (f key, key) := by
  induction own with
  | nil => simp at hkey
  | cons c rest ih =>
    have hcons : pairing f (c :: rest) = (f c.key, c.key) :: pairing f rest := rfl
    rw [hcons]
    by_cases hc : c.key = key
    · rw [List.find?_cons_of_pos (by simp [hc, Key.value_beq]), hc]
    · have hne : f c.key ≠ f key := fun heq => hc (hf heq)
      have hrest : key ∈ rest.map Capture.key := by simpa [Ne.symm hc] using hkey
      rw [List.find?_cons_of_neg (by simp [Key.value_beq, hne]), ih hrest]

theorem find?_pairing_eq_none {f : Key → Key} {own : List Capture} {key : Key}
    (hkey : key ∉ (own.map Capture.key).map f) :
    (pairing f own).find? (fun entry => entry.1.value == key.value) = none := by
  rw [List.find?_eq_none]
  intro entry hentry
  obtain ⟨c, hc, rfl⟩ := List.mem_map.mp hentry
  have hne : f c.key ≠ key := fun heq =>
    hkey (List.mem_map.mpr ⟨c.key, List.mem_map_of_mem hc, heq⟩)
  simp [Key.value_beq, hne]

end SchemaItem

namespace Schema

open Outcome SchemaItem

variable {P : Codec → Prop} {items : List (SchemaItem Schema)}

theorem codecAmong_eq_none (hitems : ∀ item ∈ items, item.StructOver P) {key : Key}
    (hkey : key ∉ items.flatMap routeKeys) : codecAmong key.value items = none := by
  induction items with
  | nil => rfl
  | cons item rest ih =>
    obtain ⟨hitem, hrest⟩ := List.forall_mem_cons.mp hitems
    rw [List.flatMap_cons, List.mem_append, not_or] at hkey
    have ih := ih hrest hkey.2
    cases hitem with
    | bare c => exact ih
    | attached hfields hkeys _ =>
      have hfresh := hkey.1
      rw [routeKeys, SchemaItem.captures, hkeys] at hfresh
      rw [codecAmong, find?_pairing_eq_none hfresh]
      exact ih

theorem of_codecAmong (hitems : ∀ item ∈ items, item.StructOver P) {key : Value} {codec : Codec}
    (h : codecAmong key items = some codec) : P codec := by
  induction items with
  | nil => cases h
  | cons item rest ih =>
    obtain ⟨hitem, hrest⟩ := List.forall_mem_cons.mp hitems
    cases hitem with
    | bare c => exact ih hrest h
    | attached hfields _ _ =>
      unfold codecAmong at h
      split at h
      next inner _ =>
        obtain ⟨k, hk⟩ := Table.exists_mem_of_get? h
        exact hfields (k, codec) hk
      next => exact ih hrest h

/-- The parts of a route converted one after the other, where they are structs. -/
def convertParts (convert : Codec → Value → Except Refusal Value) (verb : Text) (params : Value) :
    List (SchemaItem Schema) → Outcome (Table Value Value)
  | [] => pure []
  | .bare c :: rest => both (ownEntry c params) (convertParts convert verb params rest)
  | .attached (.struct name fields) _ keys :: rest =>
    both (.ofExcept (localize params keys) >>= fun own =>
        attachedOutcome keys (struct name fields).text (finish (convertFields fields convert verb own)))
      (convertParts convert verb params rest)
  | .attached _ _ _ :: rest => convertParts convert verb params rest

theorem decodeItems_eq_convertParts (hitems : ∀ item ∈ items, item.StructOver P) (params : Value) :
    decodeItems params items = convertParts Codec.apply "decode" params items := by
  induction items with
  | nil => rfl
  | cons item rest ih =>
    obtain ⟨hitem, hrest⟩ := List.forall_mem_cons.mp hitems
    cases hitem with
    | bare c =>
      rw [decodeItems, ih hrest]
      rfl
    | attached _ _ _ =>
      rw [decodeItems, ih hrest, convertParts, both, bind_assoc]
      rfl

theorem encodeItems_eq_convertParts (hitems : ∀ item ∈ items, item.StructOver P) (params : Value) :
    encodeItems params items = convertParts encodeField "encode" params items := by
  induction items with
  | nil => rfl
  | cons item rest ih =>
    obtain ⟨hitem, hrest⟩ := List.forall_mem_cons.mp hitems
    cases hitem with
    | bare c =>
      rw [encodeItems, ih hrest]
      rfl
    | attached _ _ _ =>
      rw [encodeItems, ih hrest, convertParts, both, bind_assoc]
      rfl

theorem localize_map (f : Key → Key) (own : List Capture) (entries : Table Value Value) :
    localize (.map entries) (pairing f own) =
      .ok (entriesAt (fun key => Table.get? (f key).value entries) (own.map Capture.key)) := by
  induction own with
  | nil => rfl
  | cons c rest ih =>
    have hcons : pairing f (c :: rest) = (f c.key, c.key) :: pairing f rest := rfl
    rw [hcons, localize, ih]
    rfl

variable {fields whole : Table Value Codec} {convert : Codec → Value → Except Refusal Value} {verb : Text}

theorem keys_of_converts {given made : Table Value Value}
    (h : List.Forall₂ (ConvertsField fields convert) given made) : made.map (·.1) = given.map (·.1) := by
  induction h with
  | nil => rfl
  | cons hfirst _ ih => rw [List.map_cons, List.map_cons, ih, hfirst.1]

theorem keys_of_gives {given made : Table Value Value}
    (h : (convertFields fields convert verb given).Gives made) : made.map (·.1) = given.map (·.1) :=
  keys_of_converts (gives_convertFields.mp h)

section Part

variable {f : Key → Key} {own : List Capture} {entries : Table Value Value}

theorem get?_globalKeys_of_mem (f : Key → Key) (hown : (own.map Capture.key).Nodup) {key : Key}
    (hkey : key ∈ own.map Capture.key) :
    Table.get? key.value (globalKeys (pairing f own)) = some (f key).value := by
  obtain ⟨c, hc, rfl⟩ := List.mem_map.mp hkey
  exact get?_globalKeys hown hc

theorem keyed_convertFields {keys : List Key} (h : InOrder keys entries) :
    (convertFields fields convert verb entries).Within (fun _ => True) Issue.IsKeyed fun _ => True := by
  refine within_convertFields (fun _ _ _ _ _ _ _ _ _ => trivial) fun e he _ _ rest message _ => ?_
  obtain ⟨own, -, hown⟩ := h
  obtain ⟨key, -, hkey⟩ := List.mem_map.mp (hown ▸ List.mem_map_of_mem he : e.1 ∈ own.map Key.value)
  rw [← hkey]
  exact Issue.isKeyed_of_key _ key rest message

theorem keys_renamed (hown : (own.map Capture.key).Nodup) {keys : List Key}
    (hsub : keys.Sublist (own.map Capture.key)) (hkeys : entries.map (·.1) = keys.map Key.value) :
    (entries.map (renamed (globalKeys (pairing f own)))).map (·.1) = (keys.map f).map Key.value := by
  have hname : ∀ key ∈ keys,
      (Table.get? key.value (globalKeys (pairing f own))).getD key.value = (f key).value := by
    intro key hkey
    rw [get?_globalKeys_of_mem f hown (hsub.subset hkey)]
    rfl
  have hfst : (entries.map (renamed (globalKeys (pairing f own)))).map (·.1) =
      (entries.map (·.1)).map fun key => (Table.get? key (globalKeys (pairing f own))).getD key := by
    rw [List.map_map, List.map_map]
    rfl
  rw [hfst, hkeys, List.map_map, List.map_map]
  exact List.map_congr_left hname

theorem globalize_eq_renamed (hf : Function.Injective f) (hown : (own.map Capture.key).Nodup)
    (hentries : InOrder (own.map Capture.key) entries) :
    globalize (pairing f own) entries = entries.map (renamed (globalKeys (pairing f own))) := by
  obtain ⟨keys, hsub, hkeys⟩ := hentries
  exact ofEntries_of_keys (keys_renamed hown hsub hkeys) ((hown.sublist hsub).map hf)

theorem map_renamed_self (hown : (own.map Capture.key).Nodup) (hid : ∀ key ∈ own.map Capture.key, f key = key)
    (hentries : InOrder (own.map Capture.key) entries) :
    entries.map (renamed (globalKeys (pairing f own))) = entries := by
  obtain ⟨keys, hsub, hkeys⟩ := hentries
  conv_rhs => rw [← List.map_id entries]
  refine List.map_congr_left fun e he => ?_
  have hmem : e.1 ∈ keys.map Key.value := hkeys ▸ List.mem_map_of_mem he
  obtain ⟨key, hkey, hvalue⟩ := List.mem_map.mp hmem
  have hname := get?_globalKeys_of_mem f hown (hsub.subset hkey)
  rw [hid key (hsub.subset hkey), hvalue] at hname
  simp [renamed, hname]

theorem globalize_self (hown : (own.map Capture.key).Nodup) (hid : ∀ key ∈ own.map Capture.key, f key = key)
    (hentries : InOrder (own.map Capture.key) entries) : globalize (pairing f own) entries = entries := by
  have hglobal : globalize (pairing f own) entries =
      Table.ofEntries (entries.map (renamed (globalKeys (pairing f own)))) := rfl
  obtain ⟨keys, hsub, hkeys⟩ := id hentries
  rw [hglobal, map_renamed_self hown hid hentries]
  exact ofEntries_of_keys hkeys (hown.sublist hsub)

/-- What a part is converted to is what one struct makes of its captures under the keys of the route. -/
theorem same_attached (hf : Function.Injective f) (hown : (own.map Capture.key).Nodup)
    (hfields : ∀ key ∈ own.map Capture.key,
      Table.get? (f key).value whole = Table.get? key.value fields)
    (shown : Except Refusal Text) (given : Key → Option Value) :
    Same
      (attachedOutcome (pairing f own) shown
        (finish (convertFields fields convert verb
          (entriesAt (fun key => given (f key)) (own.map Capture.key)))))
      (convertFields whole convert verb (entriesAt given ((own.map Capture.key).map f))) := by
  have horder := inOrder_entriesAt (fun key => given (f key)) (own.map Capture.key)
  have hkeyed : (convertFields fields convert verb
      (entriesAt (fun key => given (f key)) (own.map Capture.key))).Within (fun _ => True)
        Issue.IsKeyed fun _ => True := keyed_convertFields horder
  rw [← rekeyed_convertFields (fun _ => get?_globalKeys_of_mem f hown) hfields]
  cases hout : convertFields fields convert verb
      (entriesAt (fun key => given (f key)) (own.map Capture.key)) with
  | refused r => exact .refused r
  | made es issues =>
    rw [hout] at hkeyed
    cases issues with
    | nil =>
      rw [InOrder, ← keys_of_gives hout] at horder
      have hglobal := globalize_eq_renamed hf hown horder
      exact .made [] fun _ => hglobal
    | cons issue more =>
      have hrekey : rekeyIssues (pairing f own) (issue :: more) =
          .ok ((issue :: more).map (Issue.rekeyed (globalKeys (pairing f own)))) :=
        rekeyIssues_of_keyed hkeyed.1
      have hattached : attachedOutcome (pairing f own) shown (finish (made es (issue :: more))) =
          made [] ((issue :: more).map (Issue.rekeyed (globalKeys (pairing f own)))) := by
        simp only [attachedOutcome, finish, made, hrekey]
        rfl
      rw [hattached]
      exact .made _ nofun

/-- Where the keys of a part are those of the route, what is said of them stays. -/
theorem finish_rekeyed (hown : (own.map Capture.key).Nodup) (hid : ∀ key ∈ own.map Capture.key, f key = key)
    (hfields : ∀ key ∈ own.map Capture.key, Table.get? key.value whole = Table.get? key.value fields)
    (horder : InOrder (own.map Capture.key) entries) :
    (finish (convertFields fields convert verb entries)).mapError (rekeyFault (pairing f own)) =
      finish (convertFields whole convert verb entries) := by
  have hnames : ∀ key ∈ own.map Capture.key,
      Table.get? key.value (globalKeys (pairing f own)) = some key.value := by
    intro key hkey
    rw [get?_globalKeys_of_mem f hown hkey, hid key hkey]
  have hentries := horder.eq_entriesAt hown
  have hrekeyed : rekeyed (globalKeys (pairing f own)) (convertFields fields convert verb entries) =
      convertFields whole convert verb entries := by
    have hmoved : rekeyed (globalKeys (pairing f own)) (convertFields fields convert verb
          (entriesAt (fun key => Table.get? (id key).value entries) (own.map Capture.key))) =
        convertFields whole convert verb
          (entriesAt (fun key => Table.get? key.value entries) ((own.map Capture.key).map id)) :=
      rekeyed_convertFields hnames hfields _
    rw [List.map_id] at hmoved
    rw [hentries]
    exact hmoved
  have hkeyed : (convertFields fields convert verb entries).Within (fun _ => True)
      Issue.IsKeyed fun _ => True := keyed_convertFields horder
  rw [← hrekeyed]
  cases hout : convertFields fields convert verb entries with
  | refused r => rfl
  | made es issues =>
    rw [hout] at hkeyed
    cases issues with
    | nil =>
      have hes : InOrder (own.map Capture.key) es := by
        rw [InOrder, keys_of_gives hout]
        exact horder
      have hself := map_renamed_self hown hid hes
      rw [rekeyed, under_made, hself]
      rfl
    | cons issue more =>
      have hrekey : rekeyIssues (pairing f own) (issue :: more) =
          .ok ((issue :: more).map (Issue.rekeyed (globalKeys (pairing f own)))) :=
        rekeyIssues_of_keyed hkeyed.1
      rw [rekeyed, under_made]
      simp only [finish, made, Except.mapError, rekeyFault, hrekey, List.map_cons]

end Part

theorem same_bare {c : Capture} {entries : Table Value Value} (hnone : Table.get? c.key.value whole = none) :
    Same (ownEntry c (.map entries))
      (convertFields whole convert verb
        (entriesAt (fun key => Table.get? key.value entries) (SchemaItem.bare c).routeKeys)) := by
  have hsole : entriesAt (fun key => Table.get? key.value entries) (SchemaItem.bare c).routeKeys =
      ((Table.get? c.key.value entries).map (c.key.value, ·)).toList := List.append_nil _
  have hentry : ownEntry c (.map entries) =
      pure ((Table.get? c.key.value entries).map (c.key.value, ·)).toList := rfl
  rw [hsole, hentry]
  cases Table.get? c.key.value entries with
  | none => exact .refl _
  | some v =>
    have hfields : convertFields whole convert verb [(c.key.value, v)] = pure [(c.key.value, v)] := by
      simp only [convertFields, hnone, pure_bind]
      rfl
    exact hfields ▸ .refl _

/-- The parts of a route are converted as one struct converts all that they have. -/
theorem same_convertParts {entries : Table Value Value} (hitems : ∀ item ∈ items, item.StructOver P)
    (hkeys : (items.flatMap routeKeys).Nodup)
    (hwhole : ∀ key ∈ items.flatMap routeKeys,
      Table.get? key.value whole = codecAmong key.value items) :
    Same (convertParts convert verb (.map entries) items)
      (convertFields whole convert verb
        (entriesAt (fun key => Table.get? key.value entries) (items.flatMap routeKeys))) := by
  induction items with
  | nil => exact .refl _
  | cons item rest ih =>
    obtain ⟨hitem, hrest⟩ := List.forall_mem_cons.mp hitems
    rw [List.flatMap_cons] at hkeys hwhole
    obtain ⟨hown, hothers, hdisjoint⟩ := List.nodup_append.mp hkeys
    obtain ⟨hfirst, hlater⟩ := List.forall_mem_append.mp hwhole
    rw [List.flatMap_cons, entriesAt_append, convertFields_append]
    -- later keys are none of the first part's, so its schema does not know them
    have hskip : ∀ key ∈ rest.flatMap routeKeys,
        codecAmong key.value (item :: rest) = codecAmong key.value rest := by
      intro key hkey
      have hfresh : key ∉ item.routeKeys := fun hmem => hdisjoint key hmem key hkey rfl
      cases hitem with
      | bare c => rfl
      | attached _ hcs _ =>
        rw [routeKeys, SchemaItem.captures, hcs] at hfresh
        rw [codecAmong, find?_pairing_eq_none hfresh]
    have ih := ih hrest hothers fun key hkey => (hlater key hkey).trans (hskip key hkey)
    cases hitem with
    | bare c =>
      have hfresh : c.key ∉ rest.flatMap routeKeys := fun hmem =>
        hdisjoint c.key List.mem_cons_self c.key hmem rfl
      have hnone := (hfirst c.key List.mem_cons_self).trans (codecAmong_eq_none hrest hfresh)
      exact (same_bare hnone).both ih
    | @attached name fields cs own count _ _ hcs _ =>
      refine Same.both ?_ ih
      have hroute : (SchemaItem.attached (Schema.struct name fields) cs
          (pairing (Key.shift count) own)).routeKeys = (own.map Capture.key).map (Key.shift count) := hcs
      rw [hroute] at hown hfirst ⊢
      have hfields : ∀ key ∈ own.map Capture.key,
          Table.get? (key.shift count).value whole = Table.get? key.value fields := by
        intro key hkey
        rw [hfirst _ (List.mem_map_of_mem hkey), codecAmong,
          find?_pairing (Key.shift_injective count) hkey]
        rfl
      have hlocal : (ofExcept (localize (.map entries) (pairing (Key.shift count) own)) >>= fun es =>
          attachedOutcome (pairing (Key.shift count) own) (struct name fields).text
            (finish (convertFields fields convert verb es))) =
          attachedOutcome (pairing (Key.shift count) own) (struct name fields).text
            (finish (convertFields fields convert verb (entriesAt
              (fun key => Table.get? (key.shift count).value entries) (own.map Capture.key)))) := by
        rw [localize_map]
        exact pure_bind _ _
      rw [hlocal]
      exact same_attached (Key.shift_injective count) hown.of_map hfields _ fun key =>
        Table.get? key.value entries

/-- The codecs that a schema declares for the captures of a route. -/
def declared (s : Schema) : Table Value Codec :=
  entriesAt (fun key => s.codecFor key.value) (s.captures.map Capture.key)

/-- The parts of a route, each a capture or a struct. All keys are different, and the positions among them
count from zero. -/
structure StructParts (P : Codec → Prop) (items : List (SchemaItem Schema)) : Prop where
  parts : ∀ item ∈ items, item.StructOver P
  keys : (items.flatMap routeKeys).Nodup
  indices : ∃ n, (items.flatMap routeKeys).filterMap Key.index? = List.range' 0 n

theorem shift_eq_self {keys : List Key} {count m n : Nat}
    (hkeys : keys.filterMap Key.index? = List.range' 0 m)
    (hshifted : (keys.map (Key.shift count)).filterMap Key.index? = List.range' 0 n) :
    ∀ key ∈ keys, key.shift count = key := by
  have hindex : ∀ key : Key, (key.shift count).index? = key.index?.map (count + ·) := by
    intro key
    cases key with
    | name t => rfl
    | index i => simp [Key.shift, Key.index?, Nat.add_comm]
  have hrange : List.range' count m = List.range' 0 n := by
    rw [← hshifted, List.filterMap_map]
    simp only [Function.comp_def, hindex]
    rw [← List.map_filterMap, hkeys, List.map_add_range', Nat.add_zero]
  intro key hkey
  cases key with
  | name t => rfl
  | index i =>
    have hmem : i ∈ List.range' 0 m := hkeys ▸ List.mem_filterMap.mpr ⟨.index i, hkey, rfl⟩
    have hzero : count = 0 := by
      cases m with
      | zero => simp at hmem
      | succ m =>
        cases n with
        | zero => simp at hrange
        | succ n => simpa [List.range'_succ] using (List.cons.inj hrange).1
    simp [Key.shift, hzero]

theorem get?_declared {key : Key} (hkey : key ∈ items.flatMap routeKeys) :
    Table.get? key.value (route items).declared = codecAmong key.value items := by
  have hcaptures : (route items).captures.map Capture.key = items.flatMap routeKeys := by
    rw [Schema.captures, List.map_flatMap]
    rfl
  rw [declared, get?_entriesAt _ (by rwa [hcaptures])]
  rfl

/-- A schema has one part that is attached, or decodes and encodes part by part. -/
theorem sole_cases (items : List (SchemaItem Schema)) :
    (∃ s cs keys, items = [.attached s cs keys]) ∨
      ∀ v, decodeSole v items = none ∧ encodeSole v items = none := by
  rcases items with _ | ⟨item, rest⟩
  · exact .inr fun _ => ⟨rfl, rfl⟩
  rcases rest with _ | ⟨second, others⟩
  · cases item with
    | bare c => exact .inr fun _ => ⟨rfl, rfl⟩
    | attached s cs keys => exact .inl ⟨s, cs, keys, rfl⟩
  · exact .inr fun _ => by cases item <;> exact ⟨rfl, rfl⟩

namespace StructParts

theorem sole_part {s : Schema} {cs : List Capture} {keys : Table Key Key}
    (h : StructParts P [.attached s cs keys]) :
    ∃ name fields own f, s = struct name fields ∧ keys = pairing f own ∧
      (own.map Capture.key).Nodup ∧ (∀ key ∈ own.map Capture.key, f key = key) ∧
      [SchemaItem.attached s cs keys].flatMap routeKeys = own.map Capture.key ∧
      ∀ key ∈ own.map Capture.key,
        Table.get? key.value (route [.attached s cs keys]).declared = Table.get? key.value fields := by
  obtain ⟨hparts, hnodup, n, hindices⟩ := h
  have hpart := hparts _ (List.mem_singleton_self _)
  cases hpart with
  | @attached name fields cs own count m _ hcs hown =>
    rw [List.flatMap_singleton, routeKeys, SchemaItem.captures, hcs] at hnodup hindices
    have hid := shift_eq_self hown hindices
    have hkeys : cs.map Capture.key = own.map Capture.key := by
      rw [hcs]
      conv_rhs => rw [← List.map_id (own.map Capture.key)]
      exact List.map_congr_left hid
    have hroute : [SchemaItem.attached (struct name fields) cs
        (pairing (Key.shift count) own)].flatMap routeKeys = own.map Capture.key := by
      rw [List.flatMap_singleton]
      exact hkeys
    refine ⟨name, fields, own, Key.shift count, rfl, rfl, hnodup.of_map, hid, hroute, fun key hkey => ?_⟩
    have hfind := find?_pairing (Key.shift_injective count) hkey
    rw [hid key hkey] at hfind
    rw [get?_declared (hroute ▸ hkey), codecAmong, hfind]
    rfl

variable {entries : Table Value Value} (h : StructParts P items) (name : Text)
  (horder : InOrder (items.flatMap routeKeys) entries)

include h horder

theorem finish_convertParts :
    finish (convertParts convert verb (.map entries) items >>= fun es => pure (Table.ofEntries es)) =
      finish (convertFields (route items).declared convert verb entries) := by
  have hsame : Same (convertParts convert verb (.map entries) items)
      (convertFields (route items).declared convert verb
        (entriesAt (fun key => Table.get? key.value entries) (items.flatMap routeKeys))) :=
    same_convertParts h.parts h.keys fun _ => get?_declared
  rw [← horder.eq_entriesAt h.keys] at hsame
  refine hsame.finish fun es hes => ?_
  obtain ⟨keys, hsub, hkeys⟩ := horder
  exact ofEntries_of_keys ((keys_of_gives hes).trans hkeys) (h.keys.sublist hsub)

theorem decode_eq :
    (route items).decode (.map entries) = (struct name (route items).declared).decode (.map entries) := by
  have hstruct : (struct name (route items).declared).decode (.map entries) =
      finish (convertFields (route items).declared Codec.apply "decode" entries) := rfl
  have hcombined : decodeSole (.map entries) items = none →
      (route items).decode (.map entries) =
        finish (convertFields (route items).declared Codec.apply "decode" entries) := by
    intro hsole
    rw [decode, hsole, ← h.finish_convertParts horder, ← decodeItems_eq_convertParts h.parts]
  rw [hstruct]
  rcases sole_cases items with ⟨s, cs, keys, rfl⟩ | hnone
  · obtain ⟨n, fields, own, f, rfl, rfl, hown, hid, hroute, hfields⟩ := h.sole_part
    rw [hroute] at horder
    have hlocal : localize (.map entries) (pairing f own) = .ok entries := by
      rw [localize_map, entriesAt_congr fun key hkey => by rw [hid key hkey],
        ← horder.eq_entriesAt hown]
    rw [← finish_rekeyed hown hid hfields horder]
    simp only [decode, decodeSole, hlocal]
    rfl
  · exact hcombined (hnone _).1

/-- A route of structs encodes as one struct does, and checks the shape of what that gives. -/
theorem encode_eq :
    (route items).encode (.map entries) =
      ((struct name (route items).declared).encode (.map entries)).bind
        (checkShape (items.flatMap SchemaItem.captures)) := by
  have hstruct : (struct name (route items).declared).encode (.map entries) =
      finish (convertFields (route items).declared encodeField "encode" entries) := rfl
  have hcombined : encodeSole (.map entries) items = none →
      (route items).encode (.map entries) =
        (finish (convertFields (route items).declared encodeField "encode" entries)).bind
          (checkShape (items.flatMap SchemaItem.captures)) := by
    intro hsole
    rw [encode, ← h.finish_convertParts horder, ← encodeItems_eq_convertParts h.parts, hsole]
    cases encodeItems (.map entries) items with
    | refused r => rfl
    | made es issues =>
      rw [made_bind_pure]
      cases issues <;> rfl
  rw [hstruct]
  rcases sole_cases items with ⟨s, cs, keys, rfl⟩ | hnone
  · obtain ⟨n, fields, own, f, rfl, rfl, hown, hid, hroute, hfields⟩ := h.sole_part
    rw [hroute] at horder
    rw [← finish_rekeyed hown hid hfields horder]
    simp only [encode, encodeSole]
    cases hout : convertFields fields encodeField "encode" entries with
    | refused r => rfl
    | made es issues =>
      cases issues with
      | nil =>
        have hes : InOrder (own.map Capture.key) es := by
          rw [InOrder, keys_of_gives hout]
          exact horder
        have hstay := globalize_self hown hid hes
        simp only [finish, made, Except.mapError, Except.map, Value.entries?, Option.getD_some, hstay]
      | cons issue more => rfl
  · exact hcombined (hnone _).2

end StructParts

end Schema

end RoutePattern
