import RoutePattern.Proofs.Usable

/-!
Encoding against rendering, for patterns that were read. Both skip a null that is given for a capture, but
only rendering skips one within a list: what checks the shape of a value makes it the text `None`. Nothing
else sets them apart.
-/

namespace RoutePattern

namespace Table

section Functional

variable {κ α : Type} [BEq κ] [LawfulBEq κ] {f : κ → Option α}

/-- Entries that are those of a function may be put in in any order, and more than once. -/
theorem get?_putAll_of_eq (key : κ) {t u : Table κ α} (hu : ∀ e ∈ u, f e.1 = some e.2) :
    get? key (putAll t u) = if key ∈ u.map (·.1) then f key else get? key t := by
  induction u generalizing t with
  | nil => rfl
  | cons e rest ih =>
    obtain ⟨he, hrest⟩ := List.forall_mem_cons.mp hu
    have hcons : putAll t (e :: rest) = putAll (put e.1 e.2 t) rest := rfl
    rw [hcons, ih hrest, get?_put]
    by_cases hkey : e.1 = key
    · subst hkey
      simp [he]
    · simp only [List.map_cons, List.mem_cons, Ne.symm hkey, false_or, beq_iff_eq, hkey, if_false]

theorem get?_ofEntries_of_mem {keys : List κ} {key : κ} (h : key ∈ keys) :
    get? key (ofEntries (keys.flatMap fun k => ((f k).map (k, ·)).toList)) = f key := by
  rw [ofEntries, get?_putAll_of_eq key]
  · split
    next => rfl
    next hnone =>
      cases hf : f key with
      | none => rfl
      | some a =>
        refine absurd (List.mem_map.mpr ⟨(key, a), ?_, rfl⟩) hnone
        exact List.mem_flatMap.mpr ⟨key, h, by simp [hf]⟩
  · intro e he
    obtain ⟨k, -, he⟩ := List.mem_flatMap.mp he
    obtain ⟨a, ha, rfl⟩ := Option.map_eq_some_iff.mp (Option.mem_toList.mp he)
    exact ha

end Functional

def entriesOf (f : Key → Option Value) (cs : List Capture) : Table Value Value :=
  cs.flatMap fun c => ((f c.key).map (c.key.value, ·)).toList

theorem get?_entriesOf (f : Key → Option Value) {cs : List Capture} {key : Key}
    (h : key ∈ cs.map Capture.key) : get? key.value (ofEntries (entriesOf f cs)) = f key := by
  have hentries : entriesOf f cs =
      ((cs.map Capture.key).flatMap fun k => ((f k).map (k, ·)).toList).map (Prod.map Key.value id) := by
    rw [List.map_flatMap, List.flatMap_map]
    refine List.flatMap_congr fun c _ => ?_
    cases f c.key <;> rfl
  have hput : ofEntries (entriesOf f cs) = (ofEntries
      ((cs.map Capture.key).flatMap fun k => ((f k).map (k, ·)).toList)).map (Prod.map Key.value id) := by
    rw [hentries]
    exact putAll_map Key.value_beq id [] _
  rw [hput, get?_map Key.value_beq, get?_ofEntries_of_mem h, Option.map_id, id]

def given (key : Key) (entries : Table Value Value) : Value := (get? key.value entries).getD .null

end Table

namespace Value

def isNull : Value → Bool
  | null => true
  | _ => false

/-- A list or a tuple with null among its items. -/
def holdsNull (v : Value) : Bool := (v.items?.getD []).any isNull

/-- What is left of a value once its shape is checked. -/
def shaped (v : Value) : Option Captured :=
  if Schema.isAbsent v then none
  else
    match v.items? with
    | some items => (textsOf items).toOption.map .many
    | none => v.textOf.toOption.map .one

end Value

/-- The letters N in a text: nothing that is put between texts has one. -/
def letters (text : Text) : Nat := text.count 'N'

def lettersOf (texts : List Text) : Nat := letters texts.flatten

theorem letters_append (s t : Text) : letters (s ++ t) = letters s + letters t := List.count_append

theorem lettersOf_append (ss ts : List Text) : lettersOf (ss ++ ts) = lettersOf ss + lettersOf ts := by
  rw [lettersOf, List.flatten_append, letters_append, lettersOf, lettersOf]

theorem lettersOf_cons (t : Text) (ts : List Text) : lettersOf (t :: ts) = letters t + lettersOf ts := by
  rw [lettersOf, List.flatten_cons, letters_append, lettersOf]

theorem letters_join {separator : Text} (hsep : letters separator = 0) (ts : List Text) :
    letters (Text.join separator ts) = lettersOf ts := by
  induction ts with
  | nil => rfl
  | cons t rest ih =>
    by_cases hr : rest = []
    · subst hr
      simp [Text.join, lettersOf]
    · rw [Text.join_cons hr, letters_append, letters_append, hsep, ih, lettersOf_cons, Nat.add_zero]

theorem letters_trim (text : Text) : letters (Text.trim '/' text) = letters text := by
  have hdrop : ∀ t : Text, letters (t.dropWhile (· == '/')) = letters t := by
    intro t
    induction t with
    | nil => rfl
    | cons c rest ih =>
      by_cases hc : c = '/'
      · subst hc
        simpa [letters] using ih
      · simp [hc]
  rw [Text.trim, letters, List.count_reverse]
  have houter := hdrop (text.dropWhile (· == '/')).reverse
  rw [letters, letters, List.count_reverse] at houter
  exact houter.trans (hdrop text)

theorem letters_joinPath (parts : List Text) : letters (joinPath parts) = lettersOf parts := by
  induction parts with
  | nil => rfl
  | cons part rest ih =>
    have hpart : letters (joinPath [part]) = letters part := by
      rw [joinPath_singleton, ← letters_trim part]
      split
      next h => rw [h]
      next => exact List.count_cons_of_ne (by decide)
    rw [joinPath_cons, letters_append, hpart, ih, lettersOf_cons]

theorem letters_orRoot (path : Text) : letters (orRoot path) = letters path := by
  unfold orRoot
  split
  next h =>
    rw [List.isEmpty_iff.mp h]
    rfl
  next => rfl

theorem letters_withQuery (path query : Text) :
    letters (withQuery path query) = letters path + letters query := by
  unfold withQuery
  split
  next h =>
    rw [List.isEmpty_iff.mp h]
    rfl
  next =>
    have hmark : letters ('?' :: query) = letters query := List.count_cons_of_ne (by decide)
    rw [letters_append, letters_orRoot, hmark]

/-- The texts of items are those of the shape of the list, where every null adds a text with a letter N. -/
theorem textsOf_of_itemTexts {items : List Value} {ts : List Text} (h : itemTexts items = .ok ts) :
    ∃ us, Value.textsOf items = .ok us ∧ (items.any Value.isNull = false → us.filter (!·.isEmpty) = ts) ∧
      ∀ lead : Text, lettersOf (ts.map (lead ++ ·)) + items.countP Value.isNull * (letters lead + 1) =
        lettersOf ((us.filter (!·.isEmpty)).map (lead ++ ·)) := by
  induction items generalizing ts with
  | nil =>
    cases h
    exact ⟨[], rfl, fun _ => rfl, fun _ => by simp⟩
  | cons v rest ih =>
    by_cases hnull : v = .null
    · subst hnull
      obtain ⟨us, hus, -, hcount⟩ := ih h
      refine ⟨"None".toList :: us, ?_, nofun, fun lead => ?_⟩
      · rw [Value.textsOf, hus]
        rfl
      · have hone : letters "None".toList = 1 := rfl
        rw [List.filter_cons_of_pos rfl, List.map_cons, lettersOf_cons, letters_append, hone, ← hcount,
          List.countP_cons_of_pos rfl, Nat.add_mul, Nat.one_mul]
        omega
    · have hisNull : v.isNull = false := by
        cases v with
        | null => contradiction
        | _ => rfl
      rw [itemTexts] at h
      · obtain ⟨text, htext, h⟩ := Except.bind_eq_ok.mp h
        obtain ⟨others, hothers, h⟩ := Except.bind_eq_ok.mp h
        obtain ⟨us, hus, hsame, hcount⟩ := ih hothers
        refine ⟨text :: us, ?_, ?_, fun lead => ?_⟩
        · rw [Value.textsOf, htext, hus]
          rfl
        · intro hrest
          have hrest : rest.any Value.isNull = false := by simpa [hisNull] using hrest
          rw [List.filter_cons, hsame hrest]
          cases htext : text.isEmpty <;> simpa [htext] using Except.ok.inj h
        · obtain rfl := Except.ok.inj h
          rw [List.countP_cons_of_neg (by simp [hisNull]), List.filter_cons]
          cases text.isEmpty with
          | true => exact hcount lead
          | false =>
            simp only [Bool.false_eq_true, if_false, Bool.not_false, if_true, List.map_cons, lettersOf_cons,
              ← hcount, Nat.add_assoc]
      · exact hnull

namespace Capture

def texts (c : Capture) (args : Arguments) : Except RenderError (List Text) :=
  if c.multiple then repeatedTexts c args else (singleText c args).map Option.toList

/-- The texts that a capture writes for what it is given. -/
inductive Writes (c : Capture) : Value → List Text → Prop where
  | null (ho : c.optional = true) : c.Writes .null []
  | single {v : Value} {text : Text} (hm : c.multiple = false) (hitems : v.items? = none)
      (hv : v ≠ .null) (htext : v.textOf = .ok text) (ho : text = [] → c.optional = true) :
      c.Writes v ([text].filter (!·.isEmpty))
  | items {v : Value} {items : List Value} {ts : List Text} (hm : c.multiple = true)
      (hitems : v.items? = some items) (hts : itemTexts items = .ok ts)
      (ho : ts = [] → c.optional = true) : c.Writes v ts

section

variable {c : Capture} {args : Arguments} {v : Value} {ts : List Text}

theorem writes_null_iff : c.Writes .null ts ↔ c.optional = true ∧ ts = [] := by
  constructor
  · intro h
    cases h with
    | null ho => exact ⟨ho, rfl⟩
    | single _ _ hne => contradiction
    | items _ hitems => cases hitems
  · rintro ⟨ho, rfl⟩
    exact .null ho

theorem writes_single_iff (hm : c.multiple = false) (hnull : v ≠ .null) :
    c.Writes v ts ↔ v.items? = none ∧ ∃ text, v.textOf = .ok text ∧ (text = [] → c.optional = true) ∧
      [text].filter (!·.isEmpty) = ts := by
  constructor
  · intro h
    cases h with
    | null => contradiction
    | single _ hitems _ htext ho => exact ⟨hitems, _, htext, ho, rfl⟩
    | items hr => simp [hm] at hr
  · rintro ⟨hitems, text, htext, ho, rfl⟩
    exact .single hm hitems hnull htext ho

theorem writes_items_iff (hm : c.multiple = true) (hnull : v ≠ .null) :
    c.Writes v ts ↔ ∃ items, v.items? = some items ∧ itemTexts items = .ok ts ∧
      (ts = [] → c.optional = true) := by
  constructor
  · intro h
    cases h with
    | null => contradiction
    | single hs => simp [hm] at hs
    | items _ hitems hts ho => exact ⟨_, hitems, hts, ho⟩
  · rintro ⟨items, hitems, hts, ho⟩
    exact .items hm hitems hts ho

variable (hv : argument c.key args = .ok v)

include hv

theorem repeatedTexts_eq_ok (hm : c.multiple = true) : repeatedTexts c args = .ok ts ↔ c.Writes v ts := by
  by_cases hnull : v = .null
  · subst hnull
    have hrepeated : repeatedTexts c args =
        if c.optional then .ok [] else .error (.fault ⟨.noValues, c.key⟩) := by
      rw [repeatedTexts, hv]
      rfl
    rw [hrepeated, writes_null_iff]
    cases c.optional <;> simp [eq_comm]
  · rw [writes_items_iff hm hnull]
    cases hitems : v.items? with
    | none =>
      have hrepeated : repeatedTexts c args = .error (.fault ⟨.notAList v.kind, c.key⟩) := by
        rw [repeatedTexts, hv]
        cases v with
        | null => contradiction
        | list _ => cases hitems
        | tuple _ => cases hitems
        | _ => rfl
      rw [hrepeated]
      exact ⟨nofun, fun ⟨_, hnone, _⟩ => (by cases hnone)⟩
    | some items =>
      have hrepeated : repeatedTexts c args = (itemTexts items).mapError .refusal >>= fun texts =>
          if texts.isEmpty && !c.optional then .error (.fault ⟨.noValues, c.key⟩) else pure texts := by
        rw [repeatedTexts, hv]
        cases v with
        | list _ =>
          obtain rfl := Option.some.inj hitems
          rfl
        | tuple _ =>
          obtain rfl := Option.some.inj hitems
          rfl
        | _ => cases hitems
      rw [hrepeated]
      constructor
      · intro h
        obtain ⟨texts, htexts, h⟩ := Except.bind_eq_ok.mp h
        split at h
        next => cases h
        next hgiven =>
          obtain rfl := Except.ok.inj h
          exact ⟨items, rfl, Except.mapError_eq_ok.mp htexts, fun hnil => by simpa [hnil] using hgiven⟩
      · rintro ⟨_, hsame, hts, ho⟩
        obtain rfl := Option.some.inj hsame
        refine Except.bind_eq_ok.mpr ⟨ts, Except.mapError_eq_ok.mpr hts, if_neg ?_⟩
        cases ts with
        | nil => simp [ho rfl]
        | cons _ _ => simp

theorem singleText_eq_ok (hm : c.multiple = false) :
    (singleText c args).map Option.toList = .ok ts ↔ c.Writes v ts := by
  by_cases hnull : v = .null
  · subst hnull
    have hsingle : singleText c args =
        if c.optional then .ok none else .error (.fault ⟨.missing, c.key⟩) := by
      rw [singleText, hv]
      rfl
    rw [hsingle, writes_null_iff]
    cases c.optional <;> simp [Except.map, eq_comm]
  · have hsingle : singleText c args =
        if v.items?.isSome then .error (.fault ⟨.severalValues, c.key⟩)
        else v.textOf.mapError .refusal >>= fun text =>
          if text.isEmpty then
            if c.optional then .ok none else .error (.fault ⟨.missing, c.key⟩)
          else pure (some text) := by
      rw [singleText, hv]
      simp only [bind, Except.bind]
    rw [hsingle, writes_single_iff hm hnull]
    cases hitems : v.items? with
    | some items => exact ⟨nofun, nofun⟩
    | none =>
      rw [Option.isSome_none, if_neg Bool.false_ne_true, Except.map_eq_ok]
      constructor
      · rintro ⟨_, hfound, rfl⟩
        obtain ⟨text, htext, hgiven⟩ := Except.bind_eq_ok.mp hfound
        refine ⟨rfl, text, Except.mapError_eq_ok.mp htext, ?_⟩
        cases text with
        | nil =>
          simp only [List.isEmpty_nil, if_true] at hgiven
          split at hgiven
          next ho =>
            cases hgiven
            exact ⟨fun _ => ho, rfl⟩
          next => cases hgiven
        | cons x rest =>
          cases hgiven
          exact ⟨nofun, rfl⟩
      · rintro ⟨-, text, htext, ho, rfl⟩
        cases text with
        | nil =>
          refine ⟨none, Except.bind_eq_ok.mpr ⟨[], Except.mapError_eq_ok.mpr htext, ?_⟩, rfl⟩
          exact if_pos (ho rfl)
        | cons x rest =>
          refine ⟨some (x :: rest), ?_, rfl⟩
          exact Except.bind_eq_ok.mpr ⟨x :: rest, Except.mapError_eq_ok.mpr htext, rfl⟩

theorem texts_eq_ok : c.texts args = .ok ts ↔ c.Writes v ts := by
  unfold texts
  split
  next hm => exact repeatedTexts_eq_ok hv hm
  next hm => exact singleText_eq_ok hv (by simpa using hm)

end

theorem Writes.presence {c : Capture} {v : Value} {ts : List Text} (h : c.Writes v ts) :
    (Schema.isAbsent v = true ∧ c.optional = true ∧ v.holdsNull = false ∧ ts = []) ∨
    (Schema.isAbsent v = false ∧ c.multiple = false ∧ v.items? = none ∧ ∃ text, v.textOf = .ok text ∧
      ts = [text].filter (!·.isEmpty) ∧ (text = [] → c.optional = true)) ∨
    (Schema.isAbsent v = false ∧ c.multiple = true ∧ ∃ items, v.items? = some items ∧
      itemTexts items = .ok ts ∧ (ts = [] → c.optional = true)) := by
  cases h with
  | null ho => exact .inl ⟨rfl, ho, rfl, rfl⟩
  | @single _ text hm hitems hv htext ho =>
    cases habsent : Schema.isAbsent v with
    | false => exact .inr (.inl ⟨rfl, hm, hitems, text, htext, rfl, ho⟩)
    | true =>
      cases v with
      | text t =>
        obtain rfl : t = text := Except.ok.inj htext
        have ht : t.isEmpty = true := habsent
        exact .inl ⟨rfl, ho (List.isEmpty_iff.mp ht), rfl, by simp [ht]⟩
      | null => contradiction
      | list vs => cases hitems
      | tuple vs => cases hitems
      | _ => cases habsent
  | @items _ items _ hm hitems hts ho =>
    cases habsent : Schema.isAbsent v with
    | false => exact .inr (.inr ⟨rfl, hm, items, hitems, hts, ho⟩)
    | true =>
      have hnil : items = [] := by
        cases v with
        | list vs => exact (Option.some.inj hitems).symm.trans (List.isEmpty_iff.mp habsent)
        | tuple vs => exact (Option.some.inj hitems).symm.trans (List.isEmpty_iff.mp habsent)
        | _ => cases hitems
      subst hnil
      obtain rfl := Except.ok.inj hts
      exact .inl ⟨rfl, ho rfl, by simp [Value.holdsNull, hitems], rfl⟩

theorem itemTexts_map_text (us : List Text) :
    itemTexts (us.map .text) = .ok (us.filter (!·.isEmpty)) := by
  induction us with
  | nil => rfl
  | cons u rest ih =>
    rw [List.map_cons, itemTexts, ih, List.filter_cons]
    · cases hu : u.isEmpty <;> simp [Value.textOf, Value.write, Except.mapError, bind, Except.bind, pure,
        Except.pure, hu]
    · simp

/-- The shape of what a capture writes for is written as well. It is written alike, unless a null is
lost: then it is written with more letters N. -/
theorem Writes.shaped {c : Capture} {v : Value} {ts : List Text} (h : c.Writes v ts) :
    ∃ us, c.Writes ((v.shaped.map Captured.value).getD .null) us ∧ (v.holdsNull = false → us = ts) ∧
      (v.holdsNull = true → ∀ lead : Text,
        lettersOf (ts.map (lead ++ ·)) < lettersOf (us.map (lead ++ ·))) := by
  rcases h.presence with ⟨habsent, ho, hnull, rfl⟩ | ⟨habsent, hm, hitems, text, htext, rfl, ho⟩ |
    ⟨habsent, hm, items, hitems, hts, ho⟩
  · have hshaped : v.shaped = none := by simp [Value.shaped, habsent]
    exact ⟨[], hshaped ▸ .null ho, fun _ => rfl, fun hn => by simp [hnull] at hn⟩
  · have hshaped : v.shaped = some (.one text) := by
      simp [Value.shaped, habsent, hitems, htext, Except.toOption]
    have hnull : v.holdsNull = false := by simp [Value.holdsNull, hitems]
    exact ⟨_, hshaped ▸ .single hm rfl nofun rfl ho, fun _ => rfl, fun hn => by simp [hnull] at hn⟩
  · obtain ⟨us, hus, hsame, hcount⟩ := textsOf_of_itemTexts hts
    have hshaped : v.shaped = some (.many us) := by
      simp [Value.shaped, habsent, hitems, hus, Except.toOption]
    have hnull : v.holdsNull = items.any Value.isNull := by simp [Value.holdsNull, hitems]
    have hmore : v.holdsNull = true → ∀ lead : Text,
        lettersOf (ts.map (lead ++ ·)) < lettersOf ((us.filter (!·.isEmpty)).map (lead ++ ·)) := by
      intro hn lead
      rw [hnull, List.any_eq_true] at hn
      have hpos := List.countP_pos_iff.mpr hn
      have hadded : 0 < items.countP Value.isNull * (letters lead + 1) :=
        Nat.mul_pos hpos (Nat.succ_pos _)
      have hsum := hcount lead
      omega
    refine ⟨us.filter (!·.isEmpty), hshaped ▸ .items hm rfl (itemTexts_map_text us) ?_,
      fun hn => hsame (hnull ▸ hn), hmore⟩
    intro hnil
    cases hn : v.holdsNull with
    | false => exact ho ((hsame (hnull ▸ hn)).symm.trans hnil)
    | true =>
      have hlt := hmore hn []
      rw [hnil] at hlt
      exact absurd hlt (Nat.not_lt_zero _)

end Capture

namespace Schema

open Outcome

variable {entries : Table Value Value} {cs : List Capture}

/-- The parameters that are left of a mapping once its shape is checked. -/
def shapedParams (entries : Table Value Value) (key : Key) : Option Value :=
  (Table.given key entries).shaped.map Captured.value

theorem gives_ownEntries (entries : Table Value Value) (cs : List Capture) :
    (encodeItems (.map entries) (cs.map .bare)).Gives
      (Table.entriesOf (fun key => Table.get? key.value entries) cs) := by
  induction cs with
  | nil => rfl
  | cons c rest ih =>
    have hown : (ownEntry c (.map entries)).Gives
        ((Table.get? c.key.value entries).map (c.key.value, ·)).toList := gives_ofExcept.mpr rfl
    refine gives_bind.mpr ⟨_, hown, gives_bind.mpr ⟨_, ih, gives_pure.mpr ?_⟩⟩
    rfl

theorem gives_shape_of_writes {c : Capture} {v : Value} {ts : List Text} (h : c.Writes v ts)
    (missing : Outcome (Option Value)) :
    Gives (if isAbsent v then if c.optional then pure none else missing else shapeOf c v)
      (v.shaped.map Captured.value) := by
  rcases h.presence with ⟨habsent, ho, -, -⟩ | ⟨habsent, hm, hitems, text, htext, -, -⟩ |
    ⟨habsent, hm, items, hitems, hts, -⟩
  · rw [if_pos habsent, if_pos ho]
    exact gives_pure.mpr (by simp [Value.shaped, habsent])
  · rw [if_neg (by simp [habsent])]
    simp only [shapeOf, hitems, hm, Bool.false_eq_true, if_false, htext]
    simp [gives_ofExcept, Except.map, Value.shaped, habsent, hitems, htext, Except.toOption, Captured.value]
  · obtain ⟨us, hus, -, -⟩ := textsOf_of_itemTexts hts
    rw [if_neg (by simp [habsent])]
    simp only [shapeOf, hitems, hm, if_true, hus]
    simp [gives_ofExcept, Except.map, Value.shaped, habsent, hitems, hus, Except.toOption, Captured.value]

theorem gives_shapes_of_writes (h : ∀ c ∈ cs, ∃ ts, c.Writes (Table.given c.key entries) ts) :
    (shapes entries cs).Gives (Table.entriesOf (shapedParams entries) cs) := by
  induction cs with
  | nil => rfl
  | cons c rest ih =>
    obtain ⟨⟨ts, hc⟩, hrest⟩ := List.forall_mem_cons.mp h
    rw [shapes_cons]
    refine gives_bind.mpr ⟨_, gives_shape_of_writes hc _, gives_bind.mpr ⟨_, ih hrest, gives_pure.mpr ?_⟩⟩
    rfl

theorem encode_of_writes (h : ∀ c ∈ cs, ∃ ts, c.Writes (Table.given c.key entries) ts) :
    (route (cs.map .bare)).encode (.map entries) =
      .ok (.ofEntries (Table.entriesOf (shapedParams entries) cs)) := by
  have hcaptures : (cs.map SchemaItem.bare : List (SchemaItem Schema)).flatMap SchemaItem.captures =
      cs := by
    simp [List.flatMap_map, SchemaItem.captures]
  let own := Table.ofEntries (Table.entriesOf (fun key => Table.get? key.value entries) cs)
  have hown : ∀ c ∈ cs, Table.given c.key own = Table.given c.key entries := by
    intro c hc
    rw [Table.given, Table.get?_entriesOf _ (List.mem_map_of_mem hc), Table.given]
  have hshapes : (shapes own cs).Gives (Table.entriesOf (shapedParams entries) cs) := by
    have hentries : Table.entriesOf (shapedParams own) cs = Table.entriesOf (shapedParams entries) cs := by
      refine List.flatMap_congr fun c hc => ?_
      rw [shapedParams, hown c hc, shapedParams]
    rw [← hentries]
    exact gives_shapes_of_writes fun c hc => hown c hc ▸ h c hc
  have hchecked : checkShape cs (.map own) =
      .ok (.ofEntries (Table.entriesOf (shapedParams entries) cs)) := by
    have hfinish : finish (shapes own cs >>= fun es => pure (Table.ofEntries es)) =
        .ok (.ofEntries (Table.entriesOf (shapedParams entries) cs)) :=
      finish_eq_ok.mpr ⟨_, gives_bind.mpr ⟨_, hshapes, gives_pure.mpr rfl⟩, rfl⟩
    cases cs with
    | nil => rfl
    | cons c rest => exact hfinish
  have hgives : encodeItems (.map entries) (cs.map .bare) =
      .ok (Table.entriesOf (fun key => Table.get? key.value entries) cs, []) := gives_ownEntries entries cs
  rw [encode, encodeSole_bare, hcaptures]
  simp only [hgives]
  exact hchecked

end Schema

/-- Where `x` has a result, the captures write texts, and `y` has a result as well: the same one if nothing
is lost for any of the captures, and a heavier one otherwise. -/
def Follows {α : Type} (given : Arguments) (Lost : Capture → Prop) (weight : α → Nat)
    (cs : List Capture) (x y : Except RenderError α) : Prop :=
  ∀ a, x = .ok a → (∀ c ∈ cs, ∃ ts, c.texts given = .ok ts) ∧
    ∃ b, y = .ok b ∧ ((∀ c ∈ cs, ¬ Lost c) → b = a) ∧ ((∃ c ∈ cs, Lost c) → weight a < weight b)

namespace Follows

variable {α β γ : Type} {given : Arguments} {Lost : Capture → Prop} {cs ds : List Capture}
  {weight : α → Nat} {weight' : β → Nat} {weight'' : γ → Nat} {x y : Except RenderError α}
  {x' y' : Except RenderError β}

theorem same (weight : α → Nat) (a : α) : Follows given Lost weight [] (.ok a) (.ok a) := by
  intro b hb
  exact ⟨nofun, a, rfl, fun _ => Except.ok.inj hb, fun ⟨_, hc, _⟩ => by cases hc⟩

theorem map {f : α → β} (hf : ∀ a b, weight a < weight b → weight' (f a) < weight' (f b))
    (h : Follows given Lost weight cs x y) : Follows given Lost weight' cs (x.map f) (y.map f) := by
  intro _ hx
  obtain ⟨a, ha, rfl⟩ := Except.map_eq_ok.mp hx
  obtain ⟨hwrites, b, hb, hsame, hmore⟩ := h a ha
  refine ⟨hwrites, f b, ?_, fun hkept => congrArg f (hsame hkept), fun hlost => hf a b (hmore hlost)⟩
  rw [hb]
  rfl

/-- Results put together weigh what their parts weigh. -/
theorem both {f : α → β → γ} (hf : ∀ a b, weight'' (f a b) = weight a + weight' b)
    (h : Follows given Lost weight cs x y) (h' : Follows given Lost weight' ds x' y') :
    Follows given Lost weight'' (cs ++ ds) (x >>= fun a => x' >>= fun b => pure (f a b))
      (y >>= fun a => y' >>= fun b => pure (f a b)) := by
  intro _ hx
  obtain ⟨a, ha, hx⟩ := Except.bind_eq_ok.mp hx
  obtain ⟨a', ha', hx⟩ := Except.bind_eq_ok.mp hx
  obtain rfl := Except.ok.inj hx
  obtain ⟨hwrites, b, hb, hsame, hmore⟩ := h a ha
  obtain ⟨hwrites', b', hb', hsame', hmore'⟩ := h' a' ha'
  refine ⟨List.forall_mem_append.mpr ⟨hwrites, hwrites'⟩, f b b', ?_, ?_, ?_⟩
  · rw [hb, hb']
    rfl
  · intro hkept
    obtain ⟨hkept, hkept'⟩ := List.forall_mem_append.mp hkept
    rw [hsame hkept, hsame' hkept']
  · rintro ⟨c, hc, hlost⟩
    -- what is lost on one side only leaves the other side as it was
    have hle : weight a ≤ weight b := by
      by_cases hany : ∃ c ∈ cs, Lost c
      · exact (hmore hany).le
      · exact (congrArg weight (hsame fun c hc hl => hany ⟨c, hc, hl⟩)).ge
    have hle' : weight' a' ≤ weight' b' := by
      by_cases hany : ∃ c ∈ ds, Lost c
      · exact (hmore' hany).le
      · exact (congrArg weight' (hsame' fun c hc hl => hany ⟨c, hc, hl⟩)).ge
    rw [hf, hf]
    rcases List.mem_append.mp hc with hc | hc
    · have hlt := hmore ⟨c, hc, hlost⟩
      omega
    · have hlt := hmore' ⟨c, hc, hlost⟩
      omega

end Follows

/-- The texts of a capture follow, whatever lead they are written with. -/
def Capture.TextsFollow (given shaped : Arguments) (Lost : Capture → Prop) (c : Capture) : Prop :=
  ∀ lead : Text, Follows given Lost (fun ts => lettersOf (ts.map (lead ++ ·))) [c]
    (c.texts given) (c.texts shaped)

theorem renderPart_capture (args : Arguments) (c : Capture) :
    renderPart args (.capture c) = (c.texts args).map fun ts =>
      if ts.isEmpty then [] else c.lead ++ Text.join ['/'] ts := by
  rw [renderPart, Capture.texts]
  split
  · rfl
  · cases singleText c args with
    | error e => rfl
    | ok text? => cases text? <;> simp [Except.map, Text.join]

theorem render_ofParts_eq (args : Arguments) (parts : List Part) :
    (Step.ofParts parts).render args = (renderParts args parts).map ([·]) := by
  match parts with
  | [] => rfl
  | [part] =>
    rw [Step.ofParts, Step.render, renderParts, renderParts]
    cases renderPart args part with
    | error e => rfl
    | ok text => simp [Except.map, bind, Except.bind, pure, Except.pure]
  | _ :: _ :: _ => rfl

section

variable {given shaped : Arguments} {Lost : Capture → Prop}

theorem follows_renderPart {part : Part}
    (h : ∀ c ∈ part.capture?.toList, c.TextsFollow given shaped Lost) :
    Follows given Lost letters part.capture?.toList (renderPart given part) (renderPart shaped part) := by
  cases part with
  | literal text optional => exact .same letters text
  | capture c =>
    rw [renderPart_capture, renderPart_capture]
    refine (h c (List.mem_singleton_self c) []).map fun ts us hlt => ?_
    have hlt : lettersOf ts < lettersOf us := by simpa using hlt
    have hslash : letters ['/'] = 0 := rfl
    have hus : us.isEmpty = false := by
      cases us with
      | nil => exact absurd hlt (Nat.not_lt_zero _)
      | cons _ _ => rfl
    rw [hus, if_neg Bool.false_ne_true, letters_append, letters_join hslash]
    split
    · exact Nat.lt_add_left _ (Nat.lt_of_le_of_lt (Nat.zero_le _) hlt)
    · rw [letters_append, letters_join hslash]
      exact Nat.add_lt_add_left hlt _

theorem follows_renderParts {parts : List Part}
    (h : ∀ c ∈ parts.filterMap Part.capture?, c.TextsFollow given shaped Lost) :
    Follows given Lost letters (parts.filterMap Part.capture?) (renderParts given parts)
      (renderParts shaped parts) := by
  induction parts with
  | nil => exact .same letters []
  | cons part rest ih =>
    have hcons : (part :: rest).filterMap Part.capture? =
        part.capture?.toList ++ rest.filterMap Part.capture? := by
      cases part <;> rfl
    rw [hcons] at h ⊢
    obtain ⟨hpart, hrest⟩ := List.forall_mem_append.mp h
    exact .both letters_append (follows_renderPart hpart) (ih hrest)

theorem follows_renderEntry (key : Text) {parts : List Part}
    (h : ∀ c ∈ parts.filterMap Part.capture?, c.TextsFollow given shaped Lost) :
    Follows given Lost lettersOf (parts.filterMap Part.capture?) (renderEntry given key parts)
      (renderEntry shaped key parts) := by
  have hjoined : Follows given Lost lettersOf (parts.filterMap Part.capture?)
      ((renderParts given parts).map fun text => if text.isEmpty then [] else [key ++ '=' :: text])
      ((renderParts shaped parts).map fun text =>
        if text.isEmpty then [] else [key ++ '=' :: text]) := by
    refine (follows_renderParts h).map fun s t hlt => ?_
    have ht : t.isEmpty = false := by
      cases t with
      | nil => exact absurd hlt (Nat.not_lt_zero _)
      | cons _ _ => rfl
    have hpiece : ∀ u : Text, lettersOf [key ++ '=' :: u] = letters key + letters u := by
      intro u
      have hmark : letters ('=' :: u) = letters u := List.count_cons_of_ne (by decide)
      rw [lettersOf, List.flatten_singleton, letters_append, hmark]
    rw [ht, if_neg Bool.false_ne_true, hpiece]
    split
    · exact Nat.lt_add_left _ (Nat.lt_of_le_of_lt (Nat.zero_le _) hlt)
    · rw [hpiece]
      exact Nat.add_lt_add_left hlt _
  match parts, h, hjoined with
  | [], _, hjoined => exact hjoined
  | [.literal _ _], _, hjoined => exact hjoined
  | .literal _ _ :: _ :: _, _, hjoined => exact hjoined
  | .capture _ :: _ :: _, _, hjoined => exact hjoined
  | [.capture c], h, hjoined =>
    rw [renderEntry, renderEntry]
    cases hm : c.multiple with
    | false => exact hjoined
    | true =>
      have htexts : ∀ args, repeatedTexts c args = c.texts args := by
        intro args
        rw [Capture.texts, if_pos hm]
      simp only [if_true, htexts]
      have hc := h c (List.mem_singleton_self c) (key ++ '=' :: c.lead)
      refine hc.map fun ts us hlt => ?_
      simpa using hlt

theorem follows_renderQuery {entries : List (Text × List Part)}
    (h : ∀ c ∈ (entries.flatMap (·.2)).filterMap Part.capture?, c.TextsFollow given shaped Lost) :
    Follows given Lost lettersOf ((entries.flatMap (·.2)).filterMap Part.capture?)
      (renderQuery given entries) (renderQuery shaped entries) := by
  induction entries with
  | nil => exact .same lettersOf []
  | cons entry rest ih =>
    rw [List.flatMap_cons, List.filterMap_append] at h ⊢
    obtain ⟨hentry, hrest⟩ := List.forall_mem_append.mp h
    exact .both lettersOf_append (follows_renderEntry entry.1 hentry) (ih hrest)

theorem follows_renderPaths {pss : List (List Part)} {block : List Step}
    (hblock : ∀ args, renderPaths args block = .ok [])
    (h : ∀ c ∈ pss.flatten.filterMap Part.capture?, c.TextsFollow given shaped Lost) :
    Follows given Lost lettersOf (pss.flatten.filterMap Part.capture?)
      (renderPaths given (pss.map Step.ofParts ++ block))
      (renderPaths shaped (pss.map Step.ofParts ++ block)) := by
  induction pss with
  | nil =>
    have hnil : Follows given Lost lettersOf [] (renderPaths given block) (renderPaths shaped block) := by
      rw [hblock, hblock]
      exact .same lettersOf []
    exact hnil
  | cons parts rest ih =>
    rw [List.flatten_cons, List.filterMap_append] at h ⊢
    obtain ⟨hparts, hrest⟩ := List.forall_mem_append.mp h
    rw [List.map_cons, List.cons_append, renderPaths, renderPaths, render_ofParts_eq, render_ofParts_eq]
    refine .both lettersOf_append ((follows_renderParts hparts).map fun s t hlt => ?_) (ih hrest)
    simpa [lettersOf] using hlt

theorem Pattern.ReadSplit.follows_renderSteps {σ : Type} {split : QuerySplit} {p : Pattern σ}
    (hread : ReadSplit split p)
    (h : ∀ c ∈ p.allParts.filterMap Part.capture?, c.TextsFollow given shaped Lost) :
    Follows given Lost letters (p.allParts.filterMap Part.capture?) (renderSteps given p.readSteps)
      (renderSteps shaped p.readSteps) := by
  rw [allParts, List.filterMap_append] at h ⊢
  obtain ⟨hpath, hentries⟩ := List.forall_mem_append.mp h
  have hblock : ∀ args, renderPaths args (blockSteps p) = .ok [] := by
    intro args
    unfold blockSteps
    split <;> rfl
  have hquery : Follows given Lost letters ((p.queryParts.flatMap (·.2)).filterMap Part.capture?)
      (renderLastQuery given p.readSteps) (renderLastQuery shaped p.readSteps) := by
    rw [readSteps, renderLastQuery_append, renderLastQuery_append, blockSteps]
    cases hb : p.rootBlock? with
    | none =>
      rw [hread.queryParts_eq_nil hb]
      exact .same letters []
    | some es =>
      have hjoin : ∀ ts us, lettersOf ts < lettersOf us →
          letters (Text.join ['&'] ts) < letters (Text.join ['&'] us) := by
        intro ts us hlt
        rwa [letters_join rfl, letters_join rfl]
      exact (follows_renderQuery hentries).map hjoin
  refine .both (fun paths query => ?_) (follows_renderPaths hblock hpath) hquery
  rw [letters_withQuery, letters_joinPath]

end

theorem Capture.Writes.of_signature {c d : Capture} {v : Value} {ts : List Text} (h : c.Writes v ts)
    (heq : c.signature = d.signature) : d.Writes v ts := by
  obtain ⟨-, ho, hm⟩ : c.key = d.key ∧ c.optional = d.optional ∧ c.multiple = d.multiple := by
    simpa [Capture.signature] using heq
  cases h with
  | null hopt => exact .null (ho ▸ hopt)
  | single hmul hitems hv htext hopt => exact .single (hm ▸ hmul) hitems hv htext (ho ▸ hopt)
  | items hmul hitems hts hopt => exact .items (hm ▸ hmul) hitems hts (ho ▸ hopt)

namespace Route

open Pattern

variable {split : QuerySplit} {r : Route} {entries : Table Value Value}

theorem render_map_eq_ok (hread : ReadSplit split r.pattern) {text : Text} :
    r.render (.map entries) = .ok text ↔
      ∃ written, renderSteps (.map entries) r.pattern.readSteps = .ok written ∧ orRoot written = text := by
  simp only [render, renderer_of_read hread, bind, Except.bind, Renderer.run_map]
  rw [Except.mapError_eq_ok, renderRoute, Except.map_eq_ok]

theorem follows_shaped {cs : List Capture} {c : Capture} (hkey : c.key ∈ cs.map Capture.key) :
    c.TextsFollow (.map entries) (.ofEntries (Table.entriesOf (Schema.shapedParams entries) cs))
      (fun c => (Table.given c.key entries).holdsNull = true) := by
  intro lead ts hts
  have hgiven : argument c.key (.map entries) = .ok (Table.given c.key entries) := rfl
  have hshaped : argument c.key (.ofEntries (Table.entriesOf (Schema.shapedParams entries) cs)) =
      .ok ((Schema.shapedParams entries c.key).getD .null) := by
    rw [Value.ofEntries, argument, Table.get?_entriesOf _ hkey]
  obtain ⟨us, hus, hsame, hmore⟩ := ((Capture.texts_eq_ok hgiven).mp hts).shaped
  refine ⟨?_, us, (Capture.texts_eq_ok hshaped).mpr hus, fun hkept => hsame ?_, fun hlost => hmore ?_ lead⟩
  · exact List.forall_mem_singleton.mpr ⟨ts, hts⟩
  · simpa using hkept c (List.mem_singleton_self c)
  · simpa using hlost

/-- What a pattern that was read is rendered for is encoded as well, and as the same text just where no
list given for a capture holds null. -/
theorem encode_of_render {source : Text} {atEnd : Bool} (h : parse source atEnd = .ok r) {text : Text}
    (hrender : r.render (.map entries) = .ok text) :
    ∃ written, r.encode (.map entries) = .ok (.ok written) ∧
      (written = text ↔
        ∀ c ∈ r.pattern.captures 0 false, (Table.given c.1.key entries).holdsNull = false) := by
  have hread := parse_eq_ok h
  have hsignatures := (ready_of_layout hread.layout_steps).signatures_schema
  have hkeys : r.schema.captures.map Capture.key = (r.pattern.captures 0 false).map (·.1.key) := by
    have hfst := congrArg (List.map Prod.fst) hsignatures
    rwa [List.map_map, List.map_map] at hfst
  have hparts := hread.captures_eq_allParts
  obtain ⟨path, hpath, rfl⟩ := (render_map_eq_ok hread).mp hrender
  have hfollows : ∀ c ∈ r.pattern.allParts.filterMap Part.capture?, c.TextsFollow (.map entries)
      (.ofEntries (Table.entriesOf (Schema.shapedParams entries) r.schema.captures))
      (fun c => (Table.given c.key entries).holdsNull = true) := by
    intro c hc
    rw [← hparts] at hc
    obtain ⟨d, hd, rfl⟩ := List.mem_map.mp hc
    exact follows_shaped (hkeys ▸ List.mem_map_of_mem hd)
  obtain ⟨hwrites, written, hwritten, hsame, hmore⟩ := hread.follows_renderSteps hfollows path hpath
  have hschema : ∀ c ∈ r.schema.captures, ∃ ts, c.Writes (Table.given c.key entries) ts := by
    intro c hc
    have hsignature : c.signature ∈ (r.pattern.captures 0 false).map (·.1.signature) :=
      hsignatures ▸ List.mem_map_of_mem hc
    obtain ⟨d, hd, heq⟩ := List.mem_map.mp hsignature
    obtain ⟨ts, hts⟩ := hwrites d.1 (hparts ▸ List.mem_map_of_mem hd)
    have hkey : d.1.key = c.key := congrArg Prod.fst heq
    have hd := (Capture.texts_eq_ok rfl).mp hts
    exact ⟨ts, hkey ▸ hd.of_signature heq⟩
  have hencode := Schema.encode_of_writes hschema
  rw [schema, ← hread.schema_eq] at hencode
  refine ⟨orRoot written, encode_eq_ok_iff.mpr ⟨_, hencode, ?_⟩, ?_⟩
  · exact (render_map_eq_ok hread).mpr ⟨written, hwritten, rfl⟩
  · rw [← hparts] at hsame hmore
    constructor
    · intro heq d hd
      by_contra hnull
      have hlost := hmore ⟨d.1, List.mem_map_of_mem hd, by simpa using hnull⟩
      have hletters := congrArg letters heq
      rw [letters_orRoot, letters_orRoot] at hletters
      omega
    · intro hkept
      refine congrArg orRoot (hsame fun c hc => ?_)
      obtain ⟨d, hd, rfl⟩ := List.mem_map.mp hc
      simpa using hkept d hd

/-- Empty texts, and a null that is given for a capture itself, are left out by both. -/
theorem encode_of_render_left_out :
    let source : Text := "/u/:rest+?q=:q?&t={t-:tags*}"
    let entries : Table Value Value := [(.text "rest", .tuple [.text "a", .bool true, .text []]),
      (.text "q", .null), (.text "tags", .list [.text "x", .text []])]
    ∃ r, parse source true = .ok r ∧ r.render (.map entries) = .ok ("/u/a/True?t=t-x" : Text) ∧
      (∀ c ∈ r.pattern.captures 0 false, (Table.given c.1.key entries).holdsNull = false) ∧
      r.encode (.map entries) = .ok (.ok "/u/a/True?t=t-x") := by
  intro source entries
  let pattern : Pattern Schema := .queryParams
    (.concat (.literal "u") (.modified .oneOrMore (.param "rest")) false)
    [("q", .modified .optional (.param "q")),
      ("t", .prefixed "t-" (.modified .zeroOrMore (.param "tags")))]
  have hr : parse source true = .ok ⟨pattern, true⟩ := by rfl
  have hrender : (⟨pattern, true⟩ : Route).render (.map entries) = .ok ("/u/a/True?t=t-x" : Text) := by rfl
  have hkept : ∀ c ∈ pattern.captures 0 false, (Table.given c.1.key entries).holdsNull = false := by decide
  obtain ⟨written, hencode, hiff⟩ := encode_of_render hr hrender
  obtain rfl := hiff.mpr hkept
  exact ⟨⟨pattern, true⟩, hr, hrender, hkept, hencode⟩

/-- A null within a list is skipped by rendering, and encoded as its text. -/
theorem null_item_encoded :
    let entries : Table Value Value := [(.text "p", .list [.text "a", .null])]
    ∃ r, parse "/:p+" true = .ok r ∧ r.render (.map entries) = .ok ("/a" : Text) ∧
      r.encode (.map entries) = .ok (.ok "/a/None") := by
  intro entries
  have hr : parse "/:p+" true = .ok ⟨.modified .oneOrMore (.param "p"), true⟩ := by rfl
  exact ⟨_, hr, rfl, rfl⟩

end Route

end RoutePattern
