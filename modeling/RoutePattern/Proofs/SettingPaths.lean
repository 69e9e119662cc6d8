import RoutePattern.Proofs.DistinctKeys
import RoutePattern.Settings

/-!
What settings hold at a path, after mappings were merged in and values were set at paths one after the other:
what was given last, unless a section on the way was replaced since.
-/

namespace RoutePattern

namespace Value

def outer : Value → Value
  | map _ => map []
  | v => v

theorem Proper.put {entries : List (Value × Value)} {v : Value} (h : (Value.map entries).Proper)
    (hv : v.Proper) (key : Value) : (Value.map (Table.put key v entries)).Proper := by
  refine .map (h.distinct.put key v) fun e he => ?_
  rcases Table.mem_or_of_put he with hm | rfl
  · exact h.values e hm
  · exact hv

theorem Proper.get? {entries : List (Value × Value)} {key v : Value}
    (h : (Value.map entries).Proper)
    (hv : Table.get? key entries = some v) : v.Proper := by
  obtain ⟨k, hk⟩ := Table.exists_mem_of_get? hv
  exact h.values _ hk

theorem text_beq_text (s t : Text) : (text s == text t) = (s == t) := rfl

theorem entries?_eq_some {v : Value} {entries : List (Value × Value)} :
    v.entries? = some entries ↔ v = map entries := by
  cases v <;> simp [entries?]

theorem proper_empty : (map []).Proper := .map .nil (by simp)

end Value

namespace Settings

open Value (outer)

mutual

/-- Settings with every entry of a source put in place: a section is merged into a section, and anything else
replaces what was there. -/
def merged (target : Settings) : List (Value × Value) → Settings
  | [] => target
  | (key, v) :: rest => merged (Table.put key (mergedValue (Table.get? key target) v) target) rest

def mergedValue (old : Option Value) : Value → Value
  | .map entries =>
    match old with
    | some (.map section_) => .map (merged section_ entries)
    | _ => .map entries
  | v => v

end

/-- The entries of a section; none where there is no section. -/
def sectionAt (part : Text) (s : Settings) : Settings :=
  match Table.get? (.text part) s with
  | some (.map entries) => entries
  | _ => []

/-- Settings with the value at a path replaced. What stands in the way and is no section is replaced by one. -/
def placed (v : Value) : List Text → Settings → Settings
  | [], s => s
  | [last], s => Table.put (.text last) v s
  | part :: rest, s => Table.put (.text part) (.map (placed v rest (sectionAt part s))) s

/-- One thing that is said about the settings: a mapping that is merged in, or the value at a path. -/
inductive Layer where
  | mapping (entries : Settings)
  | assignment (parts : List Text) (value : Value)

def Layer.apply (s : Settings) : Layer → Settings
  | mapping entries => merged s entries
  | assignment parts v => placed v parts s

theorem mergedValue_of_entries? {v : Value} (h : v.entries? = none) (old : Option Value) :
    mergedValue old v = v := by
  cases v with
  | map entries => cases h
  | _ => rfl

theorem mergedValue_some_of_entries? {w : Value} (h : w.entries? = none) (entries : Settings) :
    mergedValue (some w) (.map entries) = .map entries := by
  cases w with
  | map inner => cases h
  | _ => simp [mergedValue]

theorem mergedValue_none (v : Value) : mergedValue none v = v := by
  cases v with
  | map entries => simp [mergedValue]
  | _ => rfl

theorem outer_mergedValue (old : Option Value) (v : Value) : (mergedValue old v).outer = v.outer := by
  cases v with
  | map entries =>
    rcases old with _ | w
    · rw [mergedValue_none]
    · cases w with
      | map section_ => simp [mergedValue, outer]
      | _ => simp [mergedValue]
  | _ => rfl

theorem merged_eq_foldl (target : Settings) (entries : List (Value × Value)) :
    merged target entries =
      entries.foldl (fun t e => Table.put e.1 (mergedValue (Table.get? e.1 t) e.2) t) target := by
  induction entries generalizing target with
  | nil => rfl
  | cons e rest ih => exact ih _

theorem get?_merged (part : Text) (target : Settings) {entries : Settings}
    (h : Table.Distinct entries) :
    Table.get? (.text part) (merged target entries) =
      ((Table.get? (.text part) entries).map (mergedValue (Table.get? (.text part) target))).or
        (Table.get? (.text part) target) := by
  rw [merged_eq_foldl]
  exact Table.get?_foldl_put_text part mergedValue target h

theorem proper_merged_of_values {target entries : Settings} (htarget : (Value.map target).Proper)
    (h : ∀ e ∈ entries, ∀ {old}, (∀ w, old = some w → w.Proper) → (mergedValue old e.2).Proper) :
    (Value.map (merged target entries)).Proper := by
  induction entries generalizing target with
  | nil => exact htarget
  | cons e rest ih =>
    obtain ⟨hfirst, hrest⟩ := List.forall_mem_cons.mp h
    exact ih (htarget.put (hfirst fun w hw => htarget.get? hw) e.1) hrest

theorem proper_mergedValue {v : Value} (h : v.Proper) :
    ∀ {old : Option Value}, (∀ w, old = some w → w.Proper) → (mergedValue old v).Proper := by
  induction h with
  | plain h =>
    intro old _
    rw [mergedValue_of_entries? h]
    exact .plain h
  | map hkeys hvalues ih =>
    intro old hold
    rcases old with _ | w
    · simpa [mergedValue] using Value.Proper.map hkeys hvalues
    · cases hw : w.entries? with
      | none =>
        rw [mergedValue_some_of_entries? hw]
        exact .map hkeys hvalues
      | some section_ =>
        obtain rfl := Value.entries?_eq_some.mp hw
        simpa [mergedValue] using proper_merged_of_values (hold _ rfl) ih

theorem proper_merged {target entries : Settings} (htarget : (Value.map target).Proper)
    (h : (Value.map entries).Proper) : (Value.map (merged target entries)).Proper :=
  proper_merged_of_values htarget fun e he => proper_mergedValue (h.values e he)

theorem proper_sectionAt {s : Settings} (h : (Value.map s).Proper) (part : Text) :
    (Value.map (sectionAt part s)).Proper := by
  unfold sectionAt
  split
  next hget => exact h.get? hget
  next => exact Value.proper_empty

theorem proper_placed {s : Settings} {v : Value} (h : (Value.map s).Proper) (hv : v.Proper)
    (parts : List Text) : (Value.map (placed v parts s)).Proper := by
  induction parts generalizing s with
  | nil => exact h
  | cons part rest ih =>
    cases rest with
    | nil => exact h.put hv _
    | cons next rest => exact h.put (ih (proper_sectionAt h part)) _

/-- Whether a path ends early in a value, at something that is no section. -/
def endsEarly : List Text → Value → Bool
  | [], _ => false
  | part :: rest, .map entries => (Table.get? (.text part) entries).any (endsEarly rest)
  | _ :: _, _ => true

theorem find?_cons_map (part : Text) (rest : List Text) (entries : Settings) :
    find? (part :: rest) (.map entries) = (Table.get? (.text part) entries).bind (find? rest) := rfl

theorem find?_of_entries? {part : Text} {rest : List Text} {v : Value} (h : v.entries? = none) :
    find? (part :: rest) v = none ∧ endsEarly (part :: rest) v = true := by
  cases v with
  | map entries => cases h
  | _ => exact ⟨rfl, rfl⟩

theorem find?_sectionAt (part next : Text) (rest : List Text) (s : Settings) :
    find? (next :: rest) (.map (sectionAt part s)) = find? (part :: next :: rest) (.map s) := by
  rw [find?_cons_map part]
  unfold sectionAt
  cases hget : Table.get? (.text part) s with
  | none => rfl
  | some v =>
    cases v with
    | map entries => rfl
    | _ => rfl

/-- A mapping that is merged in decides what is found at a path: its own value there, into which only sections
are merged; nothing, where the path ends early in it; and what was there before, where it says nothing. -/
theorem find?_merged_eq (path : List Text) (s : Settings) {entries : Settings}
    (h : (Value.map entries).Proper) :
    find? path (.map (merged s entries)) =
      match find? path (.map entries) with
      | some v => some (mergedValue (find? path (.map s)) v)
      | none => if endsEarly path (.map entries) then none else find? path (.map s) := by
  induction path generalizing s entries with
  | nil => simp [find?, mergedValue]
  | cons part rest ih =>
    rw [find?_cons_map, find?_cons_map, get?_merged part s h.distinct]
    cases hget : Table.get? (.text part) entries with
    | none => simp [endsEarly, hget, find?]
    | some v =>
      -- only a section that meets a section is merged; in all other cases `v` takes the place
      simp only [Option.map_some, Option.some_or, Option.bind_some, endsEarly, hget, Option.any_some]
      cases hv : v.entries? with
      | none =>
        rw [mergedValue_of_entries? hv]
        cases rest with
        | nil => simp [find?, mergedValue_of_entries? hv]
        | cons next rest => simp [find?_of_entries? hv]
      | some inner =>
        obtain rfl := Value.entries?_eq_some.mp hv
        rw [find?_cons_map part]
        cases hold : Table.get? (.text part) s with
        | none =>
          rw [mergedValue_none]
          cases find? rest (.map inner) <;> simp [mergedValue_none]
        | some w =>
          cases hw : w.entries? with
          | none =>
            rw [mergedValue_some_of_entries? hw]
            cases rest with
            | nil => simp [find?, mergedValue_some_of_entries? hw]
            | cons next rest =>
              rw [Option.bind_some, (find?_of_entries? hw).1]
              cases find? (next :: rest) (.map inner) <;> simp [mergedValue_none]
          | some section_ =>
            obtain rfl := Value.entries?_eq_some.mp hw
            simpa [mergedValue] using ih section_ (h.get? hget)

/-- Up to what a mapping holds, a mapping that is merged in gives the value at a path or leaves the one that is
there, unless the path ends early in it. -/
theorem find?_merged (path : List Text) (s : Settings) {entries : Settings}
    (h : (Value.map entries).Proper) :
    (find? path (.map (merged s entries))).map outer =
      ((find? path (.map entries)).or
        (if endsEarly path (.map entries) then none else find? path (.map s))).map outer := by
  rw [find?_merged_eq path s h]
  cases find? path (.map entries) with
  | none => rfl
  | some v => simp [outer_mergedValue]

/-- A value that is set at some parts gives what stands there at a path, and what stands elsewhere is left. -/
theorem find?_placed (path : List Text) {parts : List Text} (hparts : parts ≠ []) (v : Value)
    (s : Settings) :
    (find? path (.map (placed v parts s))).map outer =
      ((find? path (.map (placed v parts []))).or
        (if parts.isPrefixOf path then none else find? path (.map s))).map outer := by
  induction parts generalizing path s with
  | nil => exact absurd rfl hparts
  | cons part rest ih =>
    cases path with
    | nil => cases rest <;> rfl
    | cons first path =>
      cases rest with
      | nil =>
        simp only [placed, find?, Table.get?_put_text, Table.get?, Value.text_beq_text]
        by_cases hpart : part = first <;> simp [hpart]
      | cons next rest =>
        simp only [placed, find?, Table.get?_put_text, Table.get?, Value.text_beq_text]
        by_cases hpart : part = first
        · subst hpart
          simp only [BEq.rfl, if_true, Option.bind_some]
          cases path with
          | nil => rfl
          | cons second path =>
            rw [ih (second :: path) (by simp) (sectionAt part s), find?_sectionAt]
            simp [find?, sectionAt, Table.get?]
        · simp [hpart]

namespace Layer

/-- The value that is given at a path. -/
def gives (path : List Text) : Layer → Option Value
  | mapping entries => find? path (.map entries)
  | assignment parts v => find? path (.map (placed v parts []))

/-- Whether a section that a path goes through is replaced, or the value at the path itself. -/
def cuts (path : List Text) : Layer → Bool
  | mapping entries => endsEarly path (.map entries)
  | assignment parts _ => !parts.isEmpty && parts.isPrefixOf path

/-- Whether the keys of every mapping that is said are pairwise different. -/
def Proper : Layer → Prop
  | mapping entries => (Value.map entries).Proper
  | assignment _ v => v.Proper

/-- The value at a path after one more thing was said, from the one before. -/
def next (path : List Text) (before : Option Value) (l : Layer) : Option Value :=
  (l.gives path).or (if l.cuts path then none else before)

theorem proper_apply {l : Layer} (hl : l.Proper) {s : Settings} (h : (Value.map s).Proper) :
    (Value.map (l.apply s)).Proper := by
  cases l with
  | mapping entries => exact proper_merged h hl
  | assignment parts v => exact proper_placed h hl parts

theorem find?_apply {l : Layer} (hl : l.Proper) (path : List Text) (s : Settings) :
    (find? path (.map (l.apply s))).map outer = (l.next path (find? path (.map s))).map outer := by
  cases l with
  | mapping entries => exact find?_merged path s hl
  | assignment parts v =>
    by_cases hparts : parts = []
    · subst hparts
      cases path <;> rfl
    · simpa [apply, next, gives, cuts, hparts] using find?_placed path hparts v s

end Layer

/-- The value that is given last at a path, where nothing cut the path since. -/
def lastGiven (path : List Text) (said : List Layer) : Option Value :=
  said.foldl (Layer.next path) none

/-- The place of a routing setting in the routing section. -/
def inSection (name : Text) : List Text := ["routing", name]

/-- The place of a routing setting at the top. -/
def atTop (name : Text) : List Text := [name]

/-- The value of a routing setting: the last one in the routing section, or else the last one at the
top. -/
def chosen? (name : Text) (said : List Layer) : Option Value :=
  (lastGiven (inSection name) said).or (lastGiven (atTop name) said)

theorem proper_foldl_apply {said : List Layer} (hsaid : ∀ l ∈ said, l.Proper) {s : Settings}
    (h : (Value.map s).Proper) : (Value.map (said.foldl Layer.apply s)).Proper := by
  induction said generalizing s with
  | nil => exact h
  | cons l rest ih =>
    obtain ⟨hl, hrest⟩ := List.forall_mem_cons.mp hsaid
    exact ih hrest (Layer.proper_apply hl h)

theorem find?_foldl_apply {said : List Layer} (hsaid : ∀ l ∈ said, l.Proper) {path : List Text}
    {s : Settings} {before : Option Value} (h : (find? path (.map s)).map outer = before.map outer) :
    (find? path (.map (said.foldl Layer.apply s))).map outer =
      (said.foldl (Layer.next path) before).map outer := by
  induction said generalizing s before with
  | nil => exact h
  | cons l rest ih =>
    obtain ⟨hl, hrest⟩ := List.forall_mem_cons.mp hsaid
    refine ih hrest ?_
    rw [Layer.find?_apply hl, Layer.next, Layer.next, Option.map_or, Option.map_or]
    split
    next => rfl
    next => rw [h]

/-- After all that is said, a path holds what was given last, up to what a mapping holds. -/
theorem find?_said {said : List Layer} (hsaid : ∀ l ∈ said, l.Proper) (part : Text)
    (rest : List Text) :
    (find? (part :: rest) (.map (said.foldl Layer.apply []))).map outer =
      (lastGiven (part :: rest) said).map outer :=
  find?_foldl_apply hsaid rfl

section

variable {path : List Text}

theorem lastGiven_append (said later : List Layer) :
    lastGiven path (said ++ later) = later.foldl (Layer.next path) (lastGiven path said) :=
  List.foldl_append

/-- What was there before plays no part as soon as something is said about a path. -/
theorem foldl_next (said : List Layer) (before other : Option Value) :
    said.foldl (Layer.next path) before = said.foldl (Layer.next path) other ∨
      (said.foldl (Layer.next path) before = before ∧ said.foldl (Layer.next path) other = other) := by
  induction said generalizing before other with
  | nil => exact .inr ⟨rfl, rfl⟩
  | cons l rest ih =>
    rw [List.foldl_cons, List.foldl_cons]
    by_cases hsaid : l.gives path = none ∧ l.cuts path = false
    · have hnext : ∀ v, l.next path v = v := fun v => by simp [Layer.next, hsaid]
      rw [hnext, hnext]
      exact ih before other
    · refine .inl (congrArg (rest.foldl (Layer.next path)) ?_)
      cases hgives : l.gives path with
      | some v => simp [Layer.next, hgives]
      | none =>
        have hcuts : l.cuts path = true := by simpa [hgives] using hsaid
        simp [Layer.next, hgives, hcuts]

theorem lastGiven_append_of_some {said later : List Layer} {v : Value}
    (h : lastGiven path later = some v) : lastGiven path (said ++ later) = some v := by
  rw [lastGiven_append]
  rcases foldl_next later (lastGiven path said) none with heq | ⟨-, hnone⟩
  · exact heq.trans h
  · rw [lastGiven, hnone] at h
    cases h

theorem lastGiven_append_of_silent {said later : List Layer}
    (h : ∀ l ∈ later, l.gives path = none ∧ l.cuts path = false) :
    lastGiven path (said ++ later) = lastGiven path said := by
  rw [lastGiven_append]
  generalize lastGiven path said = v
  induction later generalizing v with
  | nil => rfl
  | cons l rest ih =>
    obtain ⟨hl, hrest⟩ := List.forall_mem_cons.mp h
    rw [List.foldl_cons, Layer.next, hl.1, hl.2]
    exact ih hrest v

end

/-- Whether nothing is said about a routing setting: it is given in neither place, and the routing section
is not replaced. -/
def Layer.Silent (name : Text) (l : Layer) : Prop :=
  (l.gives (inSection name) = none ∧ l.cuts (inSection name) = false) ∧ l.gives (atTop name) = none

theorem Layer.cuts_top {name : Text} {l : Layer} (h : l.gives (atTop name) = none) :
    l.cuts (atTop name) = false := by
  cases l with
  | mapping entries => simp [cuts, atTop, endsEarly]
  | assignment parts v =>
    rcases parts with _ | ⟨part, _ | ⟨next, rest⟩⟩
    · rfl
    · by_cases hpart : part = name
      · subst hpart
        simp [gives, atTop, placed, Table.put, find?, Table.get?] at h
      · simp [cuts, atTop, List.isPrefixOf, hpart]
    · simp [cuts, atTop, List.isPrefixOf]

theorem chosen?_append_of_silent {name : Text} {said later : List Layer}
    (h : ∀ l ∈ later, l.Silent name) : chosen? name (said ++ later) = chosen? name said := by
  rw [chosen?, lastGiven_append_of_silent fun l hl => (h l hl).1,
    lastGiven_append_of_silent fun l hl => ⟨(h l hl).2, Layer.cuts_top (h l hl).2⟩, chosen?]

/-- A source gives a setting at the top only, and the routing section still holds what a source that counts
less gave for it. -/
def Overridden (name : Text) (below own : List Layer) : Prop :=
  lastGiven (inSection name) own = none ∧ lastGiven (inSection name) (below ++ own) ≠ none

theorem chosen?_append_of_not_overridden {name : Text} {below own : List Layer}
    (hown : chosen? name own ≠ none) (h : ¬ Overridden name below own) :
    chosen? name (below ++ own) = chosen? name own := by
  cases hsection : lastGiven (inSection name) own with
  | some v => simp [chosen?, hsection, lastGiven_append_of_some hsection]
  | none =>
    have hempty : lastGiven (inSection name) (below ++ own) = none := by
      by_contra hgiven
      exact h ⟨hsection, hgiven⟩
    rw [chosen?, hsection, Option.none_or] at hown
    obtain ⟨v, hv⟩ := Option.ne_none_iff_exists'.mp hown
    rw [chosen?, hempty, lastGiven_append_of_some hv, chosen?, hsection, hv]

theorem chosen?_append_of_overridden {name : Text} {below own : List Layer}
    (h : Overridden name below own) :
    chosen? name (below ++ own) = lastGiven (inSection name) below := by
  obtain ⟨hown, hgiven⟩ := h
  obtain ⟨v, hv⟩ := Option.ne_none_iff_exists'.mp hgiven
  have hbelow : lastGiven (inSection name) below = some v := by
    rw [lastGiven_append] at hv
    rcases foldl_next own (lastGiven (inSection name) below) none with heq | ⟨hkept, -⟩
    · rw [← lastGiven, hown] at heq
      rw [heq] at hv
      cases hv
    · rw [← hkept, hv]
  rw [chosen?, hv, hbelow, Option.some_or]

end Settings

end RoutePattern
