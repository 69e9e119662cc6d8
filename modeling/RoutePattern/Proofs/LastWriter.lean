import RoutePattern.Proofs.JoinedPath
import RoutePattern.Proofs.MergedInPlace

/-!
The last writer of a path. A mapping that is merged in and a value that is set decide what is found at the
paths that lead through them, and at no others.
-/

namespace RoutePattern

namespace Heap

/-- A path meets a mapping that has no entry for its next part. -/
inductive Misses (h : Heap) : List Text → Datum → Prop
  | here {part : Text} {rest : List Text} {id : Nat} (hnone : Table.get? (.text part) (h.entriesOf id) = none) :
      Misses h (part :: rest) (.object id)
  | later {part : Text} {rest : List Text} {id : Nat} {d : Datum}
      (hd : Table.get? (.text part) (h.entriesOf id) = some d) (hrest : Misses h rest d) :
      Misses h (part :: rest) (.object id)

/-- A path meets something before its end that is no mapping. -/
inductive Stops (h : Heap) : List Text → Datum → Prop
  | here {part : Text} {rest : List Text} {d : Datum} (hd : ∀ id, d ≠ .object id) : Stops h (part :: rest) d
  | later {part : Text} {rest : List Text} {id : Nat} {d : Datum}
      (hd : Table.get? (.text part) (h.entriesOf id) = some d) (hrest : Stops h rest d) :
      Stops h (part :: rest) (.object id)

section

variable {h : Heap} {path : List Text} {d : Datum} {v : Value} {ids : List Nat}

theorem Holds.exists_found {id : Nat} {t : Settings} {key : Value} (ht : Holds h [.object id] [.map t] ids)
    (hd : Table.get? key (h.entriesOf id) = some d) :
    ∃ w mid, Table.get? key t = some w ∧ Holds h [d] [w] mid := by
  obtain ⟨mid, hfound, -⟩ := ht.found key
  rw [hd] at hfound
  generalize Table.get? key t = w at hfound
  cases hfound with
  | some hw => exact ⟨_, mid, rfl, hw⟩

theorem Holds.find? (hd : Holds h [d] [v] ids) (path : List Text) :
    ∃ mid, HoldsFound h (h.find? path d) (Settings.find? path v) mid ∧ mid.Sublist ids := by
  induction path generalizing d v ids with
  | nil => exact ⟨ids, .some hd, .refl ids⟩
  | cons part rest ih =>
    rcases hd.plain_or_object with ⟨hplain, hd⟩ | ⟨id, t, rfl, rfl⟩
    · rw [(Settings.find?_of_entries? hplain).1]
      cases d with
      | object id => exact absurd rfl (hd id)
      | _ => exact ⟨[], .none, List.nil_sublist ids⟩
    · obtain ⟨mid, hfound, hmid⟩ := hd.found (.text part)
      rw [Heap.find?, Settings.find?]
      generalize Table.get? (.text part) (h.entriesOf id) = inner at hfound
      generalize Table.get? (.text part) t = w at hfound
      cases hfound with
      | none => exact ⟨[], .none, List.nil_sublist ids⟩
      | some hw =>
        obtain ⟨last, hlast, hsub⟩ := ih hw
        exact ⟨last, hlast, hsub.trans hmid⟩

theorem Stands.get? {root : Nat} {t : Settings} (ht : h.Stands root t) (path : Text) :
    h.get? path root = .ok (Settings.get? path t) := by
  obtain ⟨ids, ht, hids⟩ := ht
  obtain ⟨mid, hfound, hmid⟩ := ht.find? (Text.split '.' path)
  rw [Heap.get?, Settings.get?]
  generalize h.find? (Text.split '.' path) (.object root) = found at hfound
  generalize Settings.find? (Text.split '.' path) (.map t) = w at hfound
  cases hfound with
  | none => rfl
  | some hw =>
    have hread := hw.read (hids.sublist hmid)
    simp only [hread]
    rfl

theorem Misses.find? (hmisses : h.Misses path d) (hd : Holds h [d] [v] ids) :
    Settings.find? path v = none ∧ Settings.endsEarly path v = false := by
  induction hmisses generalizing v ids with
  | here hnone =>
    obtain ⟨t, rfl⟩ := hd.exists_map
    obtain ⟨mid, hfound, -⟩ := hd.found (.text _)
    rw [hnone] at hfound
    generalize hget : Table.get? _ t = w at hfound
    cases hfound
    simp [Settings.find?, Settings.endsEarly, hget]
  | later hinner _ ih =>
    obtain ⟨t, rfl⟩ := hd.exists_map
    obtain ⟨w, mid, hget, hw⟩ := hd.exists_found hinner
    simpa [Settings.find?, Settings.endsEarly, hget] using ih hw

theorem Stops.find? (hstops : h.Stops path d) (hd : Holds h [d] [v] ids) :
    Settings.find? path v = none ∧ Settings.endsEarly path v = true := by
  induction hstops generalizing v ids with
  | here hnot =>
    rcases hd.plain_or_object with ⟨hplain, -⟩ | ⟨id, _, rfl, -⟩
    · exact Settings.find?_of_entries? hplain
    · exact absurd rfl (hnot id)
  | later hinner _ ih =>
    obtain ⟨t, rfl⟩ := hd.exists_map
    obtain ⟨w, mid, hget, hw⟩ := hd.exists_found hinner
    simpa [Settings.find?, Settings.endsEarly, hget] using ih hw

end

end Heap

namespace Settings

theorem find?_placed_self {parts : List Text} (hparts : parts ≠ []) (v : Value) (s : Settings) :
    find? parts (.map (placed v parts s)) = some v := by
  induction parts generalizing s with
  | nil => contradiction
  | cons part rest ih =>
    cases rest with
    | nil => simp [placed, find?, Table.get?_put_text]
    | cons next rest =>
      simp only [placed, find?_cons_map, Table.get?_put_text, Value.text_beq_self, if_true, Option.bind_some]
      exact ih (by simp) (sectionAt part s)

/-- What is set at some parts is not seen from a path that is no part of theirs and that they are no part of. -/
theorem find?_placed_of_apart {parts path : List Text} (hparts : ¬ parts <+: path)
    (hpath : ¬ path <+: parts) (v : Value) (s : Settings) :
    find? path (.map (placed v parts s)) = find? path (.map s) := by
  induction parts generalizing path s with
  | nil => exact absurd List.nil_prefix hparts
  | cons part rest ih =>
    cases path with
    | nil => exact absurd List.nil_prefix hpath
    | cons first path =>
      have hput : ∃ w, placed v (part :: rest) s = Table.put (.text part) w s := by
        cases rest with
        | nil => exact ⟨_, rfl⟩
        | cons next rest => exact ⟨_, rfl⟩
      by_cases hpart : part = first
      · subst hpart
        have hrest : ¬ rest <+: path := fun h => hparts (List.cons_prefix_cons.mpr ⟨rfl, h⟩)
        have hpath : ¬ path <+: rest := fun h => hpath (List.cons_prefix_cons.mpr ⟨rfl, h⟩)
        obtain ⟨next, others, rfl⟩ := List.exists_cons_of_ne_nil fun hnil : rest = [] =>
          hrest (hnil ▸ List.nil_prefix)
        obtain ⟨second, path, rfl⟩ := List.exists_cons_of_ne_nil fun hnil : path = [] =>
          hpath (hnil ▸ List.nil_prefix)
        simp only [placed, find?_cons_map part, Table.get?_put_text, Value.text_beq_self, if_true,
          Option.bind_some]
        rw [ih hrest hpath, find?_sectionAt, find?_cons_map]
      · obtain ⟨w, hw⟩ := hput
        have hne : (Value.text part == Value.text first) = false := by
          rw [Value.text_beq_text]
          exact beq_false_of_ne hpart
        rw [hw, find?_cons_map, find?_cons_map, Table.get?_put_text, hne]
        rfl

theorem nameParts_ne_nil (current name : Text) : nameParts current name ≠ [] := by
  fun_induction nameParts current name with
  | case1 => simp
  | case2 => simp
  | case3 => simp
  | case4 _ _ _ _ _ ih => exact ih

/-- The last writer wins, path by path, where no mapping stands twice. A mapping that is merged in gives its own
value at every path that leads in it to something else than a mapping, leaves what there is where the path misses
an entry in it, and removes what there is below something that is no mapping. A name of the environment sets its
value at its own parts, and nothing changes at the paths that lie apart from these. -/
theorem last_writer_wins {h : Heap} (hkeys : h.Distinct) (target : Nat) :
    (∀ source, h.Unshared [.object target, .object source] → ∃ h', h.merge target source = .ok h' ∧
      ∀ path : Text,
        (∀ v, h.get? path source = .ok (some v) → v.entries? = none → h'.get? path target = .ok (some v)) ∧
        (h.Misses (Text.split '.' path) (.object source) → h'.get? path target = h.get? path target) ∧
        (h.Stops (Text.split '.' path) (.object source) → h'.get? path target = .ok none)) ∧
    (h.Unshared [.object target] → ∀ (lead name text : Text) (v : Value), ofText text = .ok v →
      ∃ h' parts, h.assign lead name text target = .ok h' ∧
        parts = nameParts [] (Text.lower (name.drop lead.length)) ∧
        ((∀ part ∈ parts, '.' ∉ part) → h'.get? (Text.join ['.'] parts) target = .ok (some v)) ∧
        ∀ path : Text, ¬ parts <+: Text.split '.' path → ¬ Text.split '.' path <+: parts →
          h'.get? path target = h.get? path target) := by
  constructor
  · rintro source ⟨vs, ids, hboth, hids⟩
    obtain ⟨t, s, own, more, ht, hs, hnodup⟩ := Heap.exists_holds_pair hboth hids
    have hproper : (Value.map s).Proper := hs.proper hkeys _ List.mem_cons_self
    obtain ⟨h', hmerge, hbecomes⟩ := Heap.becomes_merge ht hs hnodup
    have hmerged := hbecomes.stands.get?
    have hbefore := Heap.Stands.get? ⟨own, ht, (List.nodup_append.mp hnodup).1⟩
    have hsource := Heap.Stands.get? ⟨more, hs, (List.nodup_append.mp hnodup).2.1⟩
    refine ⟨h', hmerge, fun path => ⟨fun v hv hplain => ?_, fun hmisses => ?_, fun hstops => ?_⟩⟩
    · have hfound : find? (Text.split '.' path) (.map s) = some v := by
        rw [hsource] at hv
        exact Except.ok.inj hv
      rw [hmerged, get?, find?_merged_eq _ t hproper, hfound]
      simp [mergedValue_of_entries? hplain]
    · obtain ⟨hnone, hends⟩ := hmisses.find? hs
      rw [hmerged, hbefore, get?, find?_merged_eq _ t hproper, hnone, hends]
      rfl
    · obtain ⟨hnone, hends⟩ := hstops.find? hs
      rw [hmerged, get?, find?_merged_eq _ t hproper, hnone, hends]
      rfl
  · intro hunshared lead name text v hv
    obtain ⟨t, ht⟩ := Heap.unshared_object_iff.mp hunshared
    let parts := nameParts [] (Text.lower (name.drop lead.length))
    have hassign : h.assign lead name text target = .ok (h.putAssignment ⟨parts, v⟩ target) := by
      rw [Heap.assign, assignment, hv]
      rfl
    have hparts : parts ≠ [] := nameParts_ne_nil [] _
    refine ⟨_, _, hassign, rfl, fun hdots => ?_, fun path hapart hpath => ?_⟩
    · rw [(ht.putAssignment _).get?, get?, Text.split_join hparts hdots]
      exact congrArg _ (find?_placed_self hparts v t)
    · rw [(ht.putAssignment _).get?, ht.get?]
      exact congrArg _ (find?_placed_of_apart hapart hpath v t)

open Heap in
/-- A mapping is merged into a mapping and takes the place of a number, and a number takes the place of a
mapping. -/
theorem last_writer_wins_sections :
    let h : Heap := [[(.text "a", .object 1), (.text "b", .plain (.int 3)), (.text "c", .object 2)],
      [(.text "x", .plain (.int 1)), (.text "y", .plain (.int 2))], [(.text "z", .plain (.int 4))],
      [(.text "a", .object 4), (.text "b", .object 5), (.text "c", .plain (.int 6))],
      [(.text "x", .plain (.bool true))], [(.text "w", .plain (.int 5))]]
    h.Distinct ∧ h.Unshared [.object 0, .object 3] ∧ h.Unshared [.object 0] ∧
      (∃ h', h.merge 0 3 = .ok h' ∧ h'.get? "a.x" 0 = .ok (some (.bool true)) ∧
        h'.get? "a.y" 0 = .ok (some (.int 2)) ∧ h'.get? "b.w" 0 = .ok (some (.int 5)) ∧
        h'.get? "c.z" 0 = .ok none) ∧
      ∃ h', h.assign "APP_" "APP_A__Y" "7" 0 = .ok h' ∧ h'.get? "a.y" 0 = .ok (some (.int 7)) ∧
        h'.get? "a.x" 0 = .ok (some (.int 1)) := by
  intro h
  let t : Settings := [(.text "a", .map [(.text "x", .int 1), (.text "y", .int 2)]), (.text "b", .int 3),
    (.text "c", .map [(.text "z", .int 4)])]
  let s : Settings := [(.text "a", .map [(.text "x", .bool true)]), (.text "b", .map [(.text "w", .int 5)]),
    (.text "c", .int 6)]
  have hkeys : h.Distinct := by
    simp [Heap.Distinct, h, Table.Distinct, Table.keys, Value.text_beq_text]
  have hsame : h.Holds [.object 1] [.map [(.text "x", .int 1), (.text "y", .int 2)]] [1] :=
    holds_object_iff.mpr ⟨_, [], rfl, rfl, rfl, .plain rfl (.plain rfl .nil)⟩
  have hgone : h.Holds [.object 2] [.map [(.text "z", .int 4)]] [2] :=
    holds_object_iff.mpr ⟨_, [], rfl, rfl, rfl, .plain rfl .nil⟩
  have ht : h.Holds [.object 0] [.map t] [0, 1, 2] :=
    holds_object_iff.mpr ⟨_, [1, 2], rfl, rfl, rfl, hsame.append (.plain rfl hgone)⟩
  have hmerged : h.Holds [.object 4] [.map [(.text "x", .bool true)]] [4] :=
    holds_object_iff.mpr ⟨_, [], rfl, rfl, rfl, .plain rfl .nil⟩
  have hnew : h.Holds [.object 5] [.map [(.text "w", .int 5)]] [5] :=
    holds_object_iff.mpr ⟨_, [], rfl, rfl, rfl, .plain rfl .nil⟩
  have hs : h.Holds [.object 3] [.map s] [3, 4, 5] :=
    holds_object_iff.mpr ⟨_, [4, 5], rfl, rfl, rfl, hmerged.append (hnew.append (.plain rfl .nil))⟩
  have hboth : h.Unshared [.object 0, .object 3] := ⟨_, _, ht.append hs, by decide⟩
  have halone : h.Unshared [.object 0] := ⟨_, _, ht, by decide⟩
  have hsource : ∀ path, h.get? path 3 = .ok (get? path s) := Stands.get? ⟨_, hs, by decide⟩
  have hbefore : ∀ path, h.get? path 0 = .ok (get? path t) := Stands.get? ⟨_, ht, by decide⟩
  obtain ⟨hmerge, hassign⟩ := last_writer_wins hkeys 0
  obtain ⟨h', hmerge, hpaths⟩ := hmerge 3 hboth
  obtain ⟨h'', parts, hassign, rfl, hself, hapart⟩ := hassign halone "APP_" "APP_A__Y" "7" (.int 7) rfl
  refine ⟨hkeys, hboth, halone, ⟨h', hmerge, ?_, ?_, ?_, ?_⟩, h'', hassign, hself (by decide), ?_⟩
  · exact (hpaths "a.x").1 _ (hsource "a.x") rfl
  · exact ((hpaths "a.y").2.1 (.later rfl (.here rfl))).trans (hbefore "a.y")
  · exact (hpaths "b.w").1 _ (hsource "b.w") rfl
  · exact (hpaths "c.z").2.2 (.later rfl (.here fun id heq => by cases heq))
  · exact (hapart "a.x" (by decide) (by decide)).trans (hbefore "a.x")

/-- What is set in a mapping that stands twice shows in both places. -/
example :
    let h : Heap := [[(.text "routing", .object 1), (.text "backup", .object 1)],
      [(.text "size", .plain (.int 5))]]
    (h.put (.plain (.int 7)) ["backup", "size"] 0).find? ["routing", "size"] (.object 0) =
      some (.plain (.int 7)) := by
  rfl

end Settings
end RoutePattern
