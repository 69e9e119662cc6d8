import RoutePattern.Proofs.Reading.Source

/-!
The layout of what was read. The pieces of a segment are the parts of one step, those of a query value
the parts of its entry, and their captures are the captures of the pattern.
-/

namespace RoutePattern

variable {σ : Type}

namespace Part

def capture? : Part → Option Capture
  | literal _ _ => none
  | capture c => some c

/-- A literal stands for some text and may not be left out. -/
def Sound : Part → Prop
  | literal text optional => text ≠ [] ∧ optional = false
  | capture _ => True

end Part

@[simp] theorem Member.part?_part (hasLead : Bool) (p : Part) :
    (Member.part hasLead p : Member σ).part? = some p := rfl

namespace Group

def parts : Group σ → List Part
  | segment members => members.filterMap fun m => m.2.part?
  | query _ _ => []

def entries : Group σ → List (Text × List Part)
  | segment _ => []
  | query _ es => es.filterMap fun e => e.2.map (e.1, ·)

end Group

namespace Pattern

def pathParts (p : Pattern σ) : List (List Part) := (p.groups.filter Group.isSegment).map Group.parts

def queryParts (p : Pattern σ) : List (Text × List Part) := p.groups.flatMap Group.entries

end Pattern

namespace Piece

def count : Piece → Nat
  | capture _ none _ => 1
  | _ => 0

def hasLead : Piece → Bool
  | capture lead _ _ => lead.isSome
  | literal _ => false

/-- Text that stands for no segment. -/
def isGap : Piece → Bool
  | literal text => text.all (· == '/')
  | capture _ _ _ => false

/-- The part that a piece is, `first` being the key of an unnamed capture. -/
def part (first : Nat) : Piece → Part
  | literal text => .literal text false
  | capture lead name m =>
    .capture ⟨name.elim (.index first) .name, lead.getD [], m.any (·.allowsNone), m.any (·.allowsMany)⟩

theorem unnamedCount_pattern (piece : Piece) :
    (piece.pattern : Pattern σ).unnamedCount = piece.count := by
  rcases piece with _ | ⟨_ | _, _ | _, _ | _⟩ <;> rfl

theorem stops_pattern (first : Nat) (joined : Bool) {piece : Piece} (h : piece.isGap = false) :
    (piece.pattern : Pattern σ).stops first joined =
      [.member joined piece.pattern (.part piece.hasLead (piece.part first))] := by
  rcases piece with text | ⟨_ | _, _ | _, _ | _⟩
  · have htext : text.all (· == '/') = false := h
    rw [pattern, Pattern.stops, htext]
    rfl
  all_goals
    simp [pattern, bare, Pattern.modifiedBy, Pattern.stops, Pattern.member, Member.modified,
      Member.prefixed, Part.loosen, Part.withLead, hasLead, part]

/-- In a query value every piece is one part, slashes or not. -/
theorem mapM_part?_stops (first : Nat) (joined : Bool) (piece : Piece) :
    ((piece.pattern : Pattern σ).stops first joined).mapM Stop.part? = some [piece.part first] := by
  cases hgap : piece.isGap with
  | false =>
    rw [stops_pattern first joined hgap]
    rfl
  | true =>
    cases piece with
    | literal text =>
      have htext : text.all (· == '/') = true := hgap
      rw [pattern, Pattern.stops, htext]
      rfl
    | capture _ _ _ => simp [isGap] at hgap

theorem captures_pattern (first : Nat) (piece : Piece) :
    ((piece.pattern : Pattern σ).captures first false).map (·.1) =
      (piece.part first).capture?.toList := by
  rcases piece with _ | ⟨_ | _, _ | _, _ | _⟩ <;>
    simp [pattern, bare, Pattern.modifiedBy, Pattern.captures, Pattern.captures.partCaptures,
      Pattern.member, Member.modified, Member.prefixed, Member.part?, Part.loosen, Part.withLead,
      part, Part.capture?]

theorem sound_part (first : Nat) {piece : Piece} (h : piece.Sound) : (piece.part first).Sound := by
  cases piece with
  | literal text => exact ⟨h.1, rfl⟩
  | capture _ _ _ => trivial

def partsFrom (first : Nat) : List Piece → List Part
  | [] => []
  | piece :: rest => piece.part first :: partsFrom (first + piece.count) rest

def membersFrom (first : Nat) : List Piece → List (Pattern σ × Member σ)
  | [] => []
  | piece :: rest =>
    (piece.pattern, .part piece.hasLead (piece.part first)) :: membersFrom (first + piece.count) rest

theorem filterMap_part?_membersFrom (first : Nat) (pieces : List Piece) :
    (membersFrom (σ := σ) first pieces).filterMap (fun m => m.2.part?) = partsFrom first pieces := by
  induction pieces generalizing first with
  | nil => rfl
  | cons piece rest ih => simp [membersFrom, partsFrom, ih]

theorem sound_partsFrom (first : Nat) {pieces : List Piece} (h : ∀ piece ∈ pieces, piece.Sound) :
    ∀ part ∈ partsFrom first pieces, part.Sound := by
  induction pieces generalizing first with
  | nil => simp [partsFrom]
  | cons piece rest ih =>
    intro part hp
    rcases List.mem_cons.mp hp with rfl | hm
    · exact sound_part first (h piece (by simp))
    · exact ih _ (fun q hq => h q (List.mem_cons_of_mem _ hq)) part hm

end Piece

namespace Pattern

open Piece (partsFrom membersFrom)

theorem stops_foldl (first : Nat) (joined glued : Bool) (p : Pattern σ) (ps : List (Pattern σ)) :
    (ps.foldl (fun left right => concat left right glued) p).stops first joined =
      p.stops first joined ++ collect (fun n q => q.stops n glued) (first + p.unnamedCount) ps := by
  induction ps generalizing p with
  | nil => simp [collect]
  | cons q rest ih => simp [ih, stops, collect, unnamedCount, Nat.add_assoc]

theorem captures_foldl (first : Nat) (p : Pattern σ) (ps : List (Pattern σ)) :
    (ps.foldl (fun left right => concat left right true) p).captures first false =
      collect (fun n q => q.captures n false) first (p :: ps) := by
  induction ps generalizing p with
  | nil => simp [collect]
  | cons q rest ih =>
    rw [List.foldl_cons, ih]
    simp [captures, collect, unnamedCount, Nat.add_assoc]

theorem gather_collect_stops {pieces : List Piece} {current : List (Pattern σ × Member σ)}
    (h : ∀ piece ∈ pieces, piece.isGap = false) (hne : current ≠ []) (first : Nat) :
    Group.gather current (collect (fun n q => q.stops n true) first (pieces.map Piece.pattern)) =
      [.segment (current ++ membersFrom first pieces)] := by
  induction pieces generalizing current first with
  | nil => simp [collect, Group.gather, Group.close, membersFrom, hne]
  | cons piece rest ih =>
    rw [List.map_cons, collect, Piece.stops_pattern first true (h piece (by simp)),
      Piece.unnamedCount_pattern, List.singleton_append, Group.gather, if_pos rfl,
      ih (fun q hq => h q (List.mem_cons_of_mem _ hq)) (by simp)]
    simp [membersFrom]

theorem groupsFrom_joinParts (first : Nat) {pieces : List Piece} (hne : pieces ≠ [])
    (h : ∀ piece ∈ pieces, piece.isGap = false) :
    (joinParts (pieces.map Piece.pattern) : Pattern σ).groupsFrom first =
      [.segment (membersFrom first pieces)] := by
  cases pieces with
  | nil => contradiction
  | cons piece rest =>
    rw [groupsFrom, List.map_cons, joinParts, stops_foldl,
      Piece.stops_pattern first false (h piece (by simp)), Piece.unnamedCount_pattern,
      List.singleton_append, Group.gather, if_neg (by simp),
      gather_collect_stops (fun q hq => h q (List.mem_cons_of_mem _ hq)) (by simp)]
    simp [Group.close, membersFrom]

theorem mapM_part?_collect_stops (first : Nat) (pieces : List Piece) :
    (collect (fun n (q : Pattern σ) => q.stops n true) first (pieces.map Piece.pattern)).mapM Stop.part? =
      some (partsFrom first pieces) := by
  induction pieces generalizing first with
  | nil => rfl
  | cons piece rest ih =>
    rw [List.map_cons, collect, List.mapM_append, Piece.mapM_part?_stops, Piece.unnamedCount_pattern, ih]
    rfl

/-- The parts of a query value; an empty one is a literal without text. -/
def valueParts (first : Nat) (pieces : List Piece) : List Part :=
  if pieces = [] then [.literal [] false] else partsFrom first pieces

theorem mapM_part?_joinParts (first : Nat) (pieces : List Piece) :
    ((joinParts (pieces.map Piece.pattern) : Pattern σ).stops first false).mapM Stop.part? =
      some (valueParts first pieces) := by
  cases pieces with
  | nil => rfl
  | cons piece rest =>
    rw [List.map_cons, joinParts, stops_foldl, List.mapM_append, Piece.mapM_part?_stops,
      Piece.unnamedCount_pattern, mapM_part?_collect_stops]
    rfl

theorem collect_captures_pattern (first : Nat) (pieces : List Piece) :
    (collect (fun n (q : Pattern σ) => q.captures n false) first (pieces.map Piece.pattern)).map (·.1) =
      (partsFrom first pieces).filterMap Part.capture? := by
  induction pieces generalizing first with
  | nil => rfl
  | cons piece rest ih =>
    rw [List.map_cons, collect, List.map_append, Piece.captures_pattern, Piece.unnamedCount_pattern, ih,
      partsFrom]
    cases h : (piece.part first).capture? <;> simp [h]

theorem captures_joinParts (first : Nat) (pieces : List Piece) :
    ((joinParts (pieces.map Piece.pattern) : Pattern σ).captures first false).map (·.1) =
      (partsFrom first pieces).filterMap Part.capture? := by
  cases pieces with
  | nil => rfl
  | cons piece rest =>
    rw [List.map_cons, joinParts, captures_foldl]
    exact collect_captures_pattern first (piece :: rest)

end Pattern

/-- A segment whose members are all parts. -/
structure Group.Simple (g : Group σ) : Prop where
  isSegment : g.isSegment
  members : ∃ members, g = .segment members ∧ members.map (fun m => m.2.part?) = g.parts.map some
  nonempty : g.parts ≠ []
  sound : ∀ part ∈ g.parts, part.Sound

namespace Pattern

open Piece (partsFrom membersFrom)

theorem map_part?_membersFrom (first : Nat) (pieces : List Piece) :
    (membersFrom (σ := σ) first pieces).map (fun m => m.2.part?) =
      (partsFrom first pieces).map some := by
  induction pieces generalizing first with
  | nil => rfl
  | cons piece rest ih => simp [membersFrom, partsFrom, ih]

theorem isGap_of_mem {pieces : List Piece} (hsound : ∀ piece ∈ pieces, piece.Sound)
    (hslash : '/' ∉ pieces.flatMap Piece.source) : ∀ piece ∈ pieces, piece.isGap = false := by
  intro piece hm
  cases piece with
  | capture _ _ _ => rfl
  | literal text =>
    obtain ⟨c, hc⟩ := List.exists_mem_of_ne_nil text (hsound _ hm).1
    have hne : c ≠ '/' := by
      rintro rfl
      exact hslash (List.mem_flatMap.mpr ⟨_, hm, hc⟩)
    exact List.all_eq_false.mpr ⟨c, hc, by simpa using hne⟩

/-- A segment that was read is one group, and its captures are those of the group. -/
theorem ReadFrom.groupsFrom {segment : Text} {p : Pattern σ} (h : ReadFrom segment p)
    (hne : segment ≠ []) (hslash : '/' ∉ segment) (first : Nat) :
    ∃ g, p.groupsFrom first = [g] ∧ g.Simple ∧
      (p.captures first false).map (·.1) = g.parts.filterMap Part.capture? := by
  obtain ⟨pieces, hsound, rfl, rfl⟩ := ofSegment_eq_ok h
  have hpieces : pieces ≠ [] := by
    rintro rfl
    exact hne rfl
  have hparts : (Group.segment (membersFrom (σ := σ) first pieces)).parts = partsFrom first pieces :=
    Piece.filterMap_part?_membersFrom first pieces
  refine ⟨.segment (membersFrom first pieces),
    groupsFrom_joinParts first hpieces (isGap_of_mem hsound hslash), ⟨rfl, ?_, ?_, ?_⟩, ?_⟩
  · exact ⟨_, rfl, by rw [hparts, map_part?_membersFrom]⟩
  · rw [hparts]
    cases pieces with
    | nil => contradiction
    | cons _ _ => simp [partsFrom]
  · rw [hparts]
    exact Piece.sound_partsFrom first hsound
  · rw [hparts, captures_joinParts]

/-- A query value that was read is a list of parts, and its captures are theirs. -/
theorem ReadFrom.valueParts {value : Text} {p : Pattern σ} (h : ReadFrom value p) (first : Nat) :
    ∃ parts, (p.stops first false).mapM Stop.part? = some parts ∧
      (p.captures first false).map (·.1) = parts.filterMap Part.capture? := by
  obtain ⟨pieces, hsound, rfl, rfl⟩ := ofSegment_eq_ok h
  refine ⟨Pattern.valueParts first pieces, mapM_part?_joinParts first pieces, ?_⟩
  rw [captures_joinParts, Pattern.valueParts]
  split
  next hnil => subst hnil; rfl
  next => rfl

theorem simple_collect {ps : List (Pattern σ)}
    (h : ∀ q ∈ ps, ∃ segment, ReadFrom segment q ∧ segment ≠ [] ∧ '/' ∉ segment) (first : Nat) :
    (∀ g ∈ collect Pattern.groupsFrom first ps, g.Simple) ∧
      (collect (fun n (q : Pattern σ) => q.captures n false) first ps).map (·.1) =
        ((collect Pattern.groupsFrom first ps).flatMap Group.parts).filterMap Part.capture? := by
  induction ps generalizing first with
  | nil => exact ⟨by simp [collect], rfl⟩
  | cons q rest ih =>
    obtain ⟨segment, hread, hne, hslash⟩ := h q (by simp)
    obtain ⟨g, hg, hsimple, hcaptures⟩ := hread.groupsFrom hne hslash first
    obtain ⟨hrest, hcapturesRest⟩ :=
      ih (fun r hr => h r (List.mem_cons_of_mem _ hr)) (first + q.unnamedCount)
    refine ⟨?_, ?_⟩
    · intro g' hg'
      rw [collect, hg] at hg'
      rcases List.mem_cons.mp hg' with rfl | hm
      · exact hsimple
      · exact hrest g' hm
    · rw [collect, collect, List.map_append, hcaptures, hcapturesRest, hg]
      simp

theorem ReadPath.readable {path : Text} {ps : List (Pattern σ)}
    (h : List.Forall₂ ReadFrom (splitPath path) ps) :
    ∀ q ∈ ps, ∃ segment, ReadFrom segment q ∧ segment ≠ [] ∧ '/' ∉ segment := by
  intro q hq
  obtain ⟨segment, hs, hread⟩ := exists_of_mem_right h hq
  exact ⟨segment, hread, ne_nil_of_mem_splitPath hs, slash_notMem_of_mem_splitPath hs⟩

theorem ReadPath.simple {path : Text} {p : Pattern σ} (h : ReadPath path p) :
    (∀ g ∈ p.groupsFrom 0, g.Simple) ∧
      (p.captures 0 false).map (·.1) =
        ((p.groupsFrom 0).flatMap Group.parts).filterMap Part.capture? := by
  obtain ⟨ps, hread, rfl⟩ := h
  have hcaptures : (joinSegments ps).captures 0 false =
      collect (fun n (q : Pattern σ) => q.captures n false) 0 ps :=
    additive_captures.joinSegments 0 ps
  rw [hcaptures, additive_groups.joinSegments 0 ps]
  exact simple_collect (ReadPath.readable hread) 0

theorem ReadPath.eq_root {path : Text} {p : Pattern σ} (h : ReadPath path p)
    (hnil : p.groupsFrom 0 = []) : p = root := by
  obtain ⟨ps, hread, rfl⟩ := h
  cases ps with
  | nil => rfl
  | cons q rest =>
    obtain ⟨segment, hq, hne, hslash⟩ := ReadPath.readable hread q (by simp)
    obtain ⟨g, hg, -, -⟩ := hq.groupsFrom hne hslash 0
    rw [additive_groups.joinSegments 0 (q :: rest), collect, hg] at hnil
    simp at hnil

theorem entryParts_of_forall₂ {pieces : List Text} {es : List (Text × Pattern σ)}
    (h : List.Forall₂ ReadEntry pieces es) (first : Nat) :
    ∃ entries : List (Text × List Part),
      entryParts first es = entries.map (fun e => (e.1, some e.2)) ∧
      entries.map (·.1) = es.map (·.1) ∧
      (captures.entryCaptures first false es).map (·.1) =
        (entries.flatMap (·.2)).filterMap Part.capture? := by
  induction h generalizing first with
  | nil => exact ⟨[], rfl, rfl, rfl⟩
  | @cons _ e _ rest hfirst _ ih =>
    obtain ⟨_, _, _, _, hread⟩ := hfirst
    obtain ⟨parts, hparts, hcaptures⟩ := hread.valueParts first
    obtain ⟨entries, hentries, hkeys, hrest⟩ := ih (first + e.2.unnamedCount)
    have hvalue : ((e.2.captures first false).map fun c => (c.1, true)).map (·.1) =
        parts.filterMap Part.capture? := by
      rw [List.map_map, ← hcaptures]
      rfl
    refine ⟨(e.1, parts) :: entries, ?_, by simp [hkeys], ?_⟩
    · rw [entryParts, hparts, hentries]
      rfl
    · rw [captures.entryCaptures, List.map_append, hvalue, hrest]
      simp

end Pattern

def Step.ofParts : List Part → Step
  | [part] => .single part
  | parts => .compound parts

namespace Group

/-- A segment that stands last, or repeats nothing, is laid out without a warning. -/
theorem Simple.layout {g : Group σ} (h : g.Simple) (whole : Pattern σ) {last : Bool}
    (hm : last = true ∨ ∀ part ∈ g.parts, part.isMultiple = false) :
    g.layout whole last = ⟨[], .ok [Step.ofParts g.parts]⟩ := by
  obtain ⟨members, hg, hmap⟩ := h.members
  have hne := h.nonempty
  generalize g.parts = parts at hmap hne hm
  subst hg
  match members, parts with
  | [], [] => contradiction
  | [], _ :: _ => simp at hmap
  | [_], [] => simp at hmap
  | [(node, m)], [part] =>
    cases m with
    | composite _ _ _ _ => simp [Member.part?] at hmap
    | part hasLead p =>
      obtain rfl : p = part := by simpa [Member.part?] using hmap
      rcases hm with rfl | hm
      · simp [Group.layout, layoutSingle, Step.ofParts]
      · simp [Group.layout, layoutSingle, Step.ofParts, hm p (by simp)]
  | [_], _ :: _ :: _ => simp at hmap
  | _ :: _ :: _, [] => simp at hmap
  | _ :: _ :: _, [_] => simp at hmap
  | a :: b :: rest, _ :: _ :: _ =>
    rw [Group.layout, mapM_eq_some_of_map hmap]
    · rfl
    · simp

theorem Layout.append_ok (steps : List Step) (second : Layout σ) :
    (⟨[], .ok steps⟩ : Layout σ).append second = ⟨second.warnings, second.steps.map (steps ++ ·)⟩ := by
  simp [Layout.append]

theorem layoutAll_simple (whole : Pattern σ) {gs rest : List (Group σ)} {steps : List Step}
    (h : ∀ g ∈ gs, g.Simple) (hm : ∀ g ∈ gs.dropLast, ∀ part ∈ g.parts, part.isMultiple = false)
    (hrest : ∀ g ∈ rest, g.isSegment = false) (hsteps : layoutAll whole rest = ⟨[], .ok steps⟩) :
    layoutAll whole (gs ++ rest) = ⟨[], .ok (gs.map (fun g => Step.ofParts g.parts) ++ steps)⟩ := by
  induction gs with
  | nil => exact hsteps
  | cons g others ih =>
    have hothers : layoutAll whole (others ++ rest) =
        ⟨[], .ok (others.map (fun g => Step.ofParts g.parts) ++ steps)⟩ := by
      apply ih fun q hq => h q (List.mem_cons_of_mem _ hq)
      cases others with
      | nil => simp
      | cons _ _ => exact fun q hq => hm q (by simpa using Or.inr hq)
    -- the query block is no segment, so that the one before it may repeat
    have hlast : (!(others ++ rest).any isSegment) = true ∨
        ∀ part ∈ g.parts, part.isMultiple = false := by
      cases others with
      | nil => exact .inl (by simpa using hrest)
      | cons _ _ => exact .inr (hm g (by simp))
    rw [List.cons_append, layoutAll, (h g (by simp)).layout whole hlast, hothers, Layout.append_ok]
    rfl

theorem layoutEntries_map (entries : List (Text × List Part)) :
    layoutEntries (σ := σ) (entries.map fun e => (e.1, some e.2)) = .ok entries := by
  induction entries with
  | nil => rfl
  | cons e rest ih =>
    rw [List.map_cons, layoutEntries, ih]
    rfl

end Group

namespace Pattern.ReadSplit

variable {split : QuerySplit} {p : Pattern σ}

def blockSteps (p : Pattern σ) : List Step :=
  if p.rootBlock?.isSome then [.query p.queryParts] else []

theorem flatMap_entries_eq_nil {gs : List (Group σ)} (h : ∀ g ∈ gs, g.Simple) :
    gs.flatMap Group.entries = [] := by
  rw [List.flatMap_eq_nil_iff]
  intro g hg
  obtain ⟨members, rfl, -⟩ := (h g hg).members
  rfl

theorem pathParts_eq (h : ReadSplit split p) : p.pathParts = (p.trunk.groupsFrom 0).map Group.parts := by
  have hsimple := h.readPath.simple.1
  rw [pathParts, filter_isSegment_groups fun g hg => (hsimple g hg).isSegment]

theorem queryParts_eq (h : ReadSplit split p) :
    p.blockGroups = (p.rootBlock?.toList.map fun _ =>
        .query p (p.queryParts.map fun e => (e.1, some e.2))) ∧
      p.queryParts.map (·.1) = (p.rootBlock?.getD []).map (·.1) ∧
      (captures.entryCaptures p.trunk.unnamedCount false (p.rootBlock?.getD [])).map (·.1) =
        (p.queryParts.flatMap (·.2)).filterMap Part.capture? := by
  have hqueryParts : p.queryParts = p.blockGroups.flatMap Group.entries := by
    rw [queryParts, groups_eq, List.flatMap_append, flatMap_entries_eq_nil h.readPath.simple.1,
      List.nil_append]
  cases h with
  | plain _ hpath =>
    have hblock := hpath.queryless.rootBlock?_eq_none
    rw [hqueryParts, blockGroups, hblock]
    exact ⟨rfl, rfl, rfl⟩
  | @query q query es _ _ hquery =>
    obtain ⟨entries, hentries, hkeys, hcaptures⟩ := entryParts_of_forall₂ hquery.1 (0 + q.unnamedCount)
    have hblock : (queryParams q es).blockGroups =
        [.query (queryParams q es) (entries.map fun e => (e.1, some e.2))] := by
      rw [← hentries]
      rfl
    have hparts : (queryParams q es).queryParts = entries := by
      rw [hqueryParts, hblock]
      simp [Group.entries, List.filterMap_map]
    rw [hparts, hblock]
    refine ⟨rfl, hkeys, ?_⟩
    rw [← hcaptures, Nat.zero_add]
    rfl

/-- The query block has one step of its own, and no warning. -/
theorem layoutAll_blockGroups (h : ReadSplit split p) :
    Group.layoutAll p p.blockGroups = ⟨[], .ok (blockSteps p)⟩ := by
  rw [h.queryParts_eq.1, blockSteps]
  cases p.rootBlock? with
  | none => rfl
  | some es =>
    simp only [Option.toList_some, List.map_cons, List.map_nil]
    rw [Group.layoutAll, Group.layout, Group.layoutEntries_map]
    rfl

/-- What reading gives is laid out segment by segment, then the query. -/
theorem layout_eq (h : ReadSplit split p)
    (hm : ∀ parts ∈ p.pathParts.dropLast, ∀ part ∈ parts, part.isMultiple = false) :
    p.layout = ⟨[], .ok (p.pathParts.map Step.ofParts ++ blockSteps p)⟩ := by
  have hsimple := h.readPath.simple.1
  rw [h.pathParts_eq] at hm ⊢
  have hdrop : ∀ g ∈ (p.trunk.groupsFrom 0).dropLast, ∀ part ∈ g.parts, part.isMultiple = false := by
    intro g hg
    refine hm g.parts ?_
    rw [← List.map_dropLast]
    exact List.mem_map_of_mem hg
  have hlayout : p.layout = Group.layoutAll p p.groups := rfl
  rw [hlayout, groups_eq, Group.layoutAll_simple p hsimple hdrop (isSegment_of_mem_blockGroups p)
    h.layoutAll_blockGroups, List.map_map]
  rfl

theorem queryParts_keys (h : ReadSplit split p) :
    p.queryParts.map (·.1) = (p.rootBlock?.getD []).map (·.1) :=
  h.queryParts_eq.2.1

theorem queryParts_keys_clean (h : ReadSplit split p) :
    (p.queryParts.map (·.1)).Nodup ∧ ∀ e ∈ p.queryParts, '=' ∉ e.1 := by
  have hkeys := h.queryParts_keys
  have hblock : ((p.rootBlock?.getD []).map (·.1)).Nodup ∧
      ∀ key ∈ (p.rootBlock?.getD []).map (·.1), '=' ∉ key := by
    cases h with
    | plain _ hpath => simp [hpath.queryless.rootBlock?_eq_none]
    | query _ _ hquery =>
      refine ⟨hquery.2, fun key hk => ?_⟩
      obtain ⟨e, he, rfl⟩ := List.mem_map.mp hk
      obtain ⟨_, _, _, _, hequals, _⟩ := exists_of_mem_right hquery.1 he
      exact hequals
  rw [← hkeys] at hblock
  exact ⟨hblock.1, fun e he => hblock.2 e.1 (List.mem_map_of_mem he)⟩

theorem queryParts_eq_nil (h : ReadSplit split p) (hnone : p.rootBlock? = none) : p.queryParts = [] := by
  have hkeys := h.queryParts_keys
  rw [hnone] at hkeys
  simpa using hkeys

theorem captures_eq (h : ReadSplit split p) :
    (p.captures 0 false).map (·.1) =
      (p.pathParts.flatten ++ p.queryParts.flatMap (·.2)).filterMap Part.capture? := by
  have hpath := h.readPath.simple.2
  have hquery := h.queryParts_eq.2.2
  rw [h.pathParts_eq, ← List.flatMap_def, List.filterMap_append, ← hpath, ← hquery]
  cases hb : p.rootBlock? with
  | none => simp [trunk_eq_self hb, captures.entryCaptures]
  | some es =>
    obtain ⟨previous, rfl⟩ := exists_queryParams hb
    simp [captures, trunk]

end Pattern.ReadSplit

end RoutePattern
