import Mathlib.Algebra.GroupWithZero.Nat
import RoutePattern.Matcher
import RoutePattern.Pattern.Reader
import RoutePattern.Proofs.Grouping
import RoutePattern.Proofs.JoinedPath
import RoutePattern.Renderer
import RoutePattern.Schema.Listing

/-!
Concatenation: whatever the bracketing, a concatenation has the path groups of its patterns one after
the other and one query block at the root, where every key is declared by the last pattern that knows
it. Nothing else of the bracketing can be observed.
-/

namespace RoutePattern

variable {σ : Type}

namespace Pattern

/-- What stands before the query block of a pattern that has one at the root. -/
def trunk : Pattern σ → Pattern σ
  | queryParams previous _ => previous
  | p => p

def rootBlock? : Pattern σ → Option (List (Text × Pattern σ))
  | queryParams _ entries => some entries
  | _ => none

/-- Whether there is a query block anywhere in a pattern. -/
def hasBlock : Pattern σ → Bool
  | modified _ inner => inner.hasBlock
  | prefixed _ inner => inner.hasBlock
  | concat left right _ => left.hasBlock || right.hasBlock
  | queryParam _ value => value.hasBlock
  | queryParams _ _ => true
  | withSchema inner _ => inner.hasBlock
  | _ => false

/-- A query block stands nowhere but at the root. -/
structure BlockAtRoot (p : Pattern σ) : Prop where
  trunk : p.trunk.hasBlock = false
  values : ∀ entry ∈ p.rootBlock?.getD [], entry.2.hasBlock = false

instance (p : Pattern σ) : Decidable p.BlockAtRoot :=
  decidable_of_iff
    (p.trunk.hasBlock = false ∧ ∀ entry ∈ p.rootBlock?.getD [], entry.2.hasBlock = false)
    ⟨fun h => ⟨h.1, h.2⟩, fun h => ⟨h.trunk, h.values⟩⟩

/-- The path groups of a pattern: the patterns that share each segment. -/
def pathGroups (p : Pattern σ) : List (List (Pattern σ)) :=
  (p.groups.filter Group.isSegment).map Group.nodes

theorem trunk_eq_self {p : Pattern σ} (h : p.rootBlock? = none) : p.trunk = p := by
  cases p <;> simp_all [rootBlock?, trunk]

theorem exists_queryParams {p : Pattern σ} {entries : List (Text × Pattern σ)}
    (h : p.rootBlock? = some entries) : ∃ previous, p = queryParams previous entries := by
  cases p <;> simp_all [rootBlock?]

def mergeBlocks : Option (List (Text × Pattern σ)) → Option (List (Text × Pattern σ)) →
    Option (List (Text × Pattern σ))
  | some es, some fs => some (mergeEntries es fs)
  | some es, none => some es
  | none, block => block

theorem rootBlock?_append (p q : Pattern σ) :
    (p.append q).rootBlock? = mergeBlocks p.rootBlock? q.rootBlock? := by
  cases p <;> cases q <;> rfl

/-- Without its query block a concatenation is a plain one, up to sides without segments. -/
theorem trunk_append (p q : Pattern σ) :
    (p.append q).trunk = p.trunk.merge q.trunk ∨
      (p.append q).trunk = concat p.trunk q.trunk false := by
  cases p <;> cases q <;> first | exact .inl rfl | exact .inr rfl

/-- A list read off a pattern from a first key on that a plain concatenation puts together from its
sides, and to which a pattern without segments adds nothing. -/
structure Additive {β : Type} (f : Nat → Pattern σ → List β) : Prop where
  concat : ∀ first p q, f first (concat p q false) = f first p ++ f (first + p.unnamedCount) q
  empty : ∀ first p, p.isEmptyLiteral → f first p = []

theorem unnamedCount_of_isEmptyLiteral {p : Pattern σ} (h : p.isEmptyLiteral) :
    p.unnamedCount = 0 := by
  cases p <;> simp_all [isEmptyLiteral, unnamedCount]

theorem unnamedCount_merge (p q : Pattern σ) :
    (p.merge q).unnamedCount = p.unnamedCount + q.unnamedCount := by
  unfold merge
  split
  next hq => simp [unnamedCount_of_isEmptyLiteral hq]
  next =>
    split
    next hp => simp [unnamedCount_of_isEmptyLiteral hp]
    next => rfl

theorem unnamedCount_trunk_append (p q : Pattern σ) :
    (p.append q).trunk.unnamedCount = p.trunk.unnamedCount + q.trunk.unnamedCount := by
  rcases trunk_append p q with h | h
  · rw [h, unnamedCount_merge]
  · rw [h]; rfl

theorem Additive.merge {β : Type} {f : Nat → Pattern σ → List β} (h : Additive f) (first : Nat)
    (p q : Pattern σ) : f first (p.merge q) = f first p ++ f (first + p.unnamedCount) q := by
  unfold Pattern.merge
  split
  next hq => simp [h.empty _ q hq]
  next =>
    split
    next hp => simp [h.empty _ p hp, unnamedCount_of_isEmptyLiteral hp]
    next => exact h.concat first p q

theorem Additive.append {β : Type} {f : Nat → Pattern σ → List β} (h : Additive f) (first : Nat)
    (p q : Pattern σ) :
    f first (p.append q).trunk = f first p.trunk ++ f (first + p.trunk.unnamedCount) q.trunk := by
  rcases trunk_append p q with ht | ht
  · rw [ht, h.merge]
  · rw [ht, h.concat]

/-- What patterns that follow one another add up to. -/
def collect {β : Type} (f : Nat → Pattern σ → List β) (first : Nat) : List (Pattern σ) → List β
  | [] => []
  | p :: rest => f first p ++ collect f (first + p.unnamedCount) rest

theorem collect_append {β : Type} (f : Nat → Pattern σ → List β) (first : Nat)
    (ps qs : List (Pattern σ)) :
    collect f first (ps ++ qs) =
      collect f first ps ++ collect f (first + (ps.map unnamedCount).sum) qs := by
  induction ps generalizing first with
  | nil => simp [collect]
  | cons p rest ih => simp [collect, ih, Nat.add_assoc]

theorem collect_const {β : Type} (f : Pattern σ → List β) (first : Nat) (ps : List (Pattern σ)) :
    collect (fun _ => f) first ps = ps.flatMap f := by
  induction ps generalizing first with
  | nil => rfl
  | cons p rest ih => simp [collect, ih]

theorem Additive.foldl {β : Type} {f : Nat → Pattern σ → List β} (h : Additive f) (first : Nat)
    (p : Pattern σ) (ps : List (Pattern σ)) :
    f first (ps.foldl (fun left right => .concat left right false) p) =
      collect f first (p :: ps) := by
  induction ps generalizing p with
  | nil => simp [collect]
  | cons q rest ih =>
    rw [List.foldl_cons, ih]
    simp [collect, h.concat, unnamedCount, Nat.add_assoc]

theorem Additive.joinSegments {β : Type} {f : Nat → Pattern σ → List β} (h : Additive f)
    (first : Nat) (ps : List (Pattern σ)) :
    f first (Pattern.joinSegments ps) = collect f first ps := by
  cases ps with
  | nil => exact h.empty first root rfl
  | cons p rest => exact h.foldl first p rest

theorem additive_groups : Additive (groupsFrom (σ := σ)) :=
  ⟨groupsFrom_concat, fun first _ h => groupsFrom_of_isEmptyLiteral first h⟩

theorem captures_of_isEmptyLiteral {p : Pattern σ} (first : Nat) (optional : Bool)
    (h : p.isEmptyLiteral) : p.captures first optional = [] := by
  cases p <;> simp_all [isEmptyLiteral, captures, member, Member.part?, captures.partCaptures]

theorem additive_captures : Additive fun first (p : Pattern σ) => p.captures first false :=
  ⟨fun _ _ _ => rfl, fun first _ h => captures_of_isEmptyLiteral first false h⟩

theorem additive_body : Additive fun _ (p : Pattern σ) => joinPath [p.body] := by
  refine ⟨fun _ p q => ?_, fun _ p h => ?_⟩
  · simp only [body, Bool.false_eq_true, if_false]
    rw [joinPath_joinPath, joinPath_cons]
  · cases p with
    | literal text => exact joinPath_slashes h
    | _ => simp [isEmptyLiteral] at h

theorem additive_nodes : Additive fun _ (p : Pattern σ) => (p.groupsFrom 0).map Group.nodes := by
  refine ⟨fun _ p q => ?_, fun _ p h => ?_⟩
  · rw [groupsFrom_concat, List.map_append, nodes_groupsFrom (0 + p.unnamedCount) q]
  · rw [groupsFrom_of_isEmptyLiteral 0 h]; rfl

theorem strayParam?_of_isEmptyLiteral {p : Pattern σ} (h : p.isEmptyLiteral) :
    p.strayParam? = none := by
  cases p <;> simp_all [isEmptyLiteral, strayParam?]

theorem strayParam?_trunk_append (p q : Pattern σ) :
    (p.append q).trunk.strayParam? = p.trunk.strayParam?.or q.trunk.strayParam? := by
  rcases trunk_append p q with h | h
  · rw [h]
    unfold merge
    split
    next hq => simp [strayParam?_of_isEmptyLiteral hq]
    next =>
      split
      next hp => simp [strayParam?_of_isEmptyLiteral hp]
      next => rfl
  · rw [h]; rfl

theorem hasBlock_trunk_append (p q : Pattern σ) :
    (p.append q).trunk.hasBlock = true → p.trunk.hasBlock = true ∨ q.trunk.hasBlock = true := by
  intro hb
  rcases trunk_append p q with h | h
  · rw [h] at hb
    unfold merge at hb
    split at hb
    next => exact .inl hb
    next =>
      split at hb
      next => exact .inr hb
      next => simpa [hasBlock] using hb
  · rw [h] at hb
    simpa [hasBlock] using hb

theorem mem_mergeBlocks {a b : Option (List (Text × Pattern σ))} {entry : Text × Pattern σ}
    (h : entry ∈ (mergeBlocks a b).getD []) : entry ∈ a.getD [] ∨ entry ∈ b.getD [] := by
  cases a with
  | none => exact .inr h
  | some es =>
    cases b with
    | none => exact .inl h
    | some fs => exact (List.mem_append.mp h).imp_left fun hm => (List.mem_filter.mp hm).1

theorem BlockAtRoot.append {p q : Pattern σ} (hp : p.BlockAtRoot) (hq : q.BlockAtRoot) :
    (p.append q).BlockAtRoot := by
  refine ⟨?_, ?_⟩
  · rw [← Bool.not_eq_true]
    intro hb
    rcases hasBlock_trunk_append p q hb with h | h
    · simp [hp.trunk] at h
    · simp [hq.trunk] at h
  · intro entry hm
    rw [rootBlock?_append] at hm
    rcases mem_mergeBlocks hm with hm | hm
    · exact hp.values entry hm
    · exact hq.values entry hm

theorem query_notMem_stops (node : Pattern σ) (entries : List (Text × Option (List Part)))
    (first : Nat) (joined : Bool) : (p : Pattern σ) → p.hasBlock = false →
    Stop.query node entries ∉ p.stops first joined
  | literal text, _ => by
    simp only [stops]
    split <;> simp
  | param _, _ => by simp [stops]
  | unnamed, _ => by simp [stops]
  | modified _ _, _ => by simp [stops]
  | prefixed _ _, _ => by simp [stops]
  | concat left right glued, h => by
    obtain ⟨hl, hr⟩ := Bool.or_eq_false_iff.mp h
    intro hm
    rcases List.mem_append.mp hm with hm | hm
    · exact query_notMem_stops node entries first joined left hl hm
    · exact query_notMem_stops node entries _ glued right hr hm
  | queryParam _ _, _ => by simp [stops]
  | queryParams _ _, h => by simp [hasBlock] at h
  | withSchema inner _, h => by
    simp only [stops]
    exact query_notMem_stops node entries first joined inner h

theorem isSegment_of_mem_groupsFrom {p : Pattern σ} (h : p.hasBlock = false) (first : Nat) :
    ∀ g ∈ p.groupsFrom first, g.isSegment :=
  Group.gather_isSegment [] fun node entries => query_notMem_stops node entries first false p h

def blockGroups (p : Pattern σ) : List (Group σ) :=
  match p.rootBlock? with
  | none => []
  | some entries => [.query p (entryParts (0 + p.trunk.unnamedCount) entries)]

theorem groups_eq (p : Pattern σ) : p.groups = p.trunk.groupsFrom 0 ++ p.blockGroups := by
  have hgroups : p.groups = p.groupsFrom 0 := rfl
  cases hb : p.rootBlock? with
  | none =>
    rw [hgroups, trunk_eq_self hb, blockGroups, hb]
    simp
  | some entries =>
    obtain ⟨previous, rfl⟩ := exists_queryParams hb
    exact groupsFrom_queryParams 0 previous entries

theorem isSegment_of_mem_blockGroups (p : Pattern σ) :
    ∀ g ∈ p.blockGroups, g.isSegment = false := by
  intro g hg
  unfold blockGroups at hg
  split at hg
  next => simp at hg
  next =>
    obtain rfl := List.mem_singleton.mp hg
    rfl

theorem filter_isSegment_groups {p : Pattern σ} (h : ∀ g ∈ p.trunk.groupsFrom 0, g.isSegment) :
    p.groups.filter Group.isSegment = p.trunk.groupsFrom 0 := by
  have hblock : p.blockGroups.filter Group.isSegment = [] :=
    List.filter_eq_nil_iff.mpr fun g hg => by simp [isSegment_of_mem_blockGroups p g hg]
  rw [groups_eq, List.filter_append, List.filter_eq_self.mpr h, hblock, List.append_nil]

theorem BlockAtRoot.pathGroups_eq {p : Pattern σ} (h : p.BlockAtRoot) :
    p.pathGroups = (p.trunk.groupsFrom 0).map Group.nodes := by
  rw [pathGroups, filter_isSegment_groups (isSegment_of_mem_groupsFrom h.trunk 0)]

theorem queryBlock?_of_hasBlock : (p : Pattern σ) → p.hasBlock = false → p.queryBlock? = none
  | literal _, _ => rfl
  | param _, _ => rfl
  | unnamed, _ => rfl
  | modified _ _, _ => rfl
  | prefixed _ _, _ => rfl
  | concat _ right _, h => queryBlock?_of_hasBlock right (Bool.or_eq_false_iff.mp h).2
  | queryParam _ _, _ => rfl
  | queryParams _ _, h => by simp [hasBlock] at h
  | withSchema inner _, h => queryBlock?_of_hasBlock inner h

theorem BlockAtRoot.queryBlock?_eq {p : Pattern σ} (h : p.BlockAtRoot) :
    p.queryBlock? = p.rootBlock? := by
  cases hb : p.rootBlock? with
  | none =>
    have := h.trunk
    rw [trunk_eq_self hb] at this
    exact queryBlock?_of_hasBlock p this
  | some entries =>
    obtain ⟨previous, rfl⟩ := exists_queryParams hb
    rfl

/-- The written form of a path with or without a query block behind it. -/
def written (path : Text) : Option (List (Text × Pattern σ)) → Text
  | none => orRoot path
  | some entries =>
    let query := Text.join ['&'] (entryBodies entries)
    orRoot path ++ querySeparator (orRoot path) query ++ query

theorem BlockAtRoot.path_eq {p : Pattern σ} (h : p.BlockAtRoot) :
    p.path = written (joinPath [p.trunk.body]) p.rootBlock? := by
  unfold path
  rw [h.queryBlock?_eq]
  cases hb : p.rootBlock? with
  | none => rw [trunk_eq_self hb]; rfl
  | some entries =>
    obtain ⟨previous, rfl⟩ := exists_queryParams hb
    rfl

/-- Two patterns that agree in all that matching, rendering and writing look at. -/
structure Alike (p q : Pattern σ) : Prop where
  block : p.rootBlock? = q.rootBlock?
  count : p.trunk.unnamedCount = q.trunk.unnamedCount
  groups : p.trunk.groupsFrom 0 = q.trunk.groupsFrom 0
  captures : p.trunk.captures 0 false = q.trunk.captures 0 false
  body : joinPath [p.trunk.body] = joinPath [q.trunk.body]
  stray : p.trunk.strayParam? = q.trunk.strayParam?

namespace Alike

variable {p q : Pattern σ}

theorem strayParam? (h : p.Alike q) : p.strayParam? = q.strayParam? := by
  have hs := h.stray
  cases hb : p.rootBlock? with
  | none =>
    rwa [trunk_eq_self hb, trunk_eq_self (h.block ▸ hb)] at hs
  | some entries =>
    obtain ⟨previous, rfl⟩ := exists_queryParams hb
    obtain ⟨previous', rfl⟩ := exists_queryParams (h.block ▸ hb)
    simp only [trunk] at hs
    simp only [Pattern.strayParam?, hs]

theorem groupsFrom (h : p.Alike q) :
    List.Forall₂ Group.Alike (p.groupsFrom 0) (q.groupsFrom 0) := by
  have hg := h.groups
  cases hb : p.rootBlock? with
  | none =>
    rw [trunk_eq_self hb, trunk_eq_self (h.block ▸ hb)] at hg
    rw [hg]
    exact Group.forall₂_alike_refl _
  | some entries =>
    have hc := h.count
    obtain ⟨previous, rfl⟩ := exists_queryParams hb
    obtain ⟨previous', rfl⟩ := exists_queryParams (h.block ▸ hb)
    simp only [trunk] at hg hc
    rw [groupsFrom_queryParams, groupsFrom_queryParams, hg, hc]
    exact List.rel_append (Group.forall₂_alike_refl _) (.cons rfl .nil)

theorem layout (h : p.Alike q) : p.layout.Alike q.layout :=
  Group.layoutAll_alike h.groupsFrom h.strayParam?

theorem matcher (h : p.Alike q) (atEnd : Bool) : p.matcher atEnd = q.matcher atEnd := by
  rw [Pattern.matcher, Pattern.matcher, h.layout.toldSteps]

theorem allCaptures (h : p.Alike q) : p.captures 0 false = q.captures 0 false := by
  have hc := h.captures
  cases hb : p.rootBlock? with
  | none =>
    rwa [trunk_eq_self hb, trunk_eq_self (h.block ▸ hb)] at hc
  | some entries =>
    have hn := h.count
    obtain ⟨previous, rfl⟩ := exists_queryParams hb
    obtain ⟨previous', rfl⟩ := exists_queryParams (h.block ▸ hb)
    simp only [trunk] at hc hn
    simp only [Pattern.captures, hc, hn]

theorem renderer (h : p.Alike q) : p.renderer = q.renderer := by
  rw [Pattern.renderer, Pattern.renderer, h.layout.steps, h.allCaptures]

theorem path (h : p.Alike q) (hp : p.BlockAtRoot) (hq : q.BlockAtRoot) : p.path = q.path := by
  rw [hp.path_eq, hq.path_eq, h.block, h.body]

theorem path? {p q : Pattern Schema} (h : p.Alike q) (hp : p.BlockAtRoot) (hq : q.BlockAtRoot) :
    p.path? = q.path? := by
  rw [Pattern.path?, Pattern.path?, h.strayParam?, h.path hp hq]

end Alike

end Pattern

/-- A way of putting patterns together two at a time, in their order. -/
inductive Bracketing (σ : Type) where
  | single (p : Pattern σ)
  | pair (left right : Bracketing σ)

namespace Bracketing

def leaves : Bracketing σ → List (Pattern σ)
  | single p => [p]
  | pair left right => left.leaves ++ right.leaves

def value : Bracketing σ → Pattern σ
  | single p => p
  | pair left right => left.value.append right.value

end Bracketing

namespace Pattern

def declares (key : Text) (p : Pattern σ) : Bool :=
  (p.rootBlock?.getD []).any fun entry => entry.1 == key

/-- Pattern by pattern, the entries whose key no later pattern declares. -/
def lastDeclared : List (Pattern σ) → List (Text × Pattern σ)
  | [] => []
  | p :: later =>
    (p.rootBlock?.getD []).filter (fun entry => !later.any (declares entry.1)) ++ lastDeclared later

/-- The query block of patterns put one after the other: none where no pattern has one. -/
def blockOf (ps : List (Pattern σ)) : Option (List (Text × Pattern σ)) :=
  if ps.any (·.rootBlock?.isSome) then some (lastDeclared ps) else none

theorem declares_lastDeclared (key : Text) (ps : List (Pattern σ)) :
    ((lastDeclared ps).map (·.1)).contains key = ps.any (declares key) := by
  induction ps with
  | nil => rfl
  | cons p later ih =>
    rw [Bool.eq_iff_iff] at ih ⊢
    simp only [lastDeclared, List.map_append, List.contains_iff_mem, List.mem_append, List.mem_map,
      List.mem_filter, List.any_cons, Bool.or_eq_true] at ih ⊢
    rw [ih]
    constructor
    · rintro (⟨entry, ⟨hm, _⟩, rfl⟩ | h)
      · exact .inl (List.any_eq_true.mpr ⟨entry, hm, by simp⟩)
      · exact .inr h
    · rintro (h | h)
      -- an entry that is overridden leaves its key to a later pattern
      · by_cases hl : later.any (declares key) = true
        · exact .inr hl
        · obtain ⟨entry, hm, hk⟩ := List.any_eq_true.mp h
          have hk : entry.1 = key := by simpa using hk
          exact .inl ⟨entry, ⟨hm, by simpa [hk] using hl⟩, hk⟩
      · exact .inr h

theorem lastDeclared_append (ps qs : List (Pattern σ)) :
    lastDeclared (ps ++ qs) = mergeEntries (lastDeclared ps) (lastDeclared qs) := by
  simp only [mergeEntries, declares_lastDeclared]
  induction ps with
  | nil => rfl
  | cons p later ih =>
    simp only [List.cons_append, lastDeclared, ih, List.any_append, List.filter_append,
      List.filter_filter, List.append_assoc]
    congr 2
    funext entry
    rw [Bool.not_or, Bool.and_comm]

theorem lastDeclared_eq_nil {ps : List (Pattern σ)} (h : ps.any (·.rootBlock?.isSome) = false) :
    lastDeclared ps = [] := by
  induction ps with
  | nil => rfl
  | cons p later ih =>
    obtain ⟨hp, hl⟩ := Bool.or_eq_false_iff.mp h
    have : p.rootBlock? = none := by simpa using hp
    simp [lastDeclared, this, ih hl]

theorem blockOf_append (ps qs : List (Pattern σ)) :
    blockOf (ps ++ qs) = mergeBlocks (blockOf ps) (blockOf qs) := by
  simp only [blockOf, List.any_append, lastDeclared_append]
  cases hp : ps.any (·.rootBlock?.isSome) with
  | false => cases qs.any (·.rootBlock?.isSome) <;> simp [mergeBlocks, mergeEntries, lastDeclared_eq_nil hp]
  | true =>
    cases hq : qs.any (·.rootBlock?.isSome) with
    | false => simp [mergeBlocks, mergeEntries, lastDeclared_eq_nil hq]
    | true => simp [mergeBlocks]

end Pattern

namespace Bracketing

open Pattern

theorem unnamedCount_value (t : Bracketing σ) :
    t.value.trunk.unnamedCount = ((t.leaves.map trunk).map unnamedCount).sum := by
  induction t with
  | single p => simp [value, leaves]
  | pair left right ihl ihr => simp [value, leaves, unnamedCount_trunk_append, ihl, ihr]

theorem additive_value {β : Type} {f : Nat → Pattern σ → List β} (h : Additive f) (first : Nat)
    (t : Bracketing σ) : f first t.value.trunk = collect f first (t.leaves.map trunk) := by
  induction t generalizing first with
  | single p => simp [value, leaves, collect]
  | pair left right ihl ihr =>
    -- the keys of the right side begin where the unnamed captures of the left side end
    rw [value, h.append, ihl, ihr, leaves, List.map_append, collect_append, unnamedCount_value]

theorem rootBlock?_value (t : Bracketing σ) : t.value.rootBlock? = blockOf t.leaves := by
  induction t with
  | single p =>
    cases h : p.rootBlock? <;> simp [value, leaves, blockOf, lastDeclared, h]
  | pair left right ihl ihr => rw [value, rootBlock?_append, ihl, ihr, leaves, blockOf_append]

theorem strayParam?_value (t : Bracketing σ) :
    t.value.trunk.strayParam? = t.leaves.findSome? (·.trunk.strayParam?) := by
  induction t with
  | single p => simp [value, leaves]
  | pair left right ihl ihr =>
    rw [value, strayParam?_trunk_append, ihl, ihr, leaves, List.findSome?_append]

theorem blockAtRoot_value {t : Bracketing σ} (h : ∀ p ∈ t.leaves, p.BlockAtRoot) :
    t.value.BlockAtRoot := by
  induction t with
  | single p => exact h p (by simp [leaves])
  | pair left right ihl ihr =>
    exact (ihl fun p hp => h p (by simp [leaves, hp])).append
      (ihr fun p hp => h p (by simp [leaves, hp]))

theorem alike_value {t u : Bracketing σ} (h : t.leaves = u.leaves) : t.value.Alike u.value where
  block := by rw [rootBlock?_value, rootBlock?_value, h]
  count := by rw [unnamedCount_value, unnamedCount_value, h]
  groups := by rw [additive_value additive_groups, additive_value additive_groups, h]
  captures := by
    have ht := additive_value additive_captures 0 t
    have hu := additive_value additive_captures 0 u
    exact ht.trans (h ▸ hu.symm)
  body := by
    have ht := additive_value additive_body 0 t
    have hu := additive_value additive_body 0 u
    exact ht.trans (h ▸ hu.symm)
  stray := by rw [strayParam?_value, strayParam?_value, h]

theorem pathGroups_value {t : Bracketing σ} (h : ∀ p ∈ t.leaves, p.BlockAtRoot) :
    t.value.pathGroups = t.leaves.flatMap pathGroups := by
  rw [(blockAtRoot_value h).pathGroups_eq]
  have hv := additive_value additive_nodes 0 t
  rw [collect_const, List.flatMap_map] at hv
  refine hv.trans ?_
  apply List.flatMap_congr
  intro p hp
  exact (h p hp).pathGroups_eq.symm

/-- Concatenation is associative and has a normal form. A bracketing of patterns with query blocks at
most at their roots has the path groups of the patterns in order, and at most one query block, which is
at the root: the entries of each pattern that no later one declares. Every other bracketing of the same
patterns is written alike and has the very same matcher and renderer, so that it matches all segments
and queries alike and renders all arguments alike. -/
theorem value_normal_form {t : Bracketing Schema} (h : ∀ p ∈ t.leaves, p.BlockAtRoot) :
    t.value.pathGroups = t.leaves.flatMap pathGroups ∧
    t.value.BlockAtRoot ∧
    t.value.rootBlock? =
      (if t.leaves.any (·.rootBlock?.isSome) then some (lastDeclared t.leaves) else none) ∧
    ∀ u : Bracketing Schema, u.leaves = t.leaves →
      u.value.path? = t.value.path? ∧
      (∀ atEnd, u.value.matcher atEnd = t.value.matcher atEnd) ∧
      u.value.renderer = t.value.renderer := by
  refine ⟨pathGroups_value h, blockAtRoot_value h, rootBlock?_value t, fun u hu => ?_⟩
  have halike := alike_value hu
  have hroot := blockAtRoot_value (t := u) (by rwa [hu])
  exact ⟨halike.path? hroot (blockAtRoot_value h), halike.matcher, halike.renderer⟩

/-- Three patterns of which the first and the last declare one key: the last one wins, from either
bracketing, and the empty path in the middle leaves no trace. -/
theorem value_normal_form_three :
    let a : Pattern Schema := .queryParams (.literal "a") [("x", .param "x"), ("y", .param "y")]
    let b : Pattern Schema := .literal "/"
    let c : Pattern Schema := .queryParams (.concat .unnamed (.param "c") false) [("y", .unnamed)]
    let left := pair (pair (single a) (single b)) (single c)
    let right := pair (single a) (pair (single b) (single c))
    (∀ p ∈ left.leaves, p.BlockAtRoot) ∧
      left.value.rootBlock? = some [(['x'], .param ['x']), (['y'], .unnamed)] ∧
      left.value.renderer = right.value.renderer := by
  intro a b c left right
  have h : ∀ p ∈ left.leaves, p.BlockAtRoot := by decide
  exact ⟨h, (value_normal_form h).2.2.1.trans rfl, ((value_normal_form h).2.2.2 right rfl).2.2.symm⟩

end Bracketing

end RoutePattern
