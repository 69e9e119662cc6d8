import Mathlib.Data.List.Forall2
import RoutePattern.Proofs.Renumbering

/-!
Grouping: the groups of patterns put one after the other are the groups of each, and the layout of a
pattern depends on the pattern as a whole only through the entry that keeps it from being written.
-/

namespace RoutePattern

variable {σ : Type}

/-- Whether a stop begins a group of its own. -/
def Stop.opens : Stop σ → Bool
  | .member joined _ _ => !joined
  | _ => true

namespace Group

/-- Stops that begin with a group of their own are grouped apart from what stands before them. -/
theorem gather_append {front back : List (Stop σ)} (current : List (Pattern σ × Member σ))
    (h : ∀ stop ∈ back.head?, stop.opens) :
    gather current (front ++ back) = gather current front ++ gather [] back := by
  -- whatever is gathered at the end of the front is closed by the first stop behind it
  induction front generalizing current with
  | nil =>
    cases back with
    | nil => simp [gather, close]
    | cons stop rest =>
      have ho := h stop rfl
      cases stop with
      | gap text => simp [gather, close]
      | query node entries => simp [gather, close]
      | member joined node m =>
        have hj : joined = false := by simpa [Stop.opens] using ho
        simp [gather, close, hj]
  | cons stop rest ih =>
    cases stop with
    | gap text => simp [gather, ih]
    | query node entries => simp [gather, ih]
    | member joined node m => cases joined <;> simp [gather, ih]

theorem gather_isSegment {stops : List (Stop σ)} (current : List (Pattern σ × Member σ))
    (h : ∀ node entries, Stop.query node entries ∉ stops) :
    ∀ g ∈ gather current stops, g.isSegment := by
  induction stops generalizing current with
  | nil =>
    intro g hg
    unfold gather close at hg
    split at hg <;> simp_all [isSegment]
  | cons stop rest ih =>
    have hrest : ∀ node entries, Stop.query node entries ∉ rest :=
      fun node entries hm => h node entries (List.mem_cons_of_mem _ hm)
    have hclose : ∀ g ∈ close current, g.isSegment := by
      intro g hg
      unfold close at hg
      split at hg <;> simp_all [isSegment]
    intro g hg
    cases stop with
    | query node entries => exact absurd (by simp) (h node entries)
    | gap text =>
      rcases List.mem_append.mp hg with hg | hg
      · exact hclose g hg
      · exact ih [] hrest g hg
    | member joined node m =>
      cases joined with
      | true => exact ih _ hrest g (by simpa [gather] using hg)
      | false =>
        rcases List.mem_append.mp (by simpa [gather] using hg) with hg | hg
        · exact hclose g hg
        · exact ih _ hrest g hg

end Group

namespace Layout

/-- Two layouts with the same steps, whose warnings are kept back by the same entries. -/
structure Alike (l m : Layout σ) : Prop where
  steps : l.steps = m.steps
  strays : l.warnings.map (·.whole.strayParam?) = m.warnings.map (·.whole.strayParam?)

theorem Alike.append {l l' m m' : Layout σ} (h : l.Alike l') (h' : m.Alike m') :
    (l.append m).Alike (l'.append m') := by
  obtain ⟨ws, steps⟩ := l
  obtain ⟨vs, steps'⟩ := l'
  obtain ⟨hs, hw⟩ := h
  subst hs
  cases steps with
  | error e => exact ⟨rfl, hw⟩
  | ok steps =>
    refine ⟨?_, ?_⟩
    · simp [Layout.append, h'.steps]
    · simpa [Layout.append] using congrArg₂ (· ++ ·) hw h'.strays

theorem Alike.toldSteps {l m : Layout σ} (h : l.Alike m) : l.toldSteps = m.toldSteps := by
  have hf (k : Layout σ) : k.warnings.findSome? (fun w => w.whole.strayParam?) =
      (k.warnings.map (·.whole.strayParam?)).findSome? id := by
    rw [List.findSome?_map]
    rfl
  simp only [Layout.toldSteps, hf, h.strays, h.steps]

end Layout

namespace Group

/-- Two groups that differ at most in the pattern that a query block is part of. -/
def Alike : Group σ → Group σ → Prop
  | segment members, segment others => members = others
  | query _ entries, query _ others => entries = others
  | _, _ => False

theorem Alike.refl (g : Group σ) : g.Alike g := by
  cases g <;> rfl

theorem Alike.isSegment {g h : Group σ} (hg : g.Alike h) : g.isSegment = h.isSegment := by
  cases g <;> cases h <;> simp_all [Alike, Group.isSegment]

theorem Alike.layout {g h : Group σ} (hg : g.Alike h) {p q : Pattern σ}
    (hs : p.strayParam? = q.strayParam?) (last : Bool) :
    (g.layout p last).Alike (h.layout q last) := by
  cases g with
  | query node entries =>
    cases h with
    | segment members => exact hg.elim
    | query node' entries' =>
      cases (show entries = entries' from hg)
      exact ⟨rfl, rfl⟩
  | segment members =>
    cases h with
    | query node entries => exact hg.elim
    | segment members' =>
      cases (show members = members' from hg)
      match members with
      | [] => exact ⟨rfl, rfl⟩
      | [(node, .part hasLead part)] =>
        refine ⟨rfl, ?_⟩
        simp only [Group.layout, layoutSingle]
        split <;> simp [hs]
      | [(node, .composite optional multiple core layout)] =>
        cases multiple <;> exact ⟨rfl, rfl⟩
      | first :: second :: rest =>
        simp only [Group.layout]
        split <;> exact ⟨rfl, rfl⟩

theorem layoutAll_alike {gs hs : List (Group σ)} (h : List.Forall₂ Alike gs hs) {p q : Pattern σ}
    (hp : p.strayParam? = q.strayParam?) : (layoutAll p gs).Alike (layoutAll q hs) := by
  induction h with
  | nil => exact ⟨rfl, rfl⟩
  | @cons g g' rest rest' hg hr ih =>
    have hany : rest.any isSegment = rest'.any isSegment := by
      clear ih
      induction hr with
      | nil => rfl
      | cons hx _ ihx => simp [ihx, hx.isSegment]
    simp only [layoutAll, hany]
    exact (hg.layout hp _).append ih

theorem forall₂_alike_refl (gs : List (Group σ)) : List.Forall₂ Alike gs gs := by
  induction gs with
  | nil => exact .nil
  | cons g rest ih => exact .cons (.refl g) ih

end Group

namespace Pattern

theorem opens_head?_stops (first : Nat) : (p : Pattern σ) →
    ∃ stop rest, p.stops first false = stop :: rest ∧ stop.opens
  | concat left _ _ => by
    obtain ⟨stop, rest, h, ho⟩ := opens_head?_stops first left
    exact ⟨stop, _, by rw [stops, h]; rfl, ho⟩
  | queryParams previous _ => by
    obtain ⟨stop, rest, h, ho⟩ := opens_head?_stops first previous
    exact ⟨stop, _, by rw [stops, h]; rfl, ho⟩
  | withSchema inner _ => by
    simp only [stops]
    exact opens_head?_stops first inner
  | literal text => by
    simp only [stops]
    split <;> exact ⟨_, _, rfl, rfl⟩
  | param _ => ⟨_, _, rfl, rfl⟩
  | unnamed => ⟨_, _, rfl, rfl⟩
  | modified _ _ => ⟨_, _, rfl, rfl⟩
  | prefixed _ _ => ⟨_, _, rfl, rfl⟩
  | queryParam _ _ => ⟨_, _, rfl, rfl⟩

/-- The groups of a pattern whose first unnamed capture has the key `first`. -/
def groupsFrom (first : Nat) (p : Pattern σ) : List (Group σ) :=
  Group.gather [] (p.stops first false)

theorem groupsFrom_concat (first : Nat) (left right : Pattern σ) :
    (concat left right false).groupsFrom first =
      left.groupsFrom first ++ right.groupsFrom (first + left.unnamedCount) := by
  obtain ⟨stop, rest, h, ho⟩ := opens_head?_stops (first + left.unnamedCount) right
  unfold groupsFrom
  rw [stops, Group.gather_append]
  simpa [h] using ho

theorem groupsFrom_of_isEmptyLiteral {p : Pattern σ} (first : Nat) (h : p.isEmptyLiteral) :
    p.groupsFrom first = [] := by
  cases p with
  | literal text =>
    have ht : text.all (· == '/') = true := h
    simp only [groupsFrom, stops, ht, if_true]
    rfl
  | _ => simp [isEmptyLiteral] at h

theorem groupsFrom_queryParams (first : Nat) (previous : Pattern σ)
    (entries : List (Text × Pattern σ)) :
    (queryParams previous entries).groupsFrom first =
      previous.groupsFrom first ++ [.query (queryParams previous entries)
        (entryParts (first + previous.unnamedCount) entries)] := by
  unfold groupsFrom
  rw [stops, Group.gather_append]
  · rfl
  · simp [Stop.opens]

theorem nodes_groupsFrom (first : Nat) (p : Pattern σ) :
    (p.groupsFrom first).map Group.nodes = (p.groupsFrom 0).map Group.nodes := by
  have h := Group.gather_shift first (p.stops 0 false) []
  rw [← stops_add, Nat.zero_add] at h
  simp only [groupsFrom]
  rw [show Group.gather [] (p.stops first false) =
    (Group.gather [] (p.stops 0 false)).map (Group.shift first) from h]
  simp [Function.comp_def]

end Pattern

end RoutePattern
