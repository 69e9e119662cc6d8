import RoutePattern.Proofs.Concatenation
import RoutePattern.Proofs.Keys
import RoutePattern.Proofs.Matching
import RoutePattern.Proofs.Rendering

/-!
Patterns in succession. What comes second matches from where the first one leaves the cursor and writes
behind it, with its positions moved up by the number of unnamed captures in front of it.
-/

namespace RoutePattern

variable {σ : Type}

theorem Layout.shift_steps_ok {l : Layout σ} {steps : List Step} (count : Nat)
    (h : l.steps = .ok steps) : (l.shift count).steps = .ok (shiftSteps count steps) := by
  rw [Layout.shift, h]
  rfl

namespace Pattern

theorem groupsFrom_eq_shift (first : Nat) (p : Pattern σ) :
    p.groupsFrom first = p.groups.map (Group.shift first) := by
  have hstops := stops_add 0 first false p
  rw [Nat.zero_add] at hstops
  rw [groupsFrom, hstops]
  exact Group.gather_shift first (p.stops 0 false) []

/-- Patterns in succession have the steps of both, the positions of the second moved up. -/
theorem layout_concat {a b : Pattern σ} {front back : List Step} (ha : a.layout.steps = .ok front)
    (hb : b.layout.steps = .ok back) :
    (concat a b false).layout.steps = .ok (front ++ shiftSteps a.unnamedCount back) := by
  have hgroups : (concat a b false).groups =
      a.groups ++ b.groups.map (Group.shift a.unnamedCount) := by
    have hconcat := groupsFrom_concat 0 a b
    rw [Nat.zero_add, groupsFrom_eq_shift a.unnamedCount b] at hconcat
    exact hconcat
  have hback : (Group.layoutAll (concat a b false) (b.groups.map (Group.shift a.unnamedCount))).steps =
      .ok (shiftSteps a.unnamedCount back) := by
    rw [Group.layoutAll_shift]
    exact Layout.shift_steps_ok _ (Group.layoutAll_ok_of_whole _ hb)
  rw [layout, hgroups]
  exact Group.layoutAll_append_ok.mpr ⟨front, _, Group.layoutAll_ok_of_whole _ ha, hback, rfl⟩

theorem append_of_hasBlock {a b : Pattern σ} (ha : a.hasBlock = false) (hb : b.hasBlock = false) :
    a.append b = concat a b false := by
  cases a with
  | queryParams => simp [hasBlock] at ha
  | _ =>
    cases b with
    | queryParams => simp [hasBlock] at hb
    | _ => rfl

theorem queryBlocks_append (front back : List Step) :
    queryBlocks (front ++ back) = queryBlocks front ++ queryBlocks back :=
  List.filterMap_append ..

theorem queryBlocks_of_isSegment {whole : Pattern σ} {gs : List (Group σ)} {steps : List Step}
    (hgs : ∀ g ∈ gs, g.isSegment) (h : (Group.layoutAll whole gs).steps = .ok steps) :
    queryBlocks steps = [] := by
  induction gs generalizing steps with
  | nil =>
    obtain rfl : [] = steps := Except.ok.inj h
    rfl
  | cons g rest ih =>
    obtain ⟨own, others, hown, hothers, rfl⟩ := Group.layoutAll_cons_ok.mp h
    obtain ⟨hg, hrest⟩ := List.forall_mem_cons.mp hgs
    rw [queryBlocks_append, ih hrest hothers, List.append_nil]
    cases g with
    | query node entries => cases hg
    | segment members =>
      obtain ⟨_, _, _, -, rfl⟩ | ⟨_, _, _, _, _, -, -, rfl⟩ | ⟨_, -, rfl⟩ :=
        Group.steps_segment_ok hown <;> rfl

theorem queryBlocks_of_layout {p : Pattern σ} {steps : List Step} (hp : p.hasBlock = false)
    (h : p.layout.steps = .ok steps) : queryBlocks steps = [] :=
  queryBlocks_of_isSegment (isSegment_of_mem_groupsFrom hp 0) h

end Pattern

theorem renderPaths_of_append (args : Arguments) (front back : List Step) :
    renderPaths args (front ++ back) = do
      let first ← renderPaths args front
      let second ← renderPaths args back
      return first ++ second := by
  induction front with
  | nil =>
    rw [List.nil_append]
    cases renderPaths args back <;> rfl
  | cons step rest ih =>
    rw [List.cons_append, renderPaths, renderPaths, ih]
    cases step.render args with
    | error e => rfl
    | ok own =>
      cases renderPaths args rest with
      | error e => rfl
      | ok others =>
        cases renderPaths args back with
        | error e => rfl
        | ok second => exact congrArg Except.ok (List.append_assoc own others second).symm

theorem renderRoute_of_queryBlocks {steps : List Step} (args : Arguments) (h : queryBlocks steps = []) :
    renderRoute args steps = (renderPaths args steps).map fun paths => orRoot (joinPath paths) := by
  have hquery : renderLastQuery args steps = .ok [] := by
    rw [renderLastQuery_eq, h]
    rfl
  rw [renderRoute, renderSteps, hquery]
  cases renderPaths args steps <;> rfl

theorem joinPath_orRoot (parts : List Text) : joinPath [orRoot (joinPath parts)] = joinPath parts := by
  unfold orRoot
  split
  next hempty =>
    rw [joinPath_slashes (by simp), List.isEmpty_iff.mp hempty]
  next => exact joinPath_joinPath parts

theorem renderRoute_append {front back : List Step} (count : Nat) (entries : Table Value Value)
    (hfront : queryBlocks front = []) (hback : queryBlocks back = []) :
    renderRoute (.map entries) (front ++ shiftSteps count back) = do
      let first ← renderRoute (.map entries) front
      let second ← (renderRoute (.map (loweredEntries count entries)) back).mapError
        (RenderError.shift count)
      return orRoot (joinPath [first, second]) := by
  have hblocks : queryBlocks (front ++ shiftSteps count back) = [] := by
    rw [Pattern.queryBlocks_append, queryBlocks_shift, hfront, hback]
    rfl
  have hanswers : ∀ c ∈ stepCaptures false back,
      Answers count (.map entries) (.map (loweredEntries count entries)) c.key := by
    intro c _
    rw [Answers, argument, argument, get?_loweredEntries]
    rfl
  have hjoin : ∀ first second : List Text,
      joinPath [orRoot (joinPath first), orRoot (joinPath second)] = joinPath (first ++ second) := by
    intro first second
    rw [joinPath_cons, joinPath_orRoot, joinPath_orRoot, joinPath_append]
  rw [renderRoute_of_queryBlocks _ hblocks, renderRoute_of_queryBlocks _ hfront,
    renderRoute_of_queryBlocks _ hback, renderPaths_of_append, renderPaths_shift false back hanswers]
  cases renderPaths (.map entries) front with
  | error e => rfl
  | ok first =>
    cases renderPaths (.map (loweredEntries count entries)) back with
    | error e => rfl
    | ok second => exact congrArg (fun path => Except.ok (orRoot path)) (hjoin first second).symm

namespace Pattern

/-- Two patterns without a query block, one after the other: a match of the second goes on where the
first one leaves the cursor, and both write their own part of the path. The positions of the second
count on from those of the first. -/
theorem append_succession {a b : Pattern σ} {ma mb : Matcher} {ra rb : Renderer}
    (ha : a.hasBlock = false) (hb : b.hasBlock = false)
    (hma : a.matcher false = .ok ma) (hmb : b.matcher false = .ok mb)
    (hra : a.renderer = .ok ra) (hrb : b.renderer = .ok rb) :
    ∃ m r, (a.append b).matcher false = .ok m ∧ (a.append b).renderer = .ok r ∧
      (∀ query cursor, m.resume query cursor =
        match ma.resume query cursor with
        | .error e => .error e
        | .ok none => .ok none
        | .ok (some (first, next)) => (mb.resume query next).map fun found =>
          found.map fun (second, last) =>
            (Table.putAll first (shiftParams a.unnamedCount second), last)) ∧
      ∀ entries, r.run (.map entries) = do
        let front ← ra.run (.map entries)
        let back ← (rb.run (.map (loweredEntries a.unnamedCount entries))).mapError
          (RenderError.shift a.unnamedCount)
        return orRoot (joinPath [front, back]) := by
  obtain ⟨front, aEnd⟩ := ma
  obtain ⟨back, bEnd⟩ := mb
  obtain ⟨hfront, rfl⟩ := layout_of_matcher hma
  obtain ⟨hback, rfl⟩ := layout_of_matcher hmb
  have hlayout : (a.append b).layout.steps = .ok (front ++ shiftSteps a.unnamedCount back) := by
    rw [append_of_hasBlock ha hb]
    exact layout_concat hfront hback
  obtain rfl : (⟨front, (a.captures 0 false).isEmpty⟩ : Renderer) = ra := by
    rw [renderer, hfront] at hra
    exact Except.ok.inj hra
  obtain rfl : (⟨back, (b.captures 0 false).isEmpty⟩ : Renderer) = rb := by
    rw [renderer, hback] at hrb
    exact Except.ok.inj hrb
  refine ⟨⟨front ++ shiftSteps a.unnamedCount back, false⟩,
    ⟨front ++ shiftSteps a.unnamedCount back, ((a.append b).captures 0 false).isEmpty⟩,
    matcher_of_layout hlayout false, ?_, Matcher.resume_append front back a.unnamedCount, ?_⟩
  · rw [renderer, hlayout]
    rfl
  · intro entries
    rw [Renderer.run_map, Renderer.run_map, Renderer.run_map]
    exact renderRoute_append a.unnamedCount entries (queryBlocks_of_layout ha hfront)
      (queryBlocks_of_layout hb hback)

/-- An optional composite goes on behind a capture. -/
theorem append_succession_optional :
    let a : Pattern Schema := .concat (.literal "a") .unnamed false
    let b : Pattern Schema := .modified .optional (.concat (.literal "v") .unnamed false)
    ∃ m r, (a.append b).matcher false = .ok m ∧ (a.append b).renderer = .ok r ∧
      m.resume [] (.start ["a", "x", "v", "y", "z"]) =
        .ok (some ([(.index 0, .one "x"), (.index 1, .one "y")], ⟨["a", "x", "v", "y", "z"], 4, 0⟩)) ∧
      r.run (.map [(.int 0, .text "x"), (.int 1, .text "y")]) = .ok ("/a/x/v/y" : Text) := by
  intro a b
  have hma : a.matcher false = .ok
      ⟨[.single (.literal "a" false), .single (.capture ⟨.index 0, [], false, false⟩)], false⟩ := by rfl
  have hmb : b.matcher false = .ok ⟨[.nested true
      [.single (.literal "v" false), .single (.capture ⟨.index 0, [], false, false⟩)]], false⟩ := by rfl
  have hra : a.renderer = .ok
      ⟨[.single (.literal "a" false), .single (.capture ⟨.index 0, [], false, false⟩)], false⟩ := by rfl
  have hrb : b.renderer = .ok ⟨[.nested true
      [.single (.literal "v" false), .single (.capture ⟨.index 0, [], false, false⟩)]], false⟩ := by rfl
  obtain ⟨m, r, hm, hr, hmatch, hrender⟩ := append_succession (by rfl) (by rfl) hma hmb hra hrb
  have hlowered : loweredEntries a.unnamedCount [(.int 0, .text "x"), (.int 1, .text "y")] =
      [(.int (-1), .text "x"), (.int 0, .text "y")] := by
    simp [loweredEntries, Value.lowered, Value.whole?_int, a, unnamedCount]
  refine ⟨m, r, hm, hr, (hmatch _ _).trans (by rfl), (hrender _).trans ?_⟩
  rw [hlowered]
  rfl

end Pattern

end RoutePattern
