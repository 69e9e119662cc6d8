import RoutePattern.Proofs.LaidOut
import RoutePattern.Proofs.Reading.Layout

/-!
The steps of what was read: those of its segments in a row, then that of the query. Whatever can be
read can also be matched and rendered, repetitions that leave nothing for later segments included.
-/

namespace RoutePattern

variable {σ : Type}

namespace Group

theorem Simple.steps {g : Group σ} (h : g.Simple) : g.steps = .ok [Step.ofParts g.parts] := by
  rw [Group.steps, h.layout .root (.inl rfl)]

theorem layoutAll_simple_steps {whole : Pattern σ} {gs rest : List (Group σ)} {steps : List Step}
    (h : ∀ g ∈ gs, g.Simple) (hrest : (layoutAll whole rest).steps = .ok steps) :
    (layoutAll whole (gs ++ rest)).steps =
      .ok (gs.map (fun g => Step.ofParts g.parts) ++ steps) := by
  induction gs with
  | nil => exact hrest
  | cons g others ih =>
    obtain ⟨hg, hothers⟩ := List.forall_mem_cons.mp h
    rw [List.cons_append]
    exact layoutAll_cons_ok.mpr ⟨_, _, hg.steps, ih hothers, rfl⟩

end Group

namespace Pattern

def readSteps (p : Pattern σ) : List Step := p.pathParts.map Step.ofParts ++ ReadSplit.blockSteps p

namespace ReadSplit

variable {split : QuerySplit} {p : Pattern σ}

theorem layout_steps (h : ReadSplit split p) : p.layout.steps = .ok p.readSteps := by
  have hblock : (Group.layoutAll p p.blockGroups).steps = .ok (blockSteps p) := by
    rw [h.layoutAll_blockGroups]
  have hlayout : p.layout = Group.layoutAll p p.groups := rfl
  rw [hlayout, groups_eq, Group.layoutAll_simple_steps h.readPath.simple.1 hblock, readSteps,
    h.pathParts_eq, List.map_map]
  rfl

theorem matcher_eq (h : ReadSplit split p) (atEnd : Bool) :
    p.matcher atEnd = .ok ⟨p.readSteps, atEnd⟩ :=
  matcher_of_layout h.layout_steps atEnd

theorem renderer_eq (h : ReadSplit split p) :
    p.renderer = .ok ⟨p.readSteps, (p.captures 0 false).isEmpty⟩ := by
  rw [renderer, h.layout_steps]
  rfl

end ReadSplit

end Pattern

end RoutePattern
