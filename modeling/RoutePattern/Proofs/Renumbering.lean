import RoutePattern.Pattern.Capture

/-!
Renumbering: laid out from a later first key, a pattern differs only in the positions of its unnamed
captures.
-/

namespace RoutePattern

namespace Part

def shift (count : Nat) : Part → Part
  | literal text optional => literal text optional
  | capture c => capture ⟨c.key.shift count, c.lead, c.optional, c.multiple⟩

@[simp] theorem isMultiple_shift (count : Nat) (p : Part) :
    (p.shift count).isMultiple = p.isMultiple := by
  cases p <;> rfl

@[simp] theorem loosen_shift (count : Nat) (o m : Bool) (p : Part) :
    (p.shift count).loosen o m = (p.loosen o m).shift count := by
  cases p <;> rfl

@[simp] theorem withLead_shift (count : Nat) (lead : Text) (p : Part) :
    (p.shift count).withLead lead = (p.withLead lead).shift count := by
  cases p <;> rfl

end Part

mutual

def Step.shift (count : Nat) : Step → Step
  | .single part => .single (part.shift count)
  | .compound parts => .compound (parts.map (Part.shift count))
  | .nested optional steps => .nested optional (shiftSteps count steps)
  | .query entries => .query (entries.map fun entry => (entry.1, entry.2.map (Part.shift count)))

def shiftSteps (count : Nat) : List Step → List Step
  | [] => []
  | step :: rest => step.shift count :: shiftSteps count rest

end

theorem shiftSteps_append (count : Nat) (front back : List Step) :
    shiftSteps count (front ++ back) = shiftSteps count front ++ shiftSteps count back := by
  induction front with
  | nil => simp [shiftSteps]
  | cons step rest ih => simp [shiftSteps, ih]

variable {σ : Type}

namespace Layout

def shift (count : Nat) (l : Layout σ) : Layout σ :=
  ⟨l.warnings, l.steps.map (shiftSteps count)⟩

theorem append_shift (count : Nat) (first second : Layout σ) :
    (first.shift count).append (second.shift count) = (first.append second).shift count := by
  obtain ⟨ws, steps⟩ := first
  obtain ⟨vs, others⟩ := second
  cases steps with
  | error e => rfl
  | ok steps =>
    cases others with
    | error e => rfl
    | ok others => simp [append, shift, Except.map, shiftSteps_append]

end Layout

namespace Member

def shift (count : Nat) : Member σ → Member σ
  | part hasLead p => part hasLead (p.shift count)
  | composite optional multiple core layout =>
    composite optional multiple core (layout.shift count)

@[simp] theorem modified_shift (count : Nat) (m : Modifier) (member : Member σ) :
    (member.shift count).modified m = (member.modified m).shift count := by
  cases member <;> simp [shift, modified]

@[simp] theorem prefixed_shift (count : Nat) (lead : Text) (whole : Pattern σ) (member : Member σ) :
    (member.shift count).prefixed lead whole = (member.prefixed lead whole).shift count := by
  cases member with
  | part hasLead p =>
    cases hasLead with
    | false => simp [shift, prefixed]
    | true => rfl
  | composite => rfl

@[simp] theorem part?_shift (count : Nat) (member : Member σ) :
    (member.shift count).part? = member.part?.map (Part.shift count) := by
  cases member <;> rfl

end Member

namespace Stop

def shift (count : Nat) : Stop σ → Stop σ
  | member joined node m => member joined node (m.shift count)
  | gap text => gap text
  | query node entries =>
    query node (entries.map fun entry => (entry.1, entry.2.map fun ps => ps.map (Part.shift count)))

@[simp] theorem part?_shift (count : Nat) (stop : Stop σ) :
    (stop.shift count).part? = stop.part?.map (Part.shift count) := by
  cases stop <;> simp [shift, part?, Part.shift]

end Stop

theorem mapM_part?_shift {α : Type} {f : α → α} {g : α → Option Part} (count : Nat)
    (h : ∀ a, g (f a) = (g a).map (Part.shift count)) (xs : List α) :
    (xs.map f).mapM g = (xs.mapM g).map fun ps => ps.map (Part.shift count) := by
  induction xs with
  | nil => rfl
  | cons x rest ih =>
    simp only [List.map_cons, List.mapM_cons, h, ih]
    cases g x <;> cases rest.mapM g <;> rfl

namespace Group

def shiftMember (count : Nat) (m : Pattern σ × Member σ) : Pattern σ × Member σ :=
  (m.1, m.2.shift count)

def shift (count : Nat) : Group σ → Group σ
  | segment members => segment (members.map (shiftMember count))
  | query node entries =>
    query node (entries.map fun entry => (entry.1, entry.2.map fun ps => ps.map (Part.shift count)))

@[simp] theorem isSegment_shift (count : Nat) (g : Group σ) :
    (g.shift count).isSegment = g.isSegment := by
  cases g <;> rfl

@[simp] theorem nodes_shift (count : Nat) (g : Group σ) : (g.shift count).nodes = g.nodes := by
  cases g <;> simp [shift, nodes, shiftMember, Function.comp_def]

theorem close_shift (count : Nat) (members : List (Pattern σ × Member σ)) :
    close (members.map (shiftMember count)) = (close members).map (shift count) := by
  cases members <;> rfl

theorem gather_shift (count : Nat) (stops : List (Stop σ)) (current : List (Pattern σ × Member σ)) :
    gather (current.map (shiftMember count)) (stops.map (Stop.shift count)) =
      (gather current stops).map (shift count) := by
  induction stops generalizing current with
  | nil => simp [gather, close_shift]
  | cons stop rest ih =>
    have hnil : gather [] (rest.map (Stop.shift count)) = (gather [] rest).map (shift count) := ih []
    cases stop with
    | gap text => simp [gather, Stop.shift, close_shift, hnil]
    | query node entries => simp [gather, Stop.shift, close_shift, hnil, shift]
    | member joined node m =>
      cases joined with
      | false =>
        have h := ih [(node, m)]
        simp only [List.map_cons, List.map_nil, shiftMember] at h
        simp [gather, Stop.shift, close_shift, h]
      | true =>
        have h := ih (current ++ [(node, m)])
        simp only [List.map_append, List.map_cons, List.map_nil, shiftMember] at h
        simpa [gather, Stop.shift, shiftMember] using h

theorem layoutSingle_shift (count : Nat) (whole : Pattern σ) (last : Bool) (node : Pattern σ)
    (m : Member σ) :
    layoutSingle whole last node (m.shift count) = (layoutSingle whole last node m).shift count := by
  cases m with
  | part hasLead p => simp [layoutSingle, Member.shift, Layout.shift, Except.map, shiftSteps, Step.shift]
  | composite optional multiple core layout =>
    obtain ⟨ws, steps⟩ := layout
    cases multiple <;> cases steps <;>
      simp [layoutSingle, Member.shift, Layout.shift, Except.map, shiftSteps, Step.shift]

theorem layoutEntries_shift (count : Nat) (entries : List (Text × Option (List Part))) :
    layoutEntries (σ := σ)
      (entries.map fun entry => (entry.1, entry.2.map fun ps => ps.map (Part.shift count))) =
    (layoutEntries entries).map fun es =>
      es.map fun entry => (entry.1, entry.2.map (Part.shift count)) := by
  induction entries with
  | nil => rfl
  | cons entry rest ih =>
    obtain ⟨key, parts⟩ := entry
    cases parts with
    | none => rfl
    | some parts =>
      simp only [List.map_cons, Option.map_some, layoutEntries, ih]
      cases layoutEntries (σ := σ) rest <;> rfl

theorem layout_shift (count : Nat) (whole : Pattern σ) (last : Bool) (g : Group σ) :
    (g.shift count).layout whole last = (g.layout whole last).shift count := by
  cases g with
  | query node entries =>
    simp only [shift, layout, layoutEntries_shift, Layout.shift]
    cases layoutEntries (σ := σ) entries <;> rfl
  | segment members =>
    match members with
    | [(node, m)] => exact layoutSingle_shift count whole last node m
    | [] => rfl
    | first :: second :: rest =>
      have hparts := mapM_part?_shift (f := shiftMember count)
        (g := fun m : Pattern σ × Member σ => m.2.part?) count
        (fun m => Member.part?_shift count m.2) (first :: second :: rest)
      simp only [List.map_cons] at hparts
      simp only [shift, List.map_cons, layout, hparts]
      cases (first :: second :: rest).mapM fun m => m.2.part? <;> rfl

theorem layoutAll_shift (count : Nat) (whole : Pattern σ) (gs : List (Group σ)) :
    layoutAll whole (gs.map (shift count)) = (layoutAll whole gs).shift count := by
  induction gs with
  | nil => rfl
  | cons g rest ih =>
    simp only [List.map_cons, layoutAll, ih, layout_shift, Layout.append_shift]
    simp [List.any_map, Function.comp_def]

end Group

namespace Pattern

-- stops, entries and members are read off one another, so that one induction is for all three
mutual

theorem stops_add (first count : Nat) (joined : Bool) : (p : Pattern σ) →
    p.stops (first + count) joined = (p.stops first joined).map (Stop.shift count)
  | literal text => by
    simp only [stops]
    split <;> rfl
  | param name => rfl
  | unnamed => rfl
  | modified m inner => by
    simp [stops, member_add first count inner, Stop.shift]
  | prefixed lead inner => by
    simp [stops, member_add first count inner, Stop.shift]
  | concat left right glued => by
    have hr : first + count + left.unnamedCount = first + left.unnamedCount + count := by omega
    simp [stops, hr, stops_add first count joined left,
      stops_add (first + left.unnamedCount) count glued right]
  | queryParam key value => rfl
  | queryParams previous entries => by
    have hr : first + count + previous.unnamedCount = first + previous.unnamedCount + count := by
      omega
    simp [stops, hr, stops_add first count false previous,
      entryParts_add (first + previous.unnamedCount) count entries, Stop.shift]
  | withSchema inner _ => by
    simp only [stops]
    exact stops_add first count joined inner

theorem entryParts_add (first count : Nat) : (entries : List (Text × Pattern σ)) →
    entryParts (first + count) entries =
      (entryParts first entries).map fun entry =>
        (entry.1, entry.2.map fun ps => ps.map (Part.shift count))
  | [] => rfl
  | (key, value) :: rest => by
    have hr : first + count + value.unnamedCount = first + value.unnamedCount + count := by omega
    simp only [entryParts, hr, stops_add first count false value,
      entryParts_add (first + value.unnamedCount) count rest, List.map_cons,
      mapM_part?_shift count (Stop.part?_shift count)]

theorem member_add (first count : Nat) : (p : Pattern σ) →
    p.member (first + count) = (p.member first).shift count
  | literal _ => rfl
  | param _ => rfl
  | unnamed => rfl
  | modified m inner => by simp [member, member_add first count inner]
  | prefixed lead inner => by simp [member, member_add first count inner]
  | concat left right glued => by
    have hr : first + count + left.unnamedCount = first + left.unnamedCount + count := by omega
    have hg := Group.gather_shift count
      (left.stops first false ++ right.stops (first + left.unnamedCount) glued) []
    simp only [List.map_nil, List.map_append] at hg
    simp [member, hr, stops_add first count false left,
      stops_add (first + left.unnamedCount) count glued right, hg, Group.layoutAll_shift,
      Member.shift]
  | queryParam _ _ => rfl
  | queryParams previous entries => by
    have hr : first + count + previous.unnamedCount = first + previous.unnamedCount + count := by
      omega
    have hg := Group.gather_shift count (previous.stops first false ++
      [.query (queryParams previous entries)
        (entryParts (first + previous.unnamedCount) entries)]) []
    simp only [List.map_nil, List.map_append, List.map_cons, Stop.shift] at hg
    simp [member, hr, stops_add first count false previous,
      entryParts_add (first + previous.unnamedCount) count entries, hg, Group.layoutAll_shift,
      Member.shift]
  | withSchema inner _ => by
    simp only [member]
    exact member_add first count inner

end

end Pattern

end RoutePattern
