import RoutePattern.Diagnostic
import RoutePattern.Proofs.Reading.Braces
import RoutePattern.Proofs.Reading.Places

/-!
The places of syntax faults. A fault names a stretch of the source, and the text that stands there is the one its
cause blames: a brace without partner, a brace group, a capture, a query entry or a query key.
-/

namespace RoutePattern

open Text (HasAt HasWhere BetweenGroups Stray Unpaired)

/-- A segment of the source has the piece at a place of the source, and what is before it and behind it in the
segment is as asked for. -/
def PieceAt (source : Text) (around : Text → Text → Prop) (start : Nat) (piece : Text) : Prop :=
  ∃ place segment i, SegmentAt source place segment ∧ HasWhere around i piece segment ∧ start = place + i

theorem PieceAt.hasAt {source piece : Text} {around : Text → Text → Prop} {start : Nat}
    (h : PieceAt source around start piece) : HasAt start piece source := by
  obtain ⟨place, segment, i, hsegment, hpiece, rfl⟩ := h
  exact hpiece.hasAt.trans hsegment.hasAt

theorem PieceAt.char {source left right : Text} {c : Char} {around inner : Text → Text → Prop} {start : Nat}
    (h : PieceAt source around start (left ++ c :: right))
    (hinner : ∀ before after, around before after → inner (before ++ left) (right ++ after)) :
    PieceAt source inner (start + left.length) [c] := by
  obtain ⟨place, segment, i, hsegment, ⟨before, after, rfl, rfl, haround⟩, rfl⟩ := h
  refine ⟨place, _, before.length + left.length, hsegment, ?_, by omega⟩
  exact ⟨before ++ left, right ++ after, by simp, by simp, hinner before after haround⟩

/-- The source has a brace group with the body at a place. -/
def GroupAt (source : Text) (start : Nat) (body : Text) : Prop :=
  '{' ∉ body ∧ '}' ∉ body ∧ PieceAt source (fun _ _ => True) start ('{' :: body ++ ['}'])

/-- The source has the text at a place outside of braces, as a whole. -/
def PlainAt (source : Text) (start : Nat) (text : Text) : Prop :=
  '{' ∉ text ∧ '}' ∉ text ∧ PieceAt source BetweenGroups start text

/-- The text that a cause blames, and where it stands in the source. -/
inductive SyntaxCause.Blames (source : Text) (start : Nat) : Text → SyntaxCause → Prop
  | strayBrace {brace : Char} (h : PieceAt source (Stray brace) start [brace]) :
    Blames source start [brace] (.strayBrace brace)
  | invalidCapture {name : Text} (h : PlainAt source start (':' :: name))
      (hname : Pattern.nameAndModifier? name = none) :
    Blames source start (':' :: name) (.invalidCapture name)
  | invalidWildcard {rest : Text} (h : PlainAt source start ('*' :: rest))
      (hrest : Pattern.modifier? rest = none) :
    Blames source start ('*' :: rest) (.invalidWildcard ('*' :: rest))
  | emptyBraces (h : GroupAt source start []) : Blames source start ['{', '}'] .emptyBraces
  | bracesWithoutCapture {body : Text} (h : GroupAt source start body) (hne : body ≠ [])
      (hcolon : ':' ∉ body) :
    Blames source start ('{' :: body ++ ['}']) (.bracesWithoutCapture body)
  | emptyBracedCapture {lead : Text} (h : GroupAt source start (lead ++ [':'])) (hcolon : ':' ∉ lead) :
    Blames source start ('{' :: (lead ++ [':']) ++ ['}']) .emptyBracedCapture
  | invalidBracedCapture {lead name : Text} (h : GroupAt source start (lead ++ ':' :: name))
      (hcolon : ':' ∉ lead) (hne : name ≠ []) (hstar : Pattern.starModifier? name = none)
      (hname : Pattern.nameAndModifier? name = none) :
    Blames source start ('{' :: (lead ++ ':' :: name) ++ ['}']) (.invalidBracedCapture name)
  | entryWithoutValue {entry : Text} (h : EntryAt source start entry) (hne : entry ≠ [])
      (hequals : '=' ∉ entry) :
    Blames source start entry (.entryWithoutValue entry)
  | emptyQueryKey {value : Text} (h : EntryAt source start ('=' :: value)) :
    Blames source start ('=' :: value) .emptyQueryKey
  | duplicateQueryKey {key value other : Text} {earlier : Nat}
      (h : EntryAt source start (key ++ '=' :: value)) (hne : key ≠ []) (hequals : '=' ∉ key)
      (hearlier : EntryAt source earlier (key ++ '=' :: other)) (hlt : earlier < start) :
    Blames source start key (.duplicateQueryKey key)

namespace SyntaxCause.Blames

variable {source text : Text} {start : Nat} {cause : SyntaxCause}

theorem ne_nil (h : cause.Blames source start text) : text ≠ [] := by
  cases h <;> first | assumption | simp

theorem hasAt (h : cause.Blames source start text) : HasAt start text source := by
  cases h with
  | strayBrace h => exact h.hasAt
  | invalidCapture h | invalidWildcard h | emptyBraces h | bracesWithoutCapture h
  | emptyBracedCapture h | invalidBracedCapture h => exact h.2.2.hasAt
  | entryWithoutValue h | emptyQueryKey h => exact h.hasAt
  | duplicateQueryKey h => exact List.IsPrefix.trans (List.prefix_append _ _) h.hasAt

end SyntaxCause.Blames

/-- A fault names the stretch of the source where the text that its cause blames stands. -/
def SyntaxFault.PointsInto (source : Text) (f : SyntaxFault) : Prop :=
  ∃ text, f.cause.Blames source f.start text ∧ f.stop = f.start + text.length

theorem Text.eq_append_idxOf {c : Char} {text : Text} (h : c ∈ text) :
    ∃ before after, text = before ++ c :: after ∧ text.idxOf c = before.length := by
  obtain ⟨before, after, rfl, hbefore⟩ := List.eq_append_cons_of_mem h
  exact ⟨before, after, rfl, by simp [List.idxOf_append_of_notMem hbefore]⟩

namespace Pattern

variable {σ : Type} {source : Text} {f : SyntaxFault}

theorem pointsInto_of_ofPlain {start : Nat} {text : Text} (hplace : PieceAt source BetweenGroups start text)
    (hunpaired : Unpaired text) (h : (ofPlain text start : Except SyntaxFault (Pattern σ)) = .error f) :
    f.PointsInto source := by
  unfold ofPlain at h
  split at h
  next hopen =>
    cases h
    obtain ⟨left, right, rfl, hidx⟩ := Text.eq_append_idxOf (by simpa using hopen : '{' ∈ text)
    have hstray := hplace.char fun _ _ hgroups => hgroups.stray_open hunpaired
    exact ⟨['{'], .strayBrace (by simpa only [hidx] using hstray), rfl⟩
  next hopen =>
    split at h
    next hclose =>
      cases h
      obtain ⟨left, right, rfl, hidx⟩ := Text.eq_append_idxOf (by simpa using hclose : '}' ∈ text)
      have hleft : '{' ∉ left := fun hm => hopen (by simp [hm])
      have hstray := hplace.char fun _ _ hgroups => hgroups.stray_close hleft right
      exact ⟨['}'], .strayBrace (by simpa only [hidx] using hstray), rfl⟩
    next hclose =>
      have hfree : '{' ∉ text ∧ '}' ∉ text := by simpa using And.intro hopen hclose
      split at h
      next name =>
        split at h
        next => cases h
        next hname =>
          cases h
          exact ⟨_, .invalidCapture ⟨hfree.1, hfree.2, hplace⟩ hname, rfl⟩
      next rest =>
        split at h
        next => cases h
        next hrest =>
          cases h
          exact ⟨_, .invalidWildcard ⟨hfree.1, hfree.2, hplace⟩ hrest, rfl⟩
      next => cases h

theorem pointsInto_of_ofBraced {start : Nat} {body : Text} (hplace : GroupAt source start body)
    (h : (ofBraced body start : Except SyntaxFault (Pattern σ)) = .error f) : f.PointsInto source := by
  simp only [ofBraced] at h
  split at h
  next hempty =>
    cases h
    obtain rfl := List.isEmpty_iff.mp hempty
    exact ⟨_, .emptyBraces hplace, rfl⟩
  next hne =>
    split at h
    next hcut =>
      cases h
      exact ⟨_, .bracesWithoutCapture hplace (by simpa using hne) (Text.cut_eq_none hcut), by simp; omega⟩
    next lead capture hcut =>
      obtain ⟨rfl, hcolon⟩ := Text.cut_eq_some hcut
      split at h
      next hempty =>
        cases h
        obtain rfl := List.isEmpty_iff.mp hempty
        exact ⟨_, .emptyBracedCapture hplace hcolon, by simp; omega⟩
      next hcapture =>
        split at h
        next => cases h
        next hstar =>
          split at h
          next => cases h
          next hname =>
            cases h
            exact ⟨_, .invalidBracedCapture hplace hcolon (by simpa using hcapture) hstar hname,
              by simp; omega⟩

theorem ofStretches_eq_error {ss : List Stretch} {offset : Nat}
    (h : (ofStretches offset ss : Except SyntaxFault (List (Pattern σ))) = .error f) :
    ∃ before s after, ss = before ++ s :: after ∧
      (ofStretch (offset + (before.flatMap Stretch.source).length) s : Except SyntaxFault (Pattern σ)) =
        .error f := by
  induction ss generalizing offset with
  | nil => cases h
  | cons s rest ih =>
    rcases Except.bind_eq_error.mp h with hfirst | ⟨first, -, h⟩
    · exact ⟨[], s, rest, rfl, hfirst⟩
    · rcases Except.bind_eq_error.mp h with hothers | ⟨others, -, h⟩
      · obtain ⟨before, t, after, rfl, ht⟩ := ih hothers
        refine ⟨s :: before, t, after, rfl, ?_⟩
        rwa [List.flatMap_cons, List.length_append, s.length_source, ← Nat.add_assoc]
      · cases h

theorem pointsInto_of_ofSegment {start : Nat} {segment : Text} (hplace : SegmentAt source start segment)
    (h : (ofSegment segment start : Except SyntaxFault (Pattern σ)) = .error f) : f.PointsInto source := by
  obtain ⟨before, s, after, hstretches, hs⟩ := ofStretches_eq_error (Except.map_eq_error.mp h)
  have hsegment := Stretch.source_ofSegment segment
  rw [hstretches, List.flatMap_append, List.flatMap_cons, ← List.append_assoc] at hsegment
  have hmem : s ∈ Stretch.ofSegment segment := hstretches ▸ List.mem_append_right _ List.mem_cons_self
  have hpiece {around : Text → Text → Prop}
      (haround : around (before.flatMap Stretch.source) (after.flatMap Stretch.source)) :
      PieceAt source around (start + (before.flatMap Stretch.source).length) s.source :=
    ⟨start, segment, _, hplace, ⟨_, _, hsegment.symm, rfl, haround⟩, rfl⟩
  cases s with
  | braced body =>
    obtain ⟨hopen, hclose⟩ := Stretch.sound_ofSegment _ hmem
    exact pointsInto_of_ofBraced ⟨hopen, hclose, hpiece trivial⟩ hs
  | plain text =>
    exact pointsInto_of_ofPlain (hpiece (Stretch.betweenGroups_of_ofSegment hstretches))
      (Stretch.unpaired_of_mem_ofSegment hmem) hs

theorem ofSegments_eq_error {segments : List (Nat × Text)}
    (h : (ofSegments segments : Except SyntaxFault (List (Pattern σ))) = .error f) :
    ∃ s ∈ segments, (ofSegment s.2 s.1 : Except SyntaxFault (Pattern σ)) = .error f := by
  induction segments with
  | nil => cases h
  | cons s rest ih =>
    rcases Except.bind_eq_error.mp h with hfirst | ⟨first, -, h⟩
    · exact ⟨s, List.mem_cons_self, hfirst⟩
    · rcases Except.bind_eq_error.mp h with hothers | ⟨others, -, h⟩
      · obtain ⟨t, ht, herror⟩ := ih hothers
        exact ⟨t, List.mem_cons_of_mem _ ht, herror⟩
      · cases h

/-- Reading entries one after the other, each of which stands in the source, in their order, behind those whose
keys were seen. -/
theorem pointsInto_of_ofEntries {seen : List Text} {entries : List (Nat × Text)}
    (hentries : ∀ e ∈ entries, EntryAt source e.1 e.2 ∧ e.2 ≠ []) (hsorted : entries.Pairwise (·.1 < ·.1))
    (hseen : ∀ key ∈ seen, ∃ earlier other, EntryAt source earlier (key ++ '=' :: other) ∧
      ∀ e ∈ entries, earlier < e.1)
    (h : (ofEntries seen entries : Except SyntaxFault (List (Text × Pattern σ))) = .error f) :
    f.PointsInto source := by
  induction entries generalizing seen with
  | nil => cases h
  | cons e rest ih =>
    obtain ⟨start, entry⟩ := e
    obtain ⟨⟨hentry, hne⟩, hrest⟩ := List.forall_mem_cons.mp hentries
    obtain ⟨hfirst, hlater⟩ := List.pairwise_cons.mp hsorted
    unfold ofEntries at h
    split at h
    next hcut =>
      cases h
      exact ⟨entry, .entryWithoutValue hentry hne (Text.cut_eq_none hcut), rfl⟩
    next key value hcut =>
      obtain ⟨rfl, hequals⟩ := Text.cut_eq_some hcut
      split at h
      next hempty =>
        cases h
        obtain rfl := List.isEmpty_iff.mp hempty
        exact ⟨_, .emptyQueryKey hentry, rfl⟩
      next hkey =>
        split at h
        next hdouble =>
          cases h
          obtain ⟨earlier, other, hearlier, hlt⟩ := hseen key (by simpa using hdouble)
          exact ⟨key, .duplicateQueryKey hentry (by simpa using hkey) hequals hearlier
            (hlt _ List.mem_cons_self), rfl⟩
        next =>
          rcases Except.bind_eq_error.mp h with hvalue | ⟨first, -, h⟩
          · exact pointsInto_of_ofSegment (.value hentry hequals) hvalue
          · rcases Except.bind_eq_error.mp h with hothers | ⟨others, -, h⟩
            · refine ih hrest hlater (List.forall_mem_cons.mpr ⟨⟨start, value, hentry, hfirst⟩, ?_⟩) hothers
              intro k hk
              obtain ⟨earlier, other, hearlier, hlt⟩ := hseen k hk
              exact ⟨earlier, other, hearlier, fun e he => hlt e (List.mem_cons_of_mem _ he)⟩
            · cases h

theorem pointsInto_of_ofText (h : (ofText source : Except SyntaxFault (Pattern σ)) = .error f) :
    f.PointsInto source := by
  rcases Except.bind_eq_error.mp h with hpath | ⟨path, -, h⟩
  · obtain ⟨s, hs, herror⟩ := ofSegments_eq_error (Except.map_eq_error.mp hpath)
    exact pointsInto_of_ofSegment (segmentAt_of_mem_pathSegments hs) herror
  · split at h
    next => cases h
    next query hquery =>
      rcases Except.bind_eq_error.mp h with hentries | ⟨entries, -, h⟩
      · refine pointsInto_of_ofEntries (fun e he => ⟨entryAt_of_mem_queryEntries hquery he, ?_⟩) ?_ (by simp) hentries
        · simpa using (List.mem_filter.mp he).2
        · exact (Text.pairwise_located _ _).filter _
      · cases h

/-- A pattern that cannot be read is reported with a stretch of its source, on its only line, and what stands
there is the text at fault. -/
theorem span_of_ofText (h : (ofText source : Except SyntaxFault (Pattern σ)) = .error f) (file : Option Text) :
    ∃ span, (Diagnostic.ofSyntax file f).span = some span ∧ 0 ≤ span.start ∧ span.start < span.stop ∧
      span.stop ≤ source.length ∧ span.line = 1 ∧ span.column = span.start + 1 ∧
      f.cause.Blames source span.start.toNat (source.extract span.start.toNat span.stop.toNat) := by
  obtain ⟨text, hblames, hstop⟩ := pointsInto_of_ofText h
  have hpos := List.length_pos_iff.mpr hblames.ne_nil
  have hle := hblames.hasAt.length_le hblames.ne_nil
  have htext := hblames.hasAt.extract
  rw [← hstop] at hle htext
  refine ⟨⟨f.start, f.stop, 1, f.start + 1⟩, rfl, by simp, by simp; omega, by simpa using hle, rfl, rfl, ?_⟩
  simpa [htext] using hblames

/-- A key that comes again, behind an escaped separator, an empty entry and brace groups. -/
theorem span_of_key_again :
    let source : Text := "/files/{u-:id}x\\?page=:n&&q=a{b:c}&page=d"
    let f : SyntaxFault := ⟨.duplicateQueryKey "page", 35, 39⟩
    (ofText source : Except SyntaxFault (Pattern Unit)) = .error f ∧
      (Diagnostic.ofSyntax none f).span = some ⟨35, 39, 1, 36⟩ ∧ f.cause.Blames source 35 "page" := by
  intro source f
  have h : (ofText source : Except SyntaxFault (Pattern Unit)) = .error f := by rfl
  obtain ⟨span, hspan, -, -, -, -, -, hblames⟩ := span_of_ofText h none
  obtain rfl := Option.some.inj hspan
  exact ⟨h, rfl, hblames⟩

end Pattern

end RoutePattern
