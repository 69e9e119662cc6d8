import RoutePattern.Proofs.PlainPatterns
import RoutePattern.Proofs.SpecificityOrder

/-!
What the order of templates has to do with what they match. Of two plain patterns one may be narrower, so that
the other one would shadow it; which of the two is the more specific one is decided by their colons alone.
-/

namespace RoutePattern

namespace Specificity

theorem rank_strictMono : StrictMono fun n : Nat => rank n := by
  intro m n h
  unfold rank
  grind

theorem Before.map_iff {f : Nat → Nat} (hf : StrictMono f) {ms ns : List Nat} :
    Before (ms.map f) (ns.map f) ↔ Before ms ns := by
  induction ms generalizing ns with
  | nil => cases ns <;> exact ⟨nofun, nofun⟩
  | cons m ms ih =>
    cases ns with
    | nil => exact ⟨fun _ => .longer, fun _ => .longer⟩
    | cons n ns => rw [List.map_cons, List.map_cons, cons_iff, cons_iff, hf.lt_iff_lt, hf.injective.eq_iff, ih]

theorem split_slash_flatMap {segments : List Text} (h : ∀ segment ∈ segments, '/' ∉ segment) :
    Text.split '/' (segments.flatMap ('/' :: ·)) = [] :: segments := by
  induction segments using List.reverseRecOn with
  | nil => rfl
  | append_singleton front last ih =>
    have hfront : ∀ segment ∈ front, '/' ∉ segment := fun s hs => h s (List.mem_append_left _ hs)
    have hlast : '/' ∉ last := h last (by simp)
    rw [List.flatMap_append, List.flatMap_singleton, Text.split_append_cons, ih hfront,
      Text.split_of_notMem hlast]
    rfl

theorem compare_writtenPath_eq_lt {segments others : List Text} (h : ∀ segment ∈ segments, '/' ∉ segment)
    (h' : ∀ segment ∈ others, '/' ∉ segment) (hlength : segments.length = others.length) :
    compare (writtenPath segments) (writtenPath others) = .lt ↔
      Before (segmentRanks segments) (segmentRanks others) := by
  cases segments with
  | nil =>
    obtain rfl : others = [] := List.eq_nil_of_length_eq_zero hlength.symm
    exact ⟨fun hlt => absurd hlt (by decide), nofun⟩
  | cons s ss =>
    cases others with
    | nil => cases hlength
    | cons t ts =>
      have hsplit : ∀ {s : Text} {ss : List Text}, (∀ segment ∈ s :: ss, '/' ∉ segment) →
          Text.split '/' (writtenPath (s :: ss)) = [] :: s :: ss := fun hs => split_slash_flatMap hs
      rw [compare, hsplit h, hsplit h', compareSegments_eq_lt]
      exact Before.cons_iff.trans ⟨fun hbefore => (hbefore.resolve_left (Nat.lt_irrefl _)).2,
        fun hbefore => .inr ⟨rfl, hbefore⟩⟩

end Specificity

/-- A text that a target may have between its slashes. -/
def TargetSegment (text : Text) : Prop := text ≠ [] ∧ '/' ∉ text ∧ '?' ∉ text ∧ '#' ∉ text

instance : DecidablePred TargetSegment := fun text =>
  inferInstanceAs (Decidable (text ≠ [] ∧ '/' ∉ text ∧ '?' ∉ text ∧ '#' ∉ text))

theorem targetSegment_of_mem {target text : Text} (h : text ∈ (Target.ofText target).segments) :
    TargetSegment text := by
  have hmem : ∀ c ∈ text, c ≠ '?' ∧ c ≠ '#' := by
    intro c hc
    have hpath := mem_of_mem_splitPath h hc
    have hquestion := List.mem_takeWhile_imp hpath
    have hhash := List.mem_takeWhile_imp (List.takeWhile_subset _ hpath)
    exact ⟨by simpa using hquestion, by simpa using hhash⟩
  exact ⟨ne_nil_of_mem_splitPath h, slash_notMem_of_mem_splitPath h, fun hm => (hmem _ hm).1 rfl,
    fun hm => (hmem _ hm).2 rfl⟩

theorem segments_ofText_writtenPath {segments : List Text} (h : ∀ text ∈ segments, TargetSegment text) :
    (Target.ofText (writtenPath segments)).segments = segments := by
  have hslash : ∀ text ∈ segments, '/' ∉ text := fun text ht => (h text ht).2.1
  have hne : ∀ text ∈ segments, text ≠ [] := fun text ht => (h text ht).1
  have hquestion := notMem_writtenPath (by decide) fun text ht => (h text ht).2.2.1
  have hhash := notMem_writtenPath (by decide) fun text ht => (h text ht).2.2.2
  have hroot : orRoot (withQuery (writtenPath segments) []) = writtenPath segments :=
    if_neg (by simpa [withQuery, writtenPath] using orRoot_ne_nil _)
  rw [← hroot, Target.ofText_withQuery hquestion hhash List.not_mem_nil, splitPath_writtenPath hslash hne]

namespace PlainSegment

variable {s t : PlainSegment}

def colons (s : PlainSegment) : Nat := s.source.count ':'

theorem Sound.brace_notMem (h : s.Sound) : '{' ∉ s.source := by
  cases s with
  | literal text => exact h.2.2
  | named name => simpa [source] using (brace_notMem_name h).1
  | unnamed => decide

theorem Sound.complexity_eq (h : s.Sound) : Specificity.complexity s.source = s.colons := by
  have hne : s.source.isEmpty = false := by simpa using h.source_clean.1
  simp [Specificity.complexity, hne, colons, List.count_eq_zero.mpr h.brace_notMem]

theorem colons_literal {text : Text} (h : ':' ∉ text) : (literal text).colons = 0 := List.count_eq_zero.mpr h

theorem colons_named {name : Text} (h : isName name) : (named name).colons = 1 := by
  have hname : ':' ∉ name := notMem_of_isName h (by decide)
  rw [colons, source, List.count_cons_self, List.count_eq_zero.mpr hname]

theorem segmentRanks_source {segments : List PlainSegment} (h : ∀ s ∈ segments, s.Sound) :
    Specificity.segmentRanks (segments.map source) =
      (segments.map colons).map fun n : Nat => Specificity.rank n := by
  rw [Specificity.segmentRanks, List.map_map, List.map_map]
  refine List.map_congr_left fun s hs => ?_
  rw [Function.comp_apply, (h s hs).complexity_eq]
  rfl

/-- There is something that the segment stands for. -/
def Occurs (s : PlainSegment) : Prop := ∃ text, TargetSegment text ∧ s.Fits text

/-- What `s` stands for in a target `t` stands for as well. -/
def Within (s t : PlainSegment) : Prop := ∀ text, TargetSegment text → s.Fits text → t.Fits text

theorem Within.eq_literal {text : Text} (h : s.Within (literal text)) (hs : s.Occurs) : s = literal text := by
  -- A capture would have to stand for one text only.
  have hfew : ¬∀ written, TargetSegment written → s.Fits written := by
    intro hall
    have ha : ['a'] = text := h _ (by decide) (hall _ (by decide))
    have hb : ['b'] = text := h _ (by decide) (hall _ (by decide))
    exact absurd (ha.trans hb.symm) (by decide)
  cases s with
  | literal own =>
    obtain ⟨written, hwritten, hfits⟩ := hs
    have hown : written = own := hfits
    have htext : written = text := h written hwritten hfits
    rw [← hown, htext]
  | named name => exact absurd (fun _ hwritten => hwritten.1) hfew
  | unnamed => exact absurd (fun _ hwritten => hwritten.1) hfew

/-- A segment within another one has fewer colons, or there is no more that the other one stands for. -/
theorem Within.colons_le (h : s.Within t) (hoccurs : s.Occurs) (hs : s.Sound) (ht : t.Sound)
    (hliteral : ∀ text, s = literal text → ':' ∉ text) (hnamed : t ≠ unnamed) :
    s.colons < t.colons ∨ s.colons = t.colons ∧ ∀ text, t.Fits text → s.Fits text := by
  cases t with
  | literal text =>
    obtain rfl := h.eq_literal hoccurs
    exact .inr ⟨rfl, fun _ hfits => hfits⟩
  | unnamed => exact absurd rfl hnamed
  | named name =>
    rw [colons_named ht]
    cases s with
    | literal text =>
      rw [colons_literal (hliteral text rfl)]
      exact .inl Nat.zero_lt_one
    | named own => exact .inr ⟨colons_named hs, fun _ hfits => hfits⟩
    | unnamed => exact .inl (by decide)

variable {segments others : List PlainSegment}

/-- Where all the segments of a target may be taken by others instead, each is within the other. One target gives
the texts around the one that is varied. -/
theorem forall₂_within
    (hfits : ∀ target : List Text, (∀ text ∈ target, TargetSegment text) →
      List.Forall₂ Fits segments target → List.Forall₂ Fits others target)
    {target : List Text} (htarget : ∀ text ∈ target, TargetSegment text)
    (hsome : List.Forall₂ Fits segments target) :
    List.Forall₂ (fun s t => s.Occurs ∧ s.Within t) segments others := by
  induction hsome generalizing others with
  | nil =>
    obtain rfl := List.forall₂_nil_right_iff.mp (hfits [] nofun .nil)
    exact .nil
  | @cons s written segments target hs hrest ih =>
    obtain ⟨hwritten, htarget⟩ := List.forall_mem_cons.mp htarget
    have hall := hfits (written :: target) (List.forall_mem_cons.mpr ⟨hwritten, htarget⟩) (.cons hs hrest)
    obtain ⟨t, others, -, -, rfl⟩ := List.forall₂_cons_right_iff.mp hall
    have hwithin : s.Within t := by
      intro text htext hsfits
      have hcons := hfits (text :: target) (List.forall_mem_cons.mpr ⟨htext, htarget⟩) (.cons hsfits hrest)
      exact (List.forall₂_cons.mp hcons).1
    refine .cons ⟨⟨written, hwritten, hs⟩, hwithin⟩ (ih (fun ts hts hsfits => ?_) htarget)
    have hcons := hfits (written :: ts) (List.forall_mem_cons.mpr ⟨hwritten, hts⟩) (.cons hs hsfits)
    exact (List.forall₂_cons.mp hcons).2

theorem forall₂_fits (h : List.Forall₂ Within segments others) {target : List Text}
    (htarget : ∀ text ∈ target, TargetSegment text) (hfits : List.Forall₂ Fits segments target) :
    List.Forall₂ Fits others target := by
  induction h generalizing target with
  | nil => exact hfits
  | cons hfirst _ ih =>
    obtain ⟨text, rest, hown, htail, rfl⟩ := List.forall₂_cons_left_iff.mp hfits
    obtain ⟨htext, hrest⟩ := List.forall_mem_cons.mp htarget
    exact .cons (hfirst text htext hown) (ih hrest htail)

/-- Segments within others come first by their colons, or there is no more that the others stand for. -/
theorem before_or_fits (h : List.Forall₂ (fun s t => s.Occurs ∧ s.Within t) segments others)
    (hs : ∀ s ∈ segments, s.Sound) (ht : ∀ t ∈ others, t.Sound)
    (hliteral : ∀ text, literal text ∈ segments → ':' ∉ text) (hnamed : unnamed ∉ others) :
    Specificity.Before (segments.map colons) (others.map colons) ∨
      ∀ target, List.Forall₂ Fits others target → List.Forall₂ Fits segments target := by
  induction h with
  | nil => exact .inr fun _ hfits => hfits
  | @cons s t segments others hfirst _ ih =>
    obtain ⟨hoccurs, hwithin⟩ := hfirst
    obtain ⟨hsound, hs⟩ := List.forall_mem_cons.mp hs
    obtain ⟨hsound', ht⟩ := List.forall_mem_cons.mp ht
    obtain ⟨hne, hnamed⟩ := not_or.mp (mt List.mem_cons.mpr hnamed)
    have hown : ∀ text, s = literal text → ':' ∉ text := fun text heq =>
      hliteral text (heq ▸ List.mem_cons_self)
    rcases hwithin.colons_le hoccurs hsound hsound' hown (Ne.symm hne) with hlt | ⟨heq, hfits⟩
    · exact .inl (.lesser hlt)
    · rcases ih hs ht (fun text hm => hliteral text (List.mem_cons_of_mem _ hm)) hnamed with hbefore | hrest
      · rw [List.map_cons, List.map_cons, heq]
        exact .inl (.later hbefore)
      · refine .inr fun target htarget => ?_
        obtain ⟨text, rest, htext, htail, rfl⟩ := List.forall₂_cons_left_iff.mp htarget
        exact .cons (hfits text htext) (hrest rest htail)

end PlainSegment

namespace Pattern

/-- What `p` matches `q` matches as well, and there is more that `q` matches. -/
structure Narrower (p q : Pattern Schema) : Prop where
  within : ∀ target, p.Matches target → q.Matches target
  beyond : ∃ target, q.Matches target ∧ ¬p.Matches target

namespace ReadPlain

variable {source source' : Text} {p q : Pattern Schema} {ps qs : List PlainSegment}
  (hp : ReadPlain source p ps) (hq : ReadPlain source' q qs)

include hp

theorem matches_writtenPath {target : List Text} (h : ∀ text ∈ target, TargetSegment text) :
    p.Matches (writtenPath target) ↔ List.Forall₂ PlainSegment.Fits ps target := by
  rw [hp.matches_iff, segments_ofText_writtenPath h]

include hq

theorem narrower_iff :
    p.Narrower q ↔
      (∀ target : List Text, (∀ text ∈ target, TargetSegment text) →
        List.Forall₂ PlainSegment.Fits ps target → List.Forall₂ PlainSegment.Fits qs target) ∧
      ∃ target : List Text, (∀ text ∈ target, TargetSegment text) ∧
        List.Forall₂ PlainSegment.Fits qs target ∧ ¬List.Forall₂ PlainSegment.Fits ps target := by
  constructor
  · rintro ⟨hwithin, target, hmatches, hnot⟩
    refine ⟨fun target htarget hfits => ?_, (Target.ofText target).segments,
      fun _ => targetSegment_of_mem, hq.matches_iff.mp hmatches, fun hfits => hnot (hp.matches_iff.mpr hfits)⟩
    exact (hq.matches_writtenPath htarget).mp (hwithin _ ((hp.matches_writtenPath htarget).mpr hfits))
  · rintro ⟨hfits, target, htarget, hmatches, hnot⟩
    refine ⟨fun target hmatches => ?_, writtenPath target, (hq.matches_writtenPath htarget).mpr hmatches,
      fun hm => hnot ((hp.matches_writtenPath htarget).mp hm)⟩
    exact hq.matches_iff.mpr (hfits _ (fun _ => targetSegment_of_mem) (hp.matches_iff.mp hmatches))

theorem compare_eq_lt (hlength : ps.length = qs.length) :
    Specificity.compare p.path q.path = .lt ↔
      Specificity.Before (ps.map PlainSegment.colons) (qs.map PlainSegment.colons) := by
  have hslash : ∀ {segments : List PlainSegment}, (∀ s ∈ segments, s.Sound) →
      ∀ text ∈ segments.map PlainSegment.source, '/' ∉ text := by
    intro segments hsound text ht
    obtain ⟨s, hs, rfl⟩ := List.mem_map.mp ht
    exact (hsound s hs).source_clean.2
  have hsound := hp.eq_joinSegments.2
  have hsound' := hq.eq_joinSegments.2
  rw [hp.path_eq, hq.path_eq, Specificity.compare_writtenPath_eq_lt (hslash hsound) (hslash hsound')
    (by simpa using hlength), PlainSegment.segmentRanks_source hsound,
    PlainSegment.segmentRanks_source hsound', Specificity.Before.map_iff Specificity.rank_strictMono]

end ReadPlain

/-- A plain pattern that matches something, but less than another one, comes first just when it has fewer colons
where their segments first differ in colons. It always does when no literal of its own has a colon and the
captures of the other one have names. -/
theorem compare_of_narrower {source source' : Text} {p q : Pattern Schema} {ps qs : List PlainSegment}
    (hp : ReadPlain source p ps) (hq : ReadPlain source' q qs) (hsome : ∃ target, p.Matches target)
    (hnarrow : p.Narrower q) :
    (Specificity.compare p.path q.path = .lt ↔
      Specificity.Before (ps.map PlainSegment.colons) (qs.map PlainSegment.colons)) ∧
    ((∀ text, .literal text ∈ ps → ':' ∉ text) → .unnamed ∉ qs →
      Specificity.compare p.path q.path = .lt) := by
  obtain ⟨hfits, target, htarget, hmatches, hnot⟩ := (hp.narrower_iff hq).mp hnarrow
  have hwithin : List.Forall₂ (fun s t => s.Occurs ∧ s.Within t) ps qs := by
    obtain ⟨target, hmatches⟩ := hsome
    exact PlainSegment.forall₂_within hfits (fun _ => targetSegment_of_mem) (hp.matches_iff.mp hmatches)
  have hcompare := hp.compare_eq_lt hq hwithin.length_eq
  refine ⟨hcompare, fun hliteral hnamed => hcompare.mpr ?_⟩
  rcases PlainSegment.before_or_fits hwithin hp.eq_joinSegments.2 hq.eq_joinSegments.2 hliteral hnamed with
    hbefore | hall
  · exact hbefore
  · exact absurd (hall target hmatches) hnot

/-- The first segment ties. -/
theorem compare_of_narrower_named :
    ∃ p q, ReadPlain "/:kind/new" p [.named "kind", .literal "new"] ∧
      ReadPlain "/:kind/:id" q [.named "kind", .named "id"] ∧ (∃ target, p.Matches target) ∧
      p.Narrower q ∧ Specificity.compare p.path q.path = .lt := by
  refine ⟨_, _, ⟨rfl, rfl⟩, ⟨rfl, rfl⟩, ?_⟩
  have hp : ReadPlain "/:kind/new" _ [.named "kind", .literal "new"] := ⟨rfl, rfl⟩
  have hq : ReadPlain "/:kind/:id" _ [.named "kind", .named "id"] := ⟨rfl, rfl⟩
  have hfits : List.Forall₂ PlainSegment.Fits [.named "kind", .literal "new"] ["user", "new"] :=
    .cons (List.cons_ne_nil _ _) (.cons rfl .nil)
  have hfits' : List.Forall₂ PlainSegment.Fits [.named "kind", .named "id"] ["user", "old"] :=
    .cons (List.cons_ne_nil _ _) (.cons (List.cons_ne_nil _ _) .nil)
  have hid : (PlainSegment.literal "new").Within (.named "id") := fun _ htext _ => htext.1
  have hless : List.Forall₂ PlainSegment.Within [.named "kind", .literal "new"]
      [.named "kind", .named "id"] := .cons (fun _ _ hfits => hfits) (.cons hid .nil)
  have hsome : ∃ target, Matches _ target := ⟨_, (hp.matches_writtenPath (by decide)).mpr hfits⟩
  have hnarrow := (hp.narrower_iff hq).mpr ⟨fun _ => PlainSegment.forall₂_fits hless, _, by decide, hfits',
    by simp [PlainSegment.Fits]⟩
  exact ⟨hsome, hnarrow, (compare_of_narrower hp hq hsome hnarrow).2 (by simp) (by decide)⟩

theorem ReadPlain.narrower_of_single {source source' : Text} {p q : Pattern Schema} {s t : PlainSegment}
    (hp : ReadPlain source p [s]) (hq : ReadPlain source' q [t])
    (hwithin : s.Within t) (hmore : ∃ text, TargetSegment text ∧ t.Fits text ∧ ¬s.Fits text) :
    p.Narrower q := by
  obtain ⟨text, htext, ht, hs⟩ := hmore
  refine (hp.narrower_iff hq).mpr ⟨fun _ => PlainSegment.forall₂_fits (.cons hwithin .nil), [text],
    List.forall_mem_singleton.mpr htext, .cons ht .nil, ?_⟩
  rw [List.forall₂_cons]
  exact fun h => hs h.1

/-- An unnamed capture has no colon, and a literal may have several. A literal with a fragment sign matches
nothing, which is less than anything else. -/
theorem narrower_not_first :
    (∃ p q, ReadPlain "/a" p [.literal "a"] ∧ ReadPlain "/*" q [.unnamed] ∧ p.Narrower q ∧
      Specificity.compare p.path q.path = .eq) ∧
    (∃ p q, ReadPlain "/a:b:c" p [.literal "a:b:c"] ∧ ReadPlain "/:x" q [.named "x"] ∧ p.Narrower q ∧
      Specificity.compare p.path q.path = .gt) ∧
    ∃ p q, ReadPlain "/a#b" p [.literal "a#b"] ∧ ReadPlain "/c" q [.literal "c"] ∧ p.Narrower q ∧
      Specificity.compare p.path q.path = .eq := by
  have hb : TargetSegment "b" := by decide
  have hc : TargetSegment "c" := by decide
  have hhash : ¬TargetSegment "a#b" := by decide
  refine ⟨?_, ?_, ?_⟩
  · have hp : ReadPlain "/a" (.literal "a") [.literal "a"] := ⟨rfl, rfl⟩
    have hq : ReadPlain "/*" .unnamed [.unnamed] := ⟨rfl, rfl⟩
    have hmore : ("b" : Text) ≠ "a" := by decide
    have hnarrow := hp.narrower_of_single hq (fun _ htext _ => htext.1) ⟨_, hb, hb.1, hmore⟩
    exact ⟨_, _, hp, hq, hnarrow, by decide⟩
  · have hp : ReadPlain "/a:b:c" (.literal "a:b:c") [.literal "a:b:c"] := ⟨rfl, rfl⟩
    have hq : ReadPlain "/:x" (.param "x") [.named "x"] := ⟨rfl, rfl⟩
    have hmore : ("b" : Text) ≠ "a:b:c" := by decide
    have hnarrow := hp.narrower_of_single hq (fun _ htext _ => htext.1) ⟨_, hb, hb.1, hmore⟩
    exact ⟨_, _, hp, hq, hnarrow, by decide⟩
  · have hp : ReadPlain "/a#b" (.literal "a#b") [.literal "a#b"] := ⟨rfl, rfl⟩
    have hq : ReadPlain "/c" (.literal "c") [.literal "c"] := ⟨rfl, rfl⟩
    have hmore : ("c" : Text) ≠ "a#b" := by decide
    have hwithin : (PlainSegment.literal "a#b").Within (.literal "c") := by
      rintro text htext rfl
      exact absurd htext hhash
    exact ⟨_, _, hp, hq, hp.narrower_of_single hq hwithin ⟨_, hc, rfl, hmore⟩, by decide⟩

end Pattern

end RoutePattern
