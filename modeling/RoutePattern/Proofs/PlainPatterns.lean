import RoutePattern.Proofs.Lossless
import RoutePattern.Proofs.RoundTrip
import RoutePattern.Proofs.Usable
import RoutePattern.Proofs.WrittenForm

/-!
Patterns whose segments are each a literal or a required capture without a lead. They match a target segment
by segment.
-/

namespace RoutePattern

/-- A segment that is a literal or a required capture without a lead. -/
inductive PlainSegment where
  | literal (text : Text)
  | named (name : Text)
  | unnamed
deriving DecidableEq

namespace PlainSegment

variable {σ : Type}

def pattern : PlainSegment → Pattern σ
  | literal text => .literal text
  | named name => .param name
  | unnamed => .unnamed

def source : PlainSegment → Text
  | literal text => text
  | named name => ':' :: name
  | unnamed => ['*']

/-- The part that a segment is matched by, `first` being the key of an unnamed capture. -/
def part (first : Nat) : PlainSegment → Part
  | literal text => .literal text false
  | named name => .capture ⟨.name name, [], false, false⟩
  | unnamed => .capture ⟨.index first, [], false, false⟩

/-- What reading makes sure of. -/
def Sound : PlainSegment → Prop
  | literal text => text ≠ [] ∧ '/' ∉ text ∧ '{' ∉ text
  | named name => isName name
  | unnamed => True

def Fits : PlainSegment → Text → Prop
  | literal text, written => written = text
  | _, written => written ≠ []

theorem Sound.source_clean {s : PlainSegment} (h : s.Sound) : s.source ≠ [] ∧ '/' ∉ s.source := by
  cases s with
  | literal text => exact ⟨h.1, h.2.1⟩
  | named name =>
    have hname : '/' ∉ name := notMem_of_isName h (by decide)
    exact ⟨List.cons_ne_nil _ _, by simpa [source] using hname⟩
  | unnamed => exact ⟨List.cons_ne_nil _ _, by decide⟩

end PlainSegment

namespace Pattern

variable {σ : Type}

/-- The segments of a pattern, if they are all plain and there is no query block. -/
def plainSegments? : Pattern σ → Option (List PlainSegment)
  | literal text => some (if text.all (· == '/') then [] else [.literal text])
  | param name => some [.named name]
  | unnamed => some [.unnamed]
  | concat left right joined =>
    if joined then none
    else left.plainSegments?.bind fun first => right.plainSegments?.map (first ++ ·)
  | _ => none

theorem all_slash_eq_false {text : Text} (hne : text ≠ []) (hslash : '/' ∉ text) :
    text.all (· == '/') = false := by
  obtain ⟨c, hc⟩ := List.exists_mem_of_ne_nil text hne
  refine List.all_eq_false.mpr ⟨c, hc, ?_⟩
  rw [beq_iff_eq]
  rintro rfl
  exact hslash hc

theorem plainSegments?_foldl_joined {p : Pattern σ} (h : p.plainSegments? = none)
    (ps : List (Pattern σ)) :
    (ps.foldl (fun left right => concat left right true) p).plainSegments? = none := by
  induction ps generalizing p with
  | nil => exact h
  | cons q rest ih => exact ih rfl

theorem plainSegments?_foldl {p : Pattern σ} {ps : List (Pattern σ)} {segments : List PlainSegment}
    (h : (ps.foldl (fun left right => concat left right false) p).plainSegments? = some segments) :
    ∃ own others, p.plainSegments? = some own ∧
      List.Forall₂ (fun q ss => plainSegments? q = some ss) ps others ∧ segments = own ++ others.flatten := by
  induction ps generalizing p with
  | nil => exact ⟨segments, [], h, .nil, by simp⟩
  | cons q rest ih =>
    obtain ⟨front, others, hfront, hothers, rfl⟩ := ih h
    obtain ⟨own, hown, hback⟩ := Option.bind_eq_some_iff.mp hfront
    obtain ⟨next, hnext, rfl⟩ := Option.map_eq_some_iff.mp hback
    exact ⟨own, next :: others, hown, .cons hnext hothers, by simp⟩

/-- A segment that was read and is plain is one plain segment. -/
theorem ReadFrom.eq_of_plain {segment : Text} {p : Pattern σ} {segments : List PlainSegment}
    (h : ReadFrom segment p) (hne : segment ≠ []) (hslash : '/' ∉ segment)
    (hplain : p.plainSegments? = some segments) :
    ∃ s : PlainSegment, segments = [s] ∧ p = s.pattern ∧ s.Sound := by
  obtain ⟨pieces, hsound, rfl, rfl⟩ := ofSegment_eq_ok h
  match pieces with
  | [] => exact absurd rfl hne
  | piece :: next :: rest =>
    have hnone : (joinParts ((piece :: next :: rest).map Piece.pattern) : Pattern σ).plainSegments? = none :=
      plainSegments?_foldl_joined rfl (rest.map Piece.pattern)
    rw [hnone] at hplain
    cases hplain
  | [.literal text] =>
    have htext : text ≠ [] ∧ '{' ∉ text ∧ '}' ∉ text := hsound _ List.mem_cons_self
    have hslash : '/' ∉ text := by simpa [Piece.source] using hslash
    have hall := all_slash_eq_false htext.1 hslash
    have hsome : some [PlainSegment.literal text] = some segments := by
      simpa [joinParts, Piece.pattern, plainSegments?, hall] using hplain
    exact ⟨.literal text, (Option.some.inj hsome).symm, rfl, htext.1, hslash, htext.2.1⟩
  | [.capture none (some name) none] =>
    have hname := (hsound _ List.mem_cons_self).1 name rfl
    exact ⟨.named name, (Option.some.inj hplain).symm, rfl, hname⟩
  | [.capture none none none] => exact ⟨.unnamed, (Option.some.inj hplain).symm, rfl, trivial⟩
  | [.capture none none (some _)] => cases hplain
  | [.capture none (some _) (some _)] => cases hplain
  | [.capture (some _) _ _] => cases hplain

theorem ReadPath.eq_of_plain {path : Text} {p : Pattern σ} {segments : List PlainSegment} (h : ReadPath path p)
    (hplain : p.plainSegments? = some segments) :
    p = joinSegments (segments.map PlainSegment.pattern) ∧ ∀ s ∈ segments, s.Sound := by
  obtain ⟨ps, hread, rfl⟩ := h
  have hreadable := ReadPath.readable hread
  have hall : ∃ sss, List.Forall₂ (fun q ss => plainSegments? q = some ss) ps sss ∧
      segments = sss.flatten := by
    cases ps with
    | nil => exact ⟨[], .nil, (Option.some.inj hplain).symm⟩
    | cons q rest =>
      obtain ⟨own, others, hown, hothers, rfl⟩ := plainSegments?_foldl hplain
      exact ⟨own :: others, .cons hown hothers, rfl⟩
  obtain ⟨sss, hsss, rfl⟩ := hall
  clear hread hplain
  have hmap : ps = sss.flatten.map PlainSegment.pattern ∧ ∀ s ∈ sss.flatten, s.Sound := by
    induction hsss with
    | nil => exact ⟨rfl, nofun⟩
    | cons hfirst _ ih =>
      obtain ⟨⟨segment, hread, hne, hslash⟩, hrest⟩ := List.forall_mem_cons.mp hreadable
      obtain ⟨s, rfl, rfl, hsound⟩ := hread.eq_of_plain hne hslash hfirst
      obtain ⟨hps, hothers⟩ := ih hrest
      exact ⟨congrArg (s.pattern :: ·) hps, List.forall_mem_cons.mpr ⟨hsound, hothers⟩⟩
  exact ⟨congrArg joinSegments hmap.1, hmap.2⟩

namespace ReadSplit

variable {split : QuerySplit} {p : Pattern σ} {segments : List PlainSegment}

theorem queryBlock?_of_plain (h : ReadSplit split p) (hplain : p.plainSegments? = some segments) :
    p.queryBlock? = none := by
  rw [h.blockAtRoot.queryBlock?_eq]
  cases p with
  | queryParams _ _ => cases hplain
  | _ => rfl

theorem eq_of_plain (h : ReadSplit split p) (hplain : p.plainSegments? = some segments) :
    p = joinSegments (segments.map PlainSegment.pattern) ∧ ∀ s ∈ segments, s.Sound := by
  cases h with
  | plain _ hpath => exact hpath.eq_of_plain hplain
  | query _ _ _ => cases hplain

end ReadSplit

end Pattern

namespace PlainSegment

open Pattern

variable {σ : Type}

theorem parts_groupsFrom {s : PlainSegment} (hs : s.Sound) (first : Nat) :
    ((s.pattern : Pattern σ).groupsFrom first).map Group.parts = [[s.part first]] := by
  cases s with
  | literal text =>
    rw [pattern, groupsFrom, stops, all_slash_eq_false hs.1 hs.2.1]
    rfl
  | named name => rfl
  | unnamed => rfl

theorem parts_collect {segments : List PlainSegment} (h : ∀ s ∈ segments, s.Sound) (first : Nat) :
    ∃ parts : List Part,
      (collect groupsFrom first (segments.map (pattern (σ := σ)))).map Group.parts = parts.map ([·]) ∧
        List.Forall₂ (fun s part => ∃ n, part = s.part n) segments parts := by
  induction segments generalizing first with
  | nil => exact ⟨[], rfl, .nil⟩
  | cons s rest ih =>
    obtain ⟨hs, hrest⟩ := List.forall_mem_cons.mp h
    obtain ⟨parts, hparts, hforall⟩ := ih hrest (first + (s.pattern : Pattern σ).unnamedCount)
    refine ⟨s.part first :: parts, ?_, .cons ⟨first, rfl⟩ hforall⟩
    rw [List.map_cons, collect, List.map_append, parts_groupsFrom hs, hparts]
    rfl

section

open Cursor (behind)

variable (query : Query) (done rest : List Text) {s : PlainSegment} {written : Text}

theorem run_nil (s : PlainSegment) (n : Nat) :
    (Step.single (s.part n)).run query (behind done []) = none := by
  cases s <;> simp [Step.run, part, matchSingle, matchCapture, Cursor.head?_behind_nil]

theorem run_of_fits (n : Nat) (h : s.Fits written) :
    ∃ params, (Step.single (s.part n)).run query (behind done (written :: rest)) =
      some (params, behind (done ++ [written]) rest) := by
  have hcapture : ∀ key : Key, written ≠ [] →
      matchCapture ⟨key, [], false, false⟩ (behind done (written :: rest)) =
        some ([(key, .one written)], behind (done ++ [written]) rest) := fun key hne =>
    (Capture.Takes.one rfl rfl hne).matchCapture done
  cases s with
  | literal text =>
    obtain rfl : written = text := h
    refine ⟨[], ?_⟩
    rw [Step.run, part, matchSingle, Cursor.head?_behind_cons, if_pos rfl, Cursor.advance_behind]
  | named name => exact ⟨_, hcapture (.name name) h⟩
  | unnamed => exact ⟨_, hcapture (.index n) h⟩

theorem run_of_not_fits (n : Nat) (h : ¬ s.Fits written) :
    (Step.single (s.part n)).run query (behind done (written :: rest)) = none := by
  have hcapture : ∀ key : Key, ¬ written ≠ [] →
      matchCapture ⟨key, [], false, false⟩ (behind done (written :: rest)) = none := by
    intro key hne
    obtain rfl : written = [] := not_not.mp hne
    have hhead : ((behind done ([] :: rest)).strip 0).head? = some [] := Cursor.head?_strip done [] rest 0
    simp [matchCapture, Cursor.head?_behind_cons, hhead, Text.after?]
  cases s with
  | literal text =>
    have hne : ¬ written = text := h
    rw [Step.run, part, matchSingle, Cursor.head?_behind_cons, if_neg (by simpa using hne), if_neg (by simp)]
  | named name => exact hcapture (.name name) h
  | unnamed => exact hcapture (.index n) h

theorem exists_run_iff {segments : List PlainSegment} {parts : List Part}
    (h : List.Forall₂ (fun s part => ∃ n, part = s.part n) segments parts) (query : Query)
    (done : List Text) {target : List Text} :
    (∃ params last, runSteps query (behind done target) (parts.map .single) = some (params, last) ∧
      last.isExhausted = true) ↔ List.Forall₂ Fits segments target := by
  induction h generalizing done target with
  | nil =>
    rw [List.forall₂_nil_left_iff]
    constructor
    · rintro ⟨_, _, hrun, hlast⟩
      obtain ⟨rfl, rfl⟩ := Prod.mk.inj (Option.some.inj hrun)
      exact Cursor.isExhausted_behind_iff.mp hlast
    · rintro rfl
      exact ⟨[], _, rfl, Cursor.isExhausted_behind done⟩
  | @cons s part segments parts hpart _ ih =>
    obtain ⟨n, rfl⟩ := hpart
    cases target with
    | nil =>
      rw [List.map_cons, runSteps, run_nil]
      exact ⟨fun ⟨_, _, hrun, _⟩ => (by cases hrun), nofun⟩
    | cons written rest =>
      rw [List.map_cons, runSteps, List.forall₂_cons]
      by_cases hfits : s.Fits written
      · obtain ⟨own, hown⟩ := run_of_fits query done rest n hfits
        rw [hown, Option.bind_some, ← ih (done ++ [written])]
        constructor
        · rintro ⟨_, last, hrun, hlast⟩
          obtain ⟨⟨params, _⟩, hrest, heq⟩ := Option.map_eq_some_iff.mp hrun
          obtain ⟨-, rfl⟩ := Prod.mk.inj heq
          exact ⟨hfits, params, _, hrest, hlast⟩
        · rintro ⟨-, params, last, hrest, hlast⟩
          exact ⟨_, last, Option.map_eq_some_iff.mpr ⟨_, hrest, rfl⟩, hlast⟩
      · rw [run_of_not_fits query done rest n hfits]
        exact ⟨fun ⟨_, _, hrun, _⟩ => (by cases hrun), fun hforall => absurd hforall.1 hfits⟩

end

end PlainSegment

namespace Pattern

/-- A target is matched by the pattern as a whole. -/
def Matches (p : Pattern Schema) (target : Text) : Prop :=
  ∃ params, (⟨p, true⟩ : Route).accept target = .ok (some params)

/-- A pattern that was read, with its segments, all of which are plain. -/
structure ReadPlain (source : Text) (p : Pattern Schema) (segments : List PlainSegment) : Prop where
  read : ofText source = .ok p
  plain : p.plainSegments? = some segments

namespace ReadPlain

variable {source : Text} {p : Pattern Schema} {segments : List PlainSegment}
  (h : ReadPlain source p segments)

include h

theorem eq_joinSegments : p = joinSegments (segments.map PlainSegment.pattern) ∧ ∀ s ∈ segments, s.Sound :=
  (ofText_eq_ok_iff.mp h.read).eq_of_plain h.plain

theorem queryBlock?_eq_none : p.queryBlock? = none :=
  (ofText_eq_ok_iff.mp h.read).queryBlock?_of_plain h.plain

/-- A plain pattern matches the targets whose segments fit its own. -/
theorem matches_iff {target : Text} :
    p.Matches target ↔ List.Forall₂ PlainSegment.Fits segments (Target.ofText target).segments := by
  have hread := ofText_eq_ok_iff.mp h.read
  have hnone := h.queryBlock?_eq_none
  obtain ⟨hjoin, hsound⟩ := h.eq_joinSegments
  have hroot : p.rootBlock? = none := hread.blockAtRoot.queryBlock?_eq ▸ hnone
  obtain ⟨parts, hparts, hforall⟩ := PlainSegment.parts_collect hsound 0
  have hsteps : p.readSteps = parts.map .single := by
    rw [hread.readSteps_of_queryless hnone, hread.pathParts_eq, trunk_eq_self hroot, hjoin,
      additive_groups.joinSegments, hparts, List.map_map]
    rfl
  have hmatcher : (⟨p, true⟩ : Route).matcher = .ok ⟨p.readSteps, true⟩ :=
    @Route.matcher_of_read _ ⟨p, true⟩ hread
  have haccept : ∀ params, (⟨p, true⟩ : Route).accept target = .ok (some params) ↔
      ∃ last, (Matcher.mk p.readSteps true).run (Target.ofText target).query
        (.start (Target.ofText target).segments) = some (params, last) := by
    intro params
    rw [Route.accept, hmatcher]
    simp [Except.map, Matcher.accept, Option.map_eq_some_iff]
  rw [← PlainSegment.exists_run_iff hforall (Target.ofText target).query [], ← hsteps]
  simp only [Matches, haccept, Matcher.run_eq_some, forall_const]
  rfl

theorem path_eq : p.path = writtenPath (segments.map PlainSegment.source) := by
  obtain ⟨hjoin, hsound⟩ := h.eq_joinSegments
  have hbodies : (segments.map PlainSegment.pattern).map (body : Pattern Schema → Text) =
      segments.map PlainSegment.source := by
    rw [List.map_map]
    exact List.map_congr_left fun s _ => by cases s <;> rfl
  have hclean : Clean (segments.map PlainSegment.source) := by
    intro text ht
    obtain ⟨s, hs, rfl⟩ := List.mem_map.mp ht
    exact (hsound s hs).source_clean
  rw [path, h.queryBlock?_eq_none, hjoin, joinPath_body_joinSegments, hbodies, joinPath_of_clean hclean]
  rfl

end ReadPlain

end Pattern

end RoutePattern
