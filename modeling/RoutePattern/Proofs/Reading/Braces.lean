import Mathlib.Data.List.Chain
import RoutePattern.Proofs.Reading.Segments

/-!
The braces of a segment. It is cut at its brace groups, so that text outside of them stands between two groups,
and no two of its braces make a group.
-/

namespace RoutePattern

namespace Text

def isBrace (c : Char) : Bool := c == '{' || c == '}'

/-- A brace group without any brace between its own two. -/
def IsGroup (text : Text) : Prop := ∃ body : Text, '{' ∉ body ∧ '}' ∉ body ∧ text = '{' :: body ++ ['}']

/-- What is before a piece ends in a brace group and what is behind it begins with one, unless it is empty. -/
def BetweenGroups (before after : Text) : Prop :=
  (before = [] ∨ ∃ group, IsGroup group ∧ group <:+ before) ∧
    (after = [] ∨ ∃ group, IsGroup group ∧ group <+: after)

/-- A brace has no partner: the next brace behind an opening one does not close it, the last brace before a
closing one does not open it. -/
def Stray (brace : Char) (before after : Text) : Prop :=
  brace = '{' ∧ after.find? isBrace ≠ some '}' ∨ brace = '}' ∧ before.reverse.find? isBrace ≠ some '{'

/-- The opening braces of the text have no partner in it. -/
def Unpaired (text : Text) : Prop :=
  ∀ before after, text = before ++ '{' :: after → after.find? isBrace ≠ some '}'

theorem find?_isBrace {text : Text} (hopen : '{' ∉ text) (hclose : '}' ∉ text) :
    text.find? isBrace = none := by
  rw [List.find?_eq_none]
  intro c hc hbrace
  rcases (by simpa [isBrace] using hbrace : c = '{' ∨ c = '}') with rfl | rfl
  · exact hopen hc
  · exact hclose hc

theorem unpaired_of_notMem {text : Text} (h : '{' ∉ text) : Unpaired text := by
  rintro before after rfl
  simp at h

/-- An opening brace after such a text is no partner of the ones before it. -/
theorem Unpaired.append_open {text body : Text} (htext : Unpaired text) (hopen : '{' ∉ body)
    (hclose : '}' ∉ body) : Unpaired (text ++ '{' :: body) := by
  intro before after h
  rcases List.append_eq_append_iff.mp h with ⟨gap, -, hbody⟩ | ⟨gap, rfl, hafter⟩
  · cases gap with
    | nil =>
      obtain ⟨-, rfl⟩ := List.cons.inj hbody
      simp [find?_isBrace hopen hclose]
    | cons c rest =>
      obtain ⟨-, rfl⟩ := List.cons.inj hbody
      simp at hopen
  · cases gap with
    | nil =>
      obtain ⟨-, rfl⟩ := List.cons.inj hafter
      simp [find?_isBrace hopen hclose]
    | cons c rest =>
      obtain ⟨rfl, rfl⟩ := List.cons.inj hafter
      have hrest := htext before rest rfl
      show (rest ++ '{' :: body).find? isBrace ≠ some '}'
      rw [List.find?_append]
      cases hfind : rest.find? isBrace with
      | none => simp [isBrace]
      | some brace => simpa [hfind] using hrest

/-- Behind text between two groups, the next brace opens one; before it, the last brace closes one. -/
theorem BetweenGroups.find?_ne {before after : Text} (h : BetweenGroups before after) :
    before.reverse.find? isBrace ≠ some '{' ∧ after.find? isBrace ≠ some '}' := by
  obtain ⟨hbefore, hafter⟩ := h
  constructor
  · rcases hbefore with rfl | ⟨_, ⟨body, -, -, rfl⟩, front, rfl⟩
    · simp
    · simp [isBrace]
  · rcases hafter with rfl | ⟨_, ⟨body, -, -, rfl⟩, back, rfl⟩
    · simp
    · simp [isBrace]

theorem BetweenGroups.stray_open {before left right after : Text} (h : BetweenGroups before after)
    (htext : Unpaired (left ++ '{' :: right)) : Stray '{' (before ++ left) (right ++ after) := by
  refine .inl ⟨rfl, ?_⟩
  have hright := htext left right rfl
  rw [List.find?_append]
  cases hfind : right.find? isBrace with
  | none => exact h.find?_ne.2
  | some brace => simpa [hfind] using hright

theorem BetweenGroups.stray_close {before left after : Text} (h : BetweenGroups before after)
    (hleft : '{' ∉ left) (right : Text) : Stray '}' (before ++ left) (right ++ after) := by
  refine .inr ⟨rfl, ?_⟩
  rw [List.reverse_append, List.find?_append]
  cases hfind : left.reverse.find? isBrace with
  | none => exact h.find?_ne.1
  | some brace =>
    have hmem : brace ∈ left := List.mem_reverse.mp (List.mem_of_find?_eq_some hfind)
    rintro heq
    obtain rfl : brace = '{' := by simpa using heq
    exact hleft hmem

end Text

namespace Stretch

open Text (IsGroup BetweenGroups Unpaired)

def IsBraced : Stretch → Prop
  | braced _ => True
  | plain _ => False

theorem length_source (s : Stretch) : s.source.length = s.width := by
  cases s <;> simp [source, width]

theorem Sound.isGroup {s : Stretch} (h : s.Sound) (hbraced : s.IsBraced) : IsGroup s.source := by
  cases s with
  | braced body => exact ⟨body, h.1, h.2, rfl⟩
  | plain text => exact hbraced.elim

/-- Of two stretches side by side, one is a brace group: text outside of groups is cut as a whole. -/
theorem isChain_cut (outside : Text) (body : Option Text) (text : Text) :
    (cut outside body text).IsChain fun s t => s.IsBraced ∨ t.IsBraced := by
  induction text generalizing outside body with
  | nil => cases body <;> simp only [cut, plains] <;> split <;> simp
  | cons c rest ih =>
    cases body with
    | none =>
      rw [cut]
      split
      next => exact ih outside (some [])
      next => exact ih (c :: outside) none
    | some b =>
      rw [cut]
      split
      next => exact ih _ _
      next =>
        split
        next =>
          have hbraced : (braced b.reverse :: cut [] none rest).IsChain fun s t => s.IsBraced ∨ t.IsBraced :=
            List.isChain_cons.mpr ⟨fun _ _ => .inl trivial, ih [] none⟩
          unfold plains
          split
          next => exact hbraced
          next => exact List.isChain_cons_cons.mpr ⟨.inr trivial, hbraced⟩
        next => exact ih outside (some (c :: b))

theorem unpaired_of_mem_plains {text t : Text} (htext : Unpaired text) (h : plain t ∈ plains text) :
    Unpaired t := by
  unfold plains at h
  split at h
  next => simp at h
  next =>
    obtain rfl : t = text := by simpa using h
    exact htext

/-- What holds of the text put aside while a segment is cut. Where no group is being read, no brace in it is
open; where one is, the open ones before it have no partner, and it has no braces so far. -/
inductive Aside : Text → Option Text → Prop
  | outer {outside : Text} (h : '{' ∉ outside) : Aside outside none
  | inner {outside body : Text} (h : Unpaired outside.reverse) (hopen : '{' ∉ body) (hclose : '}' ∉ body) :
    Aside outside (some body)

theorem Aside.unpaired {outside body : Text} (h : Aside outside (some body)) :
    Unpaired (body ++ '{' :: outside).reverse := by
  obtain - | ⟨houtside, hopen, hclose⟩ := h
  rw [List.reverse_append, List.reverse_cons, List.append_assoc]
  exact houtside.append_open (by simpa using hopen) (by simpa using hclose)

theorem unpaired_cut {outside : Text} {body : Option Text} {text t : Text} (haside : Aside outside body)
    (h : plain t ∈ cut outside body text) : Unpaired t := by
  induction text generalizing outside body with
  | nil =>
    cases haside with
    | outer hfresh => exact unpaired_of_mem_plains (Text.unpaired_of_notMem (by simpa using hfresh)) h
    | inner houtside hopen hclose =>
      exact unpaired_of_mem_plains (Aside.inner houtside hopen hclose).unpaired h
  | cons c rest ih =>
    rw [cut.eq_def] at h
    cases haside with
    | outer hfresh =>
      dsimp only at h
      split at h
      next =>
        have hunpaired : Unpaired outside.reverse := Text.unpaired_of_notMem (by simpa using hfresh)
        exact ih (.inner hunpaired (by simp) (by simp)) h
      next hc => exact ih (.outer (by simp [hfresh, Ne.symm hc])) h
    | inner houtside hopen hclose =>
      dsimp only at h
      split at h
      next => exact ih (.inner (Aside.inner houtside hopen hclose).unpaired (by simp) (by simp)) h
      next hco =>
        split at h
        next =>
          rcases List.mem_append.mp h with hm | hm
          · exact unpaired_of_mem_plains houtside hm
          · rcases List.mem_cons.mp hm with heq | hm
            · cases heq
            · exact ih (.outer (by simp)) hm
        next hcc =>
          exact ih (.inner houtside (by simp [hopen, Ne.symm hco]) (by simp [hclose, Ne.symm hcc])) h

theorem unpaired_of_mem_ofSegment {segment text : Text} (h : plain text ∈ ofSegment segment) :
    Unpaired text :=
  unpaired_cut (.outer (by simp)) h

/-- Text outside of groups reaches from one group, or end of the segment, to the next. -/
theorem betweenGroups_of_ofSegment {segment text : Text} {before after : List Stretch}
    (h : ofSegment segment = before ++ plain text :: after) :
    BetweenGroups (before.flatMap source) (after.flatMap source) := by
  have hsound : ∀ s ∈ before ++ plain text :: after, s.Sound := h ▸ sound_ofSegment
  have hchain := isChain_cut [] none segment
  rw [← ofSegment, h] at hchain
  constructor
  · rcases List.eq_nil_or_concat before with rfl | ⟨front, s, rfl⟩
    · exact .inl rfl
    · have hbraced : s.IsBraced := by
        have hnext : [s, plain text].IsChain fun s t => s.IsBraced ∨ t.IsBraced :=
          hchain.infix ⟨front, after, by simp⟩
        simpa [IsBraced] using hnext
      have hgroup := (hsound s (by simp)).isGroup hbraced
      exact .inr ⟨_, hgroup, front.flatMap source, by simp⟩
  · cases after with
    | nil => exact .inl rfl
    | cons s back =>
      have hbraced : s.IsBraced := by
        have hnext : [plain text, s].IsChain fun s t => s.IsBraced ∨ t.IsBraced :=
          hchain.infix ⟨before, back, by simp⟩
        simpa [IsBraced] using hnext
      have hgroup := (hsound s (by simp)).isGroup hbraced
      exact .inr ⟨_, hgroup, back.flatMap source, by simp⟩

end Stretch

end RoutePattern
