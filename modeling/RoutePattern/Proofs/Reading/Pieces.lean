import RoutePattern.Pattern.Reader

/-!
Pieces: what a stretch of a segment can be read as. The written form of a piece is the stretch that
it was read from.
-/

namespace RoutePattern

theorem Text.cut_eq_some {c : Char} {text before after : Text}
    (h : Text.cut c text = some (before, after)) : text = before ++ c :: after ∧ c ∉ before := by
  induction text generalizing before after with
  | nil => simp [Text.cut] at h
  | cons x rest ih =>
    by_cases hx : x = c
    · obtain ⟨rfl, rfl⟩ : [] = before ∧ rest = after := by simpa [Text.cut, hx] using h
      simp [hx]
    · simp only [Text.cut, if_neg hx, Option.map_eq_some_iff] at h
      obtain ⟨⟨before', after'⟩, hc, he⟩ := h
      obtain ⟨rfl, rfl⟩ := Prod.mk.inj he
      obtain ⟨rfl, hn⟩ := ih hc
      simp [hn, Ne.symm hx]

theorem Text.cut_eq_none {c : Char} {text : Text} (h : Text.cut c text = none) : c ∉ text := by
  induction text with
  | nil => simp
  | cons x rest ih =>
    unfold Text.cut at h
    split at h
    next => cases h
    next hx => simp [Ne.symm hx, ih (Option.map_eq_none_iff.mp h)]

theorem Text.cut_append {c : Char} {before : Text} (after : Text) (h : c ∉ before) :
    Text.cut c (before ++ c :: after) = some (before, after) := by
  induction before with
  | nil => simp [Text.cut]
  | cons x rest ih =>
    have hx : x ≠ c := fun he => h (by simp [he])
    simp [Text.cut, hx, ih (fun hm => h (List.mem_cons_of_mem _ hm))]

theorem isNameChar_of_mem {name : Text} {c : Char} (h : isName name) (hc : c ∈ name) :
    isNameChar c := by
  cases name with
  | nil => simp at hc
  | cons first rest =>
    obtain ⟨hs, hr⟩ := Bool.and_eq_true_iff.mp h
    rcases List.mem_cons.mp hc with rfl | hm
    · simp only [isNameStart, isNameChar, Char.isAlphanum, Bool.or_eq_true] at hs ⊢
      exact hs.imp_left .inl
    · exact List.all_eq_true.mp hr c hm

theorem notMem_of_isName {name : Text} (h : isName name) {c : Char} (hc : isNameChar c = false) : c ∉ name := by
  intro hmem
  rw [isNameChar_of_mem h hmem] at hc
  cases hc

def symbolText (m : Option Modifier) : Text := (m.map Modifier.symbol).toList

theorem Modifier.symbol_of_ofSymbol? {c : Char} {m : Modifier} (h : Modifier.ofSymbol? c = some m) :
    m.symbol = c := by
  unfold Modifier.ofSymbol? at h
  split at h <;> simp_all <;> subst h <;> rfl

/-- A piece of a segment: text, or a capture with its lead, its name and its modifier. -/
inductive Piece where
  | literal (text : Text)
  | capture (lead name : Option Text) (modifier : Option Modifier)
deriving DecidableEq

namespace Piece

variable {σ : Type}

def bare : Option Text → Pattern σ
  | some name => .param name
  | none => .unnamed

def pattern : Piece → Pattern σ
  | literal text => .literal text
  | capture none name m => .modifiedBy m (bare name)
  | capture (some lead) name m => .prefixed lead (.modifiedBy m (bare name))

def source : Piece → Text
  | literal text => text
  | capture none (some name) m => ':' :: name ++ symbolText m
  | capture none none m => '*' :: symbolText m
  | capture (some lead) name m => '{' :: lead ++ ':' :: name.getD ['*'] ++ symbolText m ++ ['}']

/-- What reading makes sure of: a literal is not empty, names are names, and braces and colons stand
only where they delimit. -/
def Sound : Piece → Prop
  | literal text => text ≠ [] ∧ '{' ∉ text ∧ '}' ∉ text
  | capture lead name _ =>
    (∀ n ∈ name, isName n) ∧ ∀ l ∈ lead, '{' ∉ l ∧ '}' ∉ l ∧ ':' ∉ l

theorem body_modifiedBy_param {name : Text} (m : Option Modifier) (h : isName name) :
    (Pattern.modifiedBy m (.param name) : Pattern σ).body = ':' :: name ++ symbolText m := by
  have hlast : (':' :: name).getLast? ≠ some '}' := by
    intro hl
    rcases List.mem_cons.mp (List.mem_of_getLast? hl) with he | hm
    · simp at he
    · exact absurd (isNameChar_of_mem h hm) (by decide)
  cases m with
  | none => simp [Pattern.modifiedBy, Pattern.body, symbolText]
  | some m => simp [Pattern.modifiedBy, Pattern.body, symbolText, withSymbol, hlast]

theorem body_modifiedBy_unnamed (m : Option Modifier) :
    (Pattern.modifiedBy m .unnamed : Pattern σ).body = '*' :: symbolText m := by
  cases m with
  | none => rfl
  | some m => simp [Pattern.modifiedBy, Pattern.body, symbolText, withSymbol]

theorem body_pattern {piece : Piece} (h : piece.Sound) :
    (piece.pattern : Pattern σ).body = piece.source := by
  match piece with
  | literal _ => simp [pattern, source, Pattern.body]
  | capture none (some name) m => exact body_modifiedBy_param m (h.1 name rfl)
  | capture none none m => exact body_modifiedBy_unnamed m
  | capture (some lead) (some name) m =>
    simp [pattern, bare, source, Pattern.body, body_modifiedBy_param m (h.1 name rfl)]
  | capture (some lead) none m =>
    simp [pattern, bare, source, Pattern.body, body_modifiedBy_unnamed m]

end Piece

namespace Pattern

variable {σ : Type}

theorem modifier?_eq_some {text : Text} {m : Option Modifier} (h : modifier? text = some m) :
    text = symbolText m := by
  match text with
  | [] =>
    cases Option.some.inj h
    rfl
  | [c] =>
    obtain ⟨m', hm, rfl⟩ := Option.map_eq_some_iff.mp h
    simp [symbolText, Modifier.symbol_of_ofSymbol? hm]
  | _ :: _ :: _ => simp [modifier?] at h

theorem nameAndModifier?_eq_some {text name : Text} {m : Option Modifier}
    (h : nameAndModifier? text = some (name, m)) : isName name ∧ text = name ++ symbolText m := by
  simp only [nameAndModifier?] at h
  split at h
  next hn =>
    obtain ⟨m', hm, he⟩ := Option.map_eq_some_iff.mp h
    obtain ⟨rfl, rfl⟩ := Prod.mk.inj he
    refine ⟨hn, ?_⟩
    rw [← modifier?_eq_some hm, List.takeWhile_append_dropWhile]
  next => simp at h

theorem starModifier?_eq_some {text : Text} {m : Option Modifier}
    (h : starModifier? text = some m) : text = '*' :: symbolText m := by
  unfold starModifier? at h
  split at h
  next rest => rw [modifier?_eq_some h]
  next => simp at h

theorem ofPlain_eq_ok {text : Text} {offset : Nat} {p : Pattern σ} (hne : text ≠ [])
    (h : ofPlain text offset = .ok p) :
    ∃ piece : Piece, piece.Sound ∧ piece.source = text ∧ p = piece.pattern := by
  unfold ofPlain at h
  split at h
  next => simp at h
  next hopen =>
    split at h
    next => simp at h
    next hclose =>
      have ho : '{' ∉ text := by simpa using hopen
      have hc : '}' ∉ text := by simpa using hclose
      split at h
      next rest =>
        split at h
        next name m hm =>
          obtain ⟨hn, ht⟩ := nameAndModifier?_eq_some hm
          cases h
          exact ⟨.capture none (some name) m, ⟨by simpa using hn, by simp⟩, by simp [Piece.source, ht], rfl⟩
        next => simp at h
      next rest =>
        split at h
        next m hm =>
          cases h
          exact ⟨.capture none none m, ⟨by simp, by simp⟩,
            by rw [Piece.source, modifier?_eq_some hm], rfl⟩
        next => simp at h
      next =>
        cases h
        exact ⟨.literal text, ⟨hne, ho, hc⟩, rfl, rfl⟩

theorem ofBraced_eq_ok {body : Text} {offset : Nat} {p : Pattern σ} (ho : '{' ∉ body)
    (hc : '}' ∉ body) (h : ofBraced body offset = .ok p) :
    ∃ piece : Piece, piece.Sound ∧ piece.source = '{' :: body ++ ['}'] ∧ p = piece.pattern := by
  simp only [ofBraced] at h
  split at h
  next => simp at h
  next =>
    split at h
    next => simp at h
    next lead capture hcut =>
      obtain ⟨rfl, hcolon⟩ := Text.cut_eq_some hcut
      have hlead : '{' ∉ lead ∧ '}' ∉ lead ∧ ':' ∉ lead :=
        ⟨fun hm => ho (by simp [hm]), fun hm => hc (by simp [hm]), hcolon⟩
      split at h
      next => simp at h
      next =>
        split at h
        next m hm =>
          cases h
          refine ⟨.capture (some lead) none m, ⟨by simp, by simpa using hlead⟩, ?_, rfl⟩
          simp [Piece.source, starModifier?_eq_some hm]
        next =>
          split at h
          next name m hm =>
            obtain ⟨hn, rfl⟩ := nameAndModifier?_eq_some hm
            cases h
            refine ⟨.capture (some lead) (some name) m, ⟨by simpa using hn, by simpa using hlead⟩, ?_, rfl⟩
            simp [Piece.source]
          next => simp at h

theorem ofPlain_offset {text : Text} {offset : Nat} {p : Pattern σ} (other : Nat)
    (h : ofPlain text offset = .ok p) : ofPlain text other = .ok p := by
  unfold ofPlain at h ⊢
  grind

theorem ofBraced_offset {body : Text} {offset : Nat} {p : Pattern σ} (other : Nat)
    (h : ofBraced body offset = .ok p) : ofBraced body other = .ok p := by
  simp only [ofBraced] at h ⊢
  split at h
  next => simp at h
  next hb =>
    rw [if_neg hb]
    split at h
    next => simp at h
    next lead capture hcut =>
      split at h
      next => simp at h
      next hcap =>
        rw [if_neg hcap]
        split at h
        next => exact h
        next =>
          split at h
          next => exact h
          next => simp at h

end Pattern

end RoutePattern
