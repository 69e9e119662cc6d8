import RoutePattern.Proofs.ConstantRoutes

/-!
Literals and captures under modifiers and behind a lead. Nothing but their order of writing is left of the
nesting: the text and the part of such a pattern depend on what it is built on, on its lead, and on the
modifiers from the inside out.
-/

namespace RoutePattern

variable {σ : Type}

/-- What modifiers and a lead are put around. -/
inductive Core where
  | literal (text : Text)
  | capture (name : Option Text)
deriving DecidableEq

/-- A core with its lead and its modifiers, the innermost one first. -/
structure Item where
  core : Core
  lead : Option Text
  marks : List Modifier
deriving DecidableEq

def isWordChar (c : Char) : Bool := c.isAlphanum || c == '-'

namespace Core

def source : Core → Text
  | literal text => text
  | capture (some name) => ':' :: name
  | capture none => ['*']

def bracedSource : Core → Text
  | literal text => text
  | capture name => name.getD ['*']

def count : Core → Nat
  | capture none => 1
  | _ => 0

/-- A name, a star, a word, or the separator. -/
def Plain : Core → Prop
  | literal text => text = ['/'] ∨ text ≠ [] ∧ ∀ c ∈ text, isWordChar c
  | capture name => ∀ n ∈ name, isName n

end Core

def symbolsText (marks : List Modifier) : Text := marks.map Modifier.symbol

namespace Item

def source : Item → Text
  | ⟨core, none, marks⟩ => core.source ++ symbolsText marks
  | ⟨core, some lead, marks⟩ => '{' :: lead ++ ':' :: core.bracedSource ++ symbolsText marks ++ ['}']

def loose (i : Item) : Bool := i.marks.any Modifier.allowsNone

def repeated (i : Item) : Bool := i.marks.any Modifier.allowsMany

/-- The part that an item is, `first` being the key of an unnamed capture. -/
def part (first : Nat) (i : Item) : Part :=
  match i.core with
  | .literal text => .literal (i.lead.getD [] ++ text) i.loose
  | .capture name => .capture ⟨name.elim (.index first) .name, i.lead.getD [], i.loose, i.repeated⟩

structure Plain (i : Item) : Prop where
  core : i.core.Plain
  lead : ∀ l ∈ i.lead, ∀ c ∈ l, isWordChar c

/-- The piece of a segment that an item without a second modifier is written as. -/
def piece? : Item → Option Piece
  | ⟨.literal text, none, []⟩ => some (.literal text)
  | ⟨.capture name, lead, []⟩ => some (.capture lead name none)
  | ⟨.capture name, lead, [m]⟩ => some (.capture lead name (some m))
  | _ => none

/-- Whether an item is written as one piece wherever it stands. -/
def isRegular (i : Item) : Bool := i.piece?.isSome

/-- Whether a question mark at the end of an item only opens an empty query where the item stands last. -/
def isClosing : Item → Bool
  | ⟨.capture _, none, [m, .optional]⟩ => m.allowsNone
  | ⟨.literal text, none, [.optional]⟩ => text == ['/']
  | i => i.isRegular

theorem isClosing_of_isRegular {i : Item} (h : i.isRegular) : i.isClosing := by
  unfold isClosing
  split
  next => cases h
  next => cases h
  next => exact h

theorem closing_cases {i : Item} (h : i.isClosing) : i.isRegular ∨
    (∃ name m, i = ⟨.capture name, none, [m, .optional]⟩ ∧ m.allowsNone) ∨
      i = ⟨.literal ['/'], none, [.optional]⟩ := by
  unfold isClosing at h
  split at h
  next name m => exact .inr (.inl ⟨name, m, rfl, h⟩)
  next text =>
    obtain rfl : text = ['/'] := by simpa using h
    exact .inr (.inr rfl)
  next => exact .inl h

end Item

namespace Pattern

/-- A pattern as a core with its lead and modifiers. Only one lead is taken. -/
def item? : Pattern σ → Option Item
  | literal text => some ⟨.literal text, none, []⟩
  | param name => some ⟨.capture (some name), none, []⟩
  | unnamed => some ⟨.capture none, none, []⟩
  | modified m inner => inner.item?.map fun i => ⟨i.core, i.lead, i.marks ++ [m]⟩
  | prefixed lead inner =>
    inner.item?.bind fun i => if i.lead.isNone then some ⟨i.core, some lead, i.marks⟩ else none
  | _ => none

/-- The patterns side by side in a path, without those that stand for no segment. -/
def leaves (p : Pattern σ) : List (Pattern σ) := p.segmentNodes.filter (!·.isEmptyLiteral)

/-- Whether the written form of a pattern stands for the same items, one for each segment. -/
def isRegular (p : Pattern σ) : Bool :=
  p.leaves.dropLast.all (·.item?.any Item.isRegular) && p.leaves.getLast?.all (·.item?.any Item.isClosing)

/-- Words and captures under modifiers and leads; in paths of several segments if `composed`. -/
inductive Woven (composed : Prop) : Pattern σ → Prop where
  | root : Woven composed root
  | literal {text : Text} (hne : text ≠ []) (h : ∀ c ∈ text, isWordChar c) : Woven composed (.literal text)
  | param {name : Text} (h : isName name) : Woven composed (.param name)
  | unnamed : Woven composed .unnamed
  | modified {inner : Pattern σ} (m : Modifier) : Woven composed inner → Woven composed (.modified m inner)
  | prefixed {inner : Pattern σ} {lead : Text} (h : ∀ c ∈ lead, isWordChar c) :
      Woven composed inner → Woven composed (.prefixed lead inner)
  | concat {left right : Pattern σ} (h : composed) : Woven composed left → Woven composed right →
      Woven composed (.concat left right false)

end Pattern

theorem notMem_of_isWordChar {text : Text} (h : ∀ c ∈ text, isWordChar c) {c : Char}
    (hc : isWordChar c = false) : c ∉ text := by
  intro hmem
  rw [h c hmem] at hc
  cases hc

theorem unmarked_of_word {text : Text} (hne : text ≠ []) (h : ∀ c ∈ text, isWordChar c) (rest : Text) :
    Unmarked (text ++ rest) := by
  intro c hc
  rw [List.head?_append_of_ne_nil text hne] at hc
  have hword := h c (List.mem_of_head? hc)
  refine ⟨?_, ?_⟩
  all_goals
    rintro rfl
    cases hword

theorem notMem_symbolsText (marks : List Modifier) {c : Char} (hc : Modifier.ofSymbol? c = none) :
    c ∉ symbolsText marks := by
  intro hmem
  obtain ⟨m, -, rfl⟩ := List.mem_map.mp hmem
  cases m <;> cases hc

/-- A character that no word, no name and no modifier has. -/
structure Foreign (c : Char) : Prop where
  word : isWordChar c = false
  name : isNameChar c = false
  symbol : Modifier.ofSymbol? c = none

theorem foreign_open : Foreign '{' := ⟨by decide, by decide, by decide⟩

theorem foreign_close : Foreign '}' := ⟨by decide, by decide, by decide⟩

theorem foreign_colon : Foreign ':' := ⟨by decide, by decide, by decide⟩

theorem Core.notMem_bracedSource {core : Core} (h : core.Plain) {c : Char} (hc : Foreign c) (hslash : c ≠ '/') :
    c ∉ core.bracedSource := by
  match core with
  | literal text =>
    obtain rfl | ⟨-, htext⟩ := h
    · simpa [bracedSource] using hslash
    · exact notMem_of_isWordChar htext hc.word
  | capture (some name) => exact notMem_of_isName (h name rfl) hc.name
  | capture none =>
    have hstar : c ≠ '*' := by
      rintro rfl
      cases hc.symbol
    simpa [bracedSource] using hstar

theorem Core.notMem_source {core : Core} (h : core.Plain) {c : Char} (hc : Foreign c) (hslash : c ≠ '/')
    (hcolon : c ≠ ':') : c ∉ core.source := by
  have hbraced := core.notMem_bracedSource h hc hslash
  match core with
  | literal text => exact hbraced
  | capture (some name) => exact List.not_mem_cons_of_ne_of_not_mem hcolon hbraced
  | capture none => exact hbraced

theorem Item.notMem_source {i : Item} (h : i.Plain) {c : Char} (hc : Foreign c) (hslash : c ≠ '/')
    (hcolon : c ≠ ':') (hopen : c ≠ '{') (hclose : c ≠ '}') : c ∉ i.source := by
  obtain ⟨core, lead, marks⟩ := i
  have hmarks := notMem_symbolsText marks hc.symbol
  cases lead with
  | none => simpa [source, hmarks] using core.notMem_source h.core hc hslash hcolon
  | some lead =>
    have hlead := notMem_of_isWordChar (h.lead lead rfl) hc.word
    simpa [source, hmarks, hlead, hcolon, hopen, hclose] using core.notMem_bracedSource h.core hc hslash

theorem Item.slash_notMem_source {i : Item} (h : i.Plain) (hcore : i.core ≠ .literal ['/']) : '/' ∉ i.source := by
  obtain ⟨core, lead, marks⟩ := i
  have hmarks := notMem_symbolsText marks (c := '/') (by decide)
  have hbraced : '/' ∉ core.bracedSource ∧ '/' ∉ core.source := by
    match core, h.core, hcore with
    | .literal text, .inl hroot, hcore => exact absurd (congrArg Core.literal hroot) hcore
    | .literal text, .inr ⟨_, hword⟩, _ =>
      have htext := notMem_of_isWordChar hword (c := '/') (by decide)
      exact ⟨htext, htext⟩
    | .capture none, _, _ => exact ⟨by decide, by decide⟩
    | .capture (some name), hname, _ =>
      have hslash := notMem_of_isName (hname name rfl) (c := '/') (by decide)
      exact ⟨hslash, List.not_mem_cons_of_ne_of_not_mem (by decide) hslash⟩
  cases lead with
  | none => simpa [source, hmarks] using hbraced.2
  | some lead =>
    have hlead := notMem_of_isWordChar (h.lead lead rfl) (c := '/') (by decide)
    simpa [source, hmarks, hlead] using hbraced.1

theorem joinPath_segment {segment : Text} (hne : segment ≠ []) (hslash : '/' ∉ segment) :
    joinPath [segment] = '/' :: segment := by
  rw [joinPath_singleton, Text.trim_of_notMem hslash, if_neg hne]

namespace Pattern

/-- How a pattern comes to its item. -/
inductive Denotes : Pattern σ → Item → Prop where
  | literal (text : Text) : Denotes (.literal text) ⟨.literal text, none, []⟩
  | param (name : Text) : Denotes (.param name) ⟨.capture (some name), none, []⟩
  | unnamed : Denotes .unnamed ⟨.capture none, none, []⟩
  | modified {inner : Pattern σ} {core : Core} {lead : Option Text} {marks : List Modifier} (m : Modifier) :
      Denotes inner ⟨core, lead, marks⟩ → Denotes (.modified m inner) ⟨core, lead, marks ++ [m]⟩
  | prefixed {inner : Pattern σ} {core : Core} {marks : List Modifier} (lead : Text) :
      Denotes inner ⟨core, none, marks⟩ → Denotes (.prefixed lead inner) ⟨core, some lead, marks⟩

theorem denotes_of_item? {i : Item} : {p : Pattern σ} → p.item? = some i → p.Denotes i
  | .literal text, h => Option.some.inj h ▸ .literal text
  | .param name, h => Option.some.inj h ▸ .param name
  | .unnamed, h => Option.some.inj h ▸ .unnamed
  | .modified m _, h => by
    obtain ⟨j, hj, rfl⟩ := Option.map_eq_some_iff.mp h
    exact .modified m (denotes_of_item? hj)
  | .prefixed lead _, h => by
    obtain ⟨⟨core, own, marks⟩, hj, h⟩ := Option.bind_eq_some_iff.mp h
    cases own with
    | none =>
      cases h
      exact .prefixed lead (denotes_of_item? hj)
    | some own => cases h

namespace Denotes

variable {p : Pattern σ} {i : Item} (h : p.Denotes i)

include h

theorem item? : p.item? = some i := by
  induction h with
  | literal text => rfl
  | param name => rfl
  | unnamed => rfl
  | modified m _ ih => simp [Pattern.item?, ih]
  | prefixed lead _ ih => simp [Pattern.item?, ih]

theorem plain {composed : Prop} (hp : p.Woven composed) : i.Plain := by
  induction h with
  | literal text =>
    cases hp with
    | root => exact ⟨.inl rfl, by simp⟩
    | literal hne hword => exact ⟨.inr ⟨hne, hword⟩, by simp⟩
  | param name =>
    cases hp with
    | param hname => exact ⟨fun n hn => Option.mem_some.mp hn ▸ hname, by simp⟩
  | unnamed => exact ⟨by simp [Core.Plain], by simp⟩
  | modified m _ ih =>
    cases hp with
    | modified _ hinner => exact ⟨(ih hinner).core, (ih hinner).lead⟩
  | prefixed lead _ ih =>
    cases hp with
    | prefixed hlead hinner => exact ⟨(ih hinner).core, by simpa using hlead⟩

theorem member (first : Nat) : p.member first = .part i.lead.isSome (i.part first) := by
  induction h with
  | literal text => rfl
  | param name => rfl
  | unnamed => rfl
  | @modified inner core lead marks m _ ih =>
    rw [Pattern.member, ih]
    cases core <;> simp [Member.modified, Item.part, Item.loose, Item.repeated, Part.loosen]
  | @prefixed inner core marks lead _ ih =>
    rw [Pattern.member, ih]
    cases core <;> simp [Member.prefixed, Item.part, Item.loose, Item.repeated, Part.withLead]

theorem segmentNodes : p.segmentNodes = [p] := by
  cases h <;> rfl

theorem unnamedCount : p.unnamedCount = i.core.count := by
  induction h with
  | literal text => rfl
  | param name => rfl
  | unnamed => rfl
  | modified m _ ih => exact ih
  | prefixed lead _ ih => exact ih

theorem stops (hp : p.isEmptyLiteral = false) (first : Nat) (joined : Bool) :
    p.stops first joined = [.member joined p (.part i.lead.isSome (i.part first))] := by
  have hmember := h.member first
  cases h with
  | literal text =>
    have htext : text.all (· == '/') = false := hp
    rw [Pattern.stops, htext]
    rfl
  | param name => rfl
  | unnamed => rfl
  | modified m inner => rw [← hmember, Pattern.stops, Pattern.member]
  | prefixed lead inner => rw [← hmember, Pattern.stops, Pattern.member]

/-- Modifiers and a lead are written in the order in which items have them. -/
theorem body (hplain : i.Plain) : p.body = i.source := by
  induction h with
  | literal text => simp [Pattern.body, Item.source, Core.source, symbolsText]
  | param name => simp [Pattern.body, Item.source, Core.source, symbolsText]
  | unnamed => simp [Pattern.body, Item.source, Core.source, symbolsText]
  | @modified inner core lead marks m _ ih =>
    rw [Pattern.body, ih ⟨hplain.core, hplain.lead⟩, withSymbol]
    cases lead with
    | none =>
      have hclose : (Item.source ⟨core, none, marks⟩).getLast? ≠ some '}' := by
        intro hlast
        have hmem := List.mem_of_getLast? hlast
        have hcore := core.notMem_source hplain.core foreign_close (by decide) (by decide)
        simp [Item.source, hcore, notMem_symbolsText marks foreign_close.symbol] at hmem
      rw [if_neg hclose]
      simp [Item.source, symbolsText]
    | some lead =>
      rw [Item.source, List.getLast?_concat, if_pos rfl, List.dropLast_concat]
      simp [Item.source, symbolsText]
  | @prefixed inner core marks lead _ ih =>
    rw [Pattern.body, ih ⟨hplain.core, by simp⟩]
    -- only a name brings its own colon
    cases core with
    | capture name => cases name <;> simp [Item.source, Core.source, Core.bracedSource]
    | literal text =>
      have hcolon : (Item.source ⟨.literal text, none, marks⟩).head? ≠ some ':' := by
        intro hhead
        have hmem := List.mem_of_head? hhead
        have htext : ':' ∉ text := Core.notMem_bracedSource hplain.core foreign_colon (by decide)
        simp [Item.source, Core.source, htext, notMem_symbolsText marks foreign_colon.symbol] at hmem
      simp [if_neg hcolon]
      simp [Item.source, Core.source, Core.bracedSource]

end Denotes

theorem readFrom_iff_ofStretch {segment : Text} {s : Stretch} (h : Stretch.ofSegment segment = [s])
    {p : Pattern σ} : ReadFrom segment p ↔ ofStretch 0 s = .ok p := by
  rw [ReadFrom, ofSegment, h, ofStretches]
  cases ofStretch (σ := σ) 0 s with
  | error e => exact Iff.rfl
  | ok q => exact Iff.rfl

theorem readFrom_iff_ofPlain {segment : Text} (hne : segment ≠ []) (h : '{' ∉ segment) {p : Pattern σ} :
    ReadFrom segment p ↔ ofPlain segment 0 = .ok p := by
  have hstretch : Stretch.ofSegment segment = [.plain segment] := by
    rw [Stretch.ofSegment, Stretch.cut_of_notMem h]
    simp [Stretch.plains, hne]
  exact readFrom_iff_ofStretch hstretch

end Pattern

theorem Stretch.cut_braced {outside open_ body rest : Text} (ho : '{' ∉ body) (hc : '}' ∉ body) :
    cut outside (some open_) (body ++ '}' :: rest) =
      plains outside.reverse ++ braced (open_.reverse ++ body) :: cut [] none rest := by
  induction body generalizing open_ with
  | nil => simp [cut]
  | cons c body ih =>
    obtain ⟨ho, hobody⟩ : '{' ≠ c ∧ '{' ∉ body := by simpa using ho
    obtain ⟨hc, hcbody⟩ : '}' ≠ c ∧ '}' ∉ body := by simpa using hc
    rw [List.cons_append, cut]
    simp only [Ne.symm ho, Ne.symm hc, if_false]
    rw [ih hobody hcbody]
    simp

namespace Pattern

theorem readFrom_iff_ofBraced {text : Text} (ho : '{' ∉ text) (hc : '}' ∉ text) {p : Pattern σ} :
    ReadFrom ('{' :: text ++ ['}']) p ↔ ofBraced text 0 = .ok p := by
  have hstretch : Stretch.ofSegment ('{' :: text ++ ['}']) = [.braced text] := by
    rw [Stretch.ofSegment, List.cons_append, Stretch.cut]
    simp only [if_true]
    rw [Stretch.cut_braced ho hc]
    rfl
  exact readFrom_iff_ofStretch hstretch

theorem modifier?_symbolsText {marks : List Modifier} {m : Option Modifier} :
    modifier? (symbolsText marks) = some m ↔ marks = m.toList := by
  match marks with
  | [] => cases m <;> simp [symbolsText, modifier?]
  | [mark] => cases m <;> cases mark <;> simp [symbolsText, modifier?, Modifier.symbol, Modifier.ofSymbol?, eq_comm]
  | _ :: _ :: _ => cases m <;> simp [symbolsText, modifier?]

theorem nameAndModifier?_append {name : Text} (hname : isName name) (marks : List Modifier) :
    nameAndModifier? (name ++ symbolsText marks) = (modifier? (symbolsText marks)).map (name, ·) := by
  have hall : ∀ c ∈ name, isNameChar c = true := fun c hc => isNameChar_of_mem hname hc
  have hmarks : (symbolsText marks).takeWhile isNameChar = [] ∧
      (symbolsText marks).dropWhile isNameChar = symbolsText marks := by
    cases marks with
    | nil => exact ⟨rfl, rfl⟩
    | cons m rest => cases m <;> exact ⟨rfl, rfl⟩
  rw [nameAndModifier?, List.takeWhile_append_of_pos hall, List.dropWhile_append_of_pos hall, hmarks.1, hmarks.2,
    List.append_nil, if_pos hname]

theorem exists_modifier_iff {marks : List Modifier} {f : Option Modifier → Pattern σ} {p : Pattern σ} :
    (∃ m, modifier? (symbolsText marks) = some m ∧ f m = p) ↔
      ∃ m : Option Modifier, marks = m.toList ∧ p = f m := by
  simp only [modifier?_symbolsText, eq_comm (a := p)]

theorem ofPlain_capture_iff {name : Option Text} (hname : ∀ n ∈ name, isName n) {marks : List Modifier}
    {p : Pattern σ} :
    ofPlain ((Core.capture name).source ++ symbolsText marks) 0 = .ok p ↔
      ∃ m : Option Modifier, marks = m.toList ∧ p = modifiedBy m (Piece.bare name) := by
  have hbrace : ∀ c, Foreign c → c ≠ '/' → c ≠ ':' →
      ((Core.capture name).source ++ symbolsText marks).contains c = false := by
    intro c hc hslash hcolon
    have hcore := (Core.capture name).notMem_source hname hc hslash hcolon
    simpa [hcore] using notMem_symbolsText marks hc.symbol
  have hopen := hbrace '{' foreign_open (by decide) (by decide)
  have hclose := hbrace '}' foreign_close (by decide) (by decide)
  rw [← exists_modifier_iff]
  unfold ofPlain
  rw [if_neg (by rw [hopen]; decide), if_neg (by rw [hclose]; decide)]
  cases name with
  | some name =>
    simp only [Core.source, List.cons_append, nameAndModifier?_append (hname name rfl)]
    cases modifier? (symbolsText marks) <;> simp [Piece.bare]
  | none =>
    simp only [Core.source, List.cons_append, List.nil_append]
    cases modifier? (symbolsText marks) <;> simp [Piece.bare]

theorem ofBraced_capture_iff {lead : Text} {name : Option Text} (hlead : ':' ∉ lead) (hname : ∀ n ∈ name, isName n)
    {marks : List Modifier} {p : Pattern σ} :
    ofBraced (lead ++ ':' :: name.getD ['*'] ++ symbolsText marks) 0 = .ok p ↔
      ∃ m : Option Modifier, marks = m.toList ∧ p = prefixed lead (modifiedBy m (Piece.bare name)) := by
  rw [← exists_modifier_iff]
  have hcut : Text.cut ':' (lead ++ ':' :: (name.getD ['*'] ++ symbolsText marks)) =
      some (lead, name.getD ['*'] ++ symbolsText marks) := Text.cut_append _ hlead
  have hne : (lead ++ ':' :: (name.getD ['*'] ++ symbolsText marks)).isEmpty = false := by simp
  rw [List.append_assoc, List.cons_append]
  simp only [ofBraced, hne, hcut, Bool.false_eq_true, if_false]
  cases name with
  | none =>
    have hstar : nameAndModifier? ('*' :: symbolsText marks) = none := by
      rw [nameAndModifier?, List.takeWhile_cons_of_neg (by decide)]
      rfl
    simp only [Option.getD_none, List.cons_append, List.nil_append, starModifier?, hstar]
    cases modifier? (symbolsText marks) <;> simp [Piece.bare]
  | some name =>
    have hown := hname name rfl
    have hstar : starModifier? (name ++ symbolsText marks) = none := by
      cases name with
      | nil => cases hown
      | cons c rest =>
        have hc : c ≠ '*' := by
          rintro rfl
          cases hown
        unfold starModifier?
        split
        next heq => exact absurd (List.cons.inj heq).1 hc
        next => rfl
    have hempty : (name ++ symbolsText marks).isEmpty = false := by
      cases name with
      | nil => cases hown
      | cons _ _ => rfl
    simp only [Option.getD_some, hstar, hempty, nameAndModifier?_append hown]
    cases modifier? (symbolsText marks) <;> simp [Piece.bare]

/-- A capture is read where it has one modifier at most, and then as a piece. -/
theorem readFrom_capture_iff {lead name : Option Text} {marks : List Modifier}
    (h : Item.Plain ⟨.capture name, lead, marks⟩) {p : Pattern σ} :
    ReadFrom (Item.source ⟨.capture name, lead, marks⟩) p ↔
      ∃ m : Option Modifier, marks = m.toList ∧ p = (Piece.capture lead name m).pattern := by
  have hname : ∀ n ∈ name, isName n := h.core
  cases lead with
  | none =>
    have hne : (Core.capture name).source ++ symbolsText marks ≠ [] := by cases name <;> simp [Core.source]
    have hopen : '{' ∉ (Core.capture name).source ++ symbolsText marks := by
      have hcore := (Core.capture name).notMem_source hname foreign_open (by decide) (by decide)
      simpa [hcore] using notMem_symbolsText marks foreign_open.symbol
    exact (readFrom_iff_ofPlain hne hopen).trans (ofPlain_capture_iff hname)
  | some lead =>
    have hbrace : ∀ c, Foreign c → c ≠ '/' → c ≠ ':' →
        c ∉ lead ++ ':' :: (Core.capture name).bracedSource ++ symbolsText marks := by
      intro c hc hslash hcolon
      have hcore := (Core.capture name).notMem_bracedSource hname hc hslash
      have hlead := notMem_of_isWordChar (h.lead lead rfl) hc.word
      simpa [hcore, hlead, hcolon] using notMem_symbolsText marks hc.symbol
    have hbraced := readFrom_iff_ofBraced (p := p) (hbrace '{' foreign_open (by decide) (by decide))
      (hbrace '}' foreign_close (by decide) (by decide))
    have hcolon := notMem_of_isWordChar (h.lead lead rfl) foreign_colon.word
    exact hbraced.trans (ofBraced_capture_iff hcolon hname)

theorem readFrom_literal_iff {text : Text} (hne : text ≠ []) (hopen : '{' ∉ text) (hclose : '}' ∉ text)
    (hhead : Unmarked text) {p : Pattern σ} : ReadFrom text p ↔ p = literal text := by
  rw [readFrom_iff_ofPlain hne hopen]
  have hplain : ofPlain text 0 = .ok (literal text : Pattern σ) := by
    unfold ofPlain
    rw [if_neg (by simpa using hopen), if_neg (by simpa using hclose)]
    split
    next rest => exact absurd rfl (hhead ':' rfl).1
    next rest => exact absurd rfl (hhead '*' rfl).2
    next => rfl
  rw [hplain]
  simp [eq_comm]

theorem isEmptyLiteral_literal {text : Text} (hne : text ≠ []) (hslash : '/' ∉ text) :
    (literal text : Pattern σ).isEmptyLiteral = false := by
  obtain ⟨c, hc⟩ := List.exists_mem_of_ne_nil text hne
  have hother : c ≠ '/' := fun hother => hslash (hother ▸ hc)
  exact List.all_eq_false.mpr ⟨c, hc, by simpa using hother⟩

theorem denotes_bare (name : Option Text) : (Piece.bare name : Pattern σ).Denotes ⟨.capture name, none, []⟩ := by
  cases name with
  | some name => exact .param name
  | none => exact .unnamed

theorem denotes_capture (lead name : Option Text) (m : Option Modifier) :
    ((Piece.capture lead name m).pattern : Pattern σ).Denotes ⟨.capture name, lead, m.toList⟩ := by
  have hmodified : (modifiedBy m (Piece.bare name) : Pattern σ).Denotes ⟨.capture name, none, m.toList⟩ := by
    cases m with
    | some m => exact (denotes_bare name).modified m
    | none => exact denotes_bare name
  cases lead with
  | some lead => exact hmodified.prefixed lead
  | none => exact hmodified

theorem isEmptyLiteral_capture (lead name : Option Text) (m : Option Modifier) :
    ((Piece.capture lead name m).pattern : Pattern σ).isEmptyLiteral = false := by
  rcases lead with _ | _ <;> rcases name with _ | _ <;> rcases m with _ | _ <;> rfl

end Pattern

/-- Only the mark of an optional capture is a question mark, and it closes a bare capture or stands in braces. -/
theorem passes_capture {lead name : Option Text} {m : Option Modifier}
    (h : Item.Plain ⟨.capture name, lead, m.toList⟩) :
    Scan.start.Passes (Item.source ⟨.capture name, lead, m.toList⟩) [] := by
  have hname : ∀ n ∈ name, isName n := h.core
  have hquestion : ∀ n ∈ name, '?' ∉ n := fun n hn => notMem_of_isName (hname n hn) (by decide)
  have hmark : ∀ s : Scan, ∀ rest, ¬ s.Opens '?' rest → s.Passes (symbolsText m.toList) rest := by
    intro s rest hopens
    cases m with
    | none => trivial
    | some m =>
      cases m with
      | optional => exact ⟨hopens, trivial⟩
      | zeroOrMore => exact Scan.passes_of_notMem (by decide)
      | oneOrMore => exact Scan.passes_of_notMem (by decide)
  cases lead with
  | none =>
    have hcore : '?' ∉ (Core.capture name).source ∧ '/' ∉ (Core.capture name).source ∧
        isBareCapture (Core.capture name).source := by
      cases name with
      | none => decide
      | some name =>
        refine ⟨by simpa [Core.source] using hquestion name rfl, ?_, hname name rfl⟩
        simpa [Core.source] using notMem_of_isName (hname name rfl) (c := '/') (by decide)
    refine Scan.passes_append.mpr ⟨Scan.passes_of_notMem hcore.1, hmark _ _ fun hopens => ?_⟩
    have hbare := hopens.2.2
    rw [Scan.segment_after hcore.2.1, Scan.readsAsModifier_of_boundary _ Scan.boundary_nil] at hbare
    simp [Scan.start, hcore.2.2] at hbare
  | some lead =>
    have hlead := fun c hc => notMem_of_isWordChar (h.lead lead rfl) (c := c) hc
    have hfront : '?' ∉ '{' :: lead ++ ':' :: (Core.capture name).bracedSource := by
      have hbraced : '?' ∉ (Core.capture name).bracedSource := by
        cases name with
        | none => decide
        | some name => exact hquestion name rfl
      simpa [hbraced] using hlead '?' (by decide)
    have hdepth : (Scan.start.after ('{' :: lead ++ ':' :: (Core.capture name).bracedSource)).depth = 1 := by
      have hbraced := fun c hc hslash => (Core.capture name).notMem_bracedSource hname (c := c) hc hslash
      have hopen := hbraced '{' foreign_open (by decide)
      have hclose := hbraced '}' foreign_close (by decide)
      have hcons : ∀ s : Scan, ∀ text, s.after ('{' :: text) = (s.next '{').after text := fun _ _ => rfl
      rw [List.cons_append, hcons, Scan.depth_after]
      · rfl
      · simpa [hopen] using hlead '{' foreign_open.word
      · simpa [hclose] using hlead '}' foreign_close.word
    refine Scan.passes_append.mpr ⟨?_, Scan.passes_of_notMem (by decide)⟩
    refine Scan.passes_append.mpr ⟨Scan.passes_of_notMem hfront, hmark _ _ fun hopens => ?_⟩
    rw [hopens.2.1] at hdepth
    cases hdepth

/-- An item that stands for a segment and is written as one piece. -/
structure Item.Readable (i : Item) : Prop where
  plain : i.Plain
  separator : i.core ≠ .literal ['/']
  regular : i.isRegular

namespace Item.Readable

variable {i : Item} (h : i.Readable)

include h

theorem cases : (∃ text, i = ⟨.literal text, none, []⟩ ∧ text ≠ [] ∧ ∀ c ∈ text, isWordChar c) ∨
    ∃ lead name, ∃ m : Option Modifier, i = ⟨.capture name, lead, m.toList⟩ := by
  obtain ⟨hplain, hseparator, hregular⟩ := h
  match i, hplain.core, hregular with
  | ⟨.literal text, none, []⟩, .inl hroot, _ => exact absurd (congrArg Core.literal hroot) hseparator
  | ⟨.literal text, none, []⟩, .inr hword, _ => exact .inl ⟨text, rfl, hword⟩
  | ⟨.capture name, lead, []⟩, _, _ => exact .inr ⟨lead, name, none, rfl⟩
  | ⟨.capture name, lead, [m]⟩, _, _ => exact .inr ⟨lead, name, some m, rfl⟩

theorem exists_readFrom :
    ∃ p : Pattern σ, (p.Denotes i ∧ p.isEmptyLiteral = false) ∧ Pattern.ReadFrom i.source p := by
  have hplain := h.plain
  obtain ⟨text, rfl, hne, hword⟩ | ⟨lead, name, m, rfl⟩ := h.cases
  · have hnotMem := fun c hc => notMem_of_isWordChar hword (c := c) hc
    have hunmarked : Unmarked text := by simpa using unmarked_of_word hne hword []
    have hsource : Item.source ⟨.literal text, none, []⟩ = text := List.append_nil text
    have hempty : (Pattern.literal text : Pattern σ).isEmptyLiteral = false :=
      Pattern.isEmptyLiteral_literal hne (hnotMem '/' (by decide))
    refine ⟨.literal text, ⟨.literal text, hempty⟩, ?_⟩
    rw [hsource]
    exact (Pattern.readFrom_literal_iff hne (hnotMem '{' (by decide)) (hnotMem '}' (by decide)) hunmarked).mpr rfl
  · exact ⟨_, ⟨Pattern.denotes_capture lead name m, Pattern.isEmptyLiteral_capture lead name m⟩,
      (Pattern.readFrom_capture_iff hplain).mpr ⟨m, rfl, rfl⟩⟩

theorem source_ne_nil : i.source ≠ [] := by
  obtain ⟨text, rfl, hne, -⟩ | ⟨lead, name, m, rfl⟩ := h.cases
  · simp [Item.source, Core.source, hne]
  · cases lead <;> cases name <;> simp [Item.source, Core.source]

theorem settled : Settled i.source := by
  have hplain := h.plain
  obtain ⟨p, -, hread⟩ := h.exists_readFrom (σ := Unit)
  refine ⟨Item.slash_notMem_source h.plain h.separator, hread.depth_after, ?_⟩
  obtain ⟨text, rfl, -, hword⟩ | ⟨lead, name, m, rfl⟩ := h.cases
  · refine Scan.passes_of_notMem ?_
    simpa [Item.source, Core.source, symbolsText] using notMem_of_isWordChar hword (c := '?') (by decide)
  · exact passes_capture hplain

theorem backslash_notMem : '\\' ∉ i.source :=
  Item.notMem_source h.plain ⟨by decide, by decide, by decide⟩ (by decide) (by decide) (by decide) (by decide)

end Item.Readable

end RoutePattern
