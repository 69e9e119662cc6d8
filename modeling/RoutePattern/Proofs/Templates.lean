import RoutePattern.Proofs.Captures
import RoutePattern.Proofs.Descriptions
import RoutePattern.Proofs.DigitTexts
import RoutePattern.Proofs.Separator

/-!
Path templates. What stands in the braces of a template are the names of the captures of the path, in order,
whatever queries the routes have.
-/

namespace RoutePattern

/-- What stands between every opening brace and the first closing one behind it, from left to right. -/
def placeholders (template : Text) : List Text :=
  ((Text.split '{' template).drop 1).filterMap fun piece => (Text.cut '}' piece).map (·.1)

/-- A text in which just these names stand in braces. -/
inductive Shows : Text → List Text → Prop
  | nil : Shows [] []
  | char {c : Char} {text : Text} {names : List Text} (hc : c ≠ '{') (h : Shows text names) :
    Shows (c :: text) names
  | name {name text : Text} {names : List Text} (hopen : '{' ∉ name) (hclose : '}' ∉ name)
    (h : Shows text names) : Shows ('{' :: name ++ '}' :: text) (name :: names)

theorem Text.split_append_of_notMem {c : Char} {front text piece : Text} {pieces : List Text}
    (hfront : c ∉ front) (h : split c text = piece :: pieces) :
    split c (front ++ text) = (front ++ piece) :: pieces := by
  induction front with
  | nil => exact h
  | cons x rest ih =>
    obtain ⟨hx, hrest⟩ : c ≠ x ∧ c ∉ rest := by simpa using hfront
    rw [List.cons_append, split, if_neg (Ne.symm hx), ih hrest]
    rfl

namespace Shows

variable {text other : Text} {names others : List Text}

theorem placeholders_eq (h : Shows text names) : placeholders text = names := by
  induction h with
  | nil => rfl
  | @char c text names hc h ih =>
    obtain ⟨piece, pieces, hsplit⟩ := List.exists_cons_of_ne_nil (Text.split_ne_nil '{' text)
    have hcons : Text.split '{' ([c] ++ text) = ([c] ++ piece) :: pieces :=
      Text.split_append_of_notMem (by simpa using Ne.symm hc) hsplit
    rw [List.singleton_append] at hcons
    rw [placeholders, hsplit] at ih
    rw [placeholders, hcons]
    exact ih
  | @name name text names hopen hclose h ih =>
    obtain ⟨piece, pieces, hsplit⟩ := List.exists_cons_of_ne_nil (Text.split_ne_nil '{' text)
    have hbraced : Text.split '{' ('{' :: name ++ '}' :: text) =
        [] :: (name ++ ['}'] ++ piece) :: pieces := by
      have hrest : Text.split '{' (name ++ ['}'] ++ text) = (name ++ ['}'] ++ piece) :: pieces :=
        Text.split_append_of_notMem (by simpa using hopen) hsplit
      rw [List.append_assoc] at hrest
      rw [List.cons_append, Text.split, if_pos rfl]
      exact congrArg _ hrest
    have hcut : Text.cut '}' (name ++ ['}'] ++ piece) = some (name, piece) := by
      rw [List.append_assoc]
      exact Text.cut_append piece hclose
    rw [placeholders, hsplit] at ih
    rw [placeholders, hbraced, List.drop_one, List.tail_cons, List.filterMap_cons, hcut]
    exact congrArg (name :: ·) ih

theorem of_notMem (h : '{' ∉ text) : Shows text [] := by
  induction text with
  | nil => exact .nil
  | cons c rest ih =>
    obtain ⟨hc, hrest⟩ : '{' ≠ c ∧ '{' ∉ rest := by simpa using h
    exact .char (Ne.symm hc) (ih hrest)

theorem append (h : Shows text names) (hother : Shows other others) :
    Shows (text ++ other) (names ++ others) := by
  induction h with
  | nil => exact hother
  | char hc _ ih => exact .char hc ih
  | name hopen hclose _ ih =>
    have hname := Shows.name hopen hclose ih
    simpa using hname

theorem eq_nil_of_notMem (h : Shows text names) (hopen : '{' ∉ text) : names = [] := by
  induction h with
  | nil => rfl
  | char _ _ ih => exact ih fun hmem => hopen (List.mem_cons_of_mem _ hmem)
  | name => simp at hopen

theorem dropWhile_slash (h : Shows text names) : Shows (text.dropWhile (· == '/')) names := by
  induction h with
  | nil => exact .nil
  | @char c text names hc h ih =>
    by_cases hslash : c = '/'
    · simpa [hslash] using ih
    · simpa [hslash] using Shows.char hc h
  | name hopen hclose h _ => exact .name hopen hclose h

theorem of_append_slash {text : Text} (h : Shows (text ++ ['/']) names) : Shows text names := by
  generalize hwhole : text ++ ['/'] = whole at h
  induction h generalizing text with
  | nil => simp at hwhole
  | @char c rest names hc h ih =>
    match text with
    | [] =>
      obtain ⟨-, rfl⟩ := List.cons.inj hwhole
      obtain rfl := h.eq_nil_of_notMem (by simp)
      exact .nil
    | d :: text =>
      obtain ⟨rfl, hrest⟩ := List.cons.inj hwhole
      exact .char hc (ih hrest)
  | @name name rest names hopen hclose h ih =>
    -- the last character is neither in the name nor a brace
    obtain ⟨back, rfl, rfl⟩ : ∃ back, text = '{' :: name ++ '}' :: back ∧ rest = back ++ ['/'] := by
      rcases List.append_eq_append_iff.mp hwhole with ⟨middle, -, hend⟩ | ⟨middle, htext, hend⟩
      · cases middle <;> simp at hend
      · match middle, hend with
        | _ :: back, hend =>
          obtain ⟨rfl, hrest⟩ := List.cons.inj hend
          exact ⟨back, htext, hrest⟩
    exact .name hopen hclose (ih rfl)

theorem trim_slash (h : Shows text names) : Shows (Text.trim '/' text) names := by
  rw [Text.trim_eq_rdropWhile]
  have hdrop := h.dropWhile_slash
  generalize text.dropWhile (· == '/') = rest at hdrop
  induction rest using List.reverseRecOn with
  | nil => exact hdrop
  | append_singleton rest c ih =>
    rw [List.rdropWhile_concat]
    split
    next hc =>
      obtain rfl : c = '/' := by simpa using hc
      exact ih hdrop.of_append_slash
    next => exact hdrop

theorem joinPath_singleton (h : Shows text names) : Shows (joinPath [text]) names := by
  have htrim := h.trim_slash
  rw [RoutePattern.joinPath_singleton]
  split
  next hnil => rwa [hnil] at htrim
  next => exact .char (by decide) htrim

theorem orRoot (h : Shows text names) : Shows (orRoot text) names := by
  unfold RoutePattern.orRoot
  split
  next hnil =>
    obtain rfl := List.isEmpty_iff.mp hnil
    obtain rfl := h.eq_nil_of_notMem (by simp)
    exact .of_notMem (by decide)
  next => exact h

end Shows

namespace Pattern

variable {σ : Type}

theorem keys_captures_or (first : Nat) (optional loose : Bool) (p : Pattern σ) :
    (p.captures first (optional || loose)).map (·.1.key) =
      (p.captures first optional).map (·.1.key) := by
  have hkeys := congrArg (List.map Capture.key) (captures_or first optional loose p)
  simpa [Capture.loosen, Function.comp_def] using hkeys

theorem keys_captures_modified (m : Modifier) (inner : Pattern σ) (first : Nat) (optional : Bool) :
    ((modified m inner).captures first optional).map (·.1.key) =
      (inner.captures first optional).map (·.1.key) := by
  cases hinner : (inner.member first).part? with
  | none =>
    have hnone : ((modified m inner).member first).part? = none := by
      cases hm : inner.member first <;> simp_all [member, Member.modified, Member.part?]
    rw [← keys_captures_or first optional m.allowsNone inner]
    simp only [captures, hnone]
  | some part =>
    have hpart : ((modified m inner).member first).part? = some (part.loosen m.allowsNone m.allowsMany) := by
      cases hm : inner.member first <;> simp_all [member, Member.modified, Member.part?]
    have hcaptures := captures_of_part? first optional inner hinner
    have hmodified := captures_of_part? first optional (modified m inner) hpart
    have hmap : ∀ cs : List (Capture × Bool), cs.map (·.1.key) = (cs.map (·.1)).map Capture.key := by simp
    rw [hmap, hmap, hcaptures, hmodified]
    cases part <;> simp [Part.loosen, Part.captured]

theorem keys_captures_prefixed (lead : Text) (inner : Pattern σ) (first : Nat) (optional : Bool) :
    ((prefixed lead inner).captures first optional).map (·.1.key) =
      (inner.captures first optional).map (·.1.key) := by
  cases hpart : ((prefixed lead inner).member first).part? with
  | none => simp only [captures, hpart]
  | some whole =>
    obtain ⟨part, hinner, rfl⟩ : ∃ part, (inner.member first).part? = some part ∧
        whole = part.withLead lead := by
      cases hm : inner.member first with
      | composite => simp [member, Member.prefixed, Member.refused, Member.part?, hm] at hpart
      | part hasLead part =>
        cases hasLead with
        | true => simp [member, Member.prefixed, Member.refused, Member.part?, hm] at hpart
        | false => exact ⟨part, rfl, by simpa [member, Member.prefixed, Member.part?, hm] using hpart.symm⟩
    have hcaptures := captures_of_part? first optional inner hinner
    have hprefixed := captures_of_part? first optional (prefixed lead inner) hpart
    have hmap : ∀ cs : List (Capture × Bool), cs.map (·.1.key) = (cs.map (·.1)).map Capture.key := by simp
    rw [hmap, hmap, hcaptures, hprefixed]
    cases part <;> simp [Part.withLead, Part.captured]

/-- A path without anything of a query, in which neither fixed text nor a name holds a brace. -/
inductive Unbraced : Pattern σ → Prop
  | literal {text : Text} (hopen : '{' ∉ text) : Unbraced (literal text)
  | param {name : Text} (hopen : '{' ∉ name) (hclose : '}' ∉ name) : Unbraced (param name)
  | unnamed : Unbraced unnamed
  | modified {m : Modifier} {inner : Pattern σ} (h : Unbraced inner) : Unbraced (modified m inner)
  | prefixed {lead : Text} {inner : Pattern σ} (hopen : '{' ∉ lead) (h : Unbraced inner) :
    Unbraced (prefixed lead inner)
  | concat {left right : Pattern σ} (joined : Bool) (hleft : Unbraced left) (hright : Unbraced right) :
    Unbraced (concat left right joined)
  | withSchema {inner : Pattern σ} {s : σ} (h : Unbraced inner) : Unbraced (withSchema inner s)

theorem brace_notMem_ofNat (n : Nat) : '{' ∉ Text.ofNat n ∧ '}' ∉ Text.ofNat n :=
  ⟨(Text.digitsIn_ofNat n).notMem (by decide) (by decide),
    (Text.digitsIn_ofNat n).notMem (by decide) (by decide)⟩

namespace Unbraced

variable {p q : Pattern σ}

theorem unnamedInPath_eq (h : p.Unbraced) : p.unnamedInPath = p.unnamedCount := by
  induction h with
  | concat joined _ _ ihl ihr => simp [unnamedInPath, unnamedCount, ihl, ihr]
  | modified _ ih => exact ih
  | prefixed _ _ ih => exact ih
  | withSchema _ ih => exact ih
  | _ => rfl

theorem strayInPath?_eq_none (h : p.Unbraced) : p.strayInPath? = none := by
  induction h with
  | concat joined _ _ ihl ihr => simp [strayInPath?, ihl, ihr]
  | modified _ ih => exact ih
  | prefixed _ _ ih => exact ih
  | withSchema _ ih => exact ih
  | _ => rfl

/-- The template and the captures are numbered alike, and in the same order. -/
theorem shows_templateBody (h : p.Unbraced) (first : Nat) :
    Shows (p.templateBody first) ((p.captures first false).map (·.1.key.text)) := by
  have htext : ∀ cs : List (Capture × Bool),
      cs.map (·.1.key.text) = (cs.map (·.1.key)).map Key.text := by simp
  induction h generalizing first with
  | literal hopen => exact .of_notMem hopen
  | param hopen hclose => exact .name hopen hclose .nil
  | unnamed =>
    obtain ⟨hopen, hclose⟩ := brace_notMem_ofNat first
    exact .name hopen hclose .nil
  | modified _ ih =>
    rw [htext, keys_captures_modified, ← htext]
    exact ih first
  | prefixed hopen _ ih =>
    rw [htext, keys_captures_prefixed, ← htext]
    exact (Shows.of_notMem hopen).append (ih first)
  | @concat left right joined hleft hright ihl ihr =>
    have hl := ihl first
    have hr := ihr (first + left.unnamedCount)
    rw [captures, List.map_append, templateBody, hleft.unnamedInPath_eq]
    cases joined with
    | true => exact hl.append hr
    | false =>
      simp only [Bool.false_eq_true, if_false]
      rw [joinPath_cons]
      exact hl.joinPath_singleton.append hr.joinPath_singleton
  | withSchema _ ih => exact ih first

theorem merge (hp : p.Unbraced) (hq : q.Unbraced) : (p.merge q).Unbraced := by
  unfold Pattern.merge
  split
  next => exact hp
  next =>
    split
    next => exact hq
    next => exact .concat false hp hq

theorem append (hp : p.trunk.Unbraced) (hq : q.trunk.Unbraced) : (p.append q).trunk.Unbraced := by
  rcases trunk_append p q with h | h
  · rw [h]
    exact hp.merge hq
  · rw [h]
    exact .concat false hp hq

end Unbraced

end Pattern

theorem Piece.unbraced {σ : Type} {piece : Piece} (h : piece.Sound) :
    (piece.pattern : Pattern σ).Unbraced := by
  have hbare : ∀ name : Option Text, (∀ n ∈ name, isName n) → (bare name : Pattern σ).Unbraced := by
    intro name hname
    cases name with
    | none => exact .unnamed
    | some n =>
      obtain ⟨hopen, hclose⟩ := brace_notMem_name (hname n rfl)
      exact .param hopen hclose
  have hmodified : ∀ (m : Option Modifier) {p : Pattern σ}, p.Unbraced →
      (Pattern.modifiedBy m p).Unbraced := by
    intro m p hp
    cases m with
    | none => exact hp
    | some m => exact .modified hp
  match piece with
  | literal text => exact .literal h.2.1
  | capture none name m => exact hmodified m (hbare name h.1)
  | capture (some lead) name m => exact .prefixed (h.2 lead rfl).1 (hmodified m (hbare name h.1))

namespace Pattern

theorem soundCompositional_unbraced : SoundCompositional (Unbraced (σ := σ)) where
  empty := .literal (by simp)
  piece _ hsound := Piece.unbraced hsound
  concat joined hleft hright := .concat joined hleft hright

theorem templateBody_trunk (first : Nat) (p : Pattern σ) : p.trunk.templateBody first = p.templateBody first := by
  cases p <;> rfl

theorem unnamedInPath_trunk (p : Pattern σ) : p.trunk.unnamedInPath = p.unnamedInPath := by
  cases p <;> rfl

theorem strayInPath?_trunk (p : Pattern σ) : p.trunk.strayInPath? = p.strayInPath? := by
  cases p <;> rfl

theorem joinPath_templateBody_of_isEmptyLiteral {p : Pattern σ} (h : p.isEmptyLiteral) (first : Nat) :
    joinPath [p.templateBody first] = [] := by
  cases p with
  | literal text => exact joinPath_slashes h
  | _ => simp [isEmptyLiteral] at h

theorem unnamedInPath_of_isEmptyLiteral {p : Pattern σ} (h : p.isEmptyLiteral) : p.unnamedInPath = 0 := by
  cases p <;> simp_all [isEmptyLiteral, unnamedInPath]

theorem unnamedInPath_append (p q : Pattern σ) :
    (p.append q).unnamedInPath = p.unnamedInPath + q.unnamedInPath := by
  rw [← unnamedInPath_trunk, ← unnamedInPath_trunk p, ← unnamedInPath_trunk q]
  rcases trunk_append p q with h | h
  · rw [h]
    unfold merge
    split
    next hq => simp [unnamedInPath_of_isEmptyLiteral hq]
    next =>
      split
      next hp => simp [unnamedInPath_of_isEmptyLiteral hp]
      next => rfl
  · rw [h]
    rfl

/-- The template of a concatenation is put together from those of its sides, query blocks or not. -/
theorem joinPath_templateBody_append (first : Nat) (p q : Pattern σ) :
    joinPath [(p.append q).templateBody first] =
      joinPath [p.templateBody first] ++ joinPath [q.templateBody (first + p.unnamedInPath)] := by
  have hconcat : ∀ l r : Pattern σ, joinPath [(concat l r false).templateBody first] =
      joinPath [l.templateBody first] ++ joinPath [r.templateBody (first + l.unnamedInPath)] := by
    intro l r
    simp only [templateBody, Bool.false_eq_true, if_false]
    rw [joinPath_joinPath, joinPath_cons]
  rw [← templateBody_trunk, ← templateBody_trunk first p, ← templateBody_trunk _ q, ← unnamedInPath_trunk p]
  rcases trunk_append p q with h | h
  · rw [h]
    unfold merge
    split
    next hq => simp [joinPath_templateBody_of_isEmptyLiteral hq]
    next =>
      split
      next hp =>
        simp [joinPath_templateBody_of_isEmptyLiteral hp, unnamedInPath_of_isEmptyLiteral hp]
      next => exact hconcat _ _
  · rw [h]
    exact hconcat _ _

/-- Patterns that are templates of the same path are so behind patterns that are. -/
theorem template_foldl_trunk {p q : Pattern σ} (ps : List (Pattern σ))
    (hbody : ∀ first, joinPath [p.templateBody first] = joinPath [q.templateBody first])
    (hcount : p.unnamedInPath = q.unnamedInPath) :
    (ps.foldl append p).template = ((ps.map trunk).foldl append q).template := by
  induction ps generalizing p q with
  | nil => rw [List.map_nil, List.foldl_nil, List.foldl_nil, template, template, hbody]
  | cons r rest ih =>
    rw [List.map_cons, List.foldl_cons, List.foldl_cons]
    refine ih (fun first => ?_) ?_
    · rw [joinPath_templateBody_append, joinPath_templateBody_append, hbody, hcount, templateBody_trunk]
    · rw [unnamedInPath_append, unnamedInPath_append, hcount, unnamedInPath_trunk]

/-- What is kept of patterns that were read when they are put one after the other. -/
structure Describable (p : Pattern σ) : Prop where
  block : p.BlockAtRoot
  path : p.trunk.Unbraced

namespace Describable

variable {p q : Pattern σ}

theorem append (hp : p.Describable) (hq : q.Describable) : (p.append q).Describable :=
  ⟨hp.block.append hq.block, hp.path.append hq.path⟩

theorem foldl {ps : List (Pattern σ)} (hp : p.Describable) (h : ∀ q ∈ ps, q.Describable) :
    (ps.foldl Pattern.append p).Describable := by
  induction ps generalizing p with
  | nil => exact hp
  | cons q rest ih =>
    obtain ⟨hq, hrest⟩ := List.forall_mem_cons.mp h
    exact ih (hp.append hq) hrest

theorem placeholders_template (h : p.Describable) :
    placeholders p.template = capturedNames false (p.captures 0 false) := by
  have hshows := (h.path.shows_templateBody 0).joinPath_singleton.orRoot
  rw [templateBody_trunk] at hshows
  rw [h.block.capturedNames_path]
  exact hshows.placeholders_eq

theorem trunk (h : p.Describable) : p.trunk.Describable := by
  have hnone : p.trunk.rootBlock? = none := by
    have hblock := h.block.trunk
    generalize p.trunk = t at hblock
    cases t <;> first | rfl | simp [hasBlock] at hblock
  have hself : p.trunk.trunk = p.trunk := trunk_eq_self hnone
  exact ⟨⟨by rw [hself]; exact h.block.trunk, by simp [hnone]⟩, by rw [hself]; exact h.path⟩

theorem strayInPath?_eq_none (h : p.Describable) : p.strayInPath? = none := by
  rw [← strayInPath?_trunk]
  exact h.path.strayInPath?_eq_none

end Describable

theorem ReadSplit.describable {split : QuerySplit} {p : Pattern σ} (h : ReadSplit split p) : p.Describable :=
  ⟨h.blockAtRoot, soundCompositional_unbraced.readPath h.readPath⟩

end Pattern

namespace Route

open Pattern

def withoutQuery (r : Route) : Route := ⟨r.pattern.trunk, r.atEnd⟩

theorem pattern_appendAll (r : Route) (others : List Route) :
    (r.appendAll others).pattern = (others.map Route.pattern).foldl Pattern.append r.pattern := by
  induction others generalizing r with
  | nil => rfl
  | cons s rest ih => exact ih (r.append s)

/-- Routes that were read and put one after the other have a template. What stands in its braces are, in order,
the names of the parameters that are described for the path, and nothing of a query shows in it: it is the
template of the same routes without their query blocks. -/
theorem placeholders_eq_namesIn {sources : List (Text × Bool)} {first : Route} {others : List Route}
    (h : sources.mapM (fun s => parse s.1 s.2) = .ok (first :: others)) :
    ∃ template, (first.appendAll others).template? = .ok template ∧
      placeholders template = (first.appendAll others).namesIn "path" ∧
      (first.withoutQuery.appendAll (others.map withoutQuery)).template? = .ok template := by
  have hall : ∀ r ∈ first :: others, r.pattern.Describable := by
    intro r hr
    obtain ⟨source, -, hparse⟩ := exists_of_mem_right (forall₂_of_mapM_eq_ok h) hr
    exact (parse_eq_ok hparse).describable
  obtain ⟨hfirst, hothers⟩ := List.forall_mem_cons.mp hall
  have hwhole : (first.appendAll others).pattern.Describable := by
    rw [pattern_appendAll]
    exact hfirst.foldl (List.forall_mem_map.mpr hothers)
  have hbare : (first.withoutQuery.appendAll (others.map withoutQuery)).pattern.Describable := by
    rw [pattern_appendAll, List.map_map]
    exact hfirst.trunk.foldl (List.forall_mem_map.mpr fun r hr => (hothers r hr).trunk)
  have hsame : (first.appendAll others).pattern.template =
      (first.withoutQuery.appendAll (others.map withoutQuery)).pattern.template := by
    rw [pattern_appendAll, pattern_appendAll,
      template_foldl_trunk (q := first.pattern.trunk) _ (fun n => by rw [templateBody_trunk])
        (unnamedInPath_trunk _).symm]
    simp [List.map_map, Function.comp_def, withoutQuery]
  refine ⟨(first.appendAll others).pattern.template, ?_, ?_, ?_⟩
  · rw [template?, hwhole.strayInPath?_eq_none]
  · rw [hwhole.placeholders_template]
    exact (Route.namesIn_eq false _).symm
  · rw [template?, hbare.strayInPath?_eq_none, hsame]

/-- Unnamed captures are numbered through leads, modifiers and the queries in between; those of the queries come
behind all of the path. -/
theorem placeholders_eq_namesIn_numbered :
    let sources : List (Text × Bool) :=
      [("/a/*?k=*", false), ("/{v:rev}{-:*+}?q=:q", true), ("/*?/:id", false)]
    ∃ first others template, sources.mapM (fun s => parse s.1 s.2) = .ok (first :: others) ∧
      (first.appendAll others).template? = .ok template ∧
      template = ("/a/{0}/v{rev}-{1}/{2}/{id}" : Text) ∧
      placeholders template = (first.appendAll others).namesIn "path" ∧
      placeholders template = ["0", "rev", "1", "2", "id"] ∧
      (first.appendAll others).namesIn "query" = ["3", "q"] := by
  intro sources
  let first : Pattern Schema := .queryParams (.concat (.literal "a") .unnamed false) [("k", .unnamed)]
  let second : Pattern Schema :=
    .queryParams (.concat (.prefixed "v" (.param "rev")) (.prefixed "-" (.modified .oneOrMore .unnamed)) true)
      [("q", .param "q")]
  let third : Pattern Schema := .concat (.modified .optional .unnamed) (.param "id") false
  have h : sources.mapM (fun s => parse s.1 s.2) =
      .ok (⟨first, false⟩ :: [⟨second, true⟩, ⟨third, false⟩]) := by rfl
  obtain ⟨template, htemplate, hnames, -⟩ := placeholders_eq_namesIn h
  have hwhole : ((⟨first, false⟩ : Route).appendAll [⟨second, true⟩, ⟨third, false⟩]).pattern.template =
      ("/a/{0}/v{rev}-{1}/{2}/{id}" : Text) := by
    decide +kernel
  have htext : template = ("/a/{0}/v{rev}-{1}/{2}/{id}" : Text) :=
    (Except.ok.inj htemplate).symm.trans hwhole
  refine ⟨_, _, template, h, htemplate, htext, hnames, ?_, by decide +kernel⟩
  rw [htext]
  decide

end Route

end RoutePattern
