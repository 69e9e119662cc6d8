import RoutePattern.Proofs.Combinators
import RoutePattern.Proofs.QueryValues

/-!
Modifiers on modifiers, and modifiers and leads on words. They are written as flat paths that are not read at
all, or as routes that match something else, unless the modifiers come to the one that is written first.
-/

namespace RoutePattern

variable {σ : Type}

open Cursor (behind)

theorem accept_single (part : Part) (atEnd : Bool) (segments : List Text) (query : Query) :
    (⟨[.single part], atEnd⟩ : Matcher).accept segments query =
      (matchSingle part (behind [] segments)).bind fun result =>
        if atEnd && !result.2.isExhausted then none else some result.1 := by
  have hrun : runSteps query (.start segments) [.single part] = matchSingle part (behind [] segments) := by
    show (matchSingle part (behind [] segments)).bind _ = _
    cases matchSingle part (behind [] segments) <;> rfl
  rw [Matcher.accept, Matcher.run, hrun]
  cases matchSingle part (behind [] segments) with
  | none => rfl
  | some result =>
    simp only [Option.bind_some]
    split <;> rfl

section

variable (text : Text) (optional atEnd : Bool) (query : Query)

theorem accept_literal_nil :
    (⟨[.single (.literal text optional)], atEnd⟩ : Matcher).accept [] query = if optional then some [] else none := by
  cases optional <;> cases atEnd <;> rfl

theorem accept_literal_self :
    (⟨[.single (.literal text optional)], atEnd⟩ : Matcher).accept [text] query = some [] := by
  rw [accept_single, matchSingle, Cursor.head?_behind_cons, if_pos rfl, Cursor.advance_behind, Option.bind_some,
    Cursor.isExhausted_behind]
  cases atEnd <;> rfl

theorem accept_literal_other {segment : Text} (h : segment ≠ text) :
    (⟨[.single (.literal text optional)], atEnd⟩ : Matcher).accept [segment] query =
      if optional && !atEnd then some [] else none := by
  have hexhausted : (behind [] [segment]).isExhausted = false := by
    rw [← Bool.not_eq_true, Cursor.isExhausted_behind_iff]
    simp
  rw [accept_single, matchSingle, Cursor.head?_behind_cons, if_neg (by simpa using h)]
  cases optional with
  | false => rfl
  | true =>
    simp only [if_true, Option.bind_some, hexhausted]
    cases atEnd <;> rfl

end

section

variable (c : Capture) (atEnd : Bool) (query : Query)

theorem accept_capture_nil :
    (⟨[.single (.capture c)], atEnd⟩ : Matcher).accept [] query =
      if c.optional then some (if c.multiple then [(c.key, .many [])] else []) else none := by
  rw [accept_single, matchSingle, matchCapture, Cursor.head?_behind_nil]
  simp only [Option.bind_none]
  split
  · rw [Option.bind_some, Cursor.isExhausted_behind]
    cases atEnd <;> rfl
  · rfl

theorem accept_capture_led {rest : Text} (h : rest ≠ []) :
    (⟨[.single (.capture c)], atEnd⟩ : Matcher).accept [c.lead ++ rest] query =
      some [(c.key, if c.multiple then .many [rest] else .one rest)] := by
  rw [accept_single, matchSingle, matchCapture, Cursor.head?_behind_cons, Option.bind_some, Text.after?_append]
  simp only [Cursor.remaining_strip, Cursor.head?_strip, List.drop_left, Cursor.exhaust_strip, Cursor.advance_strip]
  have hempty : rest.isEmpty = false := by simpa using h
  cases hm : c.multiple with
  | true =>
    simp [hempty, Cursor.isExhausted_behind]
  | false =>
    simp [hempty, Cursor.isExhausted_behind]

end

theorem QuerySplit.eq_append_of_clean {source query : Text} (h : '\\' ∉ source)
    (hquery : (ofSource source).query = some query) : source = (ofSource source).path ++ '?' :: query := by
  rw [ofSource_of_clean h] at hquery ⊢
  cases hs : Scan.start.separator? source with
  | none => simp [hs] at hquery
  | some i =>
    obtain rfl : source.drop (i + 1) = query := by simpa [hs] using hquery
    obtain ⟨-, hdrop⟩ := Scan.passes_of_separator?_eq_some hs
    show source = source.take i ++ '?' :: source.drop (i + 1)
    rw [← hdrop, List.take_append_drop]

namespace Pattern

theorem exists_readPath {source : Text} {p : Pattern σ} (hbackslash : '\\' ∉ source) (hequals : '=' ∉ source)
    (hampersand : '&' ∉ source) (h : ofText source = .ok p) :
    ∃ path t, ReadPath path t ∧ (source = path ∧ p = t ∨ source = path ++ ['?'] ∧ p = queryParams t []) := by
  cases ofText_eq_ok_iff.mp h with
  | plain hnone hpath => exact ⟨_, p, hpath, .inl ⟨(QuerySplit.of_query_eq_none hnone).2.2.symm, rfl⟩⟩
  | @query t query es hsome hpath hes =>
    have hmem : ∀ c ∈ query, c ∈ source := fun c hc => QuerySplit.mem_of_mem_query hbackslash hsome hc
    have hpieces : queryPieces query = [] := by
      refine List.eq_nil_iff_forall_not_mem.mpr fun piece hpiece => ?_
      obtain ⟨e, -, value, rfl, -⟩ := exists_of_mem_right hes.1.flip hpiece
      have hpiece := Text.mem_of_mem_split (List.mem_filter.mp hpiece).1 (x := '=') (by simp)
      exact hequals (hmem '=' hpiece)
    have hquery : query = [] := by
      rw [queryPieces, Text.split_of_notMem fun hc => hampersand (hmem '&' hc)] at hpieces
      simpa using hpieces
    have hentries : es = [] := by
      have hall := hes.1
      rw [hpieces] at hall
      exact List.forall₂_nil_left_iff.mp hall
    subst hquery hentries
    exact ⟨_, t, hpath, .inr ⟨QuerySplit.eq_append_of_clean hbackslash hsome, rfl⟩⟩

/-- A path of one segment is that segment, with or without a question mark behind it. -/
theorem exists_readFrom {text : Text} {p : Pattern σ} (hslash : '/' ∉ text) (hbackslash : '\\' ∉ text)
    (hequals : '=' ∉ text) (hampersand : '&' ∉ text) (h : ofText ('/' :: text) = .ok p) :
    ∃ segment t, (segment ≠ [] → ReadFrom segment t) ∧
      (text = segment ∧ p = t ∨ text = segment ++ ['?'] ∧ p = queryParams t []) := by
  obtain ⟨path, t, hpath, hsource⟩ := exists_readPath (by simpa using hbackslash) (by simpa using hequals)
    (by simpa using hampersand) h
  have hread : ∀ segment, path = '/' :: segment → '/' ∉ segment → segment ≠ [] → ReadFrom segment t := by
    rintro segment rfl hclean hne
    obtain ⟨ps, hps, rfl⟩ := hpath
    rw [splitPath_slash_cons, splitPath_of_notMem hne hclean] at hps
    obtain ⟨first, rest, hfirst, hrest, rfl⟩ := List.forall₂_cons_left_iff.mp hps
    obtain rfl := List.forall₂_nil_left_iff.mp hrest
    exact hfirst
  obtain ⟨hpath', rfl⟩ | ⟨hpath', rfl⟩ := hsource
  · exact ⟨text, p, hread text hpath'.symm hslash, .inl ⟨rfl, rfl⟩⟩
  · cases path with
    | nil => simp at hpath'
    | cons c segment =>
      obtain ⟨rfl, rfl⟩ := List.cons.inj hpath'
      refine ⟨segment, t, hread segment rfl fun hmem => hslash (List.mem_append_left _ hmem), .inr ⟨rfl, rfl⟩⟩

theorem ofBraced_lead {lead capture : Text} (hlead : ':' ∉ lead) {p : Pattern σ}
    (h : ofBraced (lead ++ ':' :: capture) 0 = .ok p) :
    ∃ name m, p = (Piece.capture (some lead) name m).pattern := by
  have hcut := Text.cut_append capture hlead
  have hne : (lead ++ ':' :: capture).isEmpty = false := by simp
  simp only [ofBraced, hne, hcut, Bool.false_eq_true, if_false] at h
  split at h
  next => cases h
  next =>
    split at h
    next m _ => exact ⟨none, m, (Except.ok.inj h).symm⟩
    next =>
      split at h
      next name m _ => exact ⟨some name, m, (Except.ok.inj h).symm⟩
      next => cases h

end Pattern

namespace Route

/-- A route of one item, possibly in front of an empty query, has the part of the item as its only step. -/
theorem accept_of_denotes {r : Route} {p : Pattern Schema} {i : Item} (h : p.Denotes i)
    (hp : p.isEmptyLiteral = false) (hr : r.pattern = p ∨ r.pattern = .queryParams p []) (target : Text) :
    r.accept target = .ok ((⟨[.single (i.part 0)], r.atEnd⟩ : Matcher).accept (Target.ofText target).segments
      (Target.ofText target).query) := by
  have hall : Pattern.AllDenote [p] [i] := .cons ⟨h, hp⟩ .nil
  have hgroups : p.groupsFrom 0 = Pattern.collect Pattern.groupsFrom 0 [p] := (List.append_nil _).symm
  obtain hr | hr := hr
  · exact accept_of_layout (hr ▸ hall.layout hgroups) target
  · have hsteps : r.pattern.layout.steps = .ok ([i.part 0].map .single ++ [.query []]) :=
      hr ▸ hall.layout_query hgroups
    exact accept_of_idle idle_query hsteps target

end Route

/-- Items whose parts match alike on their own. -/
def Item.Agree (i j : Item) (atEnd : Bool) : Prop :=
  ∀ segments, (∀ segment ∈ segments, TargetSegment segment) → ∃ query,
    (⟨[.single (i.part 0)], atEnd⟩ : Matcher).accept segments query =
      (⟨[.single (j.part 0)], atEnd⟩ : Matcher).accept segments query

theorem targetSegment_of_word {text : Text} (hne : text ≠ []) (h : ∀ c ∈ text, isWordChar c) : TargetSegment text :=
  ⟨hne, notMem_of_isWordChar h (by decide), notMem_of_isWordChar h (by decide), notMem_of_isWordChar h (by decide)⟩

namespace Item.Agree

variable {atEnd : Bool}

/-- A literal that agrees with another one is demanded like it, and is the same text. -/
theorem literal {text other : Text} {lead : Option Text} {marks : List Modifier}
    (h : Item.Agree ⟨.literal text, lead, marks⟩ ⟨.literal other, none, []⟩ atEnd) :
    (∀ m ∈ marks, m = .oneOrMore) ∧ (TargetSegment other → other = lead.getD [] ++ text) := by
  have hstrict : Item.loose ⟨.literal text, lead, marks⟩ = false := by
    obtain ⟨query, hnil⟩ := h [] (by simp)
    simp only [part, accept_literal_nil] at hnil
    rw [← Bool.not_eq_true]
    intro hloose
    rw [hloose] at hnil
    cases hnil
  refine ⟨fun m hm => ?_, fun hother => ?_⟩
  · have hm := List.any_eq_false.mp hstrict m hm
    cases m with
    | oneOrMore => rfl
    | optional => exact absurd rfl hm
    | zeroOrMore => exact absurd rfl hm
  · by_contra hne
    obtain ⟨query, hown⟩ := h [other] (List.forall_mem_singleton.mpr hother)
    have haccept : (⟨[.single (.literal other false)], atEnd⟩ : Matcher).accept [other] query = some [] :=
      accept_literal_self other false atEnd query
    simp only [part, hstrict] at hown
    rw [accept_literal_other _ _ _ _ hne] at hown
    cases hown.trans haccept

/-- No literal agrees with a capture behind a lead that some segment goes on after. -/
theorem not_capture {text rest : Text} {lead own name : Option Text} {marks others : List Modifier}
    (hrest : rest ≠ []) (hsegment : TargetSegment (own.getD [] ++ rest)) :
    ¬ Item.Agree ⟨.literal text, lead, marks⟩ ⟨.capture name, own, others⟩ atEnd := by
  intro h
  obtain ⟨query, hled⟩ := h [own.getD [] ++ rest] (List.forall_mem_singleton.mpr hsegment)
  have haccept := accept_capture_led ⟨name.elim (.index 0) .name, own.getD [], others.any Modifier.allowsNone,
    others.any Modifier.allowsMany⟩ atEnd query hrest
  have hcapture := hled.trans haccept
  by_cases hself : own.getD [] ++ rest = lead.getD [] ++ text
  · rw [hself] at hcapture
    cases (accept_literal_self _ _ atEnd query).symm.trans hcapture
  · have hother := accept_literal_other (lead.getD [] ++ text) (marks.any Modifier.allowsNone) atEnd query hself
    have hsome := hother.symm.trans hcapture
    split at hsome <;> cases hsome

/-- A capture that may be left out agrees only with captures that may be. -/
theorem optional {name : Option Text} {m : Option Modifier}
    (h : Item.Agree ⟨.capture name, none, m.toList ++ [.optional]⟩ ⟨.capture name, none, m.toList⟩ atEnd) :
    ∃ mark, m = some mark ∧ mark.allowsNone := by
  obtain ⟨query, hnil⟩ := h [] (by simp)
  simp only [part, accept_capture_nil] at hnil
  have hloose : Item.loose ⟨.capture name, none, m.toList ++ [.optional]⟩ = true := by
    simp [loose, Modifier.allowsNone]
  rw [hloose, if_pos rfl] at hnil
  cases hown : Item.loose ⟨.capture name, none, m.toList⟩ with
  | false =>
    rw [hown] at hnil
    cases hnil
  | true =>
    obtain ⟨mark, hmark, hnone⟩ := List.any_eq_true.mp hown
    exact ⟨mark, Option.mem_toList.mp hmark, hnone⟩

/-- A literal agrees with a word and modifiers only where these are its own text. -/
theorem marked {text front segment : Text} {marks ms : List Modifier} (hfront : ∀ c ∈ front, isWordChar c)
    (hne : segment ≠ []) (hsegment : segment = front ++ symbolsText ms)
    (hmarks : marks = ms ∨ marks = ms ++ [.optional])
    (h : Item.Agree ⟨.literal text, none, marks⟩ ⟨.literal segment, none, []⟩ atEnd) :
    marks = ms ∧ segment = text := by
  obtain ⟨hplus, hsame⟩ := h.literal
  obtain rfl | rfl := hmarks
  · have hclean : ∀ c ∈ ['/', '?', '#'], c ∉ segment := by
      intro c hc hmem
      rw [hsegment] at hmem
      obtain hmem | hmem := List.mem_append.mp hmem
      · have hword := hfront c hmem
        simp only [List.mem_cons, List.not_mem_nil, or_false] at hc
        obtain rfl | rfl | rfl := hc <;> cases hword
      · obtain ⟨m, hm, rfl⟩ := List.mem_map.mp hmem
        rw [hplus m hm] at hc
        simp [Modifier.symbol] at hc
    exact ⟨rfl, hsame ⟨hne, hclean '/' (by simp), hclean '?' (by simp), hclean '#' (by simp)⟩⟩
  · cases hplus .optional (by simp)

end Item.Agree

section

variable (core : Core) (lead : Text) (marks : List Modifier)

theorem Item.joinPath_braced :
    joinPath [Item.source ⟨core, some lead, marks⟩] = '/' :: Item.source ⟨core, some lead, marks⟩ := by
  have hhead : (Item.source ⟨core, some lead, marks⟩).head? ≠ some '/' := by simp [source]
  have hlast : (Item.source ⟨core, some lead, marks⟩).getLast? ≠ some '/' := by
    rw [source, List.getLast?_concat]
    decide
  rw [joinPath_singleton, Text.trim_eq_self hhead hlast, if_neg (by simp [source])]

theorem Item.append_braced_ne (front path : Text) :
    front ++ Item.source ⟨core, some lead, marks⟩ ≠ path ++ ['?'] := by
  rw [source, ← List.append_assoc]
  intro h
  cases (List.append_singleton_inj.mp h).2

end

/-- Without a question mark in front of them, modifiers in front of a question mark are all but the last. -/
theorem exists_marks {front segment : Text} {marks : List Modifier} (hfront : '?' ∉ front)
    (h : front ++ symbolsText marks = segment ∨ front ++ symbolsText marks = segment ++ ['?']) :
    ∃ ms, segment = front ++ symbolsText ms ∧ (marks = ms ∨ marks = ms ++ [.optional]) := by
  obtain rfl | h := h
  · exact ⟨marks, rfl, .inl rfl⟩
  · obtain rfl | ⟨ms, m, rfl⟩ := List.eq_nil_or_concat' marks
    · have hmem : '?' ∈ front ++ symbolsText [] := h ▸ List.mem_append_right _ (List.mem_singleton_self _)
      exact absurd (by simpa [symbolsText] using hmem) hfront
    · have hsymbols : symbolsText (ms ++ [m]) = symbolsText ms ++ [m.symbol] := List.map_append
      rw [hsymbols, ← List.append_assoc] at h
      obtain ⟨rfl, hsymbol⟩ := List.append_singleton_inj.mp h
      cases m with
      | optional => exact ⟨ms, rfl, .inr rfl⟩
      | zeroOrMore => cases hsymbol
      | oneOrMore => cases hsymbol

section

variable {composed : Prop} {r : Route} {i : Item} (hw : r.pattern.Woven composed) (hi : r.pattern.Denotes i)
  (hempty : r.pattern.isEmptyLiteral = false)

include hw hi hempty

theorem Route.path_of_denotes : r.pattern.path = orRoot (joinPath [i.source]) := by
  rw [hw.path_eq, Pattern.leaves_of_segmentNodes hi.segmentNodes, if_neg (by simp [hempty]), List.flatMap_singleton,
    hi.body (hi.plain hw)]

/-- A route of one item that means its path: what the path is read as agrees with it. -/
theorem Route.MeansItsPath.exists_readPath (h : r.MeansItsPath) {text : Text}
    (htext : joinPath [i.source] = '/' :: text) :
    ∃ p : Pattern Schema, Pattern.ofText ('/' :: text) = .ok p ∧ (∀ c ∈ ['\\', '=', '&'], c ∉ text) ∧
      ∀ j (t : Pattern Schema), (p = t ∨ p = .queryParams t []) → t.Denotes j → t.isEmptyLiteral = false →
        i.Agree j r.atEnd := by
  obtain ⟨path, q, hpath, hq, haccept⟩ := h
  obtain rfl : '/' :: text = path := by
    have hwritten := hw.path?_eq.symm.trans hpath
    rw [path_of_denotes hw hi hempty, htext] at hwritten
    exact Except.ok.inj hwritten
  obtain ⟨p, hp, rfl⟩ := Except.map_eq_ok.mp hq
  refine ⟨p, hp, fun c hc hmem => ?_, fun j t ht hj hjempty segments hsegments => ?_⟩
  · have hsource : ∀ c, Foreign c → c ≠ '/' → c ≠ ':' → c ≠ '{' → c ≠ '}' → c ∉ text := by
      intro c hc hne hcolon hopen hclose hmem
      have hjoined : c ∈ joinPath [i.source] := htext ▸ List.mem_cons_of_mem _ hmem
      obtain ⟨source, hsource, hmem⟩ := mem_joinPath hjoined hne
      obtain rfl := List.mem_singleton.mp hsource
      exact Item.notMem_source (hi.plain hw) hc hne hcolon hopen hclose hmem
    simp only [List.mem_cons, List.not_mem_nil, or_false] at hc
    obtain rfl | rfl | rfl := hc
    all_goals
      exact hsource _ ⟨by decide, by decide, by decide⟩ (by decide) (by decide) (by decide) (by decide) hmem
  · have hsame := haccept (writtenPath segments)
    rw [accept_of_denotes hi hempty (.inl rfl), accept_of_denotes (r := ⟨p, r.atEnd⟩) hj hjempty ht,
      segments_ofText_writtenPath hsegments] at hsame
    exact ⟨_, (Except.ok.inj hsame).symm⟩

theorem Route.MeansItsPath.exists_readFrom (h : r.MeansItsPath) {text : Text}
    (htext : joinPath [i.source] = '/' :: text) (hslash : '/' ∉ text) :
    ∃ segment, ∃ t : Pattern Schema, (text = segment ∨ text = segment ++ ['?']) ∧
      (segment ≠ [] → Pattern.ReadFrom segment t) ∧
      ∀ j, t.Denotes j → t.isEmptyLiteral = false → i.Agree j r.atEnd := by
  obtain ⟨p, hp, hforeign, hagree⟩ := exists_readPath hw hi hempty h htext
  obtain ⟨segment, t, hread, hsource⟩ := Pattern.exists_readFrom hslash (hforeign '\\' (by simp))
    (hforeign '=' (by simp)) (hforeign '&' (by simp)) hp
  exact ⟨segment, t, hsource.imp And.left And.left, hread, fun j => hagree j t (hsource.imp And.right And.right)⟩

end

section

variable {composed : Prop} {r : Route} (hw : r.pattern.Woven composed) (hempty : r.pattern.isEmptyLiteral = false)
  (h : r.MeansItsPath)

include hw hempty h

section braced

variable {core : Core} {lead : Text} {marks : List Modifier} (hi : r.pattern.Denotes ⟨core, some lead, marks⟩)

include hi

/-- A slash in braces stands between two segments, of which one opens the braces and the other closes them. -/
theorem Route.MeansItsPath.not_braced_separator : core ≠ .literal ['/'] := by
  rintro rfl
  have hlead := fun c hc => notMem_of_isWordChar ((hi.plain hw).lead lead rfl) (c := c) hc
  obtain ⟨p, hp, hforeign, -⟩ := exists_readPath hw hi hempty h (Item.joinPath_braced _ lead marks)
  have hclean : ∀ c ∈ ['\\', '=', '&'], c ∉ '/' :: Item.source ⟨.literal ['/'], some lead, marks⟩ := by
    intro c hc
    have hslash : c ≠ '/' := by
      rintro rfl
      simp at hc
    exact List.not_mem_cons_of_ne_of_not_mem hslash (hforeign c hc)
  obtain ⟨path, t, ⟨ps, hps, -⟩, hsource⟩ := Pattern.exists_readPath (hclean '\\' (by simp)) (hclean '=' (by simp))
    (hclean '&' (by simp)) hp
  obtain ⟨hpath, -⟩ | ⟨hpath, -⟩ := hsource
  · have hfront : path = ('/' :: '{' :: lead ++ [':']) ++ '/' :: (symbolsText marks ++ ['}']) := by
      rw [← hpath]
      simp [Item.source, Core.bracedSource]
    rw [hfront] at hps
    have hcount := Pattern.count_brace_front hps
    have hopen := List.count_eq_zero.mpr (hlead '{' foreign_open.word)
    have hclose := List.count_eq_zero.mpr (hlead '}' foreign_close.word)
    simp [hopen, hclose] at hcount
  · exact Item.append_braced_ne _ lead marks ['/'] path hpath

theorem Route.MeansItsPath.isRegular_braced : Item.isRegular ⟨core, some lead, marks⟩ := by
  have hplain := hi.plain hw
  have hcore := not_braced_separator hw hempty h hi
  obtain ⟨segment, t, hsegment, hread, hagree⟩ := exists_readFrom hw hi hempty h
    (Item.joinPath_braced core lead marks) (Item.slash_notMem_source hplain hcore)
  obtain rfl := hsegment.resolve_right (Item.append_braced_ne core lead marks [] segment)
  have hread := hread (by simp [Item.source])
  cases core with
  | capture name =>
    obtain ⟨m, rfl, -⟩ := (Pattern.readFrom_capture_iff hplain).mp hread
    cases m <;> rfl
  | literal text =>
    obtain ⟨hroot | ⟨hne, hword⟩, hlead⟩ := hplain
    · exact absurd (congrArg Core.literal hroot) hcore
    have hclean : ∀ c, Foreign c → c ≠ ':' → c ∉ lead ++ ':' :: text ++ symbolsText marks := by
      intro c hc hcolon
      have hmarks := notMem_symbolsText marks hc.symbol
      simpa [hcolon, hmarks, notMem_of_isWordChar hword hc.word] using
        notMem_of_isWordChar (hlead lead rfl) hc.word
    have hbraced : Pattern.ofBraced (lead ++ ':' :: (text ++ symbolsText marks)) 0 = .ok t := by
      have hbraced := (Pattern.readFrom_iff_ofBraced (hclean '{' foreign_open (by decide))
        (hclean '}' foreign_close (by decide))).mp hread
      rwa [List.append_assoc, List.cons_append] at hbraced
    -- what is read takes the word itself behind the lead, as a value
    obtain ⟨name, m, rfl⟩ := Pattern.ofBraced_lead (notMem_of_isWordChar (hlead lead rfl) foreign_colon.word) hbraced
    have hagree := hagree _ (Pattern.denotes_capture (some lead) name m) (Pattern.isEmptyLiteral_capture _ name m)
    have htarget : TargetSegment (lead ++ text) :=
      targetSegment_of_word (by simp [hne]) (List.forall_mem_append.mpr ⟨hlead lead rfl, hword⟩)
    exact absurd hagree (Item.Agree.not_capture hne htarget)

end braced

/-- A bare capture has one modifier at most, or two where the last one adds nothing. -/
theorem Route.MeansItsPath.isClosing_capture {name : Option Text} {marks : List Modifier}
    (hi : r.pattern.Denotes ⟨.capture name, none, marks⟩) : Item.isClosing ⟨.capture name, none, marks⟩ := by
  have hplain := hi.plain hw
  have hslash := Item.slash_notMem_source hplain (by simp)
  have hne : Item.source ⟨.capture name, none, marks⟩ ≠ [] := by cases name <;> simp [Item.source, Core.source]
  have htext : joinPath [Item.source ⟨.capture name, none, marks⟩] =
      '/' :: Item.source ⟨.capture name, none, marks⟩ := joinPath_segment hne hslash
  obtain ⟨segment, t, hsegment, hread, hagree⟩ := exists_readFrom hw hi hempty h htext hslash
  have hquestion : '?' ∉ (Core.capture name).source := by
    cases name with
    | none => decide
    | some name =>
      exact List.not_mem_cons_of_ne_of_not_mem (by decide) (notMem_of_isName (hplain.core name rfl) (by decide))
  obtain ⟨ms, rfl, hmarks⟩ := exists_marks hquestion hsegment
  have hread := hread (by cases name <;> simp [Core.source])
  have hown : Item.Plain ⟨.capture name, none, ms⟩ := ⟨hplain.core, hplain.lead⟩
  obtain ⟨m, rfl, rfl⟩ := (Pattern.readFrom_capture_iff hown).mp hread
  have hagree := hagree _ (Pattern.denotes_capture none name m) (Pattern.isEmptyLiteral_capture _ name m)
  obtain rfl | rfl := hmarks
  · cases m <;> rfl
  · obtain ⟨mark, rfl, hnone⟩ := hagree.optional
    exact hnone

theorem Route.MeansItsPath.isRegular_word {text : Text} {marks : List Modifier} (hne : text ≠ [])
    (hword : ∀ c ∈ text, isWordChar c) (hi : r.pattern.Denotes ⟨.literal text, none, marks⟩) :
    Item.isRegular ⟨.literal text, none, marks⟩ := by
  have hnotMem := fun c hc => notMem_of_isWordChar hword (c := c) hc
  have hslash : '/' ∉ Item.source ⟨.literal text, none, marks⟩ := by
    simpa [Item.source, Core.source, notMem_symbolsText marks (c := '/') (by decide)] using hnotMem '/' (by decide)
  have htext : joinPath [Item.source ⟨.literal text, none, marks⟩] = '/' :: (text ++ symbolsText marks) := by
    have hsource : Item.source ⟨.literal text, none, marks⟩ ≠ [] := by simp [Item.source, Core.source, hne]
    exact joinPath_segment hsource hslash
  obtain ⟨segment, t, hsegment, hread, hagree⟩ := exists_readFrom hw hi hempty h htext hslash
  obtain ⟨ms, rfl, hmarks⟩ := exists_marks (hnotMem '?' (by decide)) hsegment
  have hclean : ∀ c, isWordChar c = false → Modifier.ofSymbol? c = none → c ∉ text ++ symbolsText ms := by
    intro c hc hsymbol
    simpa [notMem_symbolsText ms hsymbol] using hnotMem c hc
  have hwritten : text ++ symbolsText ms ≠ [] := by simp [hne]
  obtain rfl := (Pattern.readFrom_literal_iff hwritten (hclean '{' (by decide) (by decide))
    (hclean '}' (by decide) (by decide)) (unmarked_of_word hne hword _)).mp (hread hwritten)
  have hagree := hagree _ (.literal _) (Pattern.isEmptyLiteral_literal hwritten (hclean '/' (by decide) (by decide)))
  obtain ⟨rfl, hsame⟩ := hagree.marked hword hwritten rfl hmarks
  obtain rfl : marks = [] := by simpa [symbolsText] using hsame
  rfl

/-- A separator is written as nothing but its modifiers, and only a question mark is written for nothing. -/
theorem Route.MeansItsPath.isClosing_separator {marks : List Modifier}
    (hi : r.pattern.Denotes ⟨.literal ['/'], none, marks⟩) : Item.isClosing ⟨.literal ['/'], none, marks⟩ := by
  have hmarked : marks ≠ [] := by
    rintro rfl
    rw [hi.eq_literal] at hempty
    cases hempty
  have hslash := notMem_symbolsText marks (c := '/') (by decide)
  have htext : joinPath [Item.source ⟨.literal ['/'], none, marks⟩] = '/' :: symbolsText marks := by
    have hsource : Item.source ⟨.literal ['/'], none, marks⟩ = '/' :: symbolsText marks := rfl
    have hhead : (symbolsText marks).head? ≠ some '/' := fun hhead => hslash (List.mem_of_head? hhead)
    have hlast : (symbolsText marks).getLast? ≠ some '/' := fun hlast => hslash (List.mem_of_getLast? hlast)
    rw [hsource, joinPath_singleton, Text.trim_cons_self, Text.trim_eq_self hhead hlast,
      if_neg (by simpa [symbolsText] using hmarked)]
  obtain ⟨segment, t, hsegment, hread, hagree⟩ := exists_readFrom hw hi hempty h htext hslash
  have hnone : '?' ∉ ([] : Text) := by simp
  obtain ⟨ms, rfl, hmarks⟩ := exists_marks hnone hsegment
  rw [List.nil_append] at hread
  cases ms with
  | nil =>
    obtain rfl := hmarks.resolve_left hmarked
    rfl
  | cons m rest =>
    have hne : symbolsText (m :: rest) ≠ [] := by simp [symbolsText]
    -- a star is read as a capture, any other modifier as a literal
    by_cases hstar : m = .zeroOrMore
    · subst hstar
      have hplain : Item.Plain ⟨.capture none, none, rest⟩ := ⟨by simp [Core.Plain], by simp⟩
      obtain ⟨mark, -, rfl⟩ := (Pattern.readFrom_capture_iff hplain).mp (hread hne)
      have hagree := hagree _ (Pattern.denotes_capture none none mark) (Pattern.isEmptyLiteral_capture none none mark)
      have htarget : TargetSegment ((none : Option Text).getD [] ++ ['a']) := by decide
      exact absurd hagree (Item.Agree.not_capture (by simp) htarget)
    · have hclean := fun c hc => notMem_symbolsText (m :: rest) (c := c) hc
      have hunmarked : Unmarked (symbolsText (m :: rest)) := by
        intro c hc
        obtain rfl : m.symbol = c := Option.some.inj hc
        cases m with
        | optional => exact ⟨by decide, by decide⟩
        | zeroOrMore => exact absurd rfl hstar
        | oneOrMore => exact ⟨by decide, by decide⟩
      obtain rfl := (Pattern.readFrom_literal_iff hne (hclean '{' (by decide)) (hclean '}' (by decide))
        hunmarked).mp (hread hne)
      have hagree := hagree _ (.literal _) (Pattern.isEmptyLiteral_literal hne (hclean '/' (by decide)))
      obtain ⟨-, hsame⟩ := hagree.marked (List.forall_mem_nil _) hne (List.nil_append _).symm hmarks
      rw [hsame] at hclean
      exact absurd (List.mem_singleton_self '/') (hclean '/' (by decide))

theorem Route.MeansItsPath.isClosing {i : Item} (hi : r.pattern.Denotes i) : i.isClosing := by
  match i, hi, (hi.plain hw).core with
  | ⟨_, some _, _⟩, hi, _ => exact Item.isClosing_of_isRegular (isRegular_braced hw hempty h hi)
  | ⟨.capture _, none, _⟩, hi, _ => exact isClosing_capture hw hempty h hi
  | ⟨.literal _, none, _⟩, hi, .inl rfl => exact isClosing_separator hw hempty h hi
  | ⟨.literal _, none, _⟩, hi, .inr ⟨hne, hword⟩ =>
    exact Item.isClosing_of_isRegular (isRegular_word hw hempty h hne hword hi)

end

/-- A combination of names, stars and words means its path if every segment is a word, or a capture with one
modifier at most. Only a question mark at the very end may stand for nothing. Without paths of several segments
no other combination means its path. -/
theorem Route.Combined.meansItsPath {composed : Prop} {r : Route} (h : r.Combined composed) {m : Matcher}
    (hm : r.matcher = .ok m) :
    (r.pattern.isRegular → r.MeansItsPath) ∧ (¬ composed → (r.MeansItsPath ↔ r.pattern.isRegular)) := by
  have hregular : r.pattern.isRegular → r.MeansItsPath := Route.meansItsPath_of_isRegular h.woven
  refine ⟨hregular, fun hsolo => ⟨fun hmeans => ?_, hregular⟩⟩
  obtain ⟨i, hi⟩ := h.woven.exists_denotes hsolo (Pattern.layout_of_matcher (Except.mapError_eq_ok.mp hm)).1
  have hleaves := Pattern.leaves_of_segmentNodes hi.segmentNodes
  cases hempty : r.pattern.isEmptyLiteral with
  | true =>
    rw [Pattern.isRegular, hleaves, hempty]
    rfl
  | false =>
    rw [Pattern.isRegular, hleaves, hempty]
    simpa [hi.item?] using hmeans.isClosing h.woven hempty hi

/-- A capture with a lead behind a word, and a word that may be left out. -/
theorem Route.Combined.meansItsPath_led :
    let led : Route := (Route.literal "files" true).append (((Route.param "x" true).modified .optional).prefixed "v")
    let word : Route := (Route.literal "a" true).modified .optional
    led.path? = .ok ("/files/{v:x?}" : Text) ∧ led.MeansItsPath ∧ ¬ word.MeansItsPath := by
  intro led word
  have hled : led.Combined True :=
    .append trivial (.literal (List.all_eq_true.mp (by rfl)) true)
      (.prefixed (List.all_eq_true.mp (by rfl)) (.modified .optional (.param (by rfl) true)))
  have hword : word.Combined False := .modified .optional (.literal (List.all_eq_true.mp (by rfl)) true)
  have hmeans := (hled.meansItsPath (m := ⟨[.single (.literal "files" false),
    .single (.capture ⟨.name "x", "v", true, false⟩)], true⟩) (by rfl)).1 (by rfl)
  have hiff := (hword.meansItsPath (m := ⟨[.single (.literal "a" true)], true⟩) (by rfl)).2 not_false
  exact ⟨by rfl, hmeans, fun hown => absurd (hiff.mp hown) (by decide)⟩

/-- A word that may be left out is written as the word in front of an empty query. -/
theorem Route.optional_word_demanded :
    let built : Route := (Route.literal "a" true).modified .optional
    ∃ q, built.Combined False ∧ built.path? = .ok ("/a?" : Text) ∧ parse "/a?" true = .ok q ∧
      built.accept "/" = .ok (some []) ∧ q.accept "/" = .ok none :=
  ⟨⟨.queryParams (.literal "a") [], true⟩, .modified .optional (.literal (List.all_eq_true.mp (by rfl)) true),
    by rfl, by rfl, by rfl, by rfl⟩

end RoutePattern
