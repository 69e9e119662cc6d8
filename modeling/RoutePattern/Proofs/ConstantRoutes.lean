import Mathlib.Data.Bool.AllAny
import RoutePattern.Proofs.FixedPaths
import RoutePattern.Proofs.WrittenForm

/-!
Routes without captures. Such a route renders one constant, and matches it unless one of its query keys is
declared with an empty value: the key is left out of the constant, and looked for in it.
-/

namespace RoutePattern

variable {σ : Type}

theorem Stretch.cut_of_notMem {outside text : Text} (h : '{' ∉ text) :
    cut outside none text = plains (outside.reverse ++ text) := by
  induction text generalizing outside with
  | nil => simp [cut]
  | cons c rest ih =>
    obtain ⟨hc, hrest⟩ : '{' ≠ c ∧ '{' ∉ rest := by simpa using h
    rw [cut, if_neg (Ne.symm hc), ih hrest]
    simp

theorem Piece.exists_of_mem_partsFrom {first : Nat} {pieces : List Piece} {part : Part}
    (h : part ∈ partsFrom first pieces) : ∃ piece ∈ pieces, ∃ n, part = piece.part n := by
  induction pieces generalizing first with
  | nil => simp [partsFrom] at h
  | cons piece rest ih =>
    rcases List.mem_cons.mp h with rfl | h
    · exact ⟨piece, by simp, first, rfl⟩
    · obtain ⟨other, hother, hpart⟩ := ih h
      exact ⟨other, List.mem_cons_of_mem _ hother, hpart⟩

theorem Piece.eq_literal_of_capture? {first : Nat} {pieces : List Piece}
    (h : ∀ part ∈ partsFrom first pieces, part.capture? = none) :
    ∀ piece ∈ pieces, ∃ text, piece = .literal text := by
  induction pieces generalizing first with
  | nil => simp
  | cons piece rest ih =>
    obtain ⟨hpiece, hrest⟩ := List.forall_mem_cons.mp h
    refine List.forall_mem_cons.mpr ⟨?_, ih hrest⟩
    cases piece with
    | literal text => exact ⟨text, rfl⟩
    | capture _ _ _ => simp [part, Part.capture?] at hpiece

/-- A text that neither a colon nor a star makes a capture. -/
def Unmarked (text : Text) : Prop := ∀ c ∈ text.head?, c ≠ ':' ∧ c ≠ '*'

namespace Pattern

theorem captures_modifiedBy_ne_nil (m : Option Modifier) (name : Option Text) (first : Nat) :
    ((modifiedBy m (Piece.bare name) : Pattern σ).captures first false) ≠ [] := by
  have hmap := Piece.captures_pattern (σ := σ) first (.capture none name m)
  intro hnil
  rw [Piece.pattern, hnil] at hmap
  cases hmap

theorem eq_literal_of_ofPlain {text : Text} {p : Pattern σ} {first : Nat} (h : ofPlain text 0 = .ok p)
    (hcaptures : p.captures first false = []) : p = literal text ∧ Unmarked text := by
  unfold ofPlain at h
  split at h
  next => simp at h
  next =>
    split at h
    next => simp at h
    next =>
      split at h
      next rest =>
        split at h
        next name m _ =>
          cases h
          exact absurd hcaptures (captures_modifiedBy_ne_nil m (some name) first)
        next => simp at h
      next rest =>
        split at h
        next m _ =>
          cases h
          exact absurd hcaptures (captures_modifiedBy_ne_nil m none first)
        next => simp at h
      next hcolon hstar =>
        cases h
        refine ⟨rfl, fun c hc => ⟨?_, ?_⟩⟩
        · rintro rfl
          obtain ⟨rest, rfl⟩ := List.head?_eq_some_iff.mp hc
          exact hcolon rest rfl
        · rintro rfl
          obtain ⟨rest, rfl⟩ := List.head?_eq_some_iff.mp hc
          exact hstar rest rfl

/-- What has no captures has no braces: they delimit captures only. -/
theorem ReadFrom.brace_notMem {segment : Text} {p : Pattern σ} {first : Nat} (h : ReadFrom segment p)
    (hcaptures : p.captures first false = []) : '{' ∉ segment := by
  obtain ⟨pieces, hsound, rfl, rfl⟩ := ofSegment_eq_ok h
  have hparts := captures_joinParts (σ := σ) first pieces
  rw [hcaptures, List.map_nil] at hparts
  have hliterals := Piece.eq_literal_of_capture? (List.filterMap_eq_nil_iff.mp hparts.symm)
  intro hmem
  obtain ⟨piece, hpiece, hmem⟩ := List.mem_flatMap.mp hmem
  obtain ⟨text, rfl⟩ := hliterals piece hpiece
  exact (hsound _ hpiece).2.1 hmem

theorem ReadFrom.eq_literal {segment : Text} {p : Pattern σ} {first : Nat} (h : ReadFrom segment p)
    (hcaptures : p.captures first false = []) : p = literal segment ∧ Unmarked segment := by
  by_cases hne : segment = []
  · subst hne
    cases h
    exact ⟨rfl, by simp [Unmarked]⟩
  · have hstretches : Stretch.ofSegment segment = [.plain segment] := by
      have hcut : Stretch.ofSegment segment = Stretch.plains segment :=
        Stretch.cut_of_notMem (h.brace_notMem hcaptures)
      simp [hcut, Stretch.plains, hne]
    rw [ReadFrom, ofSegment, hstretches] at h
    obtain ⟨ps, hps, rfl⟩ := Except.map_eq_ok.mp h
    obtain ⟨q, hq, hps⟩ := Except.bind_eq_ok.mp hps
    cases hps
    exact eq_literal_of_ofPlain hq hcaptures

end Pattern

theorem unmarked_of_isBareCapture {text rest : Text} (h : isBareCapture text) : ¬ Unmarked (text ++ rest) := by
  intro hunmarked
  match text with
  | [] => simp [isBareCapture] at h
  | c :: name =>
    obtain ⟨hcolon, hstar⟩ := hunmarked c rfl
    unfold isBareCapture at h
    split at h
    next heq => exact hcolon (List.cons.inj heq).1
    next => simp_all

theorem Scan.notMem_of_passes {s : Scan} {text rest : Text} (hdepth : s.depth = 0) (hopen : '{' ∉ text)
    (hslash : '/' ∉ text) (hunmarked : Unmarked (s.segment.reverse ++ text)) (h : s.Passes text rest) :
    '?' ∉ text := by
  induction text generalizing s with
  | nil => simp
  | cons c text ih =>
    obtain ⟨hc, htext⟩ := h
    obtain ⟨hopen, hopen'⟩ : '{' ≠ c ∧ '{' ∉ text := by simpa using hopen
    obtain ⟨hslash, hslash'⟩ : '/' ≠ c ∧ '/' ∉ text := by simpa using hslash
    have hsegment : (s.next c).segment = c :: s.segment := by simp [next, Ne.symm hslash]
    have hnext : (s.next c).depth = 0 := by
      simp [next, hdepth, Ne.symm hopen]
    have hmark : '?' ≠ c := by
      rintro rfl
      cases hbare : isBareCapture s.segment.reverse with
      | true => exact unmarked_of_isBareCapture hbare hunmarked
      | false => exact hc ⟨rfl, hdepth, by simp [readsAsModifier, hbare]⟩
    have htail := ih hnext hopen' hslash' (by simpa [hsegment] using hunmarked) htext
    simp [hmark, htail]

namespace Pattern.ReadSplit

variable {source : Text} {p : Pattern σ} (h : ReadSplit (QuerySplit.ofSource source) p)
  (hcaptures : p.captures 0 false = [])

include h hcaptures

theorem capture?_eq_none : ∀ part ∈ p.allParts, part.capture? = none := by
  have hall := h.captures_eq_allParts
  rw [hcaptures, List.map_nil] at hall
  exact List.filterMap_eq_nil_iff.mp hall.symm

/-- A path without captures, in a source that escapes no question mark, is fixed text. -/
theorem fixedPath (hbackslash : '\\' ∉ source) (hhash : '#' ∉ source) : p.FixedPath := by
  obtain ⟨rest, hboundary, hpasses⟩ := QuerySplit.passes_of_clean hbackslash
  intro parts hparts part hpart
  have hnone : ∀ part ∈ parts, part.capture? = none := fun part hpart =>
    h.capture?_eq_none hcaptures part
      (List.mem_append_left _ (List.mem_flatten.mpr ⟨parts, hparts, hpart⟩))
  obtain ⟨segment, hsegment, pieces, first, hread, -, hsource, rfl⟩ := h.exists_segment parts hparts
  have hempty : (joinParts (pieces.map Piece.pattern) : Pattern σ).captures first false = [] := by
    have hjoined := captures_joinParts (σ := σ) first pieces
    rw [List.filterMap_eq_nil_iff.mpr hnone] at hjoined
    exact List.map_eq_nil_iff.mp hjoined
  have hopen := hread.brace_notMem hempty
  obtain ⟨-, hunmarked⟩ := hread.eq_literal hempty
  have hsettled := h.readPath.settled hboundary hpasses segment hsegment
  have hquestion : '?' ∉ segment :=
    Scan.notMem_of_passes (s := .start) rfl hopen hsettled.slash hunmarked hsettled.passes
  have hhash : '#' ∉ segment := fun hmem =>
    hhash (QuerySplit.mem_of_mem_path hbackslash (mem_of_mem_splitPath hsegment hmem))
  obtain ⟨piece, hpiece, n, rfl⟩ := Piece.exists_of_mem_partsFrom hpart
  obtain ⟨text, rfl⟩ := Piece.eq_literal_of_capture? hnone piece hpiece
  have hsubset : text ⊆ segment := fun x hx => hsource ▸ List.mem_flatMap.mpr ⟨_, hpiece, hx⟩
  refine ⟨rfl, ?_⟩
  intro x hx hmem
  have hmem : x ∈ segment := hsubset hmem
  rcases List.mem_cons.mp hx with rfl | hx
  · exact hquestion hmem
  · obtain rfl := List.mem_singleton.mp hx
    exact hhash hmem

theorem queryParts_eq_map : p.queryParts =
    (p.rootBlock?.getD []).map fun e => (e.1, [.literal e.2.body false]) := by
  have hentries : ∀ {pieces : List Text} {es : List (Text × Pattern σ)} {first : Nat},
      List.Forall₂ ReadEntry pieces es → captures.entryCaptures first false es = [] →
      entryParts first es = es.map fun e => (e.1, some [.literal e.2.body false]) := by
    intro pieces es first hread
    induction hread generalizing first with
    | nil => exact fun _ => rfl
    | @cons _ e _ rest hentry _ ih =>
      intro hnone
      obtain ⟨hfirst, hrest⟩ := List.append_eq_nil_iff.mp hnone
      obtain ⟨value, -, -, -, hvalue⟩ := hentry
      obtain ⟨hliteral, -⟩ := hvalue.eq_literal (List.map_eq_nil_iff.mp hfirst)
      have hparts : (e.2.stops first false).mapM Stop.part? = some [.literal e.2.body false] := by
        rw [hliteral, stops]
        split <;> rfl
      rw [entryParts, hparts, ih hrest]
      rfl
  have hblock := h.queryParts_eq.1
  cases h with
  | plain hq hpath =>
    rw [(ReadSplit.plain hq hpath).queryParts_eq_nil hpath.queryless.rootBlock?_eq_none,
      hpath.queryless.rootBlock?_eq_none]
    rfl
  | @query q _ es _ _ hquery =>
    rw [captures] at hcaptures
    have hes := hentries hquery.1 (List.append_eq_nil_iff.mp hcaptures).2
    have hparts : entryParts (0 + q.unnamedCount) es =
        (queryParams q es).queryParts.map fun e => (e.1, some e.2) :=
      (Group.query.inj (List.cons.inj hblock).1).2
    have hinjective : Function.Injective fun e : Text × List Part => (e.1, some e.2) := by
      rintro ⟨key, parts⟩ ⟨other, others⟩ heq
      simpa using heq
    refine List.map_injective_iff.mpr hinjective ?_
    rw [← hparts, hes, List.map_map]
    rfl

end Pattern.ReadSplit

/-- The pairs that entries of literals write: those with a value. -/
def givenPairs (es : List (Text × Text)) : List (Text × Text) := es.filter (!·.2.isEmpty)

def literalEntries (es : List (Text × Text)) : List (Text × List Part) :=
  es.map fun e => (e.1, [.literal e.2 false])

theorem entryPieces_literalEntries (es : List (Text × Text)) :
    entryPieces [] (literalEntries es) = (givenPairs es).map pieceOf := by
  induction es with
  | nil => rfl
  | cons e rest ih =>
    have hfirst : (entryTexts [] [.literal e.2 false]).map (fun text => pieceOf (e.1, text)) =
        (givenPairs [e]).map pieceOf := by
      cases hempty : e.2.isEmpty <;> simp [entryTexts, Part.text, givenPairs, hempty]
    have hcons : givenPairs (e :: rest) = givenPairs [e] ++ givenPairs rest := by
      rw [givenPairs, ← List.singleton_append, List.filter_append]
      rfl
    rw [hcons, List.map_append, ← ih, ← hfirst]
    rfl

theorem filter_key_eq {es : List (Text × Text)} (hkeys : (es.map (·.1)).Nodup) {e : Text × Text}
    (he : e ∈ es) : (es.filter fun f => f.1 == e.1) = [e] := by
  induction es with
  | nil => simp at he
  | cons f rest ih =>
    obtain ⟨hfresh, hrest⟩ := List.nodup_cons.mp hkeys
    rcases List.mem_cons.mp he with rfl | hm
    · have hnone : (rest.filter fun f => f.1 == e.1) = [] :=
        List.filter_eq_nil_iff.mpr fun g hg heq =>
          hfresh (List.mem_map.mpr ⟨g, hg, by simpa using heq⟩)
      simp [hnone]
    · have hne : (f.1 == e.1) = false := by
        rw [beq_eq_false_iff_ne]
        exact fun heq => hfresh (List.mem_map.mpr ⟨e, hm, heq.symm⟩)
      rw [List.filter_cons, hne]
      exact ih hrest hm

/-- Every key that is given a value is found with it, and the others are not found. -/
theorem all_givenPairs {es : List (Text × Text)} (hkeys : (es.map (·.1)).Nodup) :
    ∀ e ∈ es, Query.all e.1 (Query.ofPairs (givenPairs es)) = [e.2].filter (!·.isEmpty) := by
  intro e he
  rw [Query.all_ofPairs, givenPairs, List.filter_comm, filter_key_eq hkeys he]
  cases hempty : e.2.isEmpty <;> simp [hempty]

theorem matchQuery_literalEntries {query : Query} {es : List (Text × Text)}
    (h : ∀ e ∈ es, query.all e.1 = [e.2].filter (!·.isEmpty)) :
    matchQuery query (literalEntries es) = if ∀ e ∈ es, e.2 ≠ [] then some [] else none := by
  induction es with
  | nil => rfl
  | cons e rest ih =>
    obtain ⟨he, hrest⟩ := List.forall_mem_cons.mp h
    have hcons : literalEntries (e :: rest) = (e.1, [.literal e.2 false]) :: literalEntries rest := rfl
    rw [hcons, matchQuery, he, ih hrest]
    by_cases hempty : e.2 = []
    · simp [hempty, matchEntry, matchValues]
    · have hfirst : matchEntry [.literal e.2 false] ([e.2].filter (!·.isEmpty)) = some [] := by
        simp [hempty, matchEntry, matchValues]
      rw [hfirst, Option.bind_some]
      by_cases hall : ∀ f ∈ rest, f.2 ≠ []
      · have hboth : ∀ f ∈ e :: rest, f.2 ≠ [] := List.forall_mem_cons.mpr ⟨hempty, hall⟩
        rw [if_pos hall, if_pos hboth]
        rfl
      · rw [if_neg hall, if_neg fun hboth => hall (List.forall_mem_cons.mp hboth).2]
        rfl

namespace Pattern.ReadSplit

variable {source : Text} {p : Pattern σ} (h : ReadSplit (QuerySplit.ofSource source) p)

include h

theorem exists_queryPiece {e : Text × Pattern σ} (he : e ∈ p.rootBlock?.getD []) :
    ∃ query ∈ (QuerySplit.ofSource source).query, pieceOf (e.1, e.2.body) ∈ queryPieces query := by
  cases h with
  | plain _ hpath => simp [hpath.queryless.rootBlock?_eq_none] at he
  | @query q query es hq _ hquery =>
    obtain ⟨piece, hpiece, hentry⟩ := exists_of_mem_right hquery.1 he
    have hpieceOf : piece = pieceOf (e.1, e.2.body) := hentry.eq_body
    exact ⟨query, hq, hpieceOf ▸ hpiece⟩

theorem plainPair (hclean : ∀ c ∈ ['#', '%', '+', '\\'], c ∉ source) {e : Text × Pattern σ}
    (he : e ∈ p.rootBlock?.getD []) :
    PlainPair (e.1, e.2.body) ∧ '#' ∉ pieceOf (e.1, e.2.body) := by
  obtain ⟨query, hquery, hpiece⟩ := h.exists_queryPiece he
  have hsplit := (List.mem_filter.mp hpiece).1
  have hsource : ∀ c ∈ pieceOf (e.1, e.2.body), c ∈ source := fun c hc =>
    QuerySplit.mem_of_mem_query (hclean '\\' (by simp)) hquery (Text.mem_of_mem_split hsplit hc)
  have hequals : '=' ∉ e.1 := by
    have hkey : e.1 ∈ p.queryParts.map (·.1) := h.queryParts_keys ▸ List.mem_map_of_mem he
    obtain ⟨part, hpart, heq⟩ := List.mem_map.mp hkey
    exact heq ▸ h.queryParts_keys_clean.2 part hpart
  refine ⟨⟨hequals, Text.notMem_of_mem_split hsplit, ?_, ?_⟩, ?_⟩
  · exact fun hmem => hclean '%' (by simp) (hsource _ hmem)
  · exact fun hmem => hclean '+' (by simp) (hsource _ hmem)
  · exact fun hmem => hclean '#' (by simp) (hsource _ hmem)

/-- The keys and values that the query of a pattern without captures declares. -/
def declared (p : Pattern σ) : List (Text × Text) := (p.rootBlock?.getD []).map fun e => (e.1, e.2.body)

theorem matchQuery_queryText (hclean : ∀ c ∈ ['#', '%', '+', '\\'], c ∉ source)
    (hcaptures : p.captures 0 false = []) :
    matchQuery (Query.ofPairs (queryPairs ((p.queryText []).takeWhile (· != '#')))) p.queryParts =
      if ∀ e ∈ declared p, e.2 ≠ [] then some [] else none := by
  have hparts : p.queryParts = literalEntries (declared p) := by
    rw [h.queryParts_eq_map hcaptures, literalEntries, declared, List.map_map]
    rfl
  have hplain : ∀ pair ∈ givenPairs (declared p), PlainPair pair ∧ '#' ∉ pieceOf pair := by
    intro pair hpair
    obtain ⟨e, he, rfl⟩ := List.mem_map.mp (List.mem_filter.mp hpair).1
    exact h.plainPair hclean he
  have htext : p.queryText [] = Text.join ['&'] ((givenPairs (declared p)).map pieceOf) := by
    rw [queryText, hparts, entryPieces_literalEntries]
  have hhash : ∀ c ∈ p.queryText [], (c != '#') = true := by
    intro c hc
    rw [bne_iff_ne]
    rintro rfl
    rw [htext] at hc
    rcases Text.mem_of_mem_join hc with hc | ⟨piece, hpiece, hc⟩
    · simp at hc
    · obtain ⟨pair, hpair, rfl⟩ := List.mem_map.mp hpiece
      exact (hplain pair hpair).2 hc
  have hkeys : ((declared p).map (·.1)).Nodup := by
    have hnodup := h.queryParts_keys_clean.1
    rw [h.queryParts_keys] at hnodup
    rwa [declared, List.map_map]
  rw [List.takeWhile_eq_self_iff.mpr hhash, htext, queryPairs_join fun pair hpair => (hplain pair hpair).1,
    hparts, matchQuery_literalEntries (all_givenPairs hkeys)]

end Pattern.ReadSplit

namespace Route

open Pattern

/-- A route without captures renders a constant, and matches it just where none of its query keys is declared
with an empty value. -/
theorem accept_constant_iff {source : Text} {atEnd : Bool} {r : Route} (hr : parse source atEnd = .ok r)
    (hclean : ∀ c ∈ ['#', '%', '+', '\\'], c ∉ source) (hcaptures : r.pattern.captures 0 false = []) :
    ∃ renderer s, r.renderer = .ok renderer ∧ renderer.constant? = some s ∧
      (r.accept s = .ok (some []) ↔ ∀ e ∈ r.pattern.queryBlock?.getD [], e.2.body ≠ []) ∧
      (r.accept s = .ok none ↔ ∃ e ∈ r.pattern.queryBlock?.getD [], e.2.body = []) := by
  have h := parse_eq_ok hr
  have hpath := h.fixedPath hcaptures (hclean '\\' (by simp)) (hclean '#' (by simp))
  have hrender : renderRoute (.map []) r.pattern.readSteps =
      .ok (orRoot (withQuery (r.pattern.pathText []) (r.pattern.queryText []))) := by
    have hfits : ∀ c ∈ r.pattern.captures 0 false, c.1.Fits (Table.get? c.1.key []) := by
      simp [hcaptures]
    rw [renderRoute]
    exact congrArg (Except.map orRoot) (h.renderSteps_readSteps hfits)
  refine ⟨_, orRoot (withQuery (r.pattern.pathText []) (r.pattern.queryText [])), renderer_of_read h, ?_, ?_⟩
  · rw [Renderer.constant?, hcaptures, hrender]
    rfl
  · have hdeclared : (∀ e ∈ ReadSplit.declared r.pattern, e.2 ≠ []) ↔
        ∀ e ∈ r.pattern.queryBlock?.getD [], e.2.body ≠ [] := by
      rw [h.blockAtRoot.queryBlock?_eq, ReadSplit.declared, List.forall_mem_map]
    rw [accept_eq_matchQuery h hpath, h.matchQuery_queryText hclean hcaptures]
    by_cases hall : ∀ e ∈ r.pattern.queryBlock?.getD [], e.2.body ≠ []
    · rw [if_pos (hdeclared.mpr hall)]
      simpa using hall
    · rw [if_neg fun hd => hall (hdeclared.mp hd)]
      simpa using hall

/-- A constant with an equals sign in a value. -/
theorem accept_constant_iff_equals :
    ∃ r renderer s, parse "/a b?mode=x=y&/=z" true = .ok r ∧ r.pattern.captures 0 false = [] ∧
      r.renderer = .ok renderer ∧ renderer.constant? = some s ∧ s = ("/a b?mode=x=y&/=z" : Text) ∧
      r.accept s = .ok (some []) := by
  let pattern : Pattern Schema :=
    .queryParams (.literal "a b") [("mode", .literal "x=y"), ("/", .literal "z")]
  have hr : parse "/a b?mode=x=y&/=z" true = .ok ⟨pattern, true⟩ := by rfl
  have hclean : ∀ c ∈ ['#', '%', '+', '\\'], c ∉ ("/a b?mode=x=y&/=z" : Text) :=
    List.all_iff_forall_prop.mp rfl
  obtain ⟨renderer, s, hrenderer, hconstant, haccept, -⟩ := accept_constant_iff hr hclean rfl
  obtain rfl := Except.ok.inj hrenderer
  have hs : s = ("/a b?mode=x=y&/=z" : Text) := (Option.some.inj hconstant).symm.trans rfl
  exact ⟨⟨pattern, true⟩, _, s, hr, rfl, hrenderer, hconstant, hs, haccept.mpr (by decide)⟩

/-- A query key that is declared with an empty value is left out of the constant, which does not match without
it. -/
theorem accept_constant_empty_value :
    let source : Text := "/x?a="
    (∀ c ∈ ['#', '%', '+', '\\'], c ∉ source) ∧
      ∃ r renderer, parse source true = .ok r ∧ r.pattern.captures 0 false = [] ∧
        r.renderer = .ok renderer ∧ renderer.constant? = some ("/x" : Text) ∧ r.accept "/x" = .ok none ∧
        r.accept source = .ok (some []) :=
  ⟨List.all_iff_forall_prop.mp rfl, ⟨.queryParams (.literal "x") [("a", .literal [])], true⟩, _, rfl, rfl, rfl, rfl,
    rfl, rfl⟩

end Route

end RoutePattern
