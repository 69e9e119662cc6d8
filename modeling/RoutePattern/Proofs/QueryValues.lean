import RoutePattern.Proofs.ConstantRoutes
import RoutePattern.Proofs.Escape
import RoutePattern.Proofs.FixedPaths
import RoutePattern.Proofs.Rereading

/-!
Query values that are read in two ways: as patterns of their own, which slashes cut into segments, or as one
segment, in which slashes are ordinary text. Both readings give parts; a value that is one segment, or the
bare separator, has the same parts in both.
-/

namespace RoutePattern

variable {σ : Type}

/-- A value that slashes cut nowhere. -/
def SingleSegment (value : Text) : Prop := value = ['/'] ∨ value ≠ [] ∧ '/' ∉ value

instance : DecidablePred SingleSegment := fun value =>
  inferInstanceAs (Decidable (value = ['/'] ∨ value ≠ [] ∧ '/' ∉ value))

namespace QuerySplit

theorem unescaped_of_notMem {source : Text} (h : '?' ∉ source) : ¬ escape <:+: source := by
  intro hwithin
  exact h (hwithin.subset (by decide))

theorem ofSource_of_notMem {source : Text} (h : '?' ∉ source) :
    (ofSource source).path = source ∧ (ofSource source).query = none := by
  have hnone : Scan.start.separator? source = none := Scan.separator?_eq_none_iff.mpr (Scan.passes_of_notMem h)
  rw [ofSource_of_unescaped (unescaped_of_notMem h), hnone]
  exact ⟨rfl, rfl⟩

theorem ofSource_query {query : Text} (h : '?' ∉ query) :
    (ofSource ('?' :: query)).path = [] ∧ (ofSource ('?' :: query)).query = some query := by
  have hescape : ¬ escape <:+: '?' :: query := by
    rw [List.infix_cons_iff]
    rintro (hfirst | hwithin)
    · simp [escape, List.cons_prefix_cons] at hfirst
    · exact unescaped_of_notMem h hwithin
  have hopens : Scan.start.Opens '?' query := ⟨rfl, rfl, rfl⟩
  rw [ofSource_of_unescaped hescape, Scan.separator?_cons, if_pos hopens]
  exact ⟨rfl, rfl⟩

end QuerySplit

theorem Piece.count_brace {piece : Piece} (h : piece.Sound) :
    piece.source.count '{' = piece.source.count '}' := by
  match piece with
  | literal text => rw [source, List.count_eq_zero.mpr h.2.1, List.count_eq_zero.mpr h.2.2]
  | capture none (some name) m =>
    have hs := brace_notMem_symbolText m
    have hn := brace_notMem_name (h.1 name rfl)
    rw [List.count_eq_zero.mpr (by simp [source, hs.1, hn.1]), List.count_eq_zero.mpr (by simp [source, hs.2, hn.2])]
  | capture none none m =>
    have hs := brace_notMem_symbolText m
    rw [List.count_eq_zero.mpr (by simp [source, hs.1]), List.count_eq_zero.mpr (by simp [source, hs.2])]
  | capture (some lead) name m =>
    have hs := brace_notMem_symbolText m
    have hn := brace_notMem_getD h.1
    have hl := h.2 lead rfl
    simp [source, List.count_eq_zero.mpr hs.1, List.count_eq_zero.mpr hs.2,
      List.count_eq_zero.mpr hn.1, List.count_eq_zero.mpr hn.2, List.count_eq_zero.mpr hl.1,
      List.count_eq_zero.mpr hl.2.1]

theorem Piece.slash_notMem_capture {lead name : Option Text} {m : Option Modifier}
    (h : (capture lead name m).Sound) (hlead : ∀ l ∈ lead, '/' ∉ l) : '/' ∉ (capture lead name m).source := by
  have hsymbol : '/' ∉ symbolText m := by rcases m with _ | _ | _ | _ <;> decide
  have hname : ∀ n ∈ name, '/' ∉ n := fun n hn =>
    notMem_of_isName (h.1 n hn) (by decide)
  rcases lead with _ | lead <;> rcases name with _ | name
  · simp [source, hsymbol]
  · simp [source, hsymbol, hname name rfl]
  · simp [source, hsymbol, hlead lead rfl]
  · simp [source, hsymbol, hlead lead rfl, hname name rfl]

theorem count_brace_pieces {pieces : List Piece} (h : ∀ piece ∈ pieces, piece.Sound) :
    (pieces.flatMap Piece.source).count '{' = (pieces.flatMap Piece.source).count '}' := by
  induction pieces with
  | nil => rfl
  | cons piece rest ih =>
    obtain ⟨hpiece, hrest⟩ := List.forall_mem_cons.mp h
    rw [List.flatMap_cons, List.count_append, List.count_append, Piece.count_brace hpiece, ih hrest]

theorem count_flatten_splitPath {c : Char} (hc : c ≠ '/') (text : Text) :
    (splitPath text).flatten.count c = text.count c := by
  rw [flatten_splitPath, solid, List.count_filter (by simpa using hc)]

namespace Pattern

open Piece (partsFrom)

theorem ReadFrom.count_brace {segment : Text} {p : Pattern σ} (h : ReadFrom segment p) :
    segment.count '{' = segment.count '}' := by
  obtain ⟨pieces, hsound, rfl, -⟩ := ofSegment_eq_ok h
  exact count_brace_pieces hsound

/-- Where every segment can be read, no slash stands between braces. -/
theorem count_brace_front {front back : Text} {ps : List (Pattern σ)}
    (h : List.Forall₂ ReadFrom (splitPath (front ++ '/' :: back)) ps) : front.count '{' = front.count '}' := by
  have hread : ∀ segment ∈ splitPath front, segment.count '{' = segment.count '}' := by
    intro segment hsegment
    rw [splitPath_append_slash] at h
    obtain ⟨p, -, hp⟩ := exists_of_mem_right h.flip (List.mem_append_left (splitPath back) hsegment)
    exact ReadFrom.count_brace hp
  rw [← count_flatten_splitPath (by decide) front, ← count_flatten_splitPath (by decide) front,
    List.count_flatten, List.count_flatten, List.map_congr_left hread]

theorem slash_notMem_lead {pieces : List Piece} {ps : List (Pattern σ)}
    (hsound : ∀ piece ∈ pieces, piece.Sound)
    (h : List.Forall₂ ReadFrom (splitPath (pieces.flatMap Piece.source)) ps) {lead : Text} {name : Option Text}
    {m : Option Modifier} (hmem : .capture (some lead) name m ∈ pieces) : '/' ∉ lead := by
  intro hslash
  obtain ⟨before, behind, rfl⟩ := List.append_of_mem hmem
  obtain ⟨start, rest, rfl⟩ := List.append_of_mem hslash
  obtain ⟨hbefore, hcapture⟩ := List.forall_mem_append.mp hsound
  have hlead := (List.forall_mem_cons.mp hcapture).1.2 _ rfl
  -- the braces in front of the slash are those of the pieces before, and the one that is open
  have hsource : ∃ back, (before ++ .capture (some (start ++ '/' :: rest)) name m :: behind).flatMap Piece.source =
      (before.flatMap Piece.source ++ '{' :: start) ++ '/' :: back := by
    refine ⟨rest ++ ':' :: name.getD ['*'] ++ symbolText m ++ ['}'] ++ behind.flatMap Piece.source, ?_⟩
    simp [Piece.source]
  obtain ⟨back, hback⟩ := hsource
  rw [hback] at h
  have hcount := count_brace_front h
  have hopen : start.count '{' = 0 := List.count_eq_zero.mpr fun hm => hlead.1 (List.mem_append_left _ hm)
  have hclose : start.count '}' = 0 := List.count_eq_zero.mpr fun hm => hlead.2.1 (List.mem_append_left _ hm)
  rw [List.count_append, List.count_append, List.count_cons_self, List.count_cons_of_ne (by decide), hopen,
    hclose, count_brace_pieces hbefore] at hcount
  omega

theorem literal_mem_partsFrom (first : Nat) {pieces : List Piece} {text : Text}
    (h : .literal text ∈ pieces) : .literal text false ∈ partsFrom first pieces := by
  induction pieces generalizing first with
  | nil => cases h
  | cons piece rest ih =>
    rcases List.mem_cons.mp h with rfl | h
    · exact List.mem_cons_self
    · exact List.mem_cons_of_mem _ (ih _ h)

/-- The parts of a value that is read as a pattern of its own. -/
structure ConstructedParts (value : Text) (parts : List Part) : Prop where
  slashes : (∀ c ∈ value, c = '/') → parts = [.literal ['/'] false]
  texts : (∃ c ∈ value, c ≠ '/') →
    parts ≠ [] ∧ ∀ part ∈ parts, part.Sound ∧ ∀ c ∈ part.leading, c ∈ value ∧ c ≠ '/'

structure ParsedParts (value : Text) (parts : List Part) : Prop where
  slashes : (∀ c ∈ value, c = '/') → parts = [.literal value false]
  cut : '/' ∈ value → ∃ text, .literal text false ∈ parts ∧ '/' ∈ text
  leading : ∀ part ∈ parts, ∀ c ∈ part.leading, c ∈ value

theorem exists_parts_of_segments {segments : List Text} {ps : List (Pattern σ)}
    (h : List.Forall₂ ReadFrom segments ps) (hne : ∀ segment ∈ segments, segment ≠ []) (first : Nat) :
    ∃ parts, (collect (fun n q => q.stops n false) first ps).mapM Stop.part? = some parts ∧
      (ps ≠ [] → parts ≠ []) ∧
      ∀ part ∈ parts, part.Sound ∧ ∀ c ∈ part.leading, ∃ segment ∈ segments, c ∈ segment := by
  induction h generalizing first with
  | nil => exact ⟨[], rfl, by simp, by simp⟩
  | @cons segment q rest qs hread _ ih =>
    obtain ⟨hsegment, hrest⟩ := List.forall_mem_cons.mp hne
    obtain ⟨others, hothers, -, hall⟩ := ih hrest (first + q.unnamedCount)
    obtain ⟨pieces, hsound, rfl, rfl⟩ := ofSegment_eq_ok hread
    have hpieces : pieces ≠ [] := by
      rintro rfl
      exact hsegment rfl
    have hparts : Pattern.valueParts first pieces = partsFrom first pieces := if_neg hpieces
    refine ⟨partsFrom first pieces ++ others, ?_, fun _ => ?_, List.forall_mem_append.mpr ⟨?_, ?_⟩⟩
    · rw [collect, List.mapM_append, mapM_part?_joinParts, hparts, hothers]
      rfl
    · cases pieces with
      | nil => contradiction
      | cons _ _ => simp [partsFrom]
    · intro part hpart
      refine ⟨Piece.sound_partsFrom first hsound part hpart, fun c hc => ⟨_, List.mem_cons_self, ?_⟩⟩
      exact Piece.mem_source_of_mem_partsFrom hpart hc
    · intro part hpart
      obtain ⟨hown, hleading⟩ := hall part hpart
      refine ⟨hown, fun c hc => ?_⟩
      obtain ⟨other, hother, hc⟩ := hleading c hc
      exact ⟨other, List.mem_cons_of_mem _ hother, hc⟩

theorem ReadPath.constructedParts {value : Text} {p : Pattern σ} (h : ReadPath value p) (first : Nat) :
    ∃ parts, (p.stops first false).mapM Stop.part? = some parts ∧ ConstructedParts value parts := by
  obtain ⟨ps, hread, rfl⟩ := h
  cases ps with
  | nil =>
    have hnil : splitPath value = [] := List.forall₂_nil_right_iff.mp hread
    refine ⟨[.literal ['/'] false], rfl, fun _ => rfl, fun ⟨c, hc, hne⟩ => ?_⟩
    have hcount := count_flatten_splitPath hne value
    rw [hnil, List.flatten_nil, List.count_nil] at hcount
    exact absurd hc (List.count_eq_zero.mp hcount.symm)
  | cons q rest =>
    obtain ⟨parts, hparts, hne, hall⟩ :=
      exists_parts_of_segments hread (fun segment hs => ne_nil_of_mem_splitPath hs) first
    have hstops : (joinSegments (q :: rest)).stops first false =
        collect (fun n q => q.stops n false) first (q :: rest) := by
      rw [joinSegments, stops_foldl]
      rfl
    refine ⟨parts, by rw [hstops, hparts], fun hslashes => ?_, fun _ => ⟨hne (by simp), fun part hpart => ?_⟩⟩
    · obtain ⟨segment, hs, -⟩ := exists_of_mem_right hread (List.mem_cons_self (a := q))
      obtain ⟨c, hc⟩ := List.exists_mem_of_ne_nil segment (ne_nil_of_mem_splitPath hs)
      have hslash : c = '/' := hslashes c (mem_of_mem_splitPath hs hc)
      exact absurd (hslash ▸ hc) (slash_notMem_of_mem_splitPath hs)
    · obtain ⟨hown, hleading⟩ := hall part hpart
      refine ⟨hown, fun c hc => ?_⟩
      obtain ⟨segment, hs, hc⟩ := hleading c hc
      refine ⟨mem_of_mem_splitPath hs hc, ?_⟩
      rintro rfl
      exact slash_notMem_of_mem_splitPath hs hc

theorem ofSegment_slashes {value : Text} (h : ∀ c ∈ value, c = '/') :
    ofSegment value 0 = .ok (literal value : Pattern σ) := by
  cases value with
  | nil => rfl
  | cons c rest =>
    have hc : c = '/' := h c List.mem_cons_self
    have hbrace : ∀ x ∈ ['{', '}'], x ∉ c :: rest := by
      intro x hx hm
      rw [h x hm] at hx
      exact absurd hx (by decide)
    have hstretch : Stretch.ofSegment (c :: rest) = [.plain (c :: rest)] := by
      rw [Stretch.ofSegment, Stretch.cut_of_notMem (hbrace '{' (by simp))]
      rfl
    have hplain : ofPlain (c :: rest) 0 = .ok (literal (c :: rest) : Pattern σ) := by
      have ho : (c :: rest).contains '{' = false := by simpa using hbrace '{' (by simp)
      have hclose : (c :: rest).contains '}' = false := by simpa using hbrace '}' (by simp)
      subst hc
      rw [ofPlain, if_neg (by rw [ho]; decide), if_neg (by rw [hclose]; decide)] <;> simp
    rw [ofSegment, hstretch, ofStretches, ofStretch, hplain]
    rfl

theorem ReadFrom.parsedParts {value : Text} {p q : Pattern σ} (h : ReadFrom value p) (hpath : ReadPath value q)
    (first : Nat) : ∃ parts, (p.stops first false).mapM Stop.part? = some parts ∧ ParsedParts value parts := by
  obtain ⟨ps, hread, -⟩ := hpath
  by_cases hslashes : ∀ c ∈ value, c = '/'
  · obtain rfl : literal value = p := Except.ok.inj ((ofSegment_slashes hslashes).symm.trans h)
    refine ⟨[.literal value false], ?_, fun _ => rfl, fun hslash => ⟨value, by simp, hslash⟩, ?_⟩
    · have hall : value.all (· == '/') = true := by simpa using hslashes
      rw [stops, if_pos hall]
      rfl
    · intro part hpart c hc
      obtain rfl := List.mem_singleton.mp hpart
      exact hc
  · obtain ⟨pieces, hsound, rfl, rfl⟩ := ofSegment_eq_ok h
    have hpieces : pieces ≠ [] := by
      rintro rfl
      exact hslashes (by simp)
    have hparts : Pattern.valueParts first pieces = partsFrom first pieces := if_neg hpieces
    refine ⟨partsFrom first pieces, by rw [mapM_part?_joinParts, hparts], fun hall => absurd hall hslashes, ?_,
      fun part hpart c hc => Piece.mem_source_of_mem_partsFrom hpart hc⟩
    intro hslash
    obtain ⟨piece, hpiece, hslash⟩ := List.mem_flatMap.mp hslash
    have hown := hsound piece hpiece
    match piece with
    | .literal text => exact ⟨text, literal_mem_partsFrom first hpiece, hslash⟩
    | .capture lead name m =>
      have hlead : ∀ l ∈ lead, '/' ∉ l := by
        rintro l rfl
        exact slash_notMem_lead hsound hread hpiece
      exact absurd hslash (Piece.slash_notMem_capture hown hlead)

end Pattern

end RoutePattern
