import RoutePattern.Proofs.WrittenForm

/-!
Reading the written form of a pattern that was read. It gives the pattern again just where the question
mark before the query is found at its place: a plain one is lost behind a question mark of the path that
opens a query, behind a backslash, and before an escaped question mark of the query.
-/

namespace RoutePattern

variable {σ : Type}

def solid (text : Text) : Text := text.filter (· != '/')

theorem solid_append (front back : Text) : solid (front ++ back) = solid front ++ solid back :=
  List.filter_append ..

theorem solid_of_notMem {text : Text} (h : '/' ∉ text) : solid text = text := by
  rw [solid, List.filter_eq_self]
  rintro c hc
  have hne : c ≠ '/' := by
    rintro rfl
    exact h hc
  simpa using hne

theorem flatten_splitPath (text : Text) : (splitPath text).flatten = solid text := by
  have hsplit : (Text.split '/' text).flatten = solid text := by
    induction text with
    | nil => rfl
    | cons c rest ih =>
      by_cases hc : c = '/'
      · simpa [Text.split, hc, solid] using ih
      · obtain ⟨piece, pieces, hp⟩ := List.exists_cons_of_ne_nil (Text.split_ne_nil '/' rest)
        rw [hp] at ih
        have ih : piece ++ pieces.flatten = solid rest := ih
        simp [Text.split, hc, hp, solid, ih]
  have hfilter : ∀ pieces : List Text, (pieces.filter (!·.isEmpty)).flatten = pieces.flatten := by
    intro pieces
    induction pieces with
    | nil => rfl
    | cons piece rest ih =>
      cases piece with
      | nil => simpa using ih
      | cons c more => simp [ih]
  rw [splitPath, hfilter, hsplit]

theorem solid_writtenPath {segments : List Text} (h : ∀ segment ∈ segments, '/' ∉ segment) :
    solid (writtenPath segments) = segments.flatten := by
  have hjoined : solid (segments.flatMap ('/' :: ·)) = segments.flatten := by
    induction segments with
    | nil => rfl
    | cons segment rest ih =>
      have hsegment : solid ('/' :: segment) = segment := by
        have hslash : solid ('/' :: segment) = solid segment := rfl
        rw [hslash, solid_of_notMem (h segment (by simp))]
      rw [List.flatMap_cons, solid_append, hsegment, ih fun t ht => h t (List.mem_cons_of_mem _ ht)]
      rfl
  unfold writtenPath orRoot
  split
  next hnil =>
    rw [List.isEmpty_iff.mp hnil] at hjoined
    exact hjoined
  next => exact hjoined

/-- A text that is cut before a character that is no slash is cut at the end of the path, if the path
loses none of its characters and gets no other ones. -/
theorem eq_length_of_solid {path query : Text} {i : Nat} {c : Char} (hc : c ≠ '/')
    (hhead : ((path ++ '?' :: query).drop i).head? = some c)
    (hsolid : solid ((path ++ '?' :: query).take i) = solid path) : i = path.length := by
  rcases Nat.lt_trichotomy i path.length with hlt | heq | hgt
  · exfalso
    have htake : (path ++ '?' :: query).take i = path.take i :=
      List.take_append_of_le_length (by omega)
    have hdrop : (path ++ '?' :: query).drop i = path.drop i ++ '?' :: query :=
      List.drop_append_of_le_length (by omega)
    obtain ⟨d, rest, hd⟩ : ∃ d rest, path.drop i = d :: rest :=
      List.exists_cons_of_ne_nil (by simpa using hlt)
    obtain rfl : d = c := by simpa [hdrop, hd] using hhead
    have hparts : solid path = solid (path.take i) ++ solid (path.drop i) := by
      rw [← solid_append, List.take_append_drop]
    rw [htake, hparts, hd] at hsolid
    simp [solid, hc] at hsolid
  · exact heq
  · exfalso
    obtain ⟨k, rfl⟩ : ∃ k, i = path.length + (k + 1) := ⟨i - path.length - 1, by omega⟩
    have htake : (path ++ '?' :: query).take (path.length + (k + 1)) = path ++ '?' :: query.take k := by
      rw [List.take_length_add_append]
      rfl
    rw [htake, solid_append] at hsolid
    simp [solid] at hsolid

/-- A plain question mark between the path and the query is found again: nothing in the path opens a
query, and no question mark is escaped. -/
structure PlainlyCut (path query : Text) : Prop where
  closed : QuerySplit.separator? 0 [] path = none
  backslash : path.getLast? ≠ some '\\'
  unescaped : ¬ ['\\', '?'] <:+: query

/-- The question mark that is written between the path and the query is found again: it has an escape,
or does without one. -/
def FoundAgain (path query : Text) : Prop :=
  readsAsModifier (lastSegment path) query = true ∨ PlainlyCut path query

namespace Pattern

theorem ReadPath.writtenPath_eq {path : Text} {p : Pattern σ} (h : ReadPath path p) :
    orRoot (joinPath [p.body]) = writtenPath (splitPath path) := by
  obtain ⟨ps, hread, rfl⟩ := h
  rw [joinPath_body_joinSegments, map_body_of_forall₂ hread, joinPath_of_clean]
  · rfl
  · exact fun s hs => ⟨ne_nil_of_mem_splitPath hs, slash_notMem_of_mem_splitPath hs⟩

theorem ReadPath.rewritten {path : Text} {p : Pattern σ} (h : ReadPath path p) :
    ReadPath (writtenPath (splitPath path)) p := by
  obtain ⟨ps, hread, hp⟩ := h
  refine ⟨ps, ?_, hp⟩
  rw [splitPath_writtenPath (fun s hs => slash_notMem_of_mem_splitPath hs)
    (fun s hs => ne_nil_of_mem_splitPath hs)]
  exact hread

/-- A path that reads as a pattern has the characters of its written form. -/
theorem ReadPath.solid_eq {path : Text} {p : Pattern σ} (h : ReadPath path p) :
    solid path = solid (orRoot (joinPath [p.body])) := by
  rw [h.writtenPath_eq, solid_writtenPath fun s hs => slash_notMem_of_mem_splitPath hs,
    flatten_splitPath]

theorem eq_bodies_of_forall₂ {entries : List Text} {es : List (Text × Pattern σ)}
    (h : List.Forall₂ ReadEntry entries es) : entries = es.map fun e => e.1 ++ '=' :: e.2.body := by
  induction h with
  | nil => rfl
  | cons hfirst _ ih => rw [List.map_cons, ← ih, ← hfirst.eq_body]

theorem ReadQuery.rewritten {query : Text} {es : List (Text × Pattern σ)} (h : ReadQuery query es) :
    ReadQuery (Text.join ['&'] (entryBodies es)) es := by
  obtain ⟨hread, hkeys⟩ := h
  have hbodies : queryPieces query = entryBodies es := by
    rw [entryBodies_eq_map]
    exact eq_bodies_of_forall₂ hread
  have hpieces : queryPieces (Text.join ['&'] (queryPieces query)) = queryPieces query := by
    refine queryPieces_join (fun piece hm => ?_) fun piece hm => ?_
    · simpa using (List.mem_filter.mp hm).2
    · exact Text.notMem_of_mem_split (List.mem_filter.mp hm).1
  refine ⟨?_, hkeys⟩
  rw [← hbodies, hpieces]
  exact hread

theorem unescaped_segments (source : Text) :
    ∀ segment ∈ splitPath (QuerySplit.ofSource source).path, ¬ escape <:+: segment := by
  intro segment hs he
  have hpiece : segment <:+: (QuerySplit.ofSource source).path :=
    Text.infix_of_mem_split (List.mem_filter.mp hs).1
  exact QuerySplit.unescaped_path source (he.trans hpiece)

namespace ReadSplit

variable {source : Text} {p : Pattern σ}

theorem path_eq (h : ReadSplit (QuerySplit.ofSource source) p) :
    p.path = written (joinPath [p.trunk.body]) p.rootBlock? :=
  h.blockAtRoot.path_eq

/-- Without a query the written form is the path that was read, up to its slashes. -/
theorem reread_of_none (h : ReadSplit (QuerySplit.ofSource source) p) (hb : p.rootBlock? = none) :
    ReadSplit (QuerySplit.ofSource p.path) p := by
  have hpath := h.readPath
  have hwritten : p.path = writtenPath (splitPath (QuerySplit.ofSource source).path) := by
    rw [h.path_eq, hb, ← hpath.writtenPath_eq]
    rfl
  cases h with
  | query => simp [rootBlock?] at hb
  | plain hquery _ =>
    obtain ⟨-, hpasses, hsame⟩ := QuerySplit.of_query_eq_none hquery
    have hsettled := hpath.settled Scan.boundary_nil (by rw [hsame]; exact hpasses)
    rw [trunk_eq_self hb] at hpath
    obtain ⟨hcut, hnone⟩ := QuerySplit.ofSource_writtenPath hsettled (unescaped_segments source)
    rw [hwritten]
    exact .plain hnone (by rw [hcut]; exact hpath.rewritten)

/-- With a query the written form is the path, the question mark and the entries. -/
theorem reread_of_foundAgain (h : ReadSplit (QuerySplit.ofSource source) p)
    {es : List (Text × Pattern σ)} (hb : p.rootBlock? = some es)
    (hfound : FoundAgain (orRoot (joinPath [p.trunk.body])) (Text.join ['&'] (entryBodies es))) :
    ReadSplit (QuerySplit.ofSource p.path) p := by
  have hpath := h.readPath
  have hwritten := h.path_eq
  rw [hb, written, hpath.writtenPath_eq] at hwritten
  rw [hpath.writtenPath_eq] at hfound
  have hplain : readsAsModifier
        (lastSegment (writtenPath (splitPath (QuerySplit.ofSource source).path)))
        (Text.join ['&'] (entryBodies es)) = false →
      (∀ segment ∈ splitPath (QuerySplit.ofSource source).path, Settled segment) ∧
        (writtenPath (splitPath (QuerySplit.ofSource source).path)).getLast? ≠ some '\\' ∧
        ¬ escape <:+: Text.join ['&'] (entryBodies es) := by
    intro hmod
    rcases hfound with hescaped | hplain
    · simp [hescaped] at hmod
    · have hsettled := hpath.rewritten.settled Scan.boundary_nil
        (Scan.separator?_eq_none_iff.mp hplain.closed)
      rw [splitPath_writtenPath (fun s hs => slash_notMem_of_mem_splitPath hs)
        (fun s hs => ne_nil_of_mem_splitPath hs)] at hsettled
      exact ⟨hsettled, hplain.backslash, hplain.unescaped⟩
  obtain ⟨hcut, hquery⟩ := QuerySplit.ofSource_querySeparator (unescaped_segments source) hplain
  cases h with
  | plain _ hplain => simp [hplain.queryless.rootBlock?_eq_none] at hb
  | query _ _ hread =>
    obtain rfl := Option.some.inj hb
    rw [hwritten]
    exact .query hquery (by rw [hcut]; exact hpath.rewritten) hread.rewritten

theorem foundAgain_of_reread (h : ReadSplit (QuerySplit.ofSource source) p)
    {es : List (Text × Pattern σ)} (hb : p.rootBlock? = some es)
    (hre : ReadSplit (QuerySplit.ofSource p.path) p) :
    FoundAgain (orRoot (joinPath [p.trunk.body])) (Text.join ['&'] (entryBodies es)) := by
  rw [FoundAgain, or_iff_not_imp_left]
  intro hmod
  have hwritten : p.path = orRoot (joinPath [p.trunk.body]) ++ '?' :: Text.join ['&'] (entryBodies es) := by
    rw [h.path_eq, hb, written, querySeparator, if_neg hmod]
    simp
  have hsolid := hre.readPath.solid_eq
  obtain ⟨query, hquery⟩ : ∃ query, (QuerySplit.ofSource p.path).query = some query := by
    cases hre with
    | plain _ hplain => simp [hplain.queryless.rootBlock?_eq_none] at hb
    | query hquery _ _ => exact ⟨_, hquery⟩
  obtain ⟨i, hi, hcut⟩ := QuerySplit.of_query_eq_some hquery
  rw [hi] at hsolid
  rw [hwritten] at hsolid hcut
  rcases hcut with hescaped | ⟨hun, hdrop, hpasses⟩
  · -- an escaped question mark would begin where the plain one stands
    exfalso
    obtain ⟨rest, hrest⟩ := hescaped
    have hlength := eq_length_of_solid (c := '\\') (by decide) (by rw [← hrest]; rfl) hsolid
    rw [hlength, List.drop_left] at hrest
    simp [escape] at hrest
  · have hlength := eq_length_of_solid (c := '?') (by decide) (by rw [hdrop]; rfl) hsolid
    rw [hlength, List.take_left, List.drop_left] at hpasses
    rw [escape_infix_append, not_or, not_or, List.infix_cons_iff, not_or] at hun
    obtain ⟨-, ⟨-, hquery⟩, hseam⟩ := hun
    refine ⟨?_, fun hlast => hseam ⟨hlast, rfl⟩, hquery⟩
    exact Scan.separator?_eq_none_iff.mpr
      (Scan.passes_of_boundary (Scan.boundary_query _) Scan.boundary_nil hpasses)

end ReadSplit

theorem Legible.foundAgain {p : Pattern σ} {segments : List Text} {ps : List (Pattern σ)}
    (h : p.Legible segments ps) {es : List (Text × Pattern σ)} (hb : p.rootBlock? = some es) :
    FoundAgain (orRoot (joinPath [p.trunk.body])) (Text.join ['&'] (entryBodies es)) := by
  right
  rw [h.path]
  refine ⟨?_, ?_, ?_⟩
  · exact Scan.separator?_eq_none_iff.mpr (passes_writtenPath h.settled Scan.boundary_nil)
  · exact fun hl => notMem_writtenPath (by decide) h.backslash (List.mem_of_getLast? hl)
  · exact fun he => h.notMem_query hb (backslash_mem_of_escape he)

/-- The written form of a pattern that was read is read as the pattern again just where the question
mark before the query, if there is one, is found again. It always is where the source has no backslash. -/
theorem path_reads_back_iff {source : Text} {p : Pattern Schema} (h : ofText source = .ok p) :
    ((∃ text, p.path? = .ok text ∧ ofText text = .ok p) ↔
      ∀ es ∈ p.rootBlock?,
        FoundAgain (orRoot (joinPath [p.trunk.body])) (Text.join ['&'] (entryBodies es))) ∧
    ('\\' ∉ source → ∃ text, p.path? = .ok text ∧ ofText text = .ok p) := by
  have hsplit := ofText_eq_ok_iff.mp h
  have hpath : p.path? = .ok p.path := by rw [path?, hsplit.strayParam?]
  have hiff : (∃ text, p.path? = .ok text ∧ ofText text = .ok p) ↔
      ∀ es ∈ p.rootBlock?,
        FoundAgain (orRoot (joinPath [p.trunk.body])) (Text.join ['&'] (entryBodies es)) := by
    constructor
    · rintro ⟨text, htext, hread⟩ es hb
      obtain rfl : p.path = text := Except.ok.inj (hpath.symm.trans htext)
      exact hsplit.foundAgain_of_reread hb (ofText_eq_ok_iff.mp hread)
    · intro hfound
      refine ⟨p.path, hpath, ofText_eq_ok_iff.mpr ?_⟩
      cases hb : p.rootBlock? with
      | none => exact hsplit.reread_of_none hb
      | some es => exact hsplit.reread_of_foundAgain hb (hfound es hb)
  refine ⟨hiff, fun hclean => hiff.mpr fun es hb => ?_⟩
  obtain ⟨segments, ps, hlegible⟩ := exists_legible_of_ofText hclean h
  exact hlegible.foundAgain hb

/-- The slash that the path loses turns the question mark into a modifier, but for the escape. -/
theorem path_reads_back_iff_escaped :
    let p : Pattern Schema := .queryParams (.param "a") [("/k", .param "v"), ("x", .prefixed "?" .unnamed)]
    ofText ("/:a/?/k=:v&&x={?:*}" : Text) = .ok p ∧
      ofText ("/:a\\?/k=:v&x={?:*}" : Text) = .ok p := by
  intro p
  have h : ofText ("/:a/?/k=:v&&x={?:*}" : Text) = .ok p := by rfl
  have hfound : ∀ es ∈ p.rootBlock?,
      FoundAgain (orRoot (joinPath [p.trunk.body])) (Text.join ['&'] (entryBodies es)) := by
    intro es hb
    obtain rfl := Option.some.inj hb
    exact .inl (by rfl)
  obtain ⟨text, hpath, hread⟩ := (path_reads_back_iff h).1.mpr hfound
  obtain rfl : ("/:a\\?/k=:v&x={?:*}" : Text) = text := Except.ok.inj hpath
  exact ⟨h, hread⟩

/-- A question mark of the path is read as the one before the query, and a backslash at the end of the
path as its escape. -/
theorem path_read_as_other :
    let p : Pattern Schema := .queryParams (.literal "a?b") [("x", .param "x")]
    let q : Pattern Schema := .queryParams (.literal "a\\") [("x", .param "x")]
    ofText ("/a?b\\?x=:x" : Text) = .ok p ∧ p.path? = .ok ("/a?b?x=:x" : Text) ∧
      ofText ("/a?b?x=:x" : Text) ≠ .ok p ∧
    ofText ("/a\\/?x=:x" : Text) = .ok q ∧ q.path? = .ok ("/a\\?x=:x" : Text) ∧
      ofText ("/a\\?x=:x" : Text) ≠ .ok q := by
  intro p q
  have hp : ofText ("/a?b?x=:x" : Text) =
      .ok (.queryParams (.literal "a") [("b?x", .param "x")] : Pattern Schema) := by rfl
  have hq : ofText ("/a\\?x=:x" : Text) =
      .ok (.queryParams (.literal "a") [("x", .param "x")] : Pattern Schema) := by rfl
  refine ⟨by rfl, by rfl, ?_, by rfl, by rfl, ?_⟩
  · rw [hp]
    simp [p]
  · rw [hq]
    simp [q]

end Pattern

end RoutePattern
