import RoutePattern.Proofs.Lossless
import RoutePattern.Proofs.Rereading

/-!
The written form of a pattern that was read is its source without what is redundant. A source is a path, a
question mark that may be escaped, and a query. The written form has the segments of that path and the
entries of that query, character for character, and drops the slashes and ampersands that part nothing.
-/

namespace RoutePattern
namespace QuerySplit

/-- What may stand between the path and the query of a source. -/
def marks : Option Text → List Text
  | none => [[]]
  | some _ => [['?'], escape]

/-- The source is the path, a mark and the query, which starts at the offset. -/
structure Cuts (source : Text) (split : QuerySplit) (mark : Text) : Prop where
  mark_mem : mark ∈ marks split.query
  source_eq : source = split.path ++ mark ++ split.query.getD []
  offset_eq : split.offset = (split.path ++ mark).length

theorem cuts_of_drop {source mark : Text} {i : Nat} (hmark : mark = ['?'] ∨ mark = escape)
    (h : mark <+: source.drop i) :
    Cuts source ⟨source.take i, some (source.drop (i + mark.length)), i + mark.length⟩ mark := by
  obtain ⟨rest, hrest⟩ := h
  have hne : source.drop i ≠ [] := by
    rw [← hrest]
    rcases hmark with rfl | rfl <;> simp [escape]
  have hlength : i ≤ source.length := by
    have hlt : i < source.length := by simpa using hne
    omega
  have hdrop : source.drop (i + mark.length) = rest := by
    rw [← List.drop_drop, ← hrest, List.drop_left]
  refine ⟨by rcases hmark with rfl | rfl <;> simp [marks], ?_, ?_⟩
  · calc source = source.take i ++ source.drop i := (List.take_append_drop i source).symm
      _ = source.take i ++ mark ++ rest := by rw [← hrest, List.append_assoc]
      _ = _ := by rw [hdrop]; rfl
  · simp [hlength]

/-- Every source is cut into its path, a mark and its query. -/
theorem exists_cuts (source : Text) : ∃ mark, Cuts source (ofSource source) mark := by
  unfold ofSource
  split
  next i hi => exact ⟨escape, cuts_of_drop (.inr rfl) (Text.indexOf_eq_some (by simp) hi).1⟩
  next =>
    split
    next i hi =>
      obtain ⟨-, hdrop⟩ := Scan.passes_of_separator?_eq_some (s := .start) hi
      exact ⟨['?'], cuts_of_drop (.inl rfl) ⟨source.drop (i + 1), hdrop.symm⟩⟩
    next => exact ⟨[], by simp [marks], by simp, by simp⟩

/-- The path and the query without empty segments and entries. The question mark between them has an escape
where a plain one would be read as a modifier of the last segment. -/
def canonical (split : QuerySplit) : Text :=
  let segments := splitPath split.path
  '/' :: Text.join ['/'] segments ++
    match split.query.map Pattern.queryPieces with
    | none => []
    | some entries =>
      let query := Text.join ['&'] entries
      (if readsAsModifier (segments.getLast?.getD []) query then escape else ['?']) ++ query

end QuerySplit

theorem writtenPath_eq_cons (segments : List Text) :
    writtenPath segments = '/' :: Text.join ['/'] segments := by
  cases segments with
  | nil => rfl
  | cons segment others =>
    rw [writtenPath, flatMap_slash]
    rfl

theorem lastSegment_writtenPath {segments : List Text} (h : ∀ segment ∈ segments, '/' ∉ segment) :
    lastSegment (writtenPath segments) = segments.getLast?.getD [] := by
  rcases List.eq_nil_or_concat' segments with rfl | ⟨init, last, rfl⟩
  · rfl
  · have hpath : writtenPath (init ++ [last]) = init.flatMap ('/' :: ·) ++ '/' :: last := by
      simp [writtenPath, orRoot]
    rw [hpath, lastSegment_append (h last (by simp))]
    simp

namespace Pattern

theorem ReadQuery.entryBodies_eq {σ : Type} {query : Text} {es : List (Text × Pattern σ)}
    (h : ReadQuery query es) : entryBodies es = queryPieces query := by
  rw [entryBodies_eq_map, ← eq_bodies_of_forall₂ h.1]

/-- The written form of a pattern that was read drops from the source what parts nothing, and the escape
where a plain question mark is read alike; it keeps all else character for character. -/
theorem path_canonical {source : Text} {p : Pattern Schema} (h : ofText source = .ok p) :
    (∃ mark, QuerySplit.Cuts source (QuerySplit.ofSource source) mark) ∧
      p.path? = .ok (QuerySplit.ofSource source).canonical := by
  refine ⟨QuerySplit.exists_cuts source, ?_⟩
  have hsplit := ofText_eq_ok_iff.mp h
  have htrunk := hsplit.readPath.writtenPath_eq
  have hlast : lastSegment (writtenPath (splitPath (QuerySplit.ofSource source).path)) = _ :=
    lastSegment_writtenPath fun _ => slash_notMem_of_mem_splitPath
  rw [path?, hsplit.strayParam?]
  refine congrArg Except.ok ?_
  rw [hsplit.path_eq]
  cases hsplit with
  | plain hquery hpath =>
    rw [hpath.queryless.rootBlock?_eq_none, written, htrunk, writtenPath_eq_cons, QuerySplit.canonical,
      hquery]
    simp
  | @query path query es hquery _ hentries =>
    have hblock : (queryParams path es).rootBlock? = some es := rfl
    rw [hblock, written, htrunk, querySeparator, hlast, writtenPath_eq_cons, hentries.entryBodies_eq,
      QuerySplit.canonical, hquery, Option.map_some, List.append_assoc]
    rfl

/-- Slashes and ampersands that part nothing are dropped. The question mark loses its escape behind the
first capture, and keeps it behind the second one, where no entry is left. -/
theorem path_canonical_escaped :
    ∃ p q : Pattern Schema,
      ofText ("a//:id\\?&&v=a/b:c&" : Text) = .ok p ∧ p.path? = .ok ("/a/:id?v=a/b:c" : Text) ∧
      ofText ("/{v:n?}/:id/?&" : Text) = .ok q ∧ q.path? = .ok ("/{v:n?}/:id\\?" : Text) := by
  let p : Pattern Schema :=
    .queryParams (.concat (.literal "a") (.param "id") false) [("v", .literal "a/b:c")]
  let q : Pattern Schema :=
    .queryParams (.concat (.prefixed "v" (.modified .optional (.param "n"))) (.param "id") false) []
  have hp : ofText ("a//:id\\?&&v=a/b:c&" : Text) = .ok p := by rfl
  have hq : ofText ("/{v:n?}/:id/?&" : Text) = .ok q := by rfl
  exact ⟨p, q, hp, (path_canonical hp).2, hq, (path_canonical hq).2⟩

end Pattern

end RoutePattern
