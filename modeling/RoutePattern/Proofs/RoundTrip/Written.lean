import RoutePattern.Proofs.Reading.Steps
import RoutePattern.Proofs.RoundTrip.Parameters

/-!
What a pattern that was read writes for parameters that fit it: the texts of its segments, and the pieces
of its query.
-/

namespace RoutePattern

def pieceOf (pair : Text × Text) : Text := pair.1 ++ '=' :: pair.2

/-- What an entry writes under its key: every value of a capture that stands alone, and else one text,
unless it is empty. -/
def entryTexts (params : Params) : List Part → List Text
  | [.capture c] => (Part.capture c).values params
  | parts => [parts.flatMap (Part.text params)].filter (!·.isEmpty)

theorem renderEntry_eq {params : Params} (key : Text) {parts : List Part}
    (h : ∀ part ∈ parts, part.Fits params) :
    renderEntry (argumentsOf params) key parts =
      .ok ((entryTexts params parts).map fun text => pieceOf (key, text)) := by
  have hjoined : (renderParts (argumentsOf params) parts).map
        (fun text => if text.isEmpty then [] else [key ++ '=' :: text]) =
      .ok (([parts.flatMap (Part.text params)].filter (!·.isEmpty)).map fun text =>
        pieceOf (key, text)) := by
    rw [renderParts_eq h]
    cases hempty : (parts.flatMap (Part.text params)).isEmpty <;> simp [Except.map, hempty, pieceOf]
  match parts, h, hjoined with
  | [], _, hjoined => exact hjoined
  | [.literal _ _], _, hjoined => exact hjoined
  | first :: second :: rest, _, hjoined => cases first <;> exact hjoined
  | [.capture c], h, hjoined =>
    have hfits : c.Fits (Table.get? c.key params) := h (.capture c) (by simp)
    rw [renderEntry]
    cases hm : c.multiple with
    | true =>
      rw [if_pos rfl, repeatedTexts_eq hm hfits]
      simp [Except.map, entryTexts, Part.values, pieceOf]
    | false =>
      rw [if_neg (by simp), hjoined]
      rcases hfits.cases with ⟨hg, -⟩ | ⟨t, hg, -, hne⟩ | ⟨ts, -, hrepeated, -, -⟩
      · simp [entryTexts, Part.values, Part.text, hg]
      · simp [entryTexts, Part.values, text_of_value hg, hg, Captured.texts, hne]
      · simp [hm] at hrepeated

def entryPieces (params : Params) (entries : List (Text × List Part)) : List Text :=
  entries.flatMap fun e => (entryTexts params e.2).map fun text => pieceOf (e.1, text)

theorem renderQuery_eq {params : Params} {entries : List (Text × List Part)}
    (h : ∀ e ∈ entries, ∀ part ∈ e.2, part.Fits params) :
    renderQuery (argumentsOf params) entries = .ok (entryPieces params entries) := by
  induction entries with
  | nil => rfl
  | cons e rest ih =>
    rw [renderQuery, renderEntry_eq e.1 (h e (by simp)), ih fun f hf => h f (List.mem_cons_of_mem _ hf)]
    rfl

theorem renderLastQuery_append (args : Arguments) (pss : List (List Part)) (steps : List Step) :
    renderLastQuery args (pss.map Step.ofParts ++ steps) = renderLastQuery args steps := by
  induction pss with
  | nil => rfl
  | cons parts rest ih =>
    rw [List.map_cons, List.cons_append, ← ih]
    match parts with
    | [] => rfl
    | [_] => rfl
    | _ :: _ :: _ => rfl

theorem renderPaths_append {params : Params} {pss : List (List Part)} {steps : List Step}
    (h : ∀ parts ∈ pss, ∀ part ∈ parts, part.Fits params)
    (hsteps : renderPaths (argumentsOf params) steps = .ok []) :
    renderPaths (argumentsOf params) (pss.map Step.ofParts ++ steps) =
      .ok (pss.map fun parts => parts.flatMap (Part.text params)) := by
  induction pss with
  | nil => exact hsteps
  | cons parts rest ih =>
    rw [List.map_cons, List.cons_append, renderPaths, render_ofParts (h parts (by simp)),
      ih fun q hq => h q (List.mem_cons_of_mem _ hq)]
    rfl

namespace Pattern

variable {σ : Type}

def allParts (p : Pattern σ) : List Part := p.pathParts.flatten ++ p.queryParts.flatMap (·.2)

def pathText (p : Pattern σ) (params : Params) : Text :=
  joinPath (p.pathParts.map fun parts => parts.flatMap (Part.text params))

def queryText (p : Pattern σ) (params : Params) : Text :=
  Text.join ['&'] (entryPieces params p.queryParts)

namespace ReadSplit

variable {split : QuerySplit} {p : Pattern σ} {params : Params}

theorem captures_eq_allParts (h : ReadSplit split p) :
    (p.captures 0 false).map (·.1) = p.allParts.filterMap Part.capture? := h.captures_eq

theorem keys_eq (h : ReadSplit split p) :
    (p.captures 0 false).map (·.1.key) = (p.allParts.filterMap Part.capture?).map Capture.key := by
  rw [← h.captures_eq_allParts, List.map_map]
  rfl

theorem mem_captures (h : ReadSplit split p) {c : Capture} (hc : .capture c ∈ p.allParts) :
    c ∈ (p.captures 0 false).map (·.1) := by
  rw [h.captures_eq_allParts]
  exact List.mem_filterMap.mpr ⟨_, hc, rfl⟩

theorem sound_of_mem (h : ReadSplit split p) :
    ∀ parts ∈ p.pathParts, parts ≠ [] ∧ ∀ part ∈ parts, part.Sound := by
  intro parts hm
  rw [h.pathParts_eq] at hm
  obtain ⟨g, hg, rfl⟩ := List.mem_map.mp hm
  have hsimple := h.readPath.simple.1 g hg
  exact ⟨hsimple.nonempty, hsimple.sound⟩

theorem fits_allParts (h : ReadSplit split p)
    (hfits : ∀ c ∈ p.captures 0 false, c.1.Fits (Table.get? c.1.key params)) :
    ∀ part ∈ p.allParts, part.Fits params := by
  intro part hp
  cases part with
  | literal _ _ => trivial
  | capture c =>
    obtain ⟨d, hd, rfl⟩ := List.mem_map.mp (h.mem_captures hp)
    exact hfits d hd

/-- Parameters that fit the captures of a pattern are written. -/
theorem renderSteps_readSteps (h : ReadSplit split p)
    (hfits : ∀ c ∈ p.captures 0 false, c.1.Fits (Table.get? c.1.key params)) :
    renderSteps (argumentsOf params) p.readSteps =
      .ok (withQuery (p.pathText params) (p.queryText params)) := by
  have hall := h.fits_allParts hfits
  have hpath : ∀ parts ∈ p.pathParts, ∀ part ∈ parts, part.Fits params := fun parts hm part hp =>
    hall part (List.mem_append_left _ (List.mem_flatten.mpr ⟨parts, hm, hp⟩))
  have hentries : ∀ e ∈ p.queryParts, ∀ part ∈ e.2, part.Fits params := fun e he part hp =>
    hall part (List.mem_append_right _ (List.mem_flatMap.mpr ⟨e, he, hp⟩))
  have hblock : renderPaths (argumentsOf params) (blockSteps p) = .ok [] := by
    unfold blockSteps
    split <;> rfl
  have hquery : renderLastQuery (argumentsOf params) p.readSteps = .ok (p.queryText params) := by
    rw [readSteps, renderLastQuery_append, blockSteps]
    cases hb : p.rootBlock? with
    | none =>
      rw [queryText, h.queryParts_eq_nil hb]
      rfl
    | some es =>
      show (renderQuery (argumentsOf params) p.queryParts).map (Text.join ['&']) = _
      rw [renderQuery_eq hentries]
      rfl
  rw [renderSteps, hquery, readSteps, renderPaths_append hpath hblock]
  rfl

end ReadSplit

end Pattern

end RoutePattern
