import RoutePattern.Proofs.Keys
import RoutePattern.Proofs.Reading.Layout
import RoutePattern.Proofs.StepCaptures

/-!
Parameters that fit a pattern: what every part writes for them, and what matching should give back.
-/

namespace RoutePattern

namespace Captured

def texts : Captured → List Text
  | one t => [t]
  | many ts => ts

def value : Captured → Value
  | one t => .text t
  | many ts => .list (ts.map .text)

end Captured

theorem get?_paramEntries (key : Key) (params : Params) :
    Table.get? key.value (Route.paramEntries params) = (Table.get? key params).map Captured.value := by
  induction params with
  | nil => rfl
  | cons e rest ih =>
    obtain ⟨k, captured⟩ := e
    have hcons : Route.paramEntries ((k, captured) :: rest) =
        (k.value, captured.value) :: Route.paramEntries rest := by
      cases captured <;> rfl
    rw [hcons, Table.get?, Key.value_beq, ih, Table.get?]
    by_cases h : k = key <;> simp [h]

namespace Part

def Fits (params : Params) : Part → Prop
  | literal _ _ => True
  | capture c => c.Fits (Table.get? c.key params)

def text (params : Params) : Part → Text
  | literal text _ => text
  | capture c =>
    match Table.get? c.key params with
    | none => []
    | some captured =>
      if captured.texts = [] then [] else c.lead ++ Text.join ['/'] captured.texts

def values (params : Params) : Part → List Text
  | literal text _ => [text]
  | capture c => ((Table.get? c.key params).map Captured.texts).getD [] |>.map (c.lead ++ ·)

/-- What matching gives back for a part: an empty list for a repetition that was left out. -/
def answer (params : Params) : Part → Params
  | literal _ _ => []
  | capture c =>
    match Table.get? c.key params with
    | some captured => [(c.key, captured)]
    | none => if c.multiple then [(c.key, .many [])] else []

/-- The character stands in the fixed text of the part or in its value. -/
def Uses (params : Params) (x : Char) : Part → Prop
  | literal text _ => x ∈ text
  | capture c => x ∈ c.lead ∨ ∃ captured ∈ Table.get? c.key params, ∃ t ∈ captured.texts, x ∈ t

instance (params : Params) (x : Char) : DecidablePred (Uses params x)
  | literal _ _ => inferInstanceAs (Decidable (_ ∈ _))
  | capture _ => inferInstanceAs (Decidable (_ ∨ _))

/-- None of the characters stands in the part. -/
def Avoids (params : Params) (xs : List Char) (part : Part) : Prop :=
  ∀ x ∈ xs, ¬ part.Uses params x

-- the instance is spelled out: another one runs through all characters there are
instance (params : Params) (xs : List Char) : DecidablePred (Avoids params xs) :=
  fun part => List.decidableBAll (fun x => ¬ part.Uses params x) xs

def IsFixed : Part → Prop
  | literal _ _ => True
  | capture c => c.optional = false ∧ c.multiple = false

instance : DecidablePred IsFixed
  | literal _ _ => isTrue trivial
  | capture _ => inferInstanceAs (Decidable (_ ∧ _))

end Part

theorem text_of_value {params : Params} {c : Capture} {t : Text}
    (h : Table.get? c.key params = some (.one t)) : (Part.capture c).text params = c.lead ++ t := by
  simp [Part.text, h, Captured.texts, Text.join]

/-- The parameters as they are given to be rendered. -/
def argumentsOf (params : Params) : Arguments := .map (Route.paramEntries params)

theorem argument_eq (key : Key) (params : Params) :
    argument key (argumentsOf params) =
      .ok (((Table.get? key params).map Captured.value).getD .null) := by
  rw [argumentsOf, argument, get?_paramEntries]

theorem itemTexts_texts {ts : List Text} (h : ∀ t ∈ ts, t ≠ []) :
    itemTexts (ts.map .text) = .ok ts := by
  induction ts with
  | nil => rfl
  | cons t rest ih =>
    have ht : t.isEmpty = false := by simpa using h t (by simp)
    rw [List.map_cons, itemTexts, ih fun u hu => h u (List.mem_cons_of_mem _ hu)]
    · simp [Value.textOf, Value.write, Except.mapError, bind, Except.bind, pure, Except.pure, ht]
    · simp

theorem repeatedTexts_eq {c : Capture} {params : Params} (hm : c.multiple = true)
    (h : c.Fits (Table.get? c.key params)) :
    repeatedTexts c (argumentsOf params) =
      .ok (((Table.get? c.key params).map Captured.texts).getD []) := by
  unfold repeatedTexts
  rw [argument_eq]
  rcases h.cases with ⟨hg, ho⟩ | ⟨t, -, hsingle, -⟩ | ⟨ts, hg, -, hne, hnil⟩
  · simp [hg, bind, Except.bind, ho]
  · simp [hm] at hsingle
  · have hgiven : (ts.isEmpty && !c.optional) = false := by
      by_cases ht : ts = []
      · simp [hnil ht]
      · simp [ht]
    simp [hg, bind, Except.bind, Captured.value, Captured.texts, Value.items?, itemTexts_texts hne,
      Except.mapError, hgiven, pure, Except.pure]

theorem singleText_eq {c : Capture} {params : Params} (hm : c.multiple = false)
    (h : c.Fits (Table.get? c.key params)) :
    singleText c (argumentsOf params) =
      .ok ((Table.get? c.key params).bind fun captured => captured.texts.head?) := by
  unfold singleText
  rw [argument_eq]
  rcases h.cases with ⟨hg, ho⟩ | ⟨t, hg, -, hne⟩ | ⟨ts, -, hrepeated, -, -⟩
  · simp [hg, bind, Except.bind, ho]
  · simp [hg, bind, Except.bind, Captured.value, Captured.texts, Value.items?, Value.textOf, Value.write,
      Except.mapError, hne, pure, Except.pure]
  · simp [hm] at hrepeated

theorem renderPart_eq {params : Params} {part : Part} (h : part.Fits params) :
    renderPart (argumentsOf params) part = .ok (part.text params) := by
  cases part with
  | literal text optional => rfl
  | capture c =>
    have hfits : c.Fits (Table.get? c.key params) := h
    cases hm : c.multiple with
    | true =>
      rw [renderPart, if_pos hm, repeatedTexts_eq hm hfits, Part.text]
      cases Table.get? c.key params with
      | none => rfl
      | some captured => simp [Except.map]
    | false =>
      rw [renderPart, if_neg (by simp [hm]), singleText_eq hm hfits, Part.text]
      rcases hfits.cases with ⟨hg, -⟩ | ⟨t, hg, -, -⟩ | ⟨ts, -, hrepeated, -, -⟩
      · rw [hg]
        rfl
      · simp [hg, Except.map, Captured.texts, Text.join]
      · simp [hm] at hrepeated

theorem renderParts_eq {params : Params} {parts : List Part} (h : ∀ part ∈ parts, part.Fits params) :
    renderParts (argumentsOf params) parts = .ok (parts.flatMap (Part.text params)) := by
  induction parts with
  | nil => rfl
  | cons part rest ih =>
    rw [renderParts, renderPart_eq (h part (by simp)), ih fun q hq => h q (List.mem_cons_of_mem _ hq)]
    rfl

theorem render_ofParts {params : Params} {parts : List Part} (h : ∀ part ∈ parts, part.Fits params) :
    (Step.ofParts parts).render (argumentsOf params) = .ok [parts.flatMap (Part.text params)] := by
  match parts with
  | [] => rfl
  | [part] =>
    rw [Step.ofParts, Step.render, renderPart_eq (h part (by simp))]
    simp [Except.map]
  | first :: second :: rest =>
    rw [Step.ofParts, Step.render, renderParts_eq h]
    · rfl
    · simp

end RoutePattern
