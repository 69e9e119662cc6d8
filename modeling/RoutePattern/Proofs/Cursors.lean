import RoutePattern.Matcher

/-!
Cursors on a list of segments: what they have in front of them, and what a capture that has a segment of
its own takes from there. Parts of one segment take turns on its text.
-/

namespace RoutePattern

namespace Text

theorem after?_append (start rest : Text) : after? start (start ++ rest) = some rest := by
  have h : start.isPrefixOf (start ++ rest) = true := List.isPrefixOf_iff_prefix.mpr ⟨rest, rfl⟩
  rw [after?, if_pos h, List.drop_left]

theorem after?_eq_some {start text rest : Text} : after? start text = some rest ↔ text = start ++ rest := by
  constructor
  · intro h
    unfold after? at h
    split at h
    next hp =>
      obtain ⟨more, rfl⟩ := List.isPrefixOf_iff_prefix.mp hp
      obtain rfl : more = rest := by simpa using h
      rfl
    next => cases h
  · rintro rfl
    exact after?_append start rest

end Text

namespace Cursor

/-- The cursor behind the segments `done`, with `rest` in front of it. -/
def behind (done rest : List Text) : Cursor := ⟨done ++ rest, done.length, 0⟩

theorem placeOf_natCast {α : Type} (xs : List α) (n : Nat) : placeOf xs n = some n := by
  simp [placeOf]

theorem restFrom_natCast {α : Type} (xs : List α) (n : Nat) : restFrom xs n = xs.drop n := by
  rw [restFrom, placeOf_natCast]
  rfl

theorem head?_behind_nil (done : List Text) : (behind done []).head? = none := by
  simp [head?, behind, placeOf_natCast]

theorem head?_strip (done : List Text) (segment : Text) (rest : List Text) (n : Nat) :
    ((behind done (segment :: rest)).strip n).head? = some (segment.drop n) := by
  have hoffset : (0 : Int) + n = n := by omega
  simp [head?, strip, behind, placeOf_natCast, hoffset, restFrom_natCast]

theorem head?_behind_cons (done : List Text) (segment : Text) (rest : List Text) :
    (behind done (segment :: rest)).head? = some segment :=
  head?_strip done segment rest 0

theorem advance_strip (done : List Text) (segment : Text) (rest : List Text) (n : Int) :
    ((behind done (segment :: rest)).strip n).advance 1 = behind (done ++ [segment]) rest := by
  have hmin : min ((done.length : Int) + 1) ((done ++ segment :: rest).length : Int) = done.length + 1 := by
    rw [List.length_append, List.length_cons]
    omega
  rw [advance, strip, behind, behind]
  simp only [hmin]
  simp

theorem advance_behind (done : List Text) (segment : Text) (rest : List Text) :
    (behind done (segment :: rest)).advance 1 = behind (done ++ [segment]) rest :=
  advance_strip done segment rest 0

theorem remaining_strip (done : List Text) (segment : Text) (rest : List Text) (n : Nat) :
    ((behind done (segment :: rest)).strip n).remaining = segment.drop n :: rest := by
  have hindex : (done.length : Int) + 1 = ((done.length + 1 : Nat) : Int) := by omega
  rw [remaining, head?_strip]
  simp only [strip, behind]
  rw [hindex, restFrom_natCast]
  simp

theorem exhaust_strip (done rest : List Text) (n : Int) :
    ((behind done rest).strip n).exhaust = behind (done ++ rest) [] := by
  simp [exhaust, strip, behind]

theorem isExhausted_behind_iff {done rest : List Text} :
    (behind done rest).isExhausted = true ↔ rest = [] := by
  cases rest with
  | nil => simp [isExhausted, behind]
  | cons segment others =>
    simp only [isExhausted, behind, List.length_append, List.length_cons, decide_eq_true_eq,
      List.cons_ne_nil, iff_false]
    omega

theorem isExhausted_behind (done : List Text) : (behind done []).isExhausted = true :=
  isExhausted_behind_iff.mpr rfl

end Cursor

/-- What a capture that has a segment of its own takes of the segments in front of it, what it leaves, and
what it gives. A lead without a value behind it is taken too. -/
inductive Capture.Takes (c : Capture) : List Text → List Text → Params → Prop where
  | absent {left : List Text} (hoptional : c.optional = true)
      (hlead : ∀ segment ∈ left.head?, Text.after? c.lead segment = none) :
      c.Takes [] left (if c.multiple then [(c.key, .many [])] else [])
  | void {segment : Text} {left : List Text} (hoptional : c.optional = true)
      (hsingle : c.multiple = false) (hlead : Text.after? c.lead segment = some []) :
      c.Takes [segment] left []
  | one {segment value : Text} {left : List Text} (hsingle : c.multiple = false)
      (hlead : Text.after? c.lead segment = some value) (hne : value ≠ []) :
      c.Takes [segment] left [(c.key, .one value)]
  | many {segment value : Text} {others : List Text} (hmultiple : c.multiple = true)
      (hlead : Text.after? c.lead segment = some value)
      (hgiven : (value :: others).filter (!·.isEmpty) = [] → c.optional = true) :
      c.Takes (segment :: others) [] [(c.key, .many ((value :: others).filter (!·.isEmpty)))]

/-- How parts share the text of one segment, and what that gives. -/
inductive Shares : List Part → Text → Params → Prop where
  | done : Shares [] [] []
  | literal {parts : List Part} {rest : Text} {params : Params} (text : Text) (loose : Bool) :
      Shares parts rest params → Shares (.literal text loose :: parts) (text ++ rest) params
  | missing {parts : List Part} {rest : Text} {params : Params} (text : Text) :
      Shares parts rest params → Shares (.literal text true :: parts) rest params
  | absent {c : Capture} {parts : List Part} {rest : Text} {params : Params}
      (hoptional : c.optional = true) :
      Shares parts rest params → Shares (.capture c :: parts) rest params
  | void {c : Capture} {parts : List Part} {rest : Text} {params : Params}
      (hoptional : c.optional = true) :
      Shares parts rest params → Shares (.capture c :: parts) (c.lead ++ rest) params
  | taken {c : Capture} {parts : List Part} {value rest : Text} {params : Params}
      (hne : value ≠ []) : Shares parts rest params →
      Shares (.capture c :: parts) (c.lead ++ value ++ rest)
        (Table.putAll [(c.key, if c.multiple then .many [value] else .one value)] params)

open Cursor (behind)

theorem cutValue_eq {stop text value rest : Text} (h : cutValue stop text = (value, rest)) :
    text = value ++ rest := by
  unfold cutValue at h
  split at h
  · obtain ⟨rfl, rfl⟩ := Prod.mk.inj h
    rw [List.append_nil]
  · split at h
    · obtain ⟨rfl, rfl⟩ := Prod.mk.inj h
      rw [List.take_append_drop]
    · obtain ⟨rfl, rfl⟩ := Prod.mk.inj h
      rw [List.append_nil]

theorem shares_of_matchText {parts : List Part} {text : Text} {params : Params}
    (h : matchText parts text = some params) : Shares parts text params := by
  induction parts generalizing text params with
  | nil =>
    unfold matchText at h
    split at h
    next hempty =>
      obtain rfl : text = [] := by simpa using hempty
      obtain rfl := Option.some.inj h
      exact .done
    next => cases h
  | cons part parts ih =>
    unfold matchText at h
    cases part with
    | literal literal loose =>
      simp only at h
      split at h
      next rest hafter =>
        rw [Text.after?_eq_some.mp hafter]
        exact .literal literal loose (ih h)
      next =>
        cases loose with
        | true => exact .missing literal (ih h)
        | false => cases h
    | capture c =>
      simp only at h
      split at h
      next =>
        split at h
        next ho => exact .absent ho (ih h)
        next => cases h
      next body hafter =>
        cases hcut : cutValue (nextLeading parts) body with
        | mk value rest =>
          rw [Text.after?_eq_some.mp hafter, cutValue_eq hcut, ← List.append_assoc]
          simp only [hcut] at h
          split at h
          next hvalue =>
            obtain rfl : value = [] := by simpa using hvalue
            rw [List.append_nil]
            split at h
            next ho => exact .void ho (ih h)
            next => cases h
          next hvalue =>
            obtain ⟨others, hothers, rfl⟩ := Option.map_eq_some_iff.mp h
            exact .taken (by simpa using hvalue) (ih hothers)

theorem drop_of_after? {lead segment value : Text} (h : Text.after? lead segment = some value) :
    segment.drop lead.length = value := by
  rw [Text.after?_eq_some.mp h, List.drop_left]

theorem takes_of_matchCapture {c : Capture} {done rest : List Text} {params : Params} {last : Cursor}
    (h : matchCapture c (behind done rest) = some (params, last)) :
    ∃ used left, rest = used ++ left ∧ last = behind (done ++ used) left ∧ c.Takes used left params := by
  unfold matchCapture at h
  cases rest with
  | nil =>
    rw [Cursor.head?_behind_nil, Option.bind_none] at h
    simp only at h
    split at h
    next ho =>
      obtain ⟨rfl, rfl⟩ := Prod.mk.inj (Option.some.inj h)
      exact ⟨[], [], rfl, by simp, .absent ho (by simp)⟩
    next => cases h
  | cons segment others =>
    rw [Cursor.head?_behind_cons, Option.bind_some] at h
    cases hlead : Text.after? c.lead segment with
    | none =>
      simp only [hlead] at h
      split at h
      next ho =>
        obtain ⟨rfl, rfl⟩ := Prod.mk.inj (Option.some.inj h)
        exact ⟨[], segment :: others, rfl, by simp, .absent ho (by simpa using hlead)⟩
      next => cases h
    | some value =>
      simp only [hlead, Cursor.remaining_strip, Cursor.head?_strip, Cursor.exhaust_strip,
        Cursor.advance_strip, drop_of_after? hlead, Option.getD_some] at h
      split at h
      next hm =>
        split at h
        next => cases h
        next hgiven =>
          obtain ⟨rfl, rfl⟩ := Prod.mk.inj (Option.some.inj h)
          refine ⟨segment :: others, [], by simp, rfl, .many hm hlead fun hnil => ?_⟩
          simpa [hnil] using hgiven
      next hm =>
        have hm : c.multiple = false := by simpa using hm
        split at h
        next hvalue =>
          obtain rfl : value = [] := by simpa using hvalue
          split at h
          next ho =>
            obtain ⟨rfl, rfl⟩ := Prod.mk.inj (Option.some.inj h)
            exact ⟨[segment], others, rfl, rfl, .void ho hm hlead⟩
          next => cases h
        next hvalue =>
          obtain ⟨rfl, rfl⟩ := Prod.mk.inj (Option.some.inj h)
          exact ⟨[segment], others, rfl, rfl, .one hm hlead (by simpa using hvalue)⟩

theorem Capture.Takes.matchCapture {c : Capture} {used left : List Text} {params : Params}
    (h : c.Takes used left params) (done : List Text) :
    matchCapture c (behind done (used ++ left)) = some (params, behind (done ++ used) left) := by
  unfold RoutePattern.matchCapture
  cases h with
  | absent ho hlead =>
    cases left with
    | nil => simp [Cursor.head?_behind_nil, ho]
    | cons segment others =>
      have hlead : Text.after? c.lead segment = none := hlead segment rfl
      simp [Cursor.head?_behind_cons, hlead, ho]
  | void ho hm hlead =>
    simp [Cursor.head?_behind_cons, Cursor.head?_strip, Cursor.advance_strip, hlead, ho, hm,
      drop_of_after? hlead]
  | one hm hlead hne =>
    simp [Cursor.head?_behind_cons, Cursor.head?_strip, Cursor.advance_strip, hlead, hm, hne,
      drop_of_after? hlead]
  | @many segment value others hm hlead hgiven =>
    have hnil : (((value :: others).filter (!·.isEmpty)).isEmpty && !c.optional) = false := by
      cases hf : (value :: others).filter (!·.isEmpty) with
      | nil => simp [hgiven hf]
      | cons => rfl
    rw [List.append_nil, Cursor.head?_behind_cons, Option.bind_some, hlead]
    simp only [hm, Cursor.remaining_strip, Cursor.exhaust_strip, drop_of_after? hlead, hnil]
    rfl

end RoutePattern
