import Mathlib.Data.List.DropRight
import Mathlib.Data.List.Induction
import RoutePattern.Pattern.Path
import RoutePattern.Target

/-!
Paths put together and taken apart: joining parts is appending their joined forms, and the segments
of a joined path are those of its parts.
-/

namespace RoutePattern

namespace Text

theorem trim_eq_rdropWhile (c : Char) (text : Text) :
    trim c text = (text.dropWhile (· == c)).rdropWhile (· == c) := rfl

theorem trim_eq_self {c : Char} {text : Text} (hh : text.head? ≠ some c)
    (hl : text.getLast? ≠ some c) : trim c text = text := by
  have hd : text.dropWhile (· == c) = text := by
    cases text with
    | nil => rfl
    | cons x rest =>
      have hx : x ≠ c := by simpa using hh
      simp [hx]
  rw [trim_eq_rdropWhile, hd, List.rdropWhile_eq_self_iff]
  intro hne
  simpa [List.getLast?_eq_some_getLast hne] using hl

theorem trim_of_notMem {c : Char} {text : Text} (h : c ∉ text) : trim c text = text := by
  apply trim_eq_self
  · exact fun hh => h (List.mem_of_mem_head? hh)
  · exact fun hl => h (List.mem_of_getLast? hl)

theorem trim_cons_self (c : Char) (text : Text) : trim c (c :: text) = trim c text := by
  simp [trim]

theorem head?_trim (c : Char) (text : Text) : (trim c text).head? ≠ some c := by
  intro h
  have hpre : trim c text <+: text.dropWhile (· == c) := List.rdropWhile_prefix _ _
  have hd : (text.dropWhile (· == c)).head? = some c := by
    obtain ⟨rest, hr⟩ := hpre
    rw [← hr, List.head?_append, h]
    rfl
  have := List.head?_dropWhile_not (· == c) text
  simp [hd] at this

theorem getLast?_trim (c : Char) (text : Text) : (trim c text).getLast? ≠ some c := by
  intro h
  rw [trim_eq_rdropWhile] at h
  have hne : (text.dropWhile (· == c)).rdropWhile (· == c) ≠ [] := by
    intro he
    simp [he] at h
  have := List.rdropWhile_last_not (· == c) (text.dropWhile (· == c)) hne
  rw [List.getLast?_eq_some_getLast hne] at h
  simp_all

theorem mem_of_mem_trim {c x : Char} {text : Text} (h : x ∈ trim c text) : x ∈ text :=
  (List.dropWhile_sublist _).subset ((List.rdropWhile_prefix _ _).subset h)

theorem trim_eq_nil_iff {c : Char} {text : Text} : trim c text = [] ↔ ∀ x ∈ text, x = c := by
  rw [trim_eq_rdropWhile, List.rdropWhile_eq_nil_iff]
  constructor
  · intro hdropped x hx
    rw [← List.takeWhile_append_dropWhile (p := (· == c)) (l := text)] at hx
    rcases List.mem_append.mp hx with hx | hx
    · simpa using List.mem_takeWhile_imp hx
    · simpa using hdropped x hx
  · intro h x hx
    simpa using h x ((List.dropWhile_sublist _).subset hx)

theorem split_ne_nil (c : Char) (text : Text) : split c text ≠ [] := by
  cases text with
  | nil => simp [split]
  | cons x rest =>
    unfold split
    split
    next => simp
    next => split <;> simp

theorem split_append_cons (c : Char) (before after : Text) :
    split c (before ++ c :: after) = split c before ++ split c after := by
  induction before with
  | nil => simp [split]
  | cons x rest ih =>
    by_cases hx : x = c
    · simp [split, hx, ih]
    · obtain ⟨piece, pieces, hp⟩ := List.exists_cons_of_ne_nil (split_ne_nil c rest)
      simp [split, hx, ih, hp]

theorem split_of_notMem {c : Char} {text : Text} (h : c ∉ text) : split c text = [text] := by
  induction text with
  | nil => rfl
  | cons x rest ih =>
    have hx : x ≠ c := fun he => h (by simp [he])
    simp [split, hx, ih (fun hm => h (by simp [hm]))]

theorem notMem_of_mem_split {c : Char} {text piece : Text} (h : piece ∈ split c text) :
    c ∉ piece := by
  induction text generalizing piece with
  | nil =>
    have : piece = [] := by simpa [split] using h
    simp [this]
  | cons x rest ih =>
    by_cases hx : x = c
    · rcases List.mem_cons.mp (by simpa [split, hx] using h) with rfl | hm
      · simp
      · exact ih hm
    · obtain ⟨first, others, hp⟩ := List.exists_cons_of_ne_nil (split_ne_nil c rest)
      rcases List.mem_cons.mp (by simpa [split, hx, hp] using h) with rfl | hm
      · have hfirst : c ∉ first := ih (by simp [hp])
        simpa [Ne.symm hx] using hfirst
      · exact ih (by simp [hp, hm])

theorem mem_of_mem_split {c x : Char} {text piece : Text} (h : piece ∈ split c text)
    (hx : x ∈ piece) : x ∈ text := by
  induction text generalizing piece with
  | nil =>
    have : piece = [] := by simpa [split] using h
    simp [this] at hx
  | cons y rest ih =>
    by_cases hy : y = c
    · rcases List.mem_cons.mp (by simpa [split, hy] using h) with rfl | hm
      · simp at hx
      · exact List.mem_cons_of_mem _ (ih hm hx)
    · obtain ⟨first, others, hp⟩ := List.exists_cons_of_ne_nil (split_ne_nil c rest)
      rcases List.mem_cons.mp (by simpa [split, hy, hp] using h) with rfl | hm
      · rcases List.mem_cons.mp hx with rfl | hx
        · simp
        · have hfirst : first ∈ split c rest := by simp [hp]
          exact List.mem_cons_of_mem _ (ih hfirst hx)
      · exact List.mem_cons_of_mem _ (ih (by simp [hp, hm]) hx)

theorem join_cons {separator : Text} {piece : Text} {pieces : List Text} (h : pieces ≠ []) :
    join separator (piece :: pieces) = piece ++ separator ++ join separator pieces :=
  List.intercalate_cons_of_ne_nil h

theorem mem_of_mem_join {separator : Text} {pieces : List Text} {x : Char}
    (h : x ∈ join separator pieces) : x ∈ separator ∨ ∃ piece ∈ pieces, x ∈ piece := by
  induction pieces with
  | nil => simp [join] at h
  | cons piece rest ih =>
    by_cases hr : rest = []
    · exact .inr ⟨piece, by simp, by simpa [hr, join] using h⟩
    · rw [join_cons hr] at h
      rcases List.mem_append.mp h with h | h
      · rcases List.mem_append.mp h with h | h
        · exact .inr ⟨piece, by simp, h⟩
        · exact .inl h
      · rcases ih h with h | ⟨other, ho, hx⟩
        · exact .inl h
        · exact .inr ⟨other, List.mem_cons_of_mem _ ho, hx⟩

theorem join_split (c : Char) (text : Text) : join [c] (split c text) = text := by
  induction text with
  | nil => simp [split, join]
  | cons x rest ih =>
    by_cases hx : x = c
    · rw [split, if_pos hx, join_cons (split_ne_nil c rest), ih, hx]
      rfl
    · obtain ⟨piece, pieces, hp⟩ := List.exists_cons_of_ne_nil (split_ne_nil c rest)
      rw [hp] at ih
      have hjoin : join [c] ((x :: piece) :: pieces) = x :: join [c] (piece :: pieces) := by
        cases pieces with
        | nil => simp [join]
        | cons next others => simp [join_cons]
      rw [split, if_neg hx, hp, hjoin, ih]

/-- Pieces that do not hold the separator come apart where they were put together. -/
theorem split_join {c : Char} {pieces : List Text} (hne : pieces ≠ [])
    (h : ∀ piece ∈ pieces, c ∉ piece) : split c (join [c] pieces) = pieces := by
  induction pieces with
  | nil => contradiction
  | cons piece rest ih =>
    have hpiece : c ∉ piece := h piece (by simp)
    by_cases hr : rest = []
    · simp [hr, join, split_of_notMem hpiece]
    · rw [join_cons hr, List.append_assoc, List.singleton_append, split_append_cons,
        split_of_notMem hpiece, ih hr fun p hp => h p (List.mem_cons_of_mem _ hp)]
      rfl

end Text

@[simp] theorem splitPath_nil : splitPath [] = [] := rfl

theorem splitPath_append_slash (before after : Text) :
    splitPath (before ++ '/' :: after) = splitPath before ++ splitPath after := by
  simp [splitPath, Text.split_append_cons]

@[simp] theorem splitPath_slash_cons (text : Text) : splitPath ('/' :: text) = splitPath text := by
  simpa using splitPath_append_slash [] text

theorem splitPath_of_notMem {text : Text} (hne : text ≠ []) (h : '/' ∉ text) :
    splitPath text = [text] := by
  simp [splitPath, Text.split_of_notMem h, hne]

theorem slash_notMem_of_mem_splitPath {text segment : Text} (h : segment ∈ splitPath text) :
    '/' ∉ segment :=
  Text.notMem_of_mem_split (List.mem_filter.mp h).1

theorem ne_nil_of_mem_splitPath {text segment : Text} (h : segment ∈ splitPath text) :
    segment ≠ [] := by
  simpa using (List.mem_filter.mp h).2

theorem mem_of_mem_splitPath {x : Char} {text segment : Text} (h : segment ∈ splitPath text)
    (hx : x ∈ segment) : x ∈ text :=
  Text.mem_of_mem_split (List.mem_filter.mp h).1 hx

theorem splitPath_dropWhile (text : Text) :
    splitPath (text.dropWhile (· == '/')) = splitPath text := by
  induction text with
  | nil => rfl
  | cons c rest ih =>
    by_cases hc : c = '/'
    · simp [hc, ih]
    · simp [hc]

theorem splitPath_rdropWhile (text : Text) :
    splitPath (text.rdropWhile (· == '/')) = splitPath text := by
  induction text using List.reverseRecOn with
  | nil => rfl
  | append_singleton rest c ih =>
    rw [List.rdropWhile_concat]
    by_cases hc : c = '/'
    · rw [if_pos (by simp [hc]), ih, hc, splitPath_append_slash]
      simp
    · rw [if_neg (by simp [hc])]

theorem splitPath_trim (text : Text) : splitPath (Text.trim '/' text) = splitPath text := by
  rw [Text.trim_eq_rdropWhile, splitPath_rdropWhile, splitPath_dropWhile]

@[simp] theorem joinPath_nil : joinPath [] = [] := rfl

theorem joinPath_append (front back : List Text) :
    joinPath (front ++ back) = joinPath front ++ joinPath back := by
  simp [joinPath]

theorem joinPath_cons (part : Text) (parts : List Text) :
    joinPath (part :: parts) = joinPath [part] ++ joinPath parts :=
  joinPath_append [part] parts

theorem joinPath_singleton (part : Text) :
    joinPath [part] = if Text.trim '/' part = [] then [] else '/' :: Text.trim '/' part := by
  by_cases h : Text.trim '/' part = [] <;> simp [joinPath, h]

theorem joinPath_slashes {part : Text} (h : part.all (· == '/')) : joinPath [part] = [] := by
  have : part.dropWhile (· == '/') = [] := by
    simpa [List.dropWhile_eq_nil_iff] using h
  simp [joinPath_singleton, Text.trim, this]

/-- Parts without slashes stand in a joined path as they are, each behind a slash. -/
theorem joinPath_of_clean {parts : List Text} (h : ∀ part ∈ parts, part ≠ [] ∧ '/' ∉ part) :
    joinPath parts = parts.flatMap ('/' :: ·) := by
  induction parts with
  | nil => rfl
  | cons part rest ih =>
    obtain ⟨hne, hs⟩ := h part (by simp)
    rw [joinPath_cons, ih (fun p hp => h p (by simp [hp])), joinPath_singleton,
      Text.trim_of_notMem hs, if_neg hne]
    rfl

theorem getLast?_joinPath (parts : List Text) : (joinPath parts).getLast? ≠ some '/' := by
  induction parts using List.reverseRecOn with
  | nil => simp
  | append_singleton rest part ih =>
    rw [joinPath_append, joinPath_singleton]
    by_cases h : Text.trim '/' part = []
    · simpa [h] using ih
    · have hl := Text.getLast?_trim '/' part
      rw [List.getLast?_eq_some_getLast h] at hl
      simpa [h, List.getLast?_append, List.getLast?_cons, List.getLast?_eq_some_getLast h] using hl

theorem joinPath_eq_nil_or_cons (parts : List Text) :
    joinPath parts = [] ∨ ∃ rest, joinPath parts = '/' :: rest ∧ rest ≠ [] ∧ rest.head? ≠ some '/' := by
  induction parts with
  | nil => exact .inl rfl
  | cons part rest ih =>
    rw [joinPath_cons, joinPath_singleton]
    by_cases h : Text.trim '/' part = []
    · simpa [h] using ih
    · refine .inr ⟨Text.trim '/' part ++ joinPath rest, by simp [h], by simp [h], ?_⟩
      obtain ⟨x, xs, hx⟩ := List.exists_cons_of_ne_nil h
      simpa [hx] using Text.head?_trim '/' part

theorem joinPath_joinPath (parts : List Text) : joinPath [joinPath parts] = joinPath parts := by
  rcases joinPath_eq_nil_or_cons parts with h | ⟨rest, h, hne, hh⟩
  · rw [h, joinPath_slashes rfl]
  · have hl : rest.getLast? ≠ some '/' := by
      have := getLast?_joinPath parts
      rw [h, List.getLast?_cons] at this
      rw [List.getLast?_eq_some_getLast hne] at this ⊢
      simpa using this
    rw [h, joinPath_singleton, Text.trim_cons_self, Text.trim_eq_self hh hl, if_neg hne]

theorem splitPath_joinPath (parts : List Text) :
    splitPath (joinPath parts) = parts.flatMap splitPath := by
  induction parts using List.reverseRecOn with
  | nil => rfl
  | append_singleton rest part ih =>
    rw [joinPath_append, joinPath_singleton, List.flatMap_append, ← ih]
    by_cases h : Text.trim '/' part = []
    · simp [h, ← splitPath_trim part]
    · rw [if_neg h, splitPath_append_slash, splitPath_trim]
      simp

@[simp] theorem splitPath_orRoot (path : Text) : splitPath (orRoot path) = splitPath path := by
  unfold orRoot
  split
  next h => simp [List.isEmpty_iff.mp h]
  next => rfl

theorem orRoot_ne_nil (path : Text) : orRoot path ≠ [] := by
  unfold orRoot
  split <;> simp_all

theorem joinPath_eq_nil_iff {parts : List Text} : joinPath parts = [] ↔ ∀ part ∈ parts, ∀ c ∈ part, c = '/' := by
  induction parts with
  | nil => simp
  | cons part rest ih =>
    rw [joinPath_cons, List.append_eq_nil_iff, ih, List.forall_mem_cons, ← Text.trim_eq_nil_iff, joinPath_singleton]
    by_cases h : Text.trim '/' part = [] <;> simp [h]

theorem joinPath_map_joinPath (paths : List (List Text)) :
    joinPath (paths.map joinPath) = joinPath paths.flatten := by
  induction paths with
  | nil => rfl
  | cons path rest ih =>
    calc joinPath ((path :: rest).map joinPath)
      _ = joinPath [joinPath path] ++ joinPath (rest.map joinPath) := joinPath_cons _ _
      _ = joinPath path ++ joinPath rest.flatten := by rw [joinPath_joinPath, ih]
      _ = joinPath (path :: rest).flatten := (joinPath_append _ _).symm

/-- Paths joined once more give the path of all their parts, whose segments are those of the parts in their order.
Such a path starts with a slash and does not end with one, unless it is empty for want of any other character. -/
theorem joinPath_nested (xs ys : List Text) :
    joinPath [joinPath xs, joinPath ys] = joinPath (xs ++ ys) ∧
    splitPath (joinPath xs) = xs.flatMap splitPath ∧
    (joinPath xs ≠ [] → (joinPath xs).head? = some '/' ∧ (joinPath xs).getLast? ≠ some '/') ∧
    (joinPath xs = [] ↔ ∀ x ∈ xs, ∀ c ∈ x, c = '/') := by
  refine ⟨?_, splitPath_joinPath xs, fun hne => ⟨?_, getLast?_joinPath xs⟩, joinPath_eq_nil_iff⟩
  · simpa using joinPath_map_joinPath [xs, ys]
  · obtain ⟨rest, hrest, -⟩ := (joinPath_eq_nil_or_cons xs).resolve_left hne
    rw [hrest]
    rfl

theorem joinPath_nested_slashes :
    let xs : List Text := ["//a//b/".toList, "".toList, "///".toList, "c".toList]
    joinPath xs ≠ [] ∧ (joinPath xs).head? = some '/' ∧ (joinPath xs).getLast? ≠ some '/' := by
  intro xs
  have hne : joinPath xs ≠ [] := by decide
  obtain ⟨-, -, hends, -⟩ := joinPath_nested xs ["/d/".toList]
  exact ⟨hne, hends hne⟩

end RoutePattern
