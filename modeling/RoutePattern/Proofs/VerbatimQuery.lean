import Mathlib.Algebra.BigOperators.Group.List.Basic
import Mathlib.Algebra.Order.BigOperators.Group.List
import Mathlib.Data.List.Perm.Subperm
import RoutePattern.Proofs.RoundTrip.QueryText

/-!
Pairs that a query gives back. A query is put together from its pairs as they stand, and is decoded where it
is read. All pairs come back just where no value holds anything that reading treats specially: a query that
is read as all of them has no room for anything else.
-/

namespace RoutePattern

namespace Text

theorem length_join (c : Char) {pieces : List Text} (hne : pieces ≠ []) :
    (join [c] pieces).length + 1 = (pieces.map List.length).sum + pieces.length := by
  induction pieces with
  | nil => contradiction
  | cons piece rest ih =>
    by_cases hr : rest = []
    · simp [hr, join]
    · have ih := ih hr
      rw [join_cons hr]
      simp only [List.length_append, List.length_cons, List.length_nil, List.map_cons, List.sum_cons]
      omega

theorem count_join (c : Char) {pieces : List Text} (hne : pieces ≠ []) :
    (join [c] pieces).count c + 1 = (pieces.map (List.count c)).sum + pieces.length := by
  induction pieces with
  | nil => contradiction
  | cons piece rest ih =>
    by_cases hr : rest = []
    · simp [hr, join]
    · have ih := ih hr
      rw [join_cons hr]
      simp only [List.count_append, List.count_singleton_self, List.map_cons, List.sum_cons,
        List.length_cons]
      omega

theorem mem_join {c x : Char} {piece : Text} {pieces : List Text} (hp : piece ∈ pieces) (hx : x ∈ piece) :
    x ∈ join [c] pieces := by
  induction pieces with
  | nil => simp at hp
  | cons first rest ih =>
    by_cases hr : rest = []
    · obtain rfl : piece = first := by simpa [hr] using hp
      simpa [hr, join] using hx
    · rw [join_cons hr, List.append_assoc]
      rcases List.mem_cons.mp hp with rfl | hm
      · exact List.mem_append_left _ hx
      · exact List.mem_append_right _ (List.mem_cons_of_mem _ (ih hm))

theorem sum_length_split (c : Char) (text : Text) :
    ((split c text).map List.length).sum + (split c text).length = text.length + 1 := by
  have hjoin := length_join c (split_ne_nil c text)
  rw [join_split] at hjoin
  exact hjoin.symm

theorem length_split (c : Char) (text : Text) : (split c text).length = text.count c + 1 := by
  have hjoin := count_join c (split_ne_nil c text)
  have hnone : ((split c text).map (List.count c)).sum = 0 := by
    refine List.sum_eq_zero fun n hn => ?_
    obtain ⟨piece, hpiece, rfl⟩ := List.mem_map.mp hn
    exact List.count_eq_zero.mpr (notMem_of_mem_split hpiece)
  rw [join_split, hnone, Nat.zero_add] at hjoin
  exact hjoin.symm

end Text

/-- A text that a query can hold as it stands. -/
structure Verbatim (text : Text) : Prop where
  ampersand : '&' ∉ text
  hash : '#' ∉ text
  plus : '+' ∉ text
  escape : holdsPercentEscape text = false

instance (text : Text) : Decidable (Verbatim text) :=
  decidable_of_iff ('&' ∉ text ∧ '#' ∉ text ∧ '+' ∉ text ∧ holdsPercentEscape text = false)
    ⟨fun h => ⟨h.1, h.2.1, h.2.2.1, h.2.2.2⟩, fun h => ⟨h.ampersand, h.hash, h.plus, h.escape⟩⟩

theorem Verbatim.decode_eq {text : Text} (h : Verbatim text) : decodeQueryText text = text :=
  decodeQueryText_eq_self_iff.mpr ⟨h.plus, h.escape⟩

/-- A pair with a value takes up its own length in the query that it is read from. -/
theorem length_pieceOf_le {piece : Text} (h : (decodeQueryPiece piece).2 ≠ []) :
    (pieceOf (decodeQueryPiece piece)).length ≤ piece.length := by
  unfold decodeQueryPiece at h ⊢
  split at h
  next key value hcut =>
    obtain ⟨rfl, -⟩ := Text.cut_eq_some hcut
    have hkey := length_decodeQueryText_le key
    have hvalue := length_decodeQueryText_le value
    simp only [pieceOf, List.length_append, List.length_cons]
    omega
  next => contradiction

def valuePairs (pieces : List Text) : List (Text × Text) :=
  ((pieces.filter (!·.isEmpty)).map decodeQueryPiece).filter (!·.2.isEmpty)

theorem sum_valuePairs_le (pieces : List Text) :
    ((valuePairs pieces).map fun pair => (pieceOf pair).length).sum ≤ (pieces.map List.length).sum := by
  induction pieces with
  | nil => exact Nat.le_refl 0
  | cons piece rest ih =>
    rw [List.map_cons, List.sum_cons]
    by_cases hdropped : piece = [] ∨ (decodeQueryPiece piece).2 = []
    · have hrest : valuePairs (piece :: rest) = valuePairs rest := by
        by_cases hpiece : piece = []
        · simp [valuePairs, hpiece]
        · simp [valuePairs, hpiece, hdropped.resolve_left hpiece]
      rw [hrest]
      omega
    · obtain ⟨hpiece, hvalue⟩ := not_or.mp hdropped
      have hrest : valuePairs (piece :: rest) = decodeQueryPiece piece :: valuePairs rest := by
        simp [valuePairs, hpiece, hvalue]
      have hle := length_pieceOf_le hvalue
      rw [hrest, List.map_cons, List.sum_cons]
      omega

theorem length_valuePairs_le (pieces : List Text) : (valuePairs pieces).length ≤ pieces.length := by
  have hfilter := List.length_filter_le (!·.isEmpty) pieces
  have hpairs := List.length_filter_le (!·.2.isEmpty)
    ((pieces.filter (!·.isEmpty)).map decodeQueryPiece)
  rw [List.length_map] at hpairs
  exact hpairs.trans hfilter

section Written

variable {pairs : List (Text × Text)}

theorem notMem_of_isAlpha {key : Text} (h : ∀ c ∈ key, c.isAlpha) {x : Char} (hx : x.isAlpha = false) :
    x ∉ key := by
  intro hmem
  simp [h x hmem] at hx

theorem decode_key {key : Text} (h : ∀ c ∈ key, c.isAlpha) : decodeQueryText key = key :=
  decodeQueryText_of_notMem (notMem_of_isAlpha h (by decide)) (notMem_of_isAlpha h (by decide))

theorem ampersand_notMem_pieceOf {pair : Text × Text} (hletters : ∀ c ∈ pair.1, c.isAlpha)
    (h : '&' ∉ pair.2) : '&' ∉ pieceOf pair := by
  have hkey : '&' ∉ pair.1 := notMem_of_isAlpha hletters (by decide)
  simp [pieceOf, hkey, h]

variable (hkeys : (pairs.map (·.1)).Nodup)
  (hvalues : ∀ pair ∈ pairs, pair.2 ≠ [])

include hkeys hvalues

/-- A text that is no longer than what was written for some pairs, and is read as all of them, has no
room for anything else. -/
theorem no_room {text : Text} (hnil : pairs ≠ [])
    (hle : text.length ≤ (Text.join ['&'] (pairs.map pieceOf)).length)
    (hread : ∀ pair ∈ pairs, pair ∈ queryPairs text) :
    text.length = (Text.join ['&'] (pairs.map pieceOf)).length ∧ text.count '&' + 1 = pairs.length := by
  have hsubset : pairs ⊆ valuePairs (Text.split '&' text) := by
    intro pair hpair
    exact List.mem_filter.mpr ⟨hread pair hpair, by simpa using hvalues pair hpair⟩
  -- different pairs are found at different pieces, which leaves no length to other pieces
  obtain ⟨found, hperm, hsublist⟩ := List.subperm_of_subset hkeys.of_map hsubset
  have hsum : (pairs.map fun pair => (pieceOf pair).length).sum ≤
      ((valuePairs (Text.split '&' text)).map fun pair => (pieceOf pair).length).sum := by
    rw [← (hperm.map _).sum_eq]
    exact (hsublist.map _).sum_le_sum fun _ _ => Nat.zero_le _
  have hcount : pairs.length ≤ (valuePairs (Text.split '&' text)).length := by
    rw [← hperm.length_eq]
    exact hsublist.length_le
  have hsumLe := sum_valuePairs_le (Text.split '&' text)
  have hcountLe := length_valuePairs_le (Text.split '&' text)
  have htext := Text.sum_length_split '&' text
  have hpairs : pairs.map pieceOf ≠ [] := by simpa using hnil
  have hjoin := Text.length_join '&' hpairs
  have hpieces := Text.length_split '&' text
  rw [List.map_map, List.length_map] at hjoin
  simp only [Function.comp_def] at hjoin
  omega

variable (hletters : ∀ pair ∈ pairs, ∀ c ∈ pair.1, c.isAlpha)

include hletters

/-- Pairs that are read back from what was written for them can be held by a query as they stand. -/
theorem verbatim_of_read
    (hread : ∀ pair ∈ pairs,
      pair ∈ queryPairs ((Text.join ['&'] (pairs.map pieceOf)).takeWhile (· != '#'))) :
    ∀ pair ∈ pairs, Verbatim pair.2 := by
  intro pair hpair
  have hnil : pairs ≠ [] := List.ne_nil_of_mem hpair
  have hpairs : pairs.map pieceOf ≠ [] := by simpa using hnil
  obtain ⟨hlength, hcount⟩ := no_room hkeys hvalues hnil
    (List.takeWhile_prefix _).length_le hread
  have hwhole : (Text.join ['&'] (pairs.map pieceOf)).takeWhile (· != '#') =
      Text.join ['&'] (pairs.map pieceOf) := (List.takeWhile_prefix _).eq_of_length hlength
  rw [hwhole] at hcount hread
  have hampersand : ∀ other ∈ pairs, '&' ∉ other.2 := by
    have hjoin := Text.count_join '&' hpairs
    rw [List.length_map, List.map_map] at hjoin
    have hsum : (pairs.map (List.count '&' ∘ pieceOf)).sum = 0 := by omega
    intro other hother hmem
    have hzero := List.sum_eq_zero_iff.mp hsum _ (List.mem_map_of_mem hother)
    exact List.count_eq_zero.mp hzero (by simp [pieceOf, hmem])
  have hhash : '#' ∉ pair.2 := by
    intro hmem
    have hin : '#' ∈ Text.join ['&'] (pairs.map pieceOf) :=
      Text.mem_join (List.mem_map_of_mem hpair) (by simp [pieceOf, hmem])
    have hnone := List.takeWhile_eq_self_iff.mp hwhole '#' hin
    simp at hnone
  have hdecoded : decodeQueryText pair.2 = pair.2 := by
    have hmem := hread pair hpair
    rw [queryPairs_join_pieceOf
      (fun other hother => notMem_of_isAlpha (hletters other hother) (by decide))
      (fun other hother =>
        ampersand_notMem_pieceOf (hletters other hother) (hampersand other hother))] at hmem
    obtain ⟨other, hother, heq⟩ := List.mem_map.mp hmem
    obtain ⟨hkey, hvalue⟩ := Prod.mk.inj heq
    rw [decode_key (hletters other hother)] at hkey
    obtain rfl := List.inj_on_of_nodup_map hkeys hother hpair hkey
    exact hvalue
  obtain ⟨hplus, hescape⟩ := decodeQueryText_eq_self_iff.mp hdecoded
  exact ⟨hampersand pair hpair, hhash, hplus, hescape⟩

omit hkeys hvalues in
/-- Pairs that a query can hold as they stand are read back from what is written for them. -/
theorem read_of_verbatim (h : ∀ pair ∈ pairs, Verbatim pair.2) :
    queryPairs ((Text.join ['&'] (pairs.map pieceOf)).takeWhile (· != '#')) = pairs := by
  have hhash : '#' ∉ Text.join ['&'] (pairs.map pieceOf) := by
    intro hmem
    rcases Text.mem_of_mem_join hmem with hmem | ⟨piece, hpiece, hmem⟩
    · simp at hmem
    · obtain ⟨pair, hpair, rfl⟩ := List.mem_map.mp hpiece
      have hkey : '#' ∉ pair.1 := notMem_of_isAlpha (hletters pair hpair) (by decide)
      simp [pieceOf, hkey, (h pair hpair).hash] at hmem
  have hwhole : (Text.join ['&'] (pairs.map pieceOf)).takeWhile (· != '#') =
      Text.join ['&'] (pairs.map pieceOf) := by
    refine List.takeWhile_eq_self_iff.mpr fun x hx => bne_iff_ne.mpr ?_
    rintro rfl
    exact hhash hx
  rw [hwhole, queryPairs_join_pieceOf
    (fun pair hpair => notMem_of_isAlpha (hletters pair hpair) (by decide))
    (fun pair hpair => ampersand_notMem_pieceOf (hletters pair hpair) (h pair hpair).ampersand)]
  refine (List.map_congr_left fun pair hpair => ?_).trans (List.map_id pairs)
  rw [decode_key (hletters pair hpair), (h pair hpair).decode_eq]
  rfl

end Written

end RoutePattern
