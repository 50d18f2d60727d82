import ScriptRunner.Path
import ScriptRunner.Proofs.Text.Split

/-!
# Paths in normal form

A path is in normal form if it starts at a root and its segments name folders and files only: none
of them is empty, the folder itself or the folder above. Such a path comes back from its text, and
normalization leaves it as it is.

## Main definitions

* `IsOrdinary` - a segment that names a folder or a file.
* `Path.IsNormal` - a path in normal form.

## Main statements

* `Path.ofString_pieces` - what is read from slashes and pieces.
* `Path.IsNormal.ofString_toString` - a path in normal form is read back.
* `Path.IsNormal.normalize_eq_self` - a path in normal form stays as it is.
-/

namespace ScriptRunner

/-- A segment that names a folder or a file below the one before it. -/
structure IsOrdinary (segment : String) : Prop where
  ne_empty : segment ≠ ""
  slash_not_mem : '/' ∉ segment.toList
  ne_self : segment ≠ "."
  ne_above : segment ≠ ".."

instance (segment : String) : Decidable (IsOrdinary segment) :=
  decidable_of_iff
    (segment ≠ "" ∧ '/' ∉ segment.toList ∧ segment ≠ "." ∧ segment ≠ "..")
    ⟨fun ⟨h, h', h'', h'''⟩ => ⟨h, h', h'', h'''⟩, fun ⟨h, h', h'', h'''⟩ => ⟨h, h', h'', h'''⟩⟩

theorem IsOrdinary.isSegment {segment : String} (h : IsOrdinary segment) :
    Path.isSegment segment.toList = true := by
  have hempty : segment.toList ≠ [] := fun heq => h.ne_empty (String.toList_eq_nil_iff.1 heq)
  have hself : segment.toList ≠ ['.'] := fun heq => h.ne_self (String.toList_injective heq)
  simp [Path.isSegment, hempty, hself]

namespace Path

/-- A path from a root whose segments are all ordinary. -/
structure IsNormal (p : Path) : Prop where
  absolute : p.anchor ≠ .relative
  ordinary : ∀ segment ∈ p.segments, IsOrdinary segment

/-- Segments that do not lead upwards are pushed one upon the other. -/
theorem foldl_push (segments stack : List String) (h : ".." ∉ segments) :
    segments.foldl push stack = segments.reverse ++ stack := by
  induction segments generalizing stack with
  | nil => rfl
  | cons segment segments ih =>
    obtain ⟨hsegment, hrest⟩ := not_or.1 (mt List.mem_cons.2 h)
    rw [List.foldl_cons, ih _ hrest, push, if_neg (Ne.symm hsegment)]
    simp

theorem collapse_eq_self {segments : List String} (h : ".." ∉ segments) :
    collapse segments = segments := by
  rw [collapse, foldl_push segments [] h, List.append_nil, List.reverse_reverse]

/-- A path from a root does not depend on the folder from which it is read. -/
theorem join_of_absolute {p : Path} (h : p.anchor ≠ .relative) (base : Path) : base.join p = p := by
  cases hanchor : p.anchor with
  | relative => exact absurd hanchor h
  | root | doubleRoot => simp [join, hanchor]

theorem IsNormal.normalize_eq_self {p : Path} (h : p.IsNormal) (cwd : Path) :
    normalize cwd p = p := by
  have habove : ".." ∉ p.segments := fun hmem => (h.ordinary _ hmem).ne_above rfl
  simp only [normalize, join_of_absolute h.absolute, collapse_eq_self habove]

/-- The anchor that a number of leading slashes denotes. -/
def anchorOfSlashes : Nat → Anchor
  | 0 => .relative
  | 2 => .doubleRoot
  | _ => .root

theorem anchorOf_replicate (slashes : Nat) {rest : List Char} (h : rest.head? ≠ some '/') :
    anchorOf (List.replicate slashes '/' ++ rest) = anchorOfSlashes slashes := by
  cases rest with
  | nil => match slashes with
    | 0 | 1 | 2 => rfl
    | n + 3 => rfl
  | cons c cs =>
    have hc : c ≠ '/' := fun heq => h (congrArg some heq)
    match slashes with
    | 0 | 1 | 2 => simp_all [anchorOf, anchorOfSlashes, List.replicate_succ]
    | n + 3 => rfl

/-- There is nothing between leading slashes. -/
theorem filter_splitWhere_replicate (slashes : Nat) (rest : List Char) :
    (Text.splitWhere (· == '/') (List.replicate slashes '/' ++ rest)).filter isSegment =
      (Text.splitWhere (· == '/') rest).filter isSegment := by
  induction slashes with
  | zero => rfl
  | succ n ih =>
    have hempty : isSegment [] = false := rfl
    rw [List.replicate_succ, List.cons_append, ← ih]
    simp [Text.splitWhere, hempty]

/-- Pieces that are put together with slashes are cut at the slashes again. -/
theorem filter_splitWhere_intercalate {pieces : List String}
    (h : ∀ piece ∈ pieces, '/' ∉ piece.toList) :
    ((Text.splitWhere (· == '/') ("/".intercalate pieces).toList).filter isSegment).map
      String.ofList = pieces.filter (isSegment ·.toList) := by
  by_cases hne : pieces = []
  · rw [hne]
    rfl
  · rw [show "/" = String.singleton '/' from rfl, Text.splitWhere_intercalate hne h,
      List.filter_map, List.map_map]
    simp [Function.comp_def]

/-- Pieces that begin with a piece do not add to the slashes in front of them. -/
theorem head?_intercalate_ne {pieces : List String} (h : ∀ piece ∈ pieces, '/' ∉ piece.toList)
    (hfirst : pieces.head? ≠ some "") : ("/".intercalate pieces).toList.head? ≠ some '/' := by
  cases pieces with
  | nil => simp
  | cons first rest =>
    have hne : first.toList ≠ [] := fun heq =>
      hfirst (congrArg some (String.toList_eq_nil_iff.1 heq))
    obtain ⟨c, cs, hcs⟩ := List.exists_cons_of_ne_nil hne
    have hc : c ≠ '/' := fun heq =>
      h first List.mem_cons_self (by rw [hcs, heq]; exact List.mem_cons_self)
    cases rest <;> simp [String.toList_intercalate, List.intercalate, hcs, hc]

/-- A path is read from leading slashes and from pieces with slashes between them. -/
theorem ofString_pieces (slashes : Nat) {pieces : List String}
    (h : ∀ piece ∈ pieces, '/' ∉ piece.toList) (hfirst : pieces.head? ≠ some "") :
    ofString (String.ofList (List.replicate slashes '/') ++ "/".intercalate pieces) =
      ⟨anchorOfSlashes slashes, pieces.filter (isSegment ·.toList)⟩ := by
  rw [ofString, String.toList_append, String.toList_ofList,
    anchorOf_replicate slashes (head?_intercalate_ne h hfirst), filter_splitWhere_replicate,
    filter_splitWhere_intercalate h]

/-- A path in normal form is read back from its text. -/
theorem IsNormal.ofString_toString {p : Path} (h : p.IsNormal) : ofString p.toString = p := by
  obtain ⟨anchor, segments⟩ := p
  obtain ⟨habsolute, hordinary⟩ := h
  have hsegments : segments.filter (isSegment ·.toList) = segments :=
    List.filter_eq_self.2 fun segment hsegment => (hordinary segment hsegment).isSegment
  have hfirst : segments.head? ≠ some "" := fun heq =>
    (hordinary "" (List.mem_of_head? heq)).ne_empty rfl
  have hread (slashes : Nat) :=
    ofString_pieces slashes (fun segment hsegment => (hordinary segment hsegment).slash_not_mem)
      hfirst
  rw [hsegments] at hread
  cases anchor with
  | relative => exact absurd rfl habsolute
  | root => exact hread 1
  | doubleRoot => exact hread 2

/-- Normalization leaves the text of a path in normal form as it is. -/
theorem IsNormal.normalize_ofString {p : Path} (h : p.IsNormal) (cwd : Path) :
    normalize cwd (ofString p.toString) = p := by
  rw [h.ofString_toString, h.normalize_eq_self]

end Path

end ScriptRunner
