import Mathlib.Logic.Relation
import ScriptRunner.Proofs.Path

/-!
# Spellings of a path

A path can be written in many ways. Behind the slashes at its beginning there may be pieces that
lead back to where they begin: a dot, nothing at all between two slashes, or a folder and the way
out of it. Such a detour makes no difference to the normal form of the path, because it leaves every
stack of folders as it was.

## Main definitions

* `Path.IsRead` - a path as reading leaves it.
* `Path.ActAlike` - two paths that lead to the same place from every folder.
* `Spelling`, `Spelling.text` - a path as it is written.
* `IsDetour`, `DifferInDetours` - pieces that lead back, and texts that differ in them only.

## Main statements

* `Path.IsRead.isNormal_normalize` - normalization comes to a path in normal form.
* `Spelling.exists_text_eq` - every text is spelled in some way.
* `DifferInDetours.actAlike` - texts that differ in detours lead to the same place.
-/

namespace ScriptRunner

namespace Path

/-- A path as reading leaves it: its segments are ordinary or lead upwards. -/
def IsRead (p : Path) : Prop :=
  ∀ segment ∈ p.segments, IsOrdinary segment ∨ segment = ".."

theorem IsNormal.isRead {p : Path} (h : p.IsNormal) : p.IsRead := by
  intro segment hsegment
  exact .inl (h.ordinary segment hsegment)

theorem IsRead.join {base p : Path} (hbase : base.IsRead) (hp : p.IsRead) :
    (base.join p).IsRead := by
  intro segment hsegment
  unfold Path.join at hsegment
  split at hsegment
  · rcases List.mem_append.1 hsegment with hmem | hmem
    · exact hbase segment hmem
    · exact hp segment hmem
  · exact hp segment hsegment

/-- A stack of ordinary segments stays one. -/
theorem isOrdinary_of_mem_push {stack : List String} {segment : String}
    (hstack : ∀ s ∈ stack, IsOrdinary s) (h : IsOrdinary segment ∨ segment = "..") :
    ∀ s ∈ push stack segment, IsOrdinary s := by
  intro s hs
  unfold push at hs
  by_cases habove : segment = ".."
  · rw [if_pos habove] at hs
    exact hstack s (List.mem_of_mem_tail hs)
  · rw [if_neg habove] at hs
    rcases List.mem_cons.1 hs with rfl | hs
    · exact h.resolve_right habove
    · exact hstack s hs

theorem isOrdinary_of_mem_foldl_push {segments : List String}
    (h : ∀ segment ∈ segments, IsOrdinary segment ∨ segment = "..") {stack : List String}
    (hstack : ∀ s ∈ stack, IsOrdinary s) : ∀ s ∈ segments.foldl push stack, IsOrdinary s := by
  induction segments generalizing stack with
  | nil => exact hstack
  | cons segment segments ih =>
    obtain ⟨hsegment, hrest⟩ := List.forall_mem_cons.1 h
    exact ih hrest (isOrdinary_of_mem_push hstack hsegment)

/-- A path becomes absolute when it is read from an absolute folder. -/
theorem anchor_join_ne {cwd : Path} (h : cwd.anchor ≠ .relative) (p : Path) :
    (cwd.join p).anchor ≠ .relative := by
  unfold join
  split
  · exact h
  next hanchor => exact hanchor

theorem IsRead.isNormal_normalize {cwd p : Path} (hcwd : cwd.IsNormal) (hp : p.IsRead) :
    (normalize cwd p).IsNormal where
  absolute := anchor_join_ne hcwd.absolute p
  ordinary := by
    intro segment hsegment
    have hstack : ∀ s ∈ ([] : List String), IsOrdinary s := List.forall_mem_nil _
    exact isOrdinary_of_mem_foldl_push (hcwd.isRead.join hp) hstack segment
      (List.mem_reverse.1 hsegment)

theorem IsRead.normalize_normalize {cwd p : Path} (hcwd : cwd.IsNormal) (hp : p.IsRead) :
    normalize cwd (normalize cwd p) = normalize cwd p :=
  (hp.isNormal_normalize hcwd).normalize_eq_self cwd

/-- Two paths start alike and do the same to every stack of folders. -/
structure ActAlike (p p' : Path) : Prop where
  anchor_eq : p.anchor = p'.anchor
  foldl_eq : ∀ stack, p.segments.foldl push stack = p'.segments.foldl push stack

namespace ActAlike

variable {p p' p'' : Path}

theorem refl (p : Path) : p.ActAlike p := ⟨rfl, fun _ => rfl⟩

theorem symm (h : p.ActAlike p') : p'.ActAlike p :=
  ⟨h.anchor_eq.symm, fun stack => (h.foldl_eq stack).symm⟩

theorem trans (h : p.ActAlike p') (h' : p'.ActAlike p'') : p.ActAlike p'' :=
  ⟨h.anchor_eq.trans h'.anchor_eq, fun stack => (h.foldl_eq stack).trans (h'.foldl_eq stack)⟩

/-- Read from one folder they still lead to one place. -/
theorem join (h : p.ActAlike p') (base : Path) : (base.join p).ActAlike (base.join p') := by
  unfold Path.join
  rw [← h.anchor_eq]
  cases p.anchor with
  | relative =>
    refine ⟨rfl, fun stack => ?_⟩
    rw [List.foldl_append, List.foldl_append, h.foldl_eq]
  | root | doubleRoot => exact h

theorem normalize_eq (h : p.ActAlike p') (cwd : Path) : normalize cwd p = normalize cwd p' := by
  have hjoin := h.join cwd
  simp only [normalize, collapse, hjoin.foldl_eq]
  rw [Path.mk.injEq]
  exact ⟨hjoin.anchor_eq, rfl⟩

end ActAlike

end Path

/-- A path as it is written: the slashes at its beginning, and the pieces between the slashes behind
them. The first piece is not empty, since otherwise there would be one more slash in front of it. -/
structure Spelling where
  slashes : Nat
  pieces : List String
  slash_not_mem : ∀ piece ∈ pieces, '/' ∉ piece.toList
  head?_ne : pieces.head? ≠ some ""

namespace Spelling

def text (w : Spelling) : String :=
  String.ofList (List.replicate w.slashes '/') ++ "/".intercalate w.pieces

theorem ofString_text (w : Spelling) : Path.ofString w.text =
    ⟨Path.anchorOfSlashes w.slashes, w.pieces.filter (Path.isSegment ·.toList)⟩ :=
  Path.ofString_pieces w.slashes w.slash_not_mem w.head?_ne

theorem exists_replicate_append (cs : List Char) :
    ∃ slashes rest, cs = List.replicate slashes '/' ++ rest ∧ rest.head? ≠ some '/' := by
  induction cs with
  | nil => exact ⟨0, [], rfl, by simp⟩
  | cons c cs ih =>
    by_cases hc : c = '/'
    · obtain ⟨slashes, rest, hcs, hrest⟩ := ih
      exact ⟨slashes + 1, rest, by rw [hc, hcs]; rfl, hrest⟩
    · exact ⟨0, c :: cs, rfl, by simpa using hc⟩

/-- A text that does not begin with a slash is made of pieces. -/
theorem exists_pieces (cs : List Char) (h : cs.head? ≠ some '/') :
    ∃ pieces : List String, (∀ piece ∈ pieces, '/' ∉ piece.toList) ∧ pieces.head? ≠ some "" ∧
      ("/".intercalate pieces).toList = cs := by
  cases cs with
  | nil => exact ⟨[], by simp, by simp, by simp⟩
  | cons c cs =>
    have hc : (c == '/') = false := by simpa using h
    refine ⟨(Text.splitWhere (· == '/') (c :: cs)).map String.ofList, ?_, ?_, ?_⟩
    · intro piece hpiece hslash
      obtain ⟨chars, hchars, rfl⟩ := List.mem_map.1 hpiece
      rw [String.toList_ofList] at hslash
      simpa using Text.not_mem_of_mem_splitWhere hchars _ hslash
    · obtain ⟨first, rest, hpieces⟩ :=
        List.exists_cons_of_ne_nil (Text.splitWhere_ne_nil (· == '/') cs)
      simp [Text.splitWhere, hc, hpieces]
    · rw [String.toList_intercalate, List.map_map, Text.splitWhere_eq_splitOnP,
        ← List.splitOn_eq_splitOnP]
      simp [Function.comp_def]

theorem exists_text_eq (s : String) : ∃ w : Spelling, w.text = s := by
  obtain ⟨slashes, rest, hs, hrest⟩ := exists_replicate_append s.toList
  obtain ⟨pieces, hslash, hfirst, hpieces⟩ := exists_pieces rest hrest
  refine ⟨⟨slashes, pieces, hslash, hfirst⟩, String.toList_injective ?_⟩
  rw [text, String.toList_append, String.toList_ofList, hpieces, hs]

end Spelling

theorem Path.isRead_ofString (s : String) : (Path.ofString s).IsRead := by
  obtain ⟨w, rfl⟩ := Spelling.exists_text_eq s
  rw [Spelling.ofString_text]
  intro segment hsegment
  obtain ⟨hmem, hcounts⟩ := List.mem_filter.1 hsegment
  by_cases habove : segment = ".."
  · exact .inr habove
  · refine .inl ⟨?_, w.slash_not_mem segment hmem, ?_, habove⟩
    · rintro rfl
      simp [Path.isSegment] at hcounts
    · rintro rfl
      simp [Path.isSegment] at hcounts

/-- Pieces that lead back to where they begin: the folder itself, nothing between two slashes, or a
folder and the way out of it. -/
inductive IsDetour : List String → Prop
  | self : IsDetour ["."]
  | empty : IsDetour [""]
  | outAndBack {folder : String} (h : IsOrdinary folder) : IsDetour [folder, ".."]

theorem IsDetour.foldl_push {detour : List String} (h : IsDetour detour) (stack : List String) :
    (detour.filter (Path.isSegment ·.toList)).foldl Path.push stack = stack := by
  cases h with
  | self => rfl
  | empty => rfl
  | @outAndBack folder h =>
    have habove : Path.isSegment "..".toList = true := by decide
    have hfilter : [folder, ".."].filter (Path.isSegment ·.toList) = [folder, ".."] :=
      List.filter_eq_self.2 (List.forall_mem_cons.2 ⟨h.isSegment, by simpa using habove⟩)
    rw [hfilter, List.foldl_cons, Path.push, if_neg h.ne_above]
    rfl

/-- A spelling takes a detour somewhere behind the slashes at its beginning, another one does
not. -/
structure Spelling.TakesDetour (direct w : Spelling) : Prop where
  slashes_eq : w.slashes = direct.slashes
  pieces_eq : ∃ front detour back, IsDetour detour ∧ direct.pieces = front ++ back ∧
    w.pieces = front ++ (detour ++ back)

theorem Spelling.TakesDetour.actAlike {direct w : Spelling} (h : direct.TakesDetour w) :
    (Path.ofString direct.text).ActAlike (Path.ofString w.text) := by
  obtain ⟨front, detour, back, hdetour, hdirect, hw⟩ := h.pieces_eq
  rw [ofString_text, ofString_text]
  refine ⟨congrArg Path.anchorOfSlashes h.slashes_eq.symm, fun stack => ?_⟩
  simp only [hdirect, hw, List.filter_append, List.foldl_append, hdetour.foldl_push]

/-- Two texts become equal when detours are put in and left out. -/
def DifferInDetours : String → String → Prop :=
  Relation.EqvGen fun s s' =>
    ∃ direct w : Spelling, direct.TakesDetour w ∧ direct.text = s ∧ w.text = s'

theorem DifferInDetours.actAlike {s s' : String} (h : DifferInDetours s s') :
    (Path.ofString s).ActAlike (Path.ofString s') := by
  induction h with
  | rel s s' h =>
    obtain ⟨direct, w, hdetour, rfl, rfl⟩ := h
    exact hdetour.actAlike
  | refl s => exact .refl _
  | symm s s' _ ih => exact ih.symm
  | trans s s' s'' _ _ ih ih' => exact ih.trans ih'

theorem DifferInDetours.normalize_eq {s s' : String} (h : DifferInDetours s s') (cwd : Path) :
    cwd.normalize (.ofString s) = cwd.normalize (.ofString s') :=
  h.actAlike.normalize_eq cwd

end ScriptRunner
