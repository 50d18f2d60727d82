import ScriptRunner.Text.Split

/-!
# Pieces that are put together and cut again

## Main statements

* `splitWhere_eq_splitOnP` - the pieces of a text are those that lists are split into.
* `splitWhere_intercalate` - pieces without the separator, put together with it, are the pieces of
  the text that comes of them.
* `not_mem_of_mem_splitWhere` - there are no separators in pieces.
-/

namespace ScriptRunner.Text

theorem splitWhere_eq_splitOnP (isSeparator : Char → Bool) (cs : List Char) :
    splitWhere isSeparator cs = cs.splitOnP isSeparator := by
  induction cs with
  | nil => rfl
  | cons c cs ih =>
    rw [List.splitOnP_cons_eq_if_modifyHead, ← ih]
    obtain ⟨piece, pieces, hpieces⟩ :=
      List.exists_cons_of_ne_nil (splitWhere_ne_nil isSeparator cs)
    cases hc : isSeparator c <;> simp [splitWhere, hc, hpieces]

/-- Pieces that do not hold the separator come back from the text that they make up. -/
theorem splitWhere_intercalate {separator : Char} {pieces : List String} (hne : pieces ≠ [])
    (h : ∀ piece ∈ pieces, separator ∉ piece.toList) :
    splitWhere (· == separator) ((String.singleton separator).intercalate pieces).toList =
      pieces.map String.toList := by
  rw [splitWhere_eq_splitOnP, ← List.splitOn_eq_splitOnP, String.toList_intercalate,
    String.toList_singleton]
  refine List.splitOn_intercalate separator ?_ (by simpa using hne)
  intro cs hcs
  obtain ⟨piece, hpiece, rfl⟩ := List.mem_map.1 hcs
  exact h piece hpiece

theorem not_mem_of_mem_splitWhere {isSeparator : Char → Bool} {cs piece : List Char}
    (h : piece ∈ splitWhere isSeparator cs) : ∀ c ∈ piece, isSeparator c = false := by
  induction cs generalizing piece with
  | nil => simp_all [splitWhere]
  | cons c cs ih =>
    obtain ⟨first, rest, hpieces⟩ := List.exists_cons_of_ne_nil (splitWhere_ne_nil isSeparator cs)
    rw [hpieces] at ih
    cases hc : isSeparator c with
    | true =>
      simp only [splitWhere, hc, hpieces, List.mem_cons] at h
      rcases h with rfl | h
      · simp
      · exact ih (List.mem_cons.2 h)
    | false =>
      simp only [splitWhere, hc, hpieces, List.mem_cons] at h
      rcases h with rfl | h
      · exact List.forall_mem_cons.2 ⟨hc, ih List.mem_cons_self⟩
      · exact ih (List.mem_cons_of_mem first h)

end ScriptRunner.Text
