/-!
# Splitting at separators

`splitWhere` cuts a text at every character of a class and keeps empty pieces, so the pieces always
number one more than the separators.

## Main definitions

* `splitWhere` - the pieces between separators.
-/

namespace ScriptRunner.Text

/-- The pieces of a text between the characters that satisfy `isSeparator`. -/
def splitWhere (isSeparator : Char → Bool) : List Char → List (List Char)
  | [] => [[]]
  | c :: rest =>
    match isSeparator c, splitWhere isSeparator rest with
    | true, pieces => [] :: pieces
    | false, [] => [[c]]
    | false, piece :: pieces => (c :: piece) :: pieces

theorem splitWhere_ne_nil (isSeparator : Char → Bool) (cs : List Char) :
    splitWhere isSeparator cs ≠ [] := by
  cases cs with
  | nil => simp [splitWhere]
  | cons c rest => unfold splitWhere; split <;> simp

end ScriptRunner.Text
