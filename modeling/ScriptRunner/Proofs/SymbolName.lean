import ScriptRunner.Proofs.Script.Members
import ScriptRunner.SymbolName

/-!
# Symbol names as names in scripts

Other scripts speak of a script by its symbol name. A symbol name holds letters, digits and
underscores only, and it is never a keyword, because its first character is no small letter. But it
may be empty, and it may start with a digit; then no script can say it.

## Main definitions

* `Naming.firstCharacter?` - the first character of a path that counts for the symbol name.

## Main statements

* `exists_upperCase_eq_cons` - how the upper-case form of a character starts.
* `isName_nameOfRelative_iff` - when the name of a relative path is written as a name.
* `Naming.readsMember_symbolName` - when a script can read the members of a script by its symbol
  name.
-/

namespace ScriptRunner

namespace Text

/-- Code points of ASCII digits and small letters. -/
def IsSmallCode (n : Nat) : Prop :=
  (0x30 ≤ n ∧ n ≤ 0x39) ∨ (0x61 ≤ n ∧ n ≤ 0x7A)

instance (n : Nat) : Decidable (IsSmallCode n) :=
  inferInstanceAs (Decidable (_ ∨ _))

theorem isDigit_iff_toNat {c : Char} : c.isDigit = true ↔ 0x30 ≤ c.toNat ∧ c.toNat ≤ 0x39 :=
  Char.isDigit_iff_toNat

theorem isLower_iff_toNat {c : Char} : c.isLower = true ↔ 0x61 ≤ c.toNat ∧ c.toNat ≤ 0x7A := by
  rw [show c.isLower = (decide (c.val ≥ 'a'.val) && decide (c.val ≤ 'z'.val)) from rfl]
  simp [UInt32.le_iff_toNat_le, ← Char.toNat_val]

theorem toNat_ofNat (n : Nat) : (Char.ofNat n).toNat = n ∨ (Char.ofNat n).toNat = 0 := by
  by_cases h : n.isValidChar
  · left
    rw [Char.ofNat, dif_pos h]
    rfl
  · right
    simp [Char.ofNat, h]

/-- What is no small code point denotes no small character. -/
theorem not_isSmallCode_ofNat {n : Nat} (h : ¬IsSmallCode n) :
    ¬IsSmallCode (Char.ofNat n).toNat := by
  rcases toNat_ofNat n with heq | heq <;> rw [heq]
  · exact h
  · decide

theorem not_isSmallCode_iff {c : Char} :
    ¬IsSmallCode c.toNat ↔ c.isDigit = false ∧ c.isLower = false := by
  rw [IsSmallCode, not_or, ← isDigit_iff_toNat, ← isLower_iff_toNat, Bool.not_eq_true,
    Bool.not_eq_true]

/-- Characters with several capitals are no digits, and the first capital is no small letter. -/
theorem UpperCase.expansions_small {n : Nat} {codes : List Nat} (h : (n, codes) ∈ expansions) :
    0x39 < n ∧ ∃ m ms, codes = m :: ms ∧ ¬IsSmallCode m := by
  have hall : ∀ e ∈ expansions, 0x39 < e.1 ∧ e.2 ≠ [] ∧ ∀ m ∈ e.2, ¬IsSmallCode m := by
    decide +kernel
  obtain ⟨hn, hne, hcodes⟩ := hall _ h
  obtain ⟨m, ms, rfl⟩ := List.exists_cons_of_ne_nil hne
  exact ⟨hn, m, ms, rfl, hcodes m List.mem_cons_self⟩

/-- Characters with one capital are no digits, and their capitals are no small letters. -/
theorem UpperCase.runs_small {r : Run} (hr : r ∈ runs) {n : Nat} (h : r.covers n = true) :
    0x39 < n ∧ ¬IsSmallCode (n + r.offset).toNat := by
  have hall : ∀ r ∈ runs, 0x39 < r.first ∧
      (r.last + r.offset < 0x30 ∨ 0x39 < r.first + r.offset) ∧
      (r.last + r.offset < 0x61 ∨ 0x7A < r.first + r.offset) := by
    decide +kernel
  obtain ⟨hfirst, hdigit, hlower⟩ := hall r hr
  simp only [Run.covers, Bool.and_eq_true, decide_eq_true_eq] at h
  unfold IsSmallCode
  omega

/-- A small letter has a capital. -/
theorem UpperCase.exists_covers_of_isLower {c : Char} (h : c.isLower = true) :
    ∃ r ∈ runs, r.covers c.toNat = true := by
  rw [isLower_iff_toNat] at h
  exact ⟨⟨0x0061, 0x007A, 1, -32⟩, List.mem_cons_self, by simpa [Run.covers, Nat.mod_one] using h⟩

/-- The upper-case form of a character starts with no small letter, and with a digit exactly if the
character is one. -/
theorem exists_upperCase_eq_cons (c : Char) : ∃ d ds, upperCase c = d :: ds ∧
    d.isLower = false ∧ d.isDigit = c.isDigit := by
  have hdigit (h : 0x39 < c.toNat) : c.isDigit = false := by
    rw [Bool.eq_false_iff, Ne, isDigit_iff_toNat]
    omega
  unfold upperCase
  split
  next codes hlookup =>
    obtain ⟨before, after, hall, -⟩ := List.lookup_eq_some_iff.1 hlookup
    obtain ⟨hc, m, ms, rfl, hm⟩ :=
      UpperCase.expansions_small (hall ▸ List.mem_append_right before List.mem_cons_self)
    obtain ⟨hm, hm'⟩ := not_isSmallCode_iff.1 (not_isSmallCode_ofNat hm)
    exact ⟨_, _, rfl, hm', hm.trans (hdigit hc).symm⟩
  next =>
    split
    next run hrun =>
      have hcovers : run.covers c.toNat = true := by simpa using List.find?_some hrun
      obtain ⟨hc, hm⟩ := UpperCase.runs_small (List.mem_of_find?_eq_some hrun) hcovers
      obtain ⟨hm, hm'⟩ := not_isSmallCode_iff.1 (not_isSmallCode_ofNat hm)
      exact ⟨_, _, rfl, hm', hm.trans (hdigit hc).symm⟩
    next hnone =>
      refine ⟨c, [], rfl, ?_, rfl⟩
      rw [Bool.eq_false_iff]
      intro hlower
      obtain ⟨r, hr, hcovers⟩ := UpperCase.exists_covers_of_isLower hlower
      exact List.find?_eq_none.1 hnone r hr hcovers

end Text

open Script

theorem isNameRest_nameCharacter (c : Char) : isNameRest (nameCharacter c) = true := by
  unfold nameCharacter
  split
  next h =>
    rw [isNameRest, Bool.or_eq_true]
    exact .inl h
  next => rfl

/-- A name starts with any of the characters that it may hold, digits aside. -/
theorem isNameStart_iff {c : Char} :
    isNameStart c = true ↔ isNameRest c = true ∧ c.isDigit = false := by
  have hdisjoint (h : isNameStart c = true) : c.isDigit = false := by
    rw [Bool.eq_false_iff]
    intro hdigit
    have hstart := startKind_digit hdigit
    simp [startKind, h] at hstart
  constructor
  · exact fun h => ⟨isNameRest_of_isNameStart h, hdisjoint h⟩
  · rintro ⟨hrest, hdigit⟩
    simpa [isNameRest, isNameStart, Char.isAlphanum, hdigit] using hrest

/-- Writing a character so that a name may hold it makes it neither a digit nor a small letter. -/
theorem nameCharacter_eq (c : Char) : nameCharacter c = c ∨
    nameCharacter c = '_' ∧ c.isDigit = false ∧ c.isLower = false := by
  by_cases h : isNameCharacter c
  · exact .inl (if_pos h)
  · refine .inr ⟨if_neg h, ?_⟩
    rw [show isNameCharacter c = (c.isUpper || c.isLower || c.isDigit) from rfl] at h
    simp only [Bool.or_eq_true, not_or, Bool.not_eq_true] at h
    exact ⟨h.2, h.1.2⟩

/-- The characters that words of a relative path contribute to its name. -/
def nameOfTokens (tokens : List (List Char)) : List Char :=
  tokens.flatMap fun token => (capitalize token).map nameCharacter

theorem toList_nameOfRelative (relative : String) :
    (nameOfRelative relative).toList = nameOfTokens (nameTokens relative) :=
  String.toList_ofList

theorem isNameRest_of_mem_nameOfTokens {tokens : List (List Char)} {c : Char}
    (h : c ∈ nameOfTokens tokens) : isNameRest c = true := by
  obtain ⟨token, -, hc⟩ := List.mem_flatMap.1 h
  obtain ⟨d, -, rfl⟩ := List.mem_map.1 hc
  exact isNameRest_nameCharacter d

/-- The first character of a text that does not separate words. -/
def firstOfWords? (cs : List Char) : Option Char :=
  cs.find? fun c => !isNameSeparator c

/-- How a name starts: with the first character of the first word, in upper case. -/
theorem nameOfTokens_splitWhere (cs : List Char) :
    (firstOfWords? cs = none ∧ nameOfTokens (Text.splitWhere isNameSeparator cs) = []) ∨
      ∃ c d ds, firstOfWords? cs = some c ∧
        nameOfTokens (Text.splitWhere isNameSeparator cs) = d :: ds ∧
        d.isLower = false ∧ d.isDigit = c.isDigit := by
  induction cs with
  | nil => exact .inl ⟨rfl, rfl⟩
  | cons c cs ih =>
    cases hc : isNameSeparator c with
    | true =>
      -- A separator makes an empty word, which contributes nothing.
      have hfirst : firstOfWords? (c :: cs) = firstOfWords? cs := by simp [firstOfWords?, hc]
      have hname : nameOfTokens (Text.splitWhere isNameSeparator (c :: cs)) =
          nameOfTokens (Text.splitWhere isNameSeparator cs) := by
        simp [Text.splitWhere, hc, nameOfTokens, capitalize]
      rwa [hfirst, hname]
    | false =>
      obtain ⟨e, es, hupper, hlower, hdigit⟩ := Text.exists_upperCase_eq_cons c
      obtain ⟨piece, pieces, hpieces⟩ :
          ∃ piece pieces, Text.splitWhere isNameSeparator (c :: cs) = (c :: piece) :: pieces := by
        unfold Text.splitWhere
        rw [hc]
        split <;> simp_all
      refine .inr ⟨c, nameCharacter e, (es ++ piece).map nameCharacter ++ nameOfTokens pieces,
        by simp [firstOfWords?, hc], by simp [hpieces, nameOfTokens, capitalize, hupper], ?_⟩
      rcases nameCharacter_eq e with heq | ⟨heq, hdigit', -⟩ <;> rw [heq]
      · exact ⟨hlower, hdigit⟩
      · exact ⟨rfl, by rw [← hdigit, hdigit']; rfl⟩

/-- The name of a relative path is written as a name exactly if its first word starts with no
digit. -/
theorem isName_nameOfRelative_iff (relative : String) : IsName (nameOfRelative relative).toList ↔
    ∃ c, firstOfWords? relative.toList = some c ∧ c.isDigit = false := by
  rw [toList_nameOfRelative, nameTokens]
  obtain ⟨hfirst, hname⟩ | ⟨c, d, ds, hfirst, hname, -, hdigit⟩ :=
    nameOfTokens_splitWhere relative.toList
  · simp [hfirst, hname, IsName]
  · have hrest : ∀ e ∈ d :: ds, isNameRest e = true :=
      fun e he => isNameRest_of_mem_nameOfTokens (hname ▸ he)
    rw [hname, hfirst]
    constructor
    · rintro ⟨e, es, heq, he, -⟩
      obtain ⟨rfl, -⟩ := List.cons.inj heq
      exact ⟨c, rfl, hdigit ▸ (isNameStart_iff.1 he).2⟩
    · rintro ⟨c', hc', hdigit'⟩
      obtain rfl := Option.some.inj hc'
      refine ⟨d, ds, rfl, isNameStart_iff.2 ⟨hrest d List.mem_cons_self, hdigit.trans hdigit'⟩, ?_⟩
      exact fun e he => hrest e (List.mem_cons_of_mem d he)

/-- No name of a relative path is a keyword, because keywords start with a small letter. -/
theorem nameOfRelative_ne_text (relative : String) (k : Keyword) :
    (nameOfRelative relative).toList ≠ k.text := by
  rw [toList_nameOfRelative, nameTokens]
  have htext : ∃ c cs, k.text = c :: cs ∧ c.isLower = true := by
    rcases k with _ | _ | _ | _ <;> exact ⟨_, _, rfl, rfl⟩
  obtain ⟨c, cs, htext, hc⟩ := htext
  rw [htext]
  obtain ⟨-, hname⟩ | ⟨_, d, ds, -, hname, hlower, -⟩ := nameOfTokens_splitWhere relative.toList
  · simp [hname]
  · rw [hname]
    rintro heq
    obtain ⟨rfl, -⟩ := List.cons.inj heq
    simp [hc] at hlower

namespace Naming

variable {naming : Naming} {path : Path} {name file member : String}

/-- The first character of a path that counts for the symbol name: below the marker folder and
before the extension, the first one that does not separate words. -/
def firstCharacter? (naming : Naming) (path : Path) : Option Char :=
  (naming.relativePath? path).bind fun relative =>
    firstOfWords? (naming.stripExtension relative).toList

theorem symbolName?_eq_some (h : naming.symbolName? path = some name) :
    ∃ relative, name = nameOfRelative relative ∧
      naming.firstCharacter? path = firstOfWords? relative.toList := by
  obtain ⟨relative, hrelative, rfl⟩ := Option.map_eq_some_iff.1 h
  exact ⟨_, rfl, by rw [firstCharacter?, hrelative]; rfl⟩

/-- Scripts can read the members of a script by its symbol name exactly if the name is written as a
name: the first character that counts for it is there, and it is no digit. -/
theorem readsMember_symbolName [CharacterNames] (hname : naming.symbolName? path = some name)
    (hfile : file ≠ "") (hmember : IsName member.toList) :
    (ReadsMember file name member ↔ IsName name.toList) ∧
    (IsName name.toList ↔ ∃ c, naming.firstCharacter? path = some c ∧ c.isDigit = false) := by
  obtain ⟨relative, rfl, hfirst⟩ := symbolName?_eq_some hname
  rw [hfirst]
  exact ⟨Script.readsMember_iff hfile (nameOfRelative_ne_text relative) hmember,
    isName_nameOfRelative_iff relative⟩

attribute [local instance] CharacterNames.none

/-- Behind the point even a keyword is a name. -/
theorem readsMember_subFolderFoo :
    standard.symbolName? (.ofString "/w/scripts/sub_folder/foo.custom.kts") =
      some "SubFolderFoo" ∧
    IsName "println".toList ∧ ReadsMember "main.custom.kts" "SubFolderFoo" "println" := by
  have hname : standard.symbolName? (.ofString "/w/scripts/sub_folder/foo.custom.kts") =
      some "SubFolderFoo" := by decide +kernel
  have hmember : IsName "println".toList := Keyword.isName_text .println
  have hfile : "main.custom.kts" ≠ "" := by decide
  obtain ⟨hreads, hspoken⟩ := readsMember_symbolName hname hfile hmember
  exact ⟨hname, hmember, hreads.2 (hspoken.2 ⟨'s', by decide +kernel, by decide⟩)⟩

/-- A script whose name starts with a digit, and one that has no name but the extension. -/
theorem not_readsMember_digit :
    standard.symbolName? (.ofString "/w/scripts/1.custom.kts") = some "1" ∧
    standard.symbolName? (.ofString "/w/scripts/.custom.kts") = some "" ∧
    IsName "x".toList ∧ ¬ReadsMember "main.custom.kts" "1" "x" ∧
    ¬ReadsMember "main.custom.kts" "" "x" := by
  have hmember : IsName "x".toList := ⟨'x', [], rfl, rfl, by simp⟩
  refine ⟨by decide +kernel, by decide +kernel, hmember, fun h => ?_, fun h => ?_⟩
  · obtain ⟨c, cs, htext, hc, -⟩ := h.isName
    obtain ⟨rfl, -⟩ := List.cons.inj htext
    exact absurd hc (by decide)
  · obtain ⟨c, cs, htext, -⟩ := h.isName
    exact List.cons_ne_nil c cs htext.symm

end Naming

end ScriptRunner
