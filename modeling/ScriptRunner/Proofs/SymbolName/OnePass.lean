import ScriptRunner.FileSystem.Snapshot
import ScriptRunner.Proofs.Path
import ScriptRunner.Proofs.Resolution.Success
import ScriptRunner.Proofs.SymbolName

/-!
# Symbol names in one pass

A symbol name is cut out of a path in several steps: the part below the marker, without the
extension, is split into words, and the words are capitalized and put together. The same name comes
of a single pass over that part, and nothing else of the path has an influence on it.

## Main definitions

* `nameImage` - the name that a text gives in one pass.
* `Naming.IsStem` - a relative path without the extension.

## Main statements

* `nameOfTokens_eq_nameImage` - splitting, capitalizing and joining is one pass.
* `Naming.segmentsBelow_eq_some_iff` - the part of a path below the first marker.
* `Resolver.nameOf_in_one_pass` - the name of a script, or the reason why it has none.
-/

namespace ScriptRunner

/-- The name that a text gives when it is read once from left to right. Separators are left out; a
character that is `fresh`, because it is the first one or stands directly behind a separator, takes
its upper-case form; and an underscore stands for whatever is no letter or digit of ASCII. -/
def nameImage : (fresh : Bool) → List Char → List Char
  | _, [] => []
  | fresh, c :: cs =>
    if c = '/' ∨ c = '.' ∨ c = '_' then nameImage true cs
    else
      (if fresh then Text.upperCase c else [c]).map (fun d => if d.isAlphanum then d else '_') ++
        nameImage false cs

theorem isNameSeparator_iff (c : Char) :
    isNameSeparator c = true ↔ c = '/' ∨ c = '.' ∨ c = '_' := by
  simp [isNameSeparator, or_assoc]

theorem nameImage_of_separator {c : Char} (h : isNameSeparator c = true) (fresh : Bool)
    (cs : List Char) : nameImage fresh (c :: cs) = nameImage true cs := by
  rw [nameImage, if_pos ((isNameSeparator_iff c).1 h)]

theorem nameImage_of_other {c : Char} (h : isNameSeparator c = false) (fresh : Bool)
    (cs : List Char) : nameImage fresh (c :: cs) =
      (if fresh then Text.upperCase c else [c]).map nameCharacter ++ nameImage false cs := by
  rw [nameImage, if_neg fun hc => by simp [(isNameSeparator_iff c).2 hc] at h]
  rfl

/-- The pass is in the middle of a word or at its start; the words behind it do not depend on
that. -/
theorem exists_splitWhere_eq_cons (cs : List Char) :
    ∃ word words, Text.splitWhere isNameSeparator cs = word :: words ∧
      nameImage false cs = word.map nameCharacter ++ nameOfTokens words ∧
      nameImage true cs = (capitalize word).map nameCharacter ++ nameOfTokens words := by
  induction cs with
  | nil => exact ⟨[], [], rfl, rfl, rfl⟩
  | cons c cs ih =>
    obtain ⟨word, words, hsplit, hinside, hfresh⟩ := ih
    cases hc : isNameSeparator c with
    | true =>
      -- The separator ends an empty word, and the word behind it is at its start.
      refine ⟨[], word :: words, by simp [Text.splitWhere, hc, hsplit], ?_, ?_⟩ <;>
        simpa [nameImage_of_separator hc, nameOfTokens, capitalize] using hfresh
    | false =>
      refine ⟨c :: word, words, by simp [Text.splitWhere, hc, hsplit], ?_, ?_⟩ <;>
        simp [nameImage_of_other hc, hinside, capitalize]

/-- Splitting a text into words, capitalizing them and putting them together is one pass over the
text. -/
theorem nameOfTokens_eq_nameImage (cs : List Char) :
    nameOfTokens (Text.splitWhere isNameSeparator cs) = nameImage true cs := by
  obtain ⟨word, words, hsplit, -, hfresh⟩ := exists_splitWhere_eq_cons cs
  rw [hsplit, hfresh]
  rfl

namespace Naming

variable {naming : Naming} {relative stem : String}

/-- A relative path without the extension, if it ends in it; otherwise the path itself. -/
def IsStem (naming : Naming) (relative stem : String) : Prop :=
  relative = stem ++ naming.extension ∨
    ¬ naming.extension.toList <:+ relative.toList ∧ stem = relative

theorem isStem_stripExtension (naming : Naming) (relative : String) :
    naming.IsStem relative (naming.stripExtension relative) := by
  unfold stripExtension
  split
  next h =>
    obtain ⟨stem, hstem⟩ := List.isSuffixOf_iff_suffix.1 h
    left
    apply String.toList_injective
    have hlength : relative.length - naming.extension.length = stem.length := by
      rw [← String.length_toList, ← String.length_toList, ← hstem]
      simp
    rw [String.toList_append, String.toList_ofList, hlength, ← hstem, List.take_left]
  next h => exact .inr ⟨fun hsuffix => h (List.isSuffixOf_iff_suffix.2 hsuffix), rfl⟩

/-- There is only one way to leave the extension out. -/
theorem IsStem.unique {stem' : String} (h : naming.IsStem relative stem)
    (h' : naming.IsStem relative stem') : stem = stem' := by
  have hsuffix : ∀ s : String, naming.extension.toList <:+ (s ++ naming.extension).toList := by
    intro s
    rw [String.toList_append]
    exact List.suffix_append _ _
  rcases h with rfl | ⟨hnot, rfl⟩ <;> rcases h' with heq | ⟨hnot', rfl⟩
  · have hlists := congrArg String.toList heq
    rw [String.toList_append, String.toList_append] at hlists
    exact String.toList_injective (List.append_cancel_right hlists)
  · exact absurd (hsuffix _) hnot'
  · exact absurd (heq ▸ hsuffix _) hnot
  · rfl

/-- What is below the marker stands behind its first occurrence. -/
theorem segmentsBelow_eq_some_iff {marker : String} {segments below : List String} :
    segmentsBelow marker segments = some below ↔
      ∃ above, segments = above ++ marker :: below ∧ marker ∉ above := by
  induction segments with
  | nil => simp [segmentsBelow]
  | cons first segments ih =>
    rw [segmentsBelow]
    split
    next heq =>
      subst heq
      constructor
      · intro h
        exact ⟨[], by rw [Option.some.inj h]; rfl, List.not_mem_nil⟩
      · rintro ⟨above, heq, hnew⟩
        cases above with
        | nil => rw [(List.cons.inj heq).2]
        | cons other above =>
          obtain ⟨rfl, -⟩ := List.cons.inj heq
          exact absurd List.mem_cons_self hnew
    next hne =>
      rw [ih]
      constructor
      · rintro ⟨above, rfl, hnew⟩
        exact ⟨first :: above, rfl, by simp [Ne.symm hne, hnew]⟩
      · rintro ⟨above, heq, hnew⟩
        cases above with
        | nil => exact absurd (List.cons.inj heq).1 hne
        | cons other above =>
          obtain ⟨rfl, rfl⟩ := List.cons.inj heq
          exact ⟨above, rfl, fun hmem => hnew (List.mem_cons_of_mem _ hmem)⟩

theorem symbolName?_of_segmentsBelow {path : Path} {below : List String}
    (h : segmentsBelow naming.marker path.segments = some below) (hne : below ≠ []) :
    naming.symbolName? path =
      some (.ofList (nameImage true (naming.stripExtension ("/".intercalate below)).toList)) := by
  obtain ⟨segment, rest, rfl⟩ := List.exists_cons_of_ne_nil hne
  simp only [symbolName?, relativePath?, h, Option.map_some, nameOfRelative, nameTokens,
    ← nameOfTokens_eq_nameImage]
  rfl

theorem symbolName?_eq_none {path : Path}
    (h : ∀ below, segmentsBelow naming.marker path.segments = some below → below = []) :
    naming.symbolName? path = none := by
  rw [symbolName?, relativePath?]
  split
  · rfl
  · rfl
  next segment rest hbelow => exact absurd (h _ hbelow) (List.cons_ne_nil segment rest)

end Naming

namespace Resolver

variable (r : Resolver)

/-- The name of a script is the image of what stands below the first marker of its path, without the
extension; what stands above the marker has no influence. A script without a marker above it, or
with nothing below the marker, is misplaced. A path in normal form is taken as it is. -/
theorem nameOf_in_one_pass :
    (∀ below ≠ [], ∃ stem, r.settings.naming.IsStem ("/".intercalate below) stem ∧
      ∀ (written : String) (above : List String), r.settings.naming.marker ∉ above →
        (r.files.normalize (.ofString written)).segments =
          above ++ r.settings.naming.marker :: below →
        (r.nameOf (r.files.normalize (.ofString written))).outcome =
          .ok (.ofList (nameImage true stem.toList))) ∧
    (∀ written : String,
      (∀ above below, r.settings.naming.marker ∉ above →
        (r.files.normalize (.ofString written)).segments =
          above ++ r.settings.naming.marker :: below → below = []) →
      (r.nameOf (r.files.normalize (.ofString written))).outcome =
        .error (.misplaced (r.files.normalize (.ofString written)) r.settings.naming.marker)) ∧
    ∀ p : Path, p.IsNormal → r.files.normalize (.ofString p.toString) = p := by
  refine ⟨fun below hne => ?_, fun written hnone => ?_, fun p hp => hp.normalize_ofString _⟩
  · refine ⟨_, Naming.isStem_stripExtension _ _, fun written above hnew hsegments => ?_⟩
    rw [nameOf_eq_ok]
    exact Naming.symbolName?_of_segmentsBelow
      (Naming.segmentsBelow_eq_some_iff.2 ⟨above, hsegments, hnew⟩) hne
  · have hname : r.settings.naming.symbolName? (r.files.normalize (.ofString written)) = none := by
      refine Naming.symbolName?_eq_none fun below hbelow => ?_
      obtain ⟨above, hsegments, hnew⟩ := Naming.segmentsBelow_eq_some_iff.1 hbelow
      exact hnone above below hnew hsegments
    simp only [nameOf, hname]
    rfl

/-- A resolver that is only asked for names. -/
def onlyNaming : Resolver where
  settings := {}
  extractor := .ofList .top []
  files := (Snapshot.start .top).fileSystem

/-- The marker may come again below, words may be empty, and a character may have two capitals. -/
theorem nameOf_onlyNaming :
    let below := ["a__ß.d", "scripts", "x-y.custom.kts"]
    let first := onlyNaming.files.normalize (.ofString "/w/scripts/a__ß.d/scripts/x-y.custom.kts")
    let second := onlyNaming.files.normalize
      (.ofString "v/../u//scripts/a__ß.d/scripts/./x-y.custom.kts")
    let misplaced := onlyNaming.files.normalize (.ofString "/w/scripts/")
    below ≠ [] ∧ first.segments = ["w"] ++ "scripts" :: below ∧
    second.segments = ["u"] ++ "scripts" :: below ∧
    (onlyNaming.nameOf first).outcome = .ok "ASSDScriptsX_y" ∧
    (onlyNaming.nameOf second).outcome = .ok "ASSDScriptsX_y" ∧
    (onlyNaming.nameOf misplaced).outcome = .error (.misplaced misplaced "scripts") ∧
    first.IsNormal ∧ onlyNaming.files.normalize (.ofString first.toString) = first := by
  intro below first second misplaced
  have hbelow : below ≠ [] := by simp [below]
  have hfirst : first.segments = ["w"] ++ "scripts" :: below := by decide +kernel
  have hsecond : second.segments = ["u"] ++ "scripts" :: below := by decide +kernel
  have hmarker : onlyNaming.settings.naming.marker = "scripts" := by decide +kernel
  have hnormal : first.IsNormal := ⟨by decide +kernel, by decide +kernel⟩
  obtain ⟨hnamed, hmisplaced, hself⟩ := nameOf_in_one_pass onlyNaming
  rw [hmarker] at hnamed hmisplaced
  obtain ⟨stem, hstem, hname⟩ := hnamed below hbelow
  -- The marker is the last segment of the third path.
  have hlast : Naming.segmentsBelow "scripts" misplaced.segments = some [] := by decide +kernel
  have himage : String.ofList (nameImage true stem.toList) = "ASSDScriptsX_y" := by
    rw [hstem.unique (Naming.isStem_stripExtension _ _)]
    decide +kernel
  rw [himage] at hname
  refine ⟨hbelow, hfirst, hsecond, hname _ ["w"] (by decide) hfirst,
    hname _ ["u"] (by decide) hsecond, hmisplaced _ fun above below hnew hsegments => ?_, hnormal,
    hself first hnormal⟩
  have hfound := Naming.segmentsBelow_eq_some_iff.2 ⟨above, hsegments, hnew⟩
  exact Option.some.inj (hfound.symm.trans hlast)

end Resolver

end ScriptRunner
