import ScriptRunner.Directive
import ScriptRunner.Proofs.Script.Relocation

/-!
# Scripts behind one another

A script with another one on the lines behind it is a script exactly if the other one is. It has the
parts of both, those of the second as many lines further down as the first takes up. Annotations
behind a statement are not in the header, so text behind a script with a statement adds no imports.

## Main definitions

* `Reads` - the items of a text from the start of a line on, with the values of their literals.
* `Program.followedBy` - a script with another one behind it.

## Main statements

* `reads_append_iff` - the items of lines come before the items of what follows.
* `parse_eq_ok_iff_reads` - a text is read like one that a line feed follows.
* `parse_append_iff` - a script with a text behind it.
-/

namespace ScriptRunner.Script

theorem readItems_feed_nil {position : Position} :
    readItems .lineStart position ['\n'] = .ok [] := by
  have hstep : Phase.lineStart.step ⟨.lineEnd, ['\n'], ⟨.first, .first⟩⟩ =
    some (.lineStart, none) := rfl
  rw [readItems_feed hstep, readItems_nil_eq_ok_iff.2 ⟨rfl, rfl⟩]
  rfl

/-- An empty line adds nothing. -/
theorem readItems_withLineEnd {position : Position} (cs : List Char) :
    readItems .lineStart position (withLineEnd cs) =
      readItems .lineStart position (cs ++ ['\n']) := by
  unfold withLineEnd
  split
  next hcs =>
    rw [readItems_append hcs, readItems_feed_nil]
    cases readItems .lineStart position cs <;> simp [bind, Except.bind, Except.map]
  next => rfl

theorem statementsOf_append {L A : Type} (xs ys : List (Item L A)) :
    statementsOf (xs ++ ys) = statementsOf xs ++ statementsOf ys := by
  induction xs with
  | nil => rfl
  | cons item xs ih => cases item <;> simp [statementsOf, ih]

theorem annotationsOf_append {L : Type} (inHeader : Bool) (xs ys : List (Item L ScriptText)) :
    annotationsOf inHeader (xs ++ ys) = annotationsOf inHeader xs ++
      annotationsOf (inHeader && (statementsOf xs).isEmpty) ys := by
  induction xs generalizing inHeader with
  | nil => simp [annotationsOf, statementsOf]
  | cons item xs ih => cases item <;> simp [annotationsOf, statementsOf, ih]

/-- Behind a statement no annotation is in the header. -/
theorem annotationsOf_false {L : Type} (inHeader : Bool) (items : List (Item L ScriptText)) :
    annotationsOf false items =
      (annotationsOf inHeader items).map fun a => { a with inHeader := false } := by
  induction items generalizing inHeader with
  | nil => rfl
  | cons item items ih =>
    cases item with
    | annotate target name argument span => exact congrArg (_ :: ·) (ih inHeader)
    | statement s => exact ih false

theorem annotationsOf_eq_map {L : Type} (inHeader : Bool) (items : List (Item L ScriptText)) :
    annotationsOf inHeader items =
      (annotationsOf true items).map fun a => { a with inHeader := a.inHeader && inHeader } := by
  cases inHeader with
  | true => simp
  | false => simpa using annotationsOf_false true items

/-- A script with another one behind it that starts so many lines further down. Its annotations are
in the header if they are in the header of their own script and no statement stands before them. -/
def Program.followedBy (p : Program) (lines : Nat) (q : Program) : Program where
  file := p.file
  annotations := p.annotations ++ q.annotations.map fun a =>
    { a.relocate (Position.down lines) with inHeader := a.inHeader && p.statements.isEmpty }
  statements := p.statements ++ q.statements.map (Statement.relocate (Position.down lines))

theorem Program.ofItems_append (file : String) (items₁ items₂ : List (Item Value ScriptText))
    (lines : Nat) :
    Program.ofItems file (items₁ ++ items₂.map (Item.relocate (Position.down lines))) =
      (Program.ofItems file items₁).followedBy lines (Program.ofItems file items₂) := by
  simp only [ofItems, followedBy, annotationsOf_append, statementsOf_append,
    statementsOf_relocate, Bool.true_and]
  rw [annotationsOf_eq_map (statementsOf items₁).isEmpty, annotationsOf_relocate, List.map_map]
  rfl

/-- Behind a script with a statement there are no imports. -/
theorem Program.directives_followedBy {p : Program} (hp : p.statements ≠ []) (lines : Nat)
    (q : Program) : (p.followedBy lines q).directives = p.directives := by
  have hempty : p.statements.isEmpty = false := List.isEmpty_eq_false_iff.2 hp
  have hheader : (p.followedBy lines q).header = p.header := by
    simp [header, followedBy, hempty, List.filter_map, Function.comp_def]
  rw [directives, hheader]
  rfl

section

variable [CharacterNames]

/-- The items of a text that starts at a position, at the start of a line; literals have their
values. -/
def Reads (file : String) (position : Position) (cs : List Char)
    (items : List (Item Value ScriptText)) : Prop :=
  ∃ written, readItems .lineStart position cs = .ok written ∧
    written.mapM (Item.settle file) = .ok items

section

variable {file : String} {position : Position} {cs : List Char}
  {items : List (Item Value ScriptText)}

/-- The items of lines come before the items of what follows. -/
theorem reads_append_iff (hcs : cs.getLast? = some '\n') (ys : List Char) :
    Reads file position (cs ++ ys) items ↔ ∃ items₁ items₂, Reads file position cs items₁ ∧
      Reads file (position.advanceAll cs) ys items₂ ∧ items = items₁ ++ items₂ := by
  unfold Reads
  rw [readItems_append hcs]
  constructor
  · rintro ⟨written, hread, hsettle⟩
    cases h₁ : readItems .lineStart position cs with
    | error fault => simp [h₁, bind, Except.bind] at hread
    | ok written₁ =>
      cases h₂ : readItems .lineStart (position.advanceAll cs) ys with
      | error fault => simp [h₁, h₂, bind, Except.bind, Except.map] at hread
      | ok written₂ =>
        obtain rfl : written₁ ++ written₂ = written := by
          simpa [h₁, h₂, bind, Except.bind, Except.map] using hread
        obtain ⟨items₁, items₂, hsettle₁, hsettle₂, rfl⟩ := mapM_append_eq_ok_iff.1 hsettle
        exact ⟨items₁, items₂, ⟨_, rfl, hsettle₁⟩, ⟨_, rfl, hsettle₂⟩, rfl⟩
  · rintro ⟨items₁, items₂, ⟨written₁, h₁, hsettle₁⟩, ⟨written₂, h₂, hsettle₂⟩, rfl⟩
    refine ⟨written₁ ++ written₂, ?_, mapM_append_eq_ok_iff.2 ⟨_, _, hsettle₁, hsettle₂, rfl⟩⟩
    rw [h₁, h₂]
    rfl

theorem Reads.unique {items' : List (Item Value ScriptText)} (h : Reads file position cs items)
    (h' : Reads file position cs items') : items = items' := by
  obtain ⟨written, hread, hsettle⟩ := h
  obtain ⟨written', hread', hsettle'⟩ := h'
  obtain rfl := Except.ok.inj (hread.symm.trans hread')
  exact Except.ok.inj (hsettle.symm.trans hsettle')

/-- The items of a text further down. -/
theorem reads_down_iff (lines : Nat) : Reads file (position.down lines) cs items ↔
    ∃ items', Reads file position cs items' ∧
      items = items'.map (Item.relocate (Position.down lines)) := by
  unfold Reads
  have hrelocate := readItems_relocate (Position.down_advance lines) .lineStart position cs
  rw [Phase.relocate] at hrelocate
  rw [hrelocate]
  cases readItems .lineStart position cs with
  | error fault => simp [relocateItems]
  | ok written =>
    have hsettle := mapM_settle_relocate (Position.down lines) file written
    cases h : written.mapM (Item.settle file) <;>
      simp [relocateItems, hsettle, h, Except.map, eq_comm]

/-- A text is read like one that a line feed follows. -/
theorem parse_eq_ok_iff_reads {text : String} {p : Program} : parse file text = .ok p ↔
    ∃ items, Reads file .first (text.toList ++ ['\n']) items ∧ p = .ofItems file items := by
  unfold parse Reads
  rw [readItems_withLineEnd]
  cases readItems .lineStart .first (text.toList ++ ['\n']) with
  | error fault => simp
  | ok written => cases h : written.mapM (Item.settle file) <;> simp [h, eq_comm]

end

/-- A text behind a script, on lines of its own. -/
theorem parse_append_eq_ok_iff {file s₁ s₂ : String} {p₁ p : Program}
    (h : parse file s₁ = .ok p₁) : parse file (s₁ ++ "\n" ++ s₂) = .ok p ↔
      ∃ p₂, parse file s₂ = .ok p₂ ∧
        p = p₁.followedBy ((s₁ ++ "\n").toList.count '\n') p₂ := by
  obtain ⟨items₁, hitems₁, rfl⟩ := parse_eq_ok_iff_reads.1 h
  have htext : (s₁ ++ "\n").toList = s₁.toList ++ ['\n'] := String.toList_append
  have hlast : (s₁ ++ "\n").toList.getLast? = some '\n' := by simp
  rw [← htext] at hitems₁
  simp only [parse_eq_ok_iff_reads]
  rw [String.toList_append, List.append_assoc]
  simp only [reads_append_iff hlast, Position.advanceAll_of_getLast? hlast, reads_down_iff]
  constructor
  · rintro ⟨_, ⟨items₁', _, hitems₁', ⟨items₂, hitems₂, rfl⟩, rfl⟩, rfl⟩
    obtain rfl := hitems₁.unique hitems₁'
    exact ⟨_, ⟨items₂, hitems₂, rfl⟩, Program.ofItems_append file items₁ items₂ _⟩
  · rintro ⟨_, ⟨items₂, hitems₂, rfl⟩, rfl⟩
    exact ⟨_, ⟨items₁, _, hitems₁, ⟨items₂, hitems₂, rfl⟩, rfl⟩,
      (Program.ofItems_append file items₁ items₂ _).symm⟩

/-- A text on the lines behind a script makes up a script with it exactly if it is one by itself.
The whole has the statements and annotations of both, those of the text as many lines further down
as stand before it; the text adds no imports to a script with a statement. -/
theorem parse_append_iff {file s₁ : String} {p₁ : Program} (h : parse file s₁ = .ok p₁)
    (s₂ : String) :
    (∀ p, parse file (s₁ ++ "\n" ++ s₂) = .ok p ↔ ∃ p₂, parse file s₂ = .ok p₂ ∧
      p = p₁.followedBy ((s₁ ++ "\n").toList.count '\n') p₂) ∧
    ∀ path : Path, path.toString = file → p₁.statements ≠ [] →
      (∃ p₂, parse file s₂ = .ok p₂) →
      (Extractor.annotations path (s₁ ++ "\n" ++ s₂)).directives =
        (Extractor.annotations path s₁).directives := by
  refine ⟨fun p => parse_append_eq_ok_iff h, ?_⟩
  rintro path rfl hstatements ⟨p₂, hp₂⟩
  have hwhole := (parse_append_eq_ok_iff h).2 ⟨p₂, hp₂, rfl⟩
  simp only [Extractor.annotations, h, hwhole]
  exact p₁.directives_followedBy hstatements _ p₂

end

attribute [local instance] CharacterNames.none

/-- An import behind a statement changes nothing about what the script imports. -/
theorem parse_append_late_import : ∃ p₁ p₂ : Program,
    parse "/a" "@file:Import(\"b\")\n1 # one" = .ok p₁ ∧
    parse "/a" "@file:Import(\"c\")" = .ok p₂ ∧
    parse "/a" ("@file:Import(\"b\")\n1 # one" ++ "\n" ++ "@file:Import(\"c\")") =
      .ok (p₁.followedBy 2 p₂) ∧
    (Extractor.annotations (.ofString "/a")
      ("@file:Import(\"b\")\n1 # one" ++ "\n" ++ "@file:Import(\"c\")")).directives =
      (Extractor.annotations (.ofString "/a") "@file:Import(\"b\")\n1 # one").directives ∧
    (Extractor.annotations (.ofString "/a") "@file:Import(\"b\")\n1 # one").directives.map
      (·.path) = ["b"] := by
  have hlength : (parse "/a" "@file:Import(\"b\")\n1 # one").toOption.map (·.statements.length) =
      some 1 := by decide +kernel
  have hcount : (parse "/a" "@file:Import(\"c\")").toOption.map (·.annotations.length) =
      some 1 := by decide +kernel
  obtain ⟨p₁, hp₁, hlength⟩ := Option.map_eq_some_iff.1 hlength
  obtain ⟨p₂, hp₂, -⟩ := Option.map_eq_some_iff.1 hcount
  rw [toOption_eq_some_iff] at hp₁ hp₂
  obtain ⟨hparse, hdirectives⟩ := parse_append_iff hp₁ "@file:Import(\"c\")"
  have hlines : ("@file:Import(\"b\")\n1 # one" ++ "\n").toList.count '\n' = 2 := by decide
  rw [hlines] at hparse
  have hstatements : p₁.statements ≠ [] := List.ne_nil_of_length_pos (by omega)
  exact ⟨p₁, p₂, hp₁, hp₂, (hparse _).2 ⟨p₂, hp₂, rfl⟩,
    hdirectives _ (by decide +kernel) hstatements ⟨p₂, hp₂⟩, by decide +kernel⟩

end ScriptRunner.Script
