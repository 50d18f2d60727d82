import Mathlib.Data.List.Induction
import ScriptRunner.Proofs.Script.Lines
import ScriptRunner.Proofs.Script.Members

/-!
# Integers that are written and read back

An integer is written with its decimal digits, behind a minus sign if it is negative. That text is a
script, provided that there are not too many digits: one statement whose value is the integer. The
limit is the same for writing and for reading, and the sign does not count.

## Main statements

* `isWritable_iff` - which integers are written, in terms of their digits.
* `isWritable_of_numberValue` - a number that is read as an integer can be written.
* `exists_parse_intText` - the text of an integer that can be written is a script.
* `parse_intText_eq_error`, `exists_parse_eq_error_of_digits` - the digits of any other integer are
  in no script.
-/

namespace ScriptRunner

theorem tenPow_le_tenPow {m n : Nat} (h : m ≤ n) : tenPow m ≤ tenPow n :=
  Nat.pow_le_pow_right (by decide) h

theorem length_toDigits_le_iff {n k : Nat} (hk : 0 < k) :
    (Nat.toDigits 10 n).length ≤ k ↔ n < tenPow k :=
  Nat.length_toDigits_le_iff (by decide) hk

/-- An integer can be written exactly if its decimal digits are not too many. -/
theorem isWritable_iff (n : Int) :
    IsWritable n ↔ (Nat.toDigits 10 n.natAbs).length ≤ intDigitLimit :=
  (length_toDigits_le_iff (by decide)).symm

namespace Script

theorem isDigits_toDigits (n : Nat) : IsDigits (Nat.toDigits 10 n) := by
  refine ⟨Nat.toDigits_ne_nil, fun c hc => ?_⟩
  exact Nat.isDigit_of_mem_toDigits (by decide) (by decide) hc

theorem digitsValue_toDigits (n : Nat) : digitsValue (Nat.toDigits 10 n) = n :=
  Nat.ofDigitChars_ten_toDigits

theorem digitsValue_concat (cs : List Char) (c : Char) :
    digitsValue (cs ++ [c]) = 10 * digitsValue cs + digitValue c := by
  rw [digitsValue, List.foldl_append]
  rfl

theorem digitValue_lt {c : Char} (h : c.isDigit = true) : digitValue c < 10 := by
  have hrange := Char.isDigit_iff_toNat.1 h
  have hzero : '0'.toNat = 48 := rfl
  have hnine : '9'.toNat = 57 := rfl
  rw [digitValue, hzero]
  omega

theorem digitsValue_lt {cs : List Char} (h : ∀ c ∈ cs, c.isDigit = true) :
    digitsValue cs < tenPow cs.length := by
  induction cs using List.reverseRecOn with
  | nil => exact tenPow_pos 0
  | append_singleton cs c ih =>
    have hcs := ih fun d hd => h d (List.mem_append_left _ hd)
    have hc := digitValue_lt (h c (List.mem_append_right _ List.mem_cons_self))
    rw [digitsValue_concat, List.length_append, List.length_singleton, tenPow_succ]
    omega

section

variable {text : List Char}

theorem numberValue_eq_int (h : IsDigits text) (hlength : text.length ≤ intDigitLimit) :
    numberValue text = .ok (.int (digitsValue text)) := by
  rw [numberValue, if_pos (List.all_eq_true.2 h.2), if_pos hlength]

theorem numberValue_eq_error (h : IsDigits text) (hlength : intDigitLimit < text.length) :
    numberValue text = .error (.tooManyDigits text.length) := by
  rw [numberValue, if_pos (List.all_eq_true.2 h.2), if_neg (Nat.not_le.2 hlength)]

/-- A number that is read as an integer can be written. -/
theorem isWritable_of_numberValue {n : Int} (h : numberValue text = .ok (.int n)) :
    IsWritable n := by
  unfold numberValue at h
  split at h
  next hdigits =>
    split at h
    next hlength =>
      obtain rfl := Value.int.inj (Except.ok.inj h)
      rw [IsWritable, Int.natAbs_natCast]
      calc digitsValue text
          < tenPow text.length := digitsValue_lt (List.all_eq_true.1 hdigits)
        _ ≤ tenPow intDigitLimit := tenPow_le_tenPow hlength
    next => simp at h
  next => simp at h

end

section

variable {allowed : Terminal → Bool} {phase next : Phase} {position : Position}
  {text rest : List Char}

/-- Digits in front of a line feed are a whole number. -/
theorem takeNumber_digits (h : IsDigits text) (rest : List Char) :
    takeNumber (text ++ '\n' :: rest) = some (text, '\n' :: rest) := by
  have hdigits : takeDigits (text ++ '\n' :: rest) = some (text, '\n' :: rest) := by
    rw [takeDigits_append h]
    simp
  have hexponent : takeExponent ('\n' :: rest) = none := by simp [takeExponent]
  simp [takeNumber, hdigits, hexponent]

/-- Only a number starts with a digit. -/
theorem Terminal.eq_number_of_digit {t : Terminal} {c : Char} {cs : List Char}
    (h : t.match? (c :: cs) = some (text, rest)) (hc : c.isDigit = true) : t = .number := by
  have hspells := Terminal.spells_of_match? h
  obtain ⟨d, ds, rfl, hd⟩ := hspells.head
  obtain ⟨rfl, -⟩ := List.cons.inj (t.takes_match? _ _ _ h).1
  have hkind : t.kind = (Terminal.mark .dot).kind := hd.symm.trans (startKind_digit hc)
  rcases Terminal.eq_number_or_dot_of_kind t t.mem_all hkind with rfl | rfl
  · rfl
  · obtain ⟨rfl, -⟩ := List.cons.inj hspells
    simp at hc

theorem scan_digits (hnumber : allowed .number = true) (h : IsDigits text) (rest : List Char) :
    scan allowed (text ++ '\n' :: rest) = .token .number text ('\n' :: rest) := by
  have htake : Terminal.number.match? (text ++ '\n' :: rest) = some (text, '\n' :: rest) :=
    takeNumber_digits h rest
  obtain ⟨t, text', rest', hscan⟩ := exists_scan_eq_token hnumber htake
  have hmatch := scan_eq_token_match hscan
  obtain ⟨c, cs, rfl, hc⟩ := h.head
  obtain rfl := Terminal.eq_number_of_digit hmatch hc
  rw [htake] at hmatch
  obtain ⟨rfl, rfl⟩ := Prod.mk.inj (Option.some.inj hmatch)
  exact hscan

/-- Only a minus sign starts like one. -/
theorem Terminal.eq_minus_of_kind : ∀ t ∈ Terminal.all, t.kind = Terminal.minus.kind →
    t = .minus := by
  decide +kernel

theorem scan_minus (hminus : allowed .minus = true) (rest : List Char) :
    scan allowed ('-' :: rest) = .token .minus ['-'] rest := by
  have htake : Terminal.minus.match? ('-' :: rest) = some (['-'], rest) := by
    simp [Terminal.match?, Terminal.minus, Operator.symbol, ArithmeticOperator.symbol, takeText]
  obtain ⟨t, text', rest', hscan⟩ := exists_scan_eq_token hminus htake
  have hmatch := scan_eq_token_match hscan
  obtain ⟨d, ds, rfl, hd⟩ := (Terminal.spells_of_match? hmatch).head
  obtain ⟨rfl, -⟩ := List.cons.inj (scan_eq_token hscan).2.1
  obtain rfl := Terminal.eq_minus_of_kind t t.mem_all hd.symm
  obtain ⟨rfl, rfl⟩ := by simpa using htake.symm.trans hmatch
  exact hscan

/-- Digits in front of a line feed are read where a number may stand. -/
theorem readItems_digits (h : IsDigits text) (rest : List Char)
    (hstep : phase.step ⟨.number, text, ⟨position, position.advanceAll text⟩⟩ =
      some (next, none)) :
    readItems phase position (text ++ '\n' :: rest) =
      readItems next (position.advanceAll text) ('\n' :: rest) := by
  have hallows : phase.allows .number = true := by
    rw [← Phase.isSome_step phase ⟨.number, text, ⟨position, position.advanceAll text⟩⟩, hstep,
      Option.isSome_some]
  have hscan := scan_digits hallows h rest
  obtain ⟨c, cs, rfl, hc⟩ := h.head
  refine readItems_token_none ?_ ?_ hscan hstep
  · simp
  · exact startKind_digit hc

end

/-- Digits on a line of their own are one statement. -/
theorem exists_readItems_digits {digits : List Char} (h : IsDigits digits) :
    ∃ span, readItems .lineStart .first (digits ++ ['\n']) =
      .ok [.statement (.expression (.literal (.number digits) span) span)] := by
  let span : Span := ⟨.first, Position.first.advanceAll digits⟩
  let operand : Operand := ⟨.literal (.number digits) span, span⟩
  let ctx : Context := { opening := .expression }
  have hdigits : readItems .lineStart .first (digits ++ ['\n']) =
      readItems (.operandEnd ctx operand) span.stop ['\n'] :=
    readItems_digits h [] rfl
  have hend : (Phase.operandEnd ctx operand).step ⟨.lineEnd, ['\n'], span⟩ =
      some (.lineStart, some (.statement (.expression operand.expr span))) := rfl
  refine ⟨span, ?_⟩
  rw [hdigits, readItems_feed hend, readItems_nil_eq_ok_iff.2 ⟨rfl, rfl⟩]
  rfl

/-- So are digits behind a minus sign. -/
theorem exists_readItems_negated {digits : List Char} (h : IsDigits digits) :
    ∃ inner span, readItems .lineStart .first ('-' :: (digits ++ ['\n'])) =
      .ok [.statement (.expression (.negate (.literal (.number digits) inner) span) span)] := by
  let start := Position.first.advanceAll ['-']
  let inner : Span := ⟨start, start.advanceAll digits⟩
  let operand : Operand := ⟨.literal (.number digits) inner, inner⟩
  let ctx : Context := { opening := .expression, pending := { minuses := [.first] } }
  let span : Span := ⟨.first, inner.stop⟩
  have hminus : readItems .lineStart .first ('-' :: (digits ++ ['\n'])) =
      readItems (.beforeOperand ctx) start (digits ++ ['\n']) := by
    refine readItems_token_none ?_ ?_ (scan_minus rfl _) rfl
    · simp [Terminal.minus]
    · rfl
  have hdigits : readItems (.beforeOperand ctx) start (digits ++ ['\n']) =
      readItems (.operandEnd ctx operand) inner.stop ['\n'] :=
    readItems_digits h [] rfl
  have hend : (Phase.operandEnd ctx operand).step ⟨.lineEnd, ['\n'], span⟩ =
      some (.lineStart, some (.statement (.expression (.negate operand.expr span) span))) := rfl
  refine ⟨inner, span, ?_⟩
  rw [hminus, hdigits, readItems_feed hend, readItems_nil_eq_ok_iff.2 ⟨rfl, rfl⟩]
  rfl

/-- The text of an integer with a line end. -/
theorem withLineEnd_intText (n : Int) : withLineEnd (intText n).toList =
    (if n < 0 then ['-'] else []) ++ (Nat.toDigits 10 n.natAbs ++ ['\n']) := by
  have hdigits := isDigits_toDigits n.natAbs
  rw [intText, String.toList_ofList]
  exact withLineEnd_append _ hdigits.1 (hdigits.not_mem (by decide))

variable [CharacterNames]

/-- The text of an integer that can be written is a script with one statement, whose expression is
the integer or the negation of its opposite. -/
theorem exists_parse_intText {file : String} (hfile : file ≠ "") {n : Int} (h : IsWritable n) :
    ∃ e span, parse file (intText n) = .ok ⟨file, [], [.expression e span]⟩ ∧
      (e = .literal (.int n) span ∨
        ∃ inner, e = .negate (.literal (.int (-n)) inner) span) := by
  have hdigits := isDigits_toDigits n.natAbs
  have hvalue := numberValue_eq_int hdigits ((isWritable_iff n).1 h)
  rw [digitsValue_toDigits] at hvalue
  have htext := withLineEnd_intText n
  by_cases hneg : n < 0
  · obtain ⟨inner, span, hread⟩ := exists_readItems_negated hdigits
    have habs : (n.natAbs : Int) = -n := by omega
    rw [if_pos hneg, List.singleton_append] at htext
    rw [habs] at hvalue
    refine ⟨_, span, ?_, .inr ⟨inner, rfl⟩⟩
    simp only [parse, htext, hread, List.mapM_cons, List.mapM_nil, Item.settle, Statement.settle,
      Expr.settle, Written.settle, Written.value, hvalue, requireFile_eq_ok hfile]
    rfl
  · obtain ⟨span, hread⟩ := exists_readItems_digits hdigits
    have habs : (n.natAbs : Int) = n := by omega
    rw [if_neg hneg, List.nil_append] at htext
    rw [habs] at hvalue
    refine ⟨_, span, ?_, .inl rfl⟩
    simp only [parse, htext, hread, List.mapM_cons, List.mapM_nil, Item.settle, Statement.settle,
      Expr.settle, Written.settle, Written.value, hvalue, requireFile_eq_ok hfile]
    rfl

/-- The text of an integer that cannot be written is no script. -/
theorem parse_intText_eq_error (file : String) {n : Int} (h : ¬ IsWritable n) :
    parse file (intText n) = .error ⟨file, .content
      (.literal (.tooManyDigits (Nat.toDigits 10 n.natAbs).length))⟩ := by
  have hdigits := isDigits_toDigits n.natAbs
  rw [isWritable_iff, Nat.not_le] at h
  have hvalue := numberValue_eq_error hdigits h
  have htext := withLineEnd_intText n
  split at htext
  · obtain ⟨inner, span, hread⟩ := exists_readItems_negated hdigits
    rw [List.singleton_append] at htext
    simp only [parse, htext, hread, List.mapM_cons, Item.settle, Statement.settle, Expr.settle,
      Written.settle, Written.value, hvalue]
    rfl
  · obtain ⟨span, hread⟩ := exists_readItems_digits hdigits
    rw [List.nil_append] at htext
    simp only [parse, htext, hread, List.mapM_cons, Item.settle, Statement.settle, Expr.settle,
      Written.settle, Written.value, hvalue]
    rfl

/-- No script holds the digits of an integer that cannot be written, whatever stands around them. -/
theorem exists_parse_eq_error_of_digits (file : String) {text : String} {tokens : List Token}
    (hlexes : Lexes [] .first (withLineEnd text.toList) tokens) {t : Token} (ht : t ∈ tokens)
    (hnumber : t.terminal = .number) {n : Int} (h : ¬ IsWritable n)
    (hdigits : t.text = Nat.toDigits 10 n.natAbs) : ∃ error, parse file text = .error error := by
  cases hparse : parse file text with
  | error error => exact ⟨error, rfl⟩
  | ok p =>
    -- The tokens of a script all have values.
    obtain ⟨script, hscript, hdecodes, -⟩ := exists_parse_eq_ok_iff.1 ⟨p, hparse⟩
    have hvalue := hdecodes t (hlexes.unique hscript ▸ ht)
    rw [isWritable_iff, Nat.not_le] at h
    simp [Token.Decodes, hnumber, hdigits, numberValue_eq_error (isDigits_toDigits _) h] at hvalue

end Script

end ScriptRunner
