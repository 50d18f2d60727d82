import Mathlib.Data.Prod.Lex
import ScriptRunner.Proofs.Script.Parsing

/-!
# Places of the parts of a script

The tokens of a text stand one after another, and each of them takes up some of the text. Every part
of a script reaches from the first of its tokens to the last one. So an operand lies inside its
expression, the left one before the right one, an expression inside its statement, and what stands
on its own in a script stands one after another.

## Main definitions

* `Span.Within`, `Span.Precedes` - how spans lie to each other.
* `InOrder`, `Spans` - tokens one after another, and the span that some of them make up.
* `Expr.operands`, `Expr.nodes` - the expressions that an expression is made of.
* `Expr.IsPlaced` - the operands of an expression lie in it, in their order.
* `Program.InSourceOrder` - the statements and the annotations of a script are apart.

## Main statements

* `Lexes.inOrder` - the tokens of a text stand one after another.
* `ExprTree.spans_extent`, `Part.spans_item?` - the tokens that a part of a script reaches over.
* `ExprTree.isPlaced_of_mem_nodes`, `ScriptTree.isPlaced_of_mem_nodes` - the places of an expression
  and of all that it is made of.
* `ScriptTree.pairwise_items` - what stands on its own in a script stands one after another.
-/

namespace ScriptRunner

/-- Positions are ordered like the characters of a text. -/
instance : LinearOrder Position :=
  LinearOrder.lift' (fun p => toLex (p.line, p.column)) fun p q h => by
    obtain ⟨hline, hcolumn⟩ := Prod.mk.inj (toLex_inj.1 h)
    cases p
    cases q
    simp_all

namespace Position

theorem lt_iff {p q : Position} :
    p < q ↔ p.line < q.line ∨ p.line = q.line ∧ p.column < q.column :=
  Prod.Lex.toLex_lt_toLex

theorem lt_advance (p : Position) (c : Char) : p < p.advance c := by
  rw [lt_iff, advance]
  split
  · exact .inl (Nat.lt_succ_self _)
  · exact .inr ⟨rfl, Nat.lt_succ_self _⟩

theorem le_advanceAll (p : Position) (cs : List Char) : p ≤ p.advanceAll cs := by
  induction cs generalizing p with
  | nil => exact le_refl p
  | cons c cs ih => exact (p.lt_advance c).le.trans (ih _)

theorem lt_advanceAll (p : Position) {cs : List Char} (hcs : cs ≠ []) : p < p.advanceAll cs := by
  obtain ⟨c, cs, rfl⟩ := List.exists_cons_of_ne_nil hcs
  exact (p.lt_advance c).trans_le (le_advanceAll _ cs)

end Position

namespace Span

variable {s s' t t' : Span}

/-- A span lies inside another one. -/
def Within (s t : Span) : Prop :=
  t.start ≤ s.start ∧ s.stop ≤ t.stop

/-- A span ends before another one starts. -/
def Precedes (s t : Span) : Prop :=
  s.stop ≤ t.start

theorem Within.refl (s : Span) : s.Within s :=
  ⟨le_refl _, le_refl _⟩

theorem Within.trans (h : s.Within s') (h' : s'.Within t) : s.Within t :=
  ⟨h'.1.trans h.1, h.2.trans h'.2⟩

/-- What lies in spans that are apart is apart. -/
theorem Precedes.within (h : s.Precedes t) (hs : s'.Within s) (ht : t'.Within t) :
    s'.Precedes t' :=
  hs.2.trans (h.trans ht.1)

end Span

namespace Script

/-- Tokens stand one after another, and each of them takes up some of the text. -/
structure InOrder (ts : List Token) : Prop where
  lt : ∀ t ∈ ts, t.span.start < t.span.stop
  pairwise : ts.Pairwise fun t u => t.span.Precedes u.span

/-- The tokens of a text stand one after another, behind the place where the text starts. -/
theorem Lexes.inOrder {before tokens : List Token} {position : Position} {cs : List Char}
    (h : Lexes before position cs tokens) :
    InOrder tokens ∧ ∀ t ∈ tokens, position ≤ t.span.start := by
  induction h with
  | done => exact ⟨⟨by simp, .nil⟩, by simp⟩
  | @skip before tokens position cs text rest l hmunch hl hrest ih =>
    obtain ⟨horder, hplace⟩ := ih
    exact ⟨horder, fun t ht => (position.le_advanceAll text).trans (hplace t ht)⟩
  | @token before tokens position cs text rest terminal hmunch hrest ih =>
    obtain ⟨horder, hplace⟩ := ih
    have hlt : position < position.advanceAll text := position.lt_advanceAll hmunch.ne_nil
    refine ⟨⟨?_, .cons hplace horder.pairwise⟩, ?_⟩
    · intro t ht
      rcases List.mem_cons.1 ht with rfl | ht
      · exact hlt
      · exact horder.lt t ht
    · intro t ht
      rcases List.mem_cons.1 ht with rfl | ht
      · exact le_refl _
      · exact hlt.le.trans (hplace t ht)

/-- A span reaches from the first of some tokens to the last one. -/
def Spans (ts : List Token) (s : Span) : Prop :=
  ∃ first ∈ ts.head?, ∃ last ∈ ts.getLast?, s = first.span.upTo last.span

section

variable {ts us : List Token} {s s' : Span}

theorem InOrder.sublist (h : InOrder us) (hsub : ts.Sublist us) : InOrder ts :=
  ⟨fun t ht => h.lt t (hsub.subset ht), h.pairwise.sublist hsub⟩

theorem spans_single (t : Token) : Spans [t] t.span :=
  ⟨t, rfl, t, rfl, rfl⟩

theorem Spans.append (hs : Spans ts s) (mid : List Token) (hs' : Spans us s') :
    Spans (ts ++ (mid ++ us)) (s.upTo s') := by
  obtain ⟨first, hfirst, -, -, rfl⟩ := hs
  obtain ⟨-, -, last, hlast, rfl⟩ := hs'
  refine ⟨first, ?_, last, ?_, rfl⟩
  · rw [List.head?_append, hfirst, Option.some_or]
    rfl
  · rw [List.getLast?_append, List.getLast?_append, hlast, Option.some_or, Option.some_or]
    rfl

theorem Spans.exists_mem (hs : Spans ts s) : ∃ first ∈ ts, ∃ last ∈ ts,
    s = first.span.upTo last.span := by
  obtain ⟨first, hfirst, last, hlast, rfl⟩ := hs
  exact ⟨first, List.mem_of_head? hfirst, last, List.mem_of_getLast? hlast, rfl⟩

/-- Every token lies in the span of all. -/
theorem Spans.within_of_mem (h : InOrder ts) (hs : Spans ts s) {t : Token} (ht : t ∈ ts) :
    t.span.Within s := by
  obtain ⟨first, hfirst, last, hlast, rfl⟩ := hs
  constructor
  · obtain ⟨rest, rfl⟩ := List.head?_eq_some_iff.1 hfirst
    rcases List.mem_cons.1 ht with rfl | hrest
    · exact le_refl _
    · exact (h.lt first List.mem_cons_self).le.trans ((List.pairwise_cons.1 h.pairwise).1 t hrest)
  · obtain ⟨init, rfl⟩ := List.getLast?_eq_some_iff.1 hlast
    have hlast := (h.lt last (by simp)).le
    rcases List.mem_append.1 ht with hinit | hlast'
    · have hprecedes := (List.pairwise_append.1 h.pairwise).2.2 t hinit last (by simp)
      exact le_trans hprecedes hlast
    · obtain rfl := List.mem_singleton.1 hlast'
      exact le_refl _

theorem Spans.within (h : InOrder us) (hs' : Spans us s') (hs : Spans ts s) (hsub : ts ⊆ us) :
    s.Within s' := by
  obtain ⟨first, hfirst, last, hlast, rfl⟩ := hs.exists_mem
  exact ⟨(hs'.within_of_mem h (hsub hfirst)).1, (hs'.within_of_mem h (hsub hlast)).2⟩

theorem Spans.lt (h : InOrder ts) (hs : Spans ts s) : s.start < s.stop := by
  obtain ⟨first, hfirst, last, hlast, heq⟩ := hs.exists_mem
  have hstop := (hs.within_of_mem h hfirst).2
  subst heq
  exact (h.lt first hfirst).trans_le hstop

theorem Spans.precedes (h : InOrder (ts ++ us)) (hs : Spans ts s) (hs' : Spans us s') :
    s.Precedes s' := by
  obtain ⟨-, -, last, hlast, rfl⟩ := hs.exists_mem
  obtain ⟨first, hfirst, -, -, rfl⟩ := hs'.exists_mem
  exact (List.pairwise_append.1 h.pairwise).2.2 last hlast first hfirst

end

namespace Expr

variable {L : Type}

/-- The operands of an expression, from left to right. -/
def operands : Expr L → List (Expr L)
  | literal _ _ | name _ _ | member _ _ _ => []
  | binary _ left right _ => [left, right]
  | negate operand _ => [operand]

/-- An expression and all that it is made of. -/
def nodes : Expr L → List (Expr L)
  | literal value span => [literal value span]
  | name n span => [name n span]
  | member owner n span => [member owner n span]
  | binary op left right span => binary op left right span :: (left.nodes ++ right.nodes)
  | negate operand span => negate operand span :: operand.nodes

theorem mem_nodes_self (e : Expr L) : e ∈ e.nodes := by
  cases e <;> simp [nodes]

/-- An expression takes up some of the text; its operands lie in it, one after another. -/
structure IsPlaced (e : Expr L) : Prop where
  lt : e.span.start < e.span.stop
  within : ∀ operand ∈ e.operands, operand.span.Within e.span
  pairwise : e.operands.Pairwise fun left right => left.span.Precedes right.span

end Expr

namespace ExprTree

/-- An operand reaches over all of its tokens. -/
theorem spans_extent {l : Level} (e : ExprTree l) : Spans e.tokens e.operand.extent := by
  induction e with
  | ofSum s ih | ofProduct s ih | ofUnary s ih | ofAtom s ih => exact ih
  | comparison left op sign right ihLeft ihRight | sum left op sign right ihLeft ihRight
  | product left op sign right ihLeft ihRight => exact ihLeft.append [_] ihRight
  | negate minus operand ih => exact (spans_single _).append [] ih
  | bracket opening inner closing ih =>
    exact (spans_single _).append inner.tokens (spans_single (closing.as (.mark .closeParen)))
  | member owner dot field =>
    exact (spans_single _).append [_] (spans_single (field.as .name))
  | number leaf | string leaf | truth b leaf | name leaf => exact spans_single _

/-- The place of an expression without operands. -/
theorem isPlaced_leaf {ts : List Token} {operand : Operand} (hspans : Spans ts operand.extent)
    (horder : InOrder ts) (hnodes : operand.expr.nodes = [operand.expr])
    (hoperands : operand.expr.operands = []) (hspan : operand.expr.span = operand.extent) :
    ∀ n ∈ operand.expr.nodes, n.IsPlaced ∧ n.span.Within operand.extent := by
  intro n hn
  rw [hnodes] at hn
  obtain rfl := List.mem_singleton.1 hn
  refine ⟨⟨?_, by simp [hoperands], by simp [hoperands]⟩, ?_⟩
  · rw [hspan]
    exact hspans.lt horder
  · rw [hspan]
    exact .refl _

/-- The places of an expression between two operands. -/
theorem isPlaced_binary {l m : Level} {left : ExprTree l} {right : ExprTree m} {sign : Token}
    (op : Operator) (horder : InOrder (left.tokens ++ sign :: right.tokens))
    (hleft : ∀ n ∈ left.operand.expr.nodes, n.IsPlaced ∧ n.span.Within left.operand.extent)
    (hright : ∀ n ∈ right.operand.expr.nodes, n.IsPlaced ∧ n.span.Within right.operand.extent) :
    ∀ n ∈ (Operand.binary op left.operand right.operand).expr.nodes, n.IsPlaced ∧
      n.span.Within (Operand.binary op left.operand right.operand).extent := by
  let whole := left.operand.extent.upTo right.operand.extent
  have hspans : Spans (left.tokens ++ sign :: right.tokens) whole :=
    left.spans_extent.append [sign] right.spans_extent
  have hleftWithin : left.operand.extent.Within whole :=
    hspans.within horder left.spans_extent (by simp)
  have hrightWithin : right.operand.extent.Within whole :=
    hspans.within horder right.spans_extent (by intro t ht; simp [ht])
  have hprecedes : left.operand.extent.Precedes right.operand.extent := by
    have hsub : (left.tokens ++ right.tokens).Sublist (left.tokens ++ sign :: right.tokens) :=
      (List.sublist_cons_self _ _).append_left _
    exact Spans.precedes (horder.sublist hsub) left.spans_extent right.spans_extent
  obtain ⟨-, hleftExpr⟩ := hleft _ (Expr.mem_nodes_self _)
  obtain ⟨-, hrightExpr⟩ := hright _ (Expr.mem_nodes_self _)
  intro n hn
  rcases List.mem_cons.1 hn with rfl | hn
  · refine ⟨⟨hspans.lt horder, ?_, ?_⟩, .refl _⟩
    · intro operand hoperand
      rcases List.mem_pair.1 hoperand with rfl | rfl
      · exact hleftExpr.trans hleftWithin
      · exact hrightExpr.trans hrightWithin
    · exact List.pairwise_pair.2 (hprecedes.within hleftExpr hrightExpr)
  · rcases List.mem_append.1 hn with hn | hn
    · exact ⟨(hleft n hn).1, (hleft n hn).2.trans hleftWithin⟩
    · exact ⟨(hright n hn).1, (hright n hn).2.trans hrightWithin⟩

/-- The places of an expression and of all that it is made of. -/
theorem isPlaced_of_mem_nodes {l : Level} (e : ExprTree l) (horder : InOrder e.tokens) :
    ∀ n ∈ e.operand.expr.nodes, n.IsPlaced ∧ n.span.Within e.operand.extent := by
  induction e with
  | ofSum s ih | ofProduct s ih | ofUnary s ih | ofAtom s ih => exact ih horder
  | comparison left op sign right ihLeft ihRight | sum left op sign right ihLeft ihRight
  | product left op sign right ihLeft ihRight =>
    have hleft := ihLeft (horder.sublist (List.sublist_append_left _ _))
    have hright := ihRight (horder.sublist
      ((List.sublist_cons_self _ _).trans (List.sublist_append_right _ _)))
    exact isPlaced_binary op horder hleft hright
  | negate minus operand ih =>
    have hinner := ih (horder.sublist (List.sublist_cons_self _ _))
    have hspans := (ExprTree.negate minus operand).spans_extent
    have hwithin : operand.operand.extent.Within (ExprTree.negate minus operand).operand.extent :=
      hspans.within horder operand.spans_extent (List.subset_cons_self _ _)
    intro n hn
    rcases List.mem_cons.1 hn with rfl | hn
    · refine ⟨⟨hspans.lt horder, ?_, List.pairwise_singleton _ _⟩, .refl _⟩
      intro inner hmem
      obtain rfl := List.mem_singleton.1 hmem
      exact (hinner _ (Expr.mem_nodes_self _)).2.trans hwithin
    · exact ⟨(hinner n hn).1, (hinner n hn).2.trans hwithin⟩
  | bracket opening inner closing ih =>
    have hsub : inner.tokens.Sublist (ExprTree.bracket opening inner closing).tokens :=
      (List.sublist_append_left _ _).trans (List.sublist_cons_self _ _)
    have hspans := (ExprTree.bracket opening inner closing).spans_extent
    have hwithin := hspans.within horder inner.spans_extent hsub.subset
    intro n hn
    obtain ⟨hplaced, hn⟩ := ih (horder.sublist hsub) n hn
    exact ⟨hplaced, hn.trans hwithin⟩
  | number leaf =>
    exact isPlaced_leaf (ExprTree.number leaf).spans_extent horder rfl rfl rfl
  | string leaf =>
    exact isPlaced_leaf (ExprTree.string leaf).spans_extent horder rfl rfl rfl
  | truth b leaf =>
    exact isPlaced_leaf (ExprTree.truth b leaf).spans_extent horder rfl rfl rfl
  | name leaf =>
    exact isPlaced_leaf (ExprTree.name leaf).spans_extent horder rfl rfl rfl
  | member owner dot field =>
    exact isPlaced_leaf (ExprTree.member owner dot field).spans_extent horder rfl rfl rfl

end ExprTree

/-- The expression of a statement. -/
def Statement.value {L : Type} : Statement L → Expr L
  | val _ value _ | print value _ | expression value _ => value

def Item.span {L A : Type} : Item L A → Span
  | annotate _ _ _ span => span
  | statement s => s.span

namespace StatementTree

/-- The derivation of the expression of a statement. -/
def value : StatementTree → ExprTree .expr
  | val _ _ _ value | print _ _ value _ | expression value => value

theorem value_statement (st : StatementTree) : st.statement.value = st.value.operand.expr := by
  cases st <;> rfl

/-- A statement reaches over all of its tokens. -/
theorem spans_statement (st : StatementTree) : Spans st.tokens st.statement.span := by
  cases st with
  | val keyword name assign value => exact (spans_single _).append [_, _] value.spans_extent
  | print keyword opening value closing =>
    exact (spans_single _).append (_ :: value.tokens)
      (spans_single (closing.as (.mark .closeParen)))
  | expression value => exact value.spans_extent

theorem sublist_tokens (st : StatementTree) : st.value.tokens.Sublist st.tokens := by
  cases st with
  | val keyword name assign value => exact List.sublist_append_right [_, _, _] _
  | print keyword opening value closing =>
    exact (List.sublist_append_left _ _).trans (List.sublist_append_right [_, _] _)
  | expression value => exact List.Sublist.refl _

/-- The places of all that the expression of a statement is made of. -/
theorem isPlaced_of_mem_nodes (st : StatementTree) (horder : InOrder st.tokens) :
    ∀ n ∈ st.statement.value.nodes, n.IsPlaced ∧ n.span.Within st.statement.span := by
  intro n hn
  rw [value_statement] at hn
  obtain ⟨hplaced, hwithin⟩ :=
    st.value.isPlaced_of_mem_nodes (horder.sublist st.sublist_tokens) n hn
  have hextent := st.spans_statement.within horder st.value.spans_extent st.sublist_tokens.subset
  exact ⟨hplaced, hwithin.trans hextent⟩

end StatementTree

/-- What stands on its own in a script reaches over its tokens, but for the last one, which is a
line end or a semicolon. -/
theorem Part.spans_item? (part : Part) {i : WrittenItem} (hi : part.item? = some i) :
    ∃ ts last, part.tokens = ts ++ [last] ∧ Spans ts i.span := by
  cases part with
  | blank lineEnd => simp [item?] at hi
  | annotate sign target colon name opening argument closing lineEnd =>
    obtain rfl := Option.some.inj hi
    exact ⟨[_, _, _, _, _, _, _], _, rfl, (spans_single (sign.as (.mark .atSign))).append
      [_, _, _, _, _] (spans_single (closing.as (.mark .closeParen)))⟩
  | line st lineEnd =>
    obtain rfl := Option.some.inj hi
    exact ⟨st.tokens, _, rfl, st.spans_statement⟩
  | segment st semicolon =>
    obtain rfl := Option.some.inj hi
    exact ⟨st.tokens, _, rfl, st.spans_statement⟩

/-- A part of a script that is a statement has the tokens of a derivation of it, and one more. -/
theorem Part.exists_statementTree {part : Part} {st : Statement Written}
    (h : part.item? = some (.statement st)) : ∃ (tree : StatementTree) (last : Token),
      part.tokens = tree.tokens ++ [last] ∧ tree.statement = st := by
  cases part with
  | line tree lineEnd => exact ⟨tree, _, rfl, by simpa [Part.item?] using h⟩
  | segment tree semicolon => exact ⟨tree, _, rfl, by simpa [Part.item?] using h⟩
  | blank | annotate => simp [Part.item?] at h

namespace ScriptTree

theorem tokens_cons (part : Part) (script : ScriptTree) :
    ScriptTree.tokens (part :: script) = part.tokens ++ script.tokens :=
  List.flatMap_cons

theorem exists_spans_of_mem_items {script : ScriptTree} {i : WrittenItem} (hi : i ∈ script.items) :
    ∃ ts, ts.Sublist script.tokens ∧ Spans ts i.span := by
  obtain ⟨part, hpart, hitem⟩ := List.mem_filterMap.1 hi
  obtain ⟨ts, last, htokens, hspans⟩ := part.spans_item? hitem
  have hsub : part.tokens.Sublist script.tokens :=
    List.sublist_flatten_of_mem (List.mem_map_of_mem hpart)
  exact ⟨ts, (htokens ▸ List.sublist_append_left ts [last]).trans hsub, hspans⟩

/-- The places of all that the expression of a statement in a script is made of. -/
theorem isPlaced_of_mem_nodes {script : ScriptTree} (horder : InOrder script.tokens)
    {st : Statement Written} (hst : .statement st ∈ script.items) :
    ∀ n ∈ st.value.nodes, n.IsPlaced ∧ n.span.Within st.span := by
  obtain ⟨part, hpart, hitem⟩ := List.mem_filterMap.1 hst
  obtain ⟨tree, last, htokens, rfl⟩ := part.exists_statementTree hitem
  have hsub : part.tokens.Sublist script.tokens :=
    List.sublist_flatten_of_mem (List.mem_map_of_mem hpart)
  exact tree.isPlaced_of_mem_nodes
    (horder.sublist ((htokens ▸ List.sublist_append_left tree.tokens [last]).trans hsub))

/-- What stands on its own in a script takes up some of the text, one after another. -/
theorem pairwise_items {script : ScriptTree} (horder : InOrder script.tokens) :
    (∀ i ∈ script.items, i.span.start < i.span.stop) ∧
      script.items.Pairwise fun i j => i.span.Precedes j.span := by
  constructor
  · intro i hi
    obtain ⟨ts, hsub, hspans⟩ := exists_spans_of_mem_items hi
    exact hspans.lt (horder.sublist hsub)
  · induction script with
    | nil => exact .nil
    | cons part script ih =>
      rw [tokens_cons] at horder
      have hrest := ih (horder.sublist (List.sublist_append_right _ _))
      cases hitem : part.item? with
      | none => rwa [items, List.filterMap_cons_none hitem]
      | some i =>
        rw [items, List.filterMap_cons_some hitem]
        refine .cons (fun j hj => ?_) hrest
        obtain ⟨ts, last, htokens, hspans⟩ := part.spans_item? hitem
        obtain ⟨ts', hsub', hspans'⟩ := exists_spans_of_mem_items hj
        have hsub : ts.Sublist part.tokens := htokens ▸ List.sublist_append_left ts [last]
        exact Spans.precedes (horder.sublist (hsub.append hsub')) hspans hspans'

end ScriptTree

section

variable {file : String}

variable [CharacterNames]

theorem Expr.settle_binary_eq_ok {op : Operator} {left right : Expr Written} {span : Span}
    {v : Expr Value} (h : (binary op left right span).settle file = .ok v) :
    ∃ left' right', left.settle file = .ok left' ∧ right.settle file = .ok right' ∧
      v = binary op left' right' span := by
  obtain ⟨left', hleft, h⟩ := bind_eq_ok h
  obtain ⟨right', hright, h⟩ := bind_eq_ok h
  obtain ⟨-, -, h⟩ := bind_eq_ok h
  exact ⟨left', right', hleft, hright, (Except.ok.inj h).symm⟩

theorem Expr.settle_negate_eq_ok {operand : Expr Written} {span : Span} {v : Expr Value}
    (h : (negate operand span).settle file = .ok v) :
    ∃ operand', operand.settle file = .ok operand' ∧ v = negate operand' span := by
  obtain ⟨operand', hoperand, h⟩ := bind_eq_ok h
  obtain ⟨-, -, h⟩ := bind_eq_ok h
  exact ⟨operand', hoperand, (Except.ok.inj h).symm⟩

/-- What is no literal and has no operands stays as it is. -/
theorem Expr.settle_leaf_eq_ok {e : Expr Written} {v : Expr Value} (hoperands : e.operands = [])
    (h : e.settle file = .ok v) : v.operands = [] ∧ v.nodes = [v] ∧ e.nodes = [e] ∧
      v.span = e.span := by
  cases e with
  | literal w span =>
    obtain ⟨value, -, h⟩ := bind_eq_ok h
    obtain rfl := Except.ok.inj h
    exact ⟨rfl, rfl, rfl, rfl⟩
  | name n span =>
    obtain rfl := Except.ok.inj h
    exact ⟨rfl, rfl, rfl, rfl⟩
  | member owner n span =>
    obtain ⟨-, -, h⟩ := bind_eq_ok h
    obtain rfl := Except.ok.inj h
    exact ⟨rfl, rfl, rfl, rfl⟩
  | binary | negate => simp [operands] at hoperands

theorem Expr.span_settle {e : Expr Written} {v : Expr Value} (h : e.settle file = .ok v) :
    v.span = e.span := by
  cases e with
  | binary op left right span =>
    obtain ⟨left', right', -, -, rfl⟩ := settle_binary_eq_ok h
    rfl
  | negate operand span =>
    obtain ⟨operand', -, rfl⟩ := settle_negate_eq_ok h
    rfl
  | _ => exact (settle_leaf_eq_ok rfl h).2.2.2

/-- What a finished expression is made of are the parts of the written one. -/
theorem Expr.exists_mem_nodes_of_settle {e : Expr Written} {v : Expr Value}
    (h : e.settle file = .ok v) : ∀ n ∈ v.nodes, ∃ w ∈ e.nodes, w.settle file = .ok n := by
  induction e generalizing v with
  | binary op left right span ihLeft ihRight =>
    obtain ⟨left', right', hleft, hright, rfl⟩ := settle_binary_eq_ok h
    intro n hn
    rcases List.mem_cons.1 hn with rfl | hn
    · exact ⟨_, mem_nodes_self _, h⟩
    rcases List.mem_append.1 hn with hn | hn
    · obtain ⟨w, hw, hsettle⟩ := ihLeft hleft n hn
      exact ⟨w, List.mem_cons_of_mem _ (List.mem_append_left _ hw), hsettle⟩
    · obtain ⟨w, hw, hsettle⟩ := ihRight hright n hn
      exact ⟨w, List.mem_cons_of_mem _ (List.mem_append_right _ hw), hsettle⟩
  | negate operand span ih =>
    obtain ⟨operand', hoperand, rfl⟩ := settle_negate_eq_ok h
    intro n hn
    rcases List.mem_cons.1 hn with rfl | hn
    · exact ⟨_, mem_nodes_self _, h⟩
    · obtain ⟨w, hw, hsettle⟩ := ih hoperand n hn
      exact ⟨w, List.mem_cons_of_mem _ hw, hsettle⟩
  | _ =>
    intro n hn
    obtain ⟨-, hnodes, -, -⟩ := settle_leaf_eq_ok rfl h
    rw [hnodes] at hn
    obtain rfl := List.mem_singleton.1 hn
    exact ⟨_, mem_nodes_self _, h⟩

/-- An expression keeps its places when its literals are worked out. -/
theorem Expr.IsPlaced.of_settle {e : Expr Written} {v : Expr Value} (he : e.IsPlaced)
    (h : e.settle file = .ok v) : v.IsPlaced := by
  have hspan := span_settle h
  have hlt := he.lt
  rw [← hspan] at hlt
  cases e with
  | binary op left right span =>
    obtain ⟨left', right', hleft, hright, rfl⟩ := settle_binary_eq_ok h
    refine ⟨hlt, ?_, ?_⟩
    · intro operand hoperand
      rcases List.mem_pair.1 hoperand with rfl | rfl
      · exact span_settle hleft ▸ he.within left (by simp [operands])
      · exact span_settle hright ▸ he.within right (by simp [operands])
    · have hprecedes := List.pairwise_pair.1 he.pairwise
      rw [← span_settle hleft, ← span_settle hright] at hprecedes
      exact List.pairwise_pair.2 hprecedes
  | negate operand span =>
    obtain ⟨operand', hoperand, rfl⟩ := settle_negate_eq_ok h
    refine ⟨hlt, ?_, List.pairwise_singleton _ _⟩
    intro inner hinner
    obtain rfl := List.mem_singleton.1 hinner
    exact span_settle hoperand ▸ he.within operand (by simp [operands])
  | _ =>
    obtain ⟨hoperands, -, -, -⟩ := settle_leaf_eq_ok rfl h
    exact ⟨hlt, by simp [hoperands], by simp [hoperands]⟩

theorem Statement.settle_eq_ok {st : Statement Written} {st' : Statement Value}
    (h : st.settle file = .ok st') :
    st.value.settle file = .ok st'.value ∧ st'.span = st.span := by
  cases st with
  | val name value span | print value span | expression value span =>
    obtain ⟨value', hvalue, h⟩ := bind_eq_ok h
    obtain ⟨-, -, h⟩ := bind_eq_ok h
    obtain rfl := Except.ok.inj h
    exact ⟨hvalue, rfl⟩

theorem Item.span_settle {i : WrittenItem} {i' : Item Value ScriptText}
    (h : Item.settle file i = .ok i') : i'.span = i.span := by
  cases i with
  | annotate target name argument span =>
    obtain ⟨argument', -, h⟩ := bind_eq_ok h
    obtain ⟨-, -, h⟩ := bind_eq_ok h
    obtain rfl := Except.ok.inj h
    rfl
  | statement st =>
    obtain ⟨st', hst, h⟩ := bind_eq_ok h
    obtain rfl := Except.ok.inj h
    exact (Statement.settle_eq_ok hst).2

end

/-- The annotations and the statements of a script take up some of the text, one after another in
each of the two lists, and none of them overlaps with one of the other list. -/
structure Program.InSourceOrder (p : Program) : Prop where
  annotations_lt : ∀ a ∈ p.annotations, a.span.start < a.span.stop
  statements_lt : ∀ s ∈ p.statements, s.span.start < s.span.stop
  annotations : p.annotations.Pairwise fun a b => a.span.Precedes b.span
  statements : p.statements.Pairwise fun s t => s.span.Precedes t.span
  apart : ∀ a ∈ p.annotations, ∀ s ∈ p.statements,
    a.span.Precedes s.span ∨ s.span.Precedes a.span

section

variable {L : Type} {items : List (Item L ScriptText)}

/-- The annotations among items have the spans of items, in the same order. -/
theorem sublist_annotationsOf (inHeader : Bool) (items : List (Item L ScriptText)) :
    ((annotationsOf inHeader items).map (·.span)).Sublist (items.map Item.span) := by
  induction items generalizing inHeader with
  | nil => exact .slnil
  | cons item items ih =>
    cases item with
    | annotate target name argument span => exact (ih inHeader).cons_cons _
    | statement s => exact (ih false).cons _

theorem sublist_statementsOf (items : List (Item L ScriptText)) :
    ((statementsOf items).map Statement.span).Sublist (items.map Item.span) := by
  induction items with
  | nil => exact .slnil
  | cons item items ih =>
    cases item with
    | annotate target name argument span => exact ih.cons _
    | statement s => exact ih.cons_cons _

/-- Of items that stand one after another the annotations and the statements are apart. -/
theorem annotationsOf_apart_statementsOf
    (h : items.Pairwise fun i j => i.span.Precedes j.span) (inHeader : Bool) :
    ∀ a ∈ annotationsOf inHeader items, ∀ s ∈ statementsOf items,
      a.span.Precedes s.span ∨ s.span.Precedes a.span := by
  induction items generalizing inHeader with
  | nil => simp [annotationsOf]
  | cons item items ih =>
    obtain ⟨hfirst, hrest⟩ := List.pairwise_cons.1 h
    have hbehind : ∀ span ∈ items.map Item.span, item.span.Precedes span := by
      intro span hspan
      obtain ⟨j, hj, rfl⟩ := List.mem_map.1 hspan
      exact hfirst j hj
    intro a ha s hs
    cases item with
    | annotate target name argument span =>
      rcases List.mem_cons.1 ha with rfl | ha
      · exact .inl (hbehind _ ((sublist_statementsOf items).subset (List.mem_map_of_mem hs)))
      · exact ih hrest inHeader a ha s hs
    | statement st =>
      rcases List.mem_cons.1 hs with rfl | hs
      · exact .inr (hbehind _ ((sublist_annotationsOf false items).subset (List.mem_map_of_mem ha)))
      · exact ih hrest false a ha s hs

/-- A script whose items stand one after another. -/
theorem Program.inSourceOrder_ofItems (file : String) {items : List (Item Value ScriptText)}
    (hlt : ∀ i ∈ items, i.span.start < i.span.stop)
    (h : items.Pairwise fun i j => i.span.Precedes j.span) :
    (Program.ofItems file items).InSourceOrder := by
  have hlt : ∀ span ∈ items.map Item.span, span.start < span.stop := by
    intro span hspan
    obtain ⟨i, hi, rfl⟩ := List.mem_map.1 hspan
    exact hlt i hi
  have hspans : (items.map Item.span).Pairwise Span.Precedes := List.pairwise_map.2 h
  have hannotations := sublist_annotationsOf true items
  have hstatements := sublist_statementsOf items
  exact {
    annotations_lt := fun a ha => hlt _ (hannotations.subset (List.mem_map_of_mem ha))
    statements_lt := fun s hs => hlt _ (hstatements.subset (List.mem_map_of_mem hs))
    annotations := List.pairwise_map.1 (hspans.sublist hannotations)
    statements := List.pairwise_map.1 (hspans.sublist hstatements)
    apart := annotationsOf_apart_statementsOf h true }

end

end Script

end ScriptRunner
