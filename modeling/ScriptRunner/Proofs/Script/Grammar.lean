import ScriptRunner.Script.Phase

/-!
# The grammar of scripts

The derivation trees of the grammar. A rule of the grammar is a constructor, so a tree is a
derivation and its leaves, from left to right, are the tokens that it derives. Operators associate
to the left because the rules of sums and products are left-recursive, and an expression holds at
most one comparison because the operands of a comparison are sums.

## Main definitions

* `ExprTree` - derivations of expressions, by the level of the grammar.
* `StatementTree`, `Part`, `ScriptTree` - derivations of statements, of what stands on its own in a
  script, and of scripts.
* `ExprTree.tokens`, `ScriptTree.tokens` - the tokens that a tree derives.
* `ExprTree.operand`, `ScriptTree.items` - the syntax tree that a derivation determines.
-/

namespace ScriptRunner.Script

/-- The text and the place of a token. Its terminal is known from the rule that it belongs to. -/
structure Leaf where
  text : List Char
  span : Span

/-- A leaf as a token of a terminal. -/
def Leaf.as (leaf : Leaf) (terminal : Terminal) : Token :=
  ⟨terminal, leaf.text, leaf.span⟩

/-- The name that a leaf spells. -/
def Leaf.name (leaf : Leaf) : String :=
  String.ofList leaf.text

def Token.leaf (t : Token) : Leaf :=
  ⟨t.text, t.span⟩

@[simp] theorem Leaf.leaf_as (leaf : Leaf) (terminal : Terminal) :
    (leaf.as terminal).leaf = leaf := rfl

@[simp] theorem Leaf.terminal_as (leaf : Leaf) (terminal : Terminal) :
    (leaf.as terminal).terminal = terminal := rfl

theorem Token.leaf_as_eq {t : Token} {terminal : Terminal} (h : t.terminal = terminal) :
    t.leaf.as terminal = t := by
  subst h
  rfl

/-- The levels of expressions, from the loosest to the tightest. -/
inductive Level where
  | expr
  | sum
  | product
  | unary
  | atom

/-- The operators that bind in a certain way. -/
abbrev OperatorOf (t : Tightness) : Type :=
  { op : Operator // tightness op = t }

/-- Derivations of expressions. -/
inductive ExprTree : Level → Type
  /-- `expr: sum` -/
  | ofSum (s : ExprTree .sum) : ExprTree .expr
  /-- `expr: sum "==" sum`, and so for every comparison -/
  | comparison (left : ExprTree .sum) (op : OperatorOf .comparison) (sign : Leaf)
      (right : ExprTree .sum) : ExprTree .expr
  /-- `sum: product` -/
  | ofProduct (p : ExprTree .product) : ExprTree .sum
  /-- `sum: sum "+" product`, and so for `-` -/
  | sum (left : ExprTree .sum) (op : OperatorOf .sum) (sign : Leaf)
      (right : ExprTree .product) : ExprTree .sum
  /-- `product: unary` -/
  | ofUnary (u : ExprTree .unary) : ExprTree .product
  /-- `product: product "*" unary`, and so for `/` and `%` -/
  | product (left : ExprTree .product) (op : OperatorOf .product) (sign : Leaf)
      (right : ExprTree .unary) : ExprTree .product
  /-- `unary: atom` -/
  | ofAtom (a : ExprTree .atom) : ExprTree .unary
  /-- `unary: "-" unary` -/
  | negate (minus : Leaf) (operand : ExprTree .unary) : ExprTree .unary
  /-- `atom: NUMBER` -/
  | number (leaf : Leaf) : ExprTree .atom
  /-- `atom: STRING` -/
  | string (leaf : Leaf) : ExprTree .atom
  /-- `atom: "true"` and `atom: "false"` -/
  | truth (b : Bool) (leaf : Leaf) : ExprTree .atom
  /-- `atom: NAME "." NAME` -/
  | member (owner dot field : Leaf) : ExprTree .atom
  /-- `atom: NAME` -/
  | name (leaf : Leaf) : ExprTree .atom
  /-- `atom: "(" expr ")"` -/
  | bracket (opening : Leaf) (inner : ExprTree .expr) (closing : Leaf) : ExprTree .atom

/-- Derivations of statements. -/
inductive StatementTree where
  /-- `val_decl: "val" NAME "=" expr` -/
  | val (keyword name assign : Leaf) (value : ExprTree .expr)
  /-- `print_stmt: "println" "(" expr ")"` -/
  | print (keyword opening : Leaf) (value : ExprTree .expr) (closing : Leaf)
  /-- `expr_stmt: expr` -/
  | expression (value : ExprTree .expr)

/-- What stands on its own in a script. -/
inductive Part where
  /-- `program: _NL` -/
  | blank (lineEnd : Leaf)
  /-- `item: annotation _NL` and `annotation: "@" NAME ":" NAME "(" STRING ")"` -/
  | annotate (sign target colon name opening argument closing lineEnd : Leaf)
  /-- `item: statement _NL` -/
  | line (statement : StatementTree) (lineEnd : Leaf)
  /-- `item: statement ";"` -/
  | segment (statement : StatementTree) (semicolon : Leaf)

/-- Derivations of scripts: `program: (_NL | item)*`. -/
abbrev ScriptTree : Type := List Part

/-- The tokens that an expression derives. -/
def ExprTree.tokens {l : Level} : ExprTree l → List Token
  | ofSum s => s.tokens
  | ofProduct p => p.tokens
  | ofUnary u => u.tokens
  | ofAtom a => a.tokens
  | comparison left op sign right => left.tokens ++ sign.as (.operator op) :: right.tokens
  | sum left op sign right => left.tokens ++ sign.as (.operator op) :: right.tokens
  | product left op sign right => left.tokens ++ sign.as (.operator op) :: right.tokens
  | negate minus operand => minus.as .minus :: operand.tokens
  | number leaf => [leaf.as .number]
  | string leaf => [leaf.as .string]
  | truth b leaf => [leaf.as (.keyword (.truth b))]
  | member owner dot field => [owner.as .name, dot.as (.mark .dot), field.as .name]
  | name leaf => [leaf.as .name]
  | bracket opening inner closing =>
    opening.as (.mark .openParen) :: inner.tokens ++ [closing.as (.mark .closeParen)]

/-- The tokens that a statement derives. -/
def StatementTree.tokens : StatementTree → List Token
  | val keyword name assign value =>
    keyword.as (.keyword .val) :: name.as .name :: assign.as (.mark .assign) :: value.tokens
  | print keyword opening value closing =>
    keyword.as (.keyword .println) :: opening.as (.mark .openParen) ::
      (value.tokens ++ [closing.as (.mark .closeParen)])
  | expression value => value.tokens

/-- The tokens that a part of a script derives. -/
def Part.tokens : Part → List Token
  | blank lineEnd => [lineEnd.as .lineEnd]
  | annotate sign target colon name opening argument closing lineEnd =>
    [sign.as (.mark .atSign), target.as .name, colon.as (.mark .colon), name.as .name,
      opening.as (.mark .openParen), argument.as .string, closing.as (.mark .closeParen),
      lineEnd.as .lineEnd]
  | line statement lineEnd => statement.tokens ++ [lineEnd.as .lineEnd]
  | segment statement semicolon => statement.tokens ++ [semicolon.as (.mark .semicolon)]

/-- The tokens that a script derives. -/
def ScriptTree.tokens (script : ScriptTree) : List Token :=
  script.flatMap Part.tokens

/-- The expression that a derivation determines, with the text that it takes up. Brackets leave no
trace but the extent. -/
def ExprTree.operand {l : Level} : ExprTree l → Operand
  | ofSum s => s.operand
  | ofProduct p => p.operand
  | ofUnary u => u.operand
  | ofAtom a => a.operand
  | comparison left op _ right => .binary op left.operand right.operand
  | sum left op _ right => .binary op left.operand right.operand
  | product left op _ right => .binary op left.operand right.operand
  | negate minus operand => operand.operand.negate minus.span.start
  | number leaf => ⟨.literal (.number leaf.text) leaf.span, leaf.span⟩
  | string leaf => ⟨.literal (.string leaf.text) leaf.span, leaf.span⟩
  | truth b leaf => ⟨.literal (.truth b) leaf.span, leaf.span⟩
  | member owner _ field =>
    ⟨.member owner.name field.name (owner.span.upTo field.span), owner.span.upTo field.span⟩
  | name leaf => ⟨.name leaf.name leaf.span, leaf.span⟩
  | bracket opening inner closing => inner.operand.bracket opening.span.start closing.span.stop

/-- The statement that a derivation determines. -/
def StatementTree.statement : StatementTree → Statement Written
  | val keyword name _ value =>
    .val name.name value.operand.expr ⟨keyword.span.start, value.operand.extent.stop⟩
  | print keyword _ value closing =>
    .print value.operand.expr ⟨keyword.span.start, closing.span.stop⟩
  | expression value => .expression value.operand.expr value.operand.extent

/-- The item that a part of a script determines; an empty line is none. -/
def Part.item? : Part → Option WrittenItem
  | blank _ => none
  | annotate sign target _ name _ argument closing _ =>
    some (.annotate target.name name.name argument.text ⟨sign.span.start, closing.span.stop⟩)
  | line statement _ | segment statement _ => some (.statement statement.statement)

/-- The items that a derivation determines, in the order of the text. -/
def ScriptTree.items (script : ScriptTree) : List WrittenItem :=
  script.filterMap Part.item?

end ScriptRunner.Script
