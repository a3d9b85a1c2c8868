import FloatLang.Binary64.Text
import FloatLang.Text.Quoted

/-! # Expressions

  The tree that a parser builds from tokens. Every value is a float, so there
  are no types to track; names and operators are kept as they are written, and
  get their meaning from whatever walks the tree.

  - `kind`: the form of a node without its contents.
  - `inspect`: the tree as the term that builds it.
-/

namespace FloatLang

/-- An expression. -/
inductive Expr where
  /-- A number, such as `1.0`. -/
  | number (value : Binary64)
  /-- A variable by its name, such as `x`. -/
  | var (name : String)
  /-- A binary operation, such as `x + 1`. -/
  | binary (op : Char) (lhs rhs : Expr)
  /-- A call with its arguments in order, such as `sin(x)`. -/
  | call (callee : String) (args : List Expr)
  deriving Inhabited

namespace Expr

/-- A number is an expression. -/
instance : Coe Binary64 Expr := ⟨.number⟩

/-- The form of a node. -/
inductive Kind where
  | number
  | var
  | binary
  | call
  deriving DecidableEq, Repr, Inhabited

namespace Kind

/-- The form by its name. -/
def describe : Kind → String
  | .number => "Number"
  | .var => "Variable"
  | .binary => "Binary"
  | .call => "Call"

/-- The place of the form in order of declaration. -/
def index : Kind → Nat
  | .number => 0
  | .var => 1
  | .binary => 2
  | .call => 3

end Kind

/-- The form of an expression. -/
def kind : Expr → Kind
  | .number _ => .number
  | .var _ => .var
  | .binary _ _ _ => .binary
  | .call _ _ => .call

mutual

/-- The tree as the term that builds it, each field named. -/
def inspect : Expr → String
  | .number value => "Number \x7b value: " ++ value.text ++ " \x7d"
  | .var name => "Variable \x7b name: " ++ quotedName name ++ " \x7d"
  | .binary op lhs rhs =>
    "Binary \x7b op: " ++ quotedChar op ++ ", lhs: " ++ lhs.inspect
      ++ ", rhs: " ++ rhs.inspect ++ " \x7d"
  | .call callee args =>
    "Call \x7b callee: " ++ quotedName callee ++ ", args: [" ++ inspectList args ++ "] \x7d"

/-- The trees of a list, with a comma between two. -/
def inspectList : List Expr → String
  | [] => ""
  | [e] => e.inspect
  | e :: e' :: rest => e.inspect ++ ", " ++ inspectList (e' :: rest)

end

end Expr

end FloatLang
