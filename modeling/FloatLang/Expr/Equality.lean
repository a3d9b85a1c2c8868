import FloatLang.Expr.Basic
import FloatLang.Token.Equality

/-! # Equality of Expressions

  Two trees are the same when they have the same shape and hold the same
  contents in corresponding places, numbers by `Binary64.same`. `canonical` is
  the representative of a tree under that equality, and `hashWords` what a
  hasher is fed for it: each node gives its kind and its contents, then its
  children in order, and a list of arguments gives its length first.
-/

namespace FloatLang

namespace Expr

mutual

/-- The equality of expressions. -/
def same : Expr → Expr → Bool
  | .number a, .number b => a.same b
  | .var a, .var b => a = b
  | .binary op lhs rhs, .binary op' lhs' rhs' => op = op' && lhs.same lhs' && rhs.same rhs'
  | .call callee args, .call callee' args' => callee = callee' && sameList args args'
  | _, _ => false

/-- Lists of expressions are the same when they are as long and the same
    throughout. -/
def sameList : List Expr → List Expr → Bool
  | [], [] => true
  | a :: as, b :: bs => a.same b && sameList as bs
  | _, _ => false

end

mutual

/-- The tree with every number made canonical. -/
def canonical : Expr → Expr
  | .number value => .number value.canonical
  | .var name => .var name
  | .binary op lhs rhs => .binary op lhs.canonical rhs.canonical
  | .call callee args => .call callee (canonicalList args)

/-- The trees of a list with every number made canonical. -/
def canonicalList : List Expr → List Expr
  | [] => []
  | e :: rest => e.canonical :: canonicalList rest

end

mutual

/-- The words that a hasher is fed for a tree, when `word` gives the word of a
    number. -/
def hashWordsBy (word : Binary64 → Nat) : Expr → List Nat
  | .number value => [Kind.number.index, word value]
  | .var name => Kind.var.index :: textHashWords name
  | .binary op lhs rhs =>
    Kind.binary.index :: op.toNat :: (lhs.hashWordsBy word ++ rhs.hashWordsBy word)
  | .call callee args =>
    Kind.call.index :: (textHashWords callee ++ args.length :: hashWordsByList word args)

/-- The words of the trees of a list, one tree after the other. -/
def hashWordsByList (word : Binary64 → Nat) : List Expr → List Nat
  | [] => []
  | e :: rest => e.hashWordsBy word ++ hashWordsByList word rest

end

/-- The words that a hasher is fed for a tree. -/
def hashWords (e : Expr) : List Nat :=
  e.hashWordsBy Binary64.hashWord

end Expr

end FloatLang
