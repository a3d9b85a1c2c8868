import FloatLang.Token.Basic
import FloatLang.Text.Utf8

/-! # Equality of Tokens

  Two tokens are the same when they are of one kind and hold the same
  contents, numbers by `Binary64.same`. `hashWords` gives what a hasher is fed
  for a token; the words of tokens that are the same agree.

  `canonical` is the representative of a token under that equality.
-/

namespace FloatLang

/-- The words that a hasher is fed for a text: its bytes in UTF-8 and then a
    byte that UTF-8 never uses, so that no text runs into what follows. -/
def textHashWords (text : String) : List Nat :=
  (Utf8.encode text.toList).map UInt8.toNat ++ [0xff]

namespace Token

/-- The equality of tokens. -/
def same : Token → Token → Bool
  | .endOfInput, .endOfInput => true
  | .keyword a, .keyword b => a = b
  | .identifier a, .identifier b => a = b
  | .number a, .number b => a.same b
  | .symbol a, .symbol b => a = b
  | _, _ => false

/-- Lists of tokens are the same when they are as long and the same
    throughout. -/
def sameList : List Token → List Token → Bool
  | [], [] => true
  | a :: as, b :: bs => a.same b && sameList as bs
  | _, _ => false

/-- The token with its number, if it holds one, made canonical. -/
def canonical : Token → Token
  | .number value => .number value.canonical
  | token => token

/-- The words that a hasher is fed for a token, its kind and then its contents,
    when `word` gives the word of a number. -/
def hashWordsBy (word : Binary64 → Nat) : Token → List Nat
  | .endOfInput => [0]
  | .keyword k => [1, k.index]
  | .identifier name => 2 :: textHashWords name
  | .number value => [3, word value]
  | .symbol c => [4, c.toNat]

/-- The words that a hasher is fed for a token. -/
def hashWords (t : Token) : List Nat :=
  t.hashWordsBy Binary64.hashWord

end Token

end FloatLang
