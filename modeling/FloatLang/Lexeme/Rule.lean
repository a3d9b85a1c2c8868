import FloatLang.Token.Basic

/-! # Lexeme Rules

  The pieces that a text in memory is cut into, each by a rule of its own.

  At any place the rule that matches the longest piece wins, and of two that
  match equally long pieces the one declared first. So `def` is a keyword,
  while `define` is longer as a word. Where no rule matches, the character
  there is a symbol.

  The rules have spellings and classes of their own, and share none with the lexer
  of streams: either can change without the other. That they are the same is what
  makes both find the same tokens.
-/

namespace FloatLang

/-- A rule for lexemes. -/
inductive Rule where
  /-- The keyword `def`. -/
  | definition
  /-- The keyword `extern`. -/
  | external
  /-- A letter, then letters and digits. -/
  | word
  /-- Digits and points. -/
  | numeral
  /-- The comment mark, then everything up to a line end. -/
  | comment
  /-- One line terminator. -/
  | lineEnd
  /-- Blanks that end no line. -/
  | spaces
  deriving DecidableEq, Repr, Inhabited

namespace Rule

/-- Every rule, in order of declaration. -/
def all : List Rule :=
  [.definition, .external, .word, .numeral, .comment, .lineEnd, .spaces]

/-! ## Spellings and classes -/

/-- The keyword that opens a function definition. -/
def definitionSpelling : List Char := ['d', 'e', 'f']

/-- The keyword that declares a function defined elsewhere. -/
def externalSpelling : List Char := ['e', 'x', 't', 'e', 'r', 'n']

/-- A character that a word starts with. -/
def startsWord (c : Char) : Bool :=
  ('A' ≤ c && c ≤ 'Z') || ('a' ≤ c && c ≤ 'z')

/-- A character that a word goes on with. -/
def inWord (c : Char) : Bool :=
  startsWord c || ('0' ≤ c && c ≤ '9')

/-- A character of a numeral. -/
def inNumeral (c : Char) : Bool :=
  ('0' ≤ c && c ≤ '9') || c == '.'

/-- The character that a comment starts with. -/
def mark : Char := '#'

/-- A line feed or a carriage return. -/
def isLineEnd (c : Char) : Bool :=
  c == '\n' || c == '\r'

/-- A blank that ends no line: a space, a tab, a vertical tab or a form feed. -/
def isSpace (c : Char) : Bool :=
  c == ' ' || c == '\t' || c == '\x0b' || c == '\x0c'

/-! ## Matches -/

/-- The length of the longest piece at the start of `cs` that the rule
    matches, and zero when it matches none. -/
def matchLength : Rule → List Char → Nat
  | .definition, cs => literalLength definitionSpelling cs
  | .external, cs => literalLength externalSpelling cs
  | .word, c :: cs => if startsWord c then 1 + (cs.takeWhile inWord).length else 0
  | .word, [] => 0
  | .numeral, cs => (cs.takeWhile inNumeral).length
  | .comment, c :: cs =>
    if c == mark then 1 + (cs.takeWhile fun c => !isLineEnd c).length else 0
  | .comment, [] => 0
  | .lineEnd, '\r' :: '\n' :: _ => 2
  | .lineEnd, c :: _ => if isLineEnd c then 1 else 0
  | .lineEnd, [] => 0
  | .spaces, cs => (cs.takeWhile isSpace).length
where
  /-- The length of `literal` if `cs` starts with it. -/
  literalLength (literal cs : List Char) : Nat :=
    if literal.isPrefixOf cs then literal.length else 0

/-- The token of a lexeme, and none for a lexeme that is skipped. -/
def token? : Rule → List Char → Option Token
  | .definition, _ => some (.keyword .definition)
  | .external, _ => some (.keyword .external)
  | .word, lexeme => some (.identifier (String.ofList lexeme))
  | .numeral, lexeme => some (.ofNumeral lexeme)
  | .comment, _ => none
  | .lineEnd, _ => none
  | .spaces, _ => none

/-- How many lines a lexeme of the rule ends. -/
def lines : Rule → Nat
  | .lineEnd => 1
  | _ => 0

/-! ## The longest match -/

/-- Prefers `rule` to the best match so far if it matches a longer piece. -/
def prefer (cs : List Char) (best : Option (Rule × Nat)) (rule : Rule) :
    Option (Rule × Nat) :=
  if (best.elim 0 Prod.snd) < rule.matchLength cs then some (rule, rule.matchLength cs)
  else best

/-- The winning rule at the start of `cs` with the length of its piece, or
    none where no rule matches. -/
def longest? (cs : List Char) : Option (Rule × Nat) :=
  all.foldl (prefer cs) none

/-- The winning piece is not empty. -/
theorem longest?_pos {cs : List Char} {rule : Rule} {n : Nat}
    (h : longest? cs = some (rule, n)) : 0 < n := by
  -- every match that is ever preferred is longer than nothing
  have hpos : ∀ (rules : List Rule) (best : Option (Rule × Nat)),
      (∀ r m, best = some (r, m) → 0 < m) →
      ∀ r m, rules.foldl (prefer cs) best = some (r, m) → 0 < m := by
    intro rules
    induction rules with
    | nil => exact fun best hbest => hbest
    | cons r rules ih =>
      intro best hbest
      apply ih
      intro r' m' h'
      unfold prefer at h'
      split at h'
      · next hlt =>
        cases h'
        exact Nat.lt_of_le_of_lt (Nat.zero_le _) hlt
      · exact hbest r' m' h'
  exact hpos all none (by simp) rule n h

end Rule

end FloatLang
