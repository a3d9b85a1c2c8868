/-! # Keywords

  The two reserved words. A word is a keyword only when it is spelled exactly
  so: `define` and `Def` are ordinary names.

  Core Lean only; no Mathlib.
-/

namespace FloatLang

/-- A reserved word. -/
inductive Keyword where
  /-- Opens a function definition. -/
  | definition
  /-- Declares a function that is defined elsewhere. -/
  | external
  deriving DecidableEq, Repr, Inhabited

namespace Keyword

/-- Every keyword, in order of declaration. -/
def all : List Keyword := [.definition, .external]

/-- The word as it is written in a program. -/
def word : Keyword → String
  | .definition => "def"
  | .external => "extern"

/-- The keyword spelled `word`. -/
def ofWord? (word : String) : Option Keyword :=
  all.find? fun keyword => keyword.word = word

/-- The keyword as a constructor's name. -/
def inspect : Keyword → String
  | .definition => "Def"
  | .external => "Extern"

/-- The place of the keyword in order of declaration. -/
def index : Keyword → Nat
  | .definition => 0
  | .external => 1

/-- A text names a keyword exactly when it is that keyword's word. -/
theorem ofWord?_eq_some_iff {text : String} {k : Keyword} :
    ofWord? text = some k ↔ text = k.word := by
  constructor
  · intro h
    have hword := List.find?_some h
    exact (of_decide_eq_true hword).symm
  · rintro rfl
    cases k <;> decide

/-- Keywords are words. -/
theorem isAlphanum_of_mem_word {k : Keyword} {c : Char} (hc : c ∈ k.word.toList) :
    c.isAlphanum = true := by
  have hall : k.word.toList.all Char.isAlphanum = true := by
    cases k <;> decide
  exact List.all_eq_true.mp hall c hc

end Keyword

end FloatLang
