import FloatLang.Proofs.Binary64.Text
import FloatLang.Proofs.Hashing
import FloatLang.Proofs.Text.Quoted

/-! # Inspected Trees

  A tree is inspected as the term that builds it. The term tells the tree, whatever the
  names and operators in it are, even if they look like a part of a term. Only what makes
  no difference to a double in print is lost: the payload and the sign of what is not a
  number.

  - **Identical** (`Binary64.Identical`): the same double, or neither of them a number.
  - **Parts of a term** end where they say. A double is closed by a blank that its text
    does not have, and a name by a quote that is not escaped. Behind an argument comes a
    comma or the closing bracket.

  Main statement: `inspect_eq_inspect_iff`.
-/

namespace FloatLang

/-! ## Doubles -/

namespace Binary64

/-- The same double, or neither of them a number. -/
def Identical (v w : Binary64) : Prop :=
  v = w ∨ v.isNaN = true ∧ w.isNaN = true

/-- **A double in print** is told whatever comes behind its blank. -/
theorem text_append_inj {v w : Binary64} {x y : List Char}
    (h : v.text.toList ++ ' ' :: x = w.text.toList ++ ' ' :: y) : Identical v w ∧ x = y := by
  have hunbroken (u : Binary64) : ' ' ∉ u.text.toList :=
    u.not_mem_text (by decide) (by decide) (by decide)
  obtain ⟨htext, hrest⟩ := append_cons_unique h (hunbroken v) (hunbroken w)
  exact ⟨text_eq_text_iff.mp (String.toList_inj.mp htext), hrest⟩

end Binary64

namespace Expr

/-! ## Terms -/

section terms
variable (e lhs rhs : Expr) (args : List Expr)

-- The equations of `inspect` are stated by hand: to unfold it evaluates the texts in it.

theorem inspect_number (v : Binary64) :
    (number v).inspect = "Number \x7b value: " ++ v.text ++ " \x7d" := rfl

theorem inspect_var (name : String) :
    (var name).inspect = "Variable \x7b name: " ++ quotedName name ++ " \x7d" := rfl

theorem inspect_binary (op : Char) :
    (binary op lhs rhs).inspect
      = "Binary \x7b op: " ++ quotedChar op ++ ", lhs: " ++ lhs.inspect
        ++ ", rhs: " ++ rhs.inspect ++ " \x7d" := rfl

theorem inspect_call (callee : String) :
    (call callee args).inspect
      = "Call \x7b callee: " ++ quotedName callee ++ ", args: [" ++ inspectList args
        ++ "] \x7d" := rfl

theorem inspectList_cons (e' : Expr) :
    inspectList (e :: e' :: args) = e.inspect ++ ", " ++ inspectList (e' :: args) := rfl

/-- What closes a term starts with a blank. -/
theorem toList_closing (x : List Char) : " \x7d".toList ++ x = ' ' :: '\x7d' :: x := by simp

/-- What closes a call starts with a bracket. -/
theorem toList_bracket (x : List Char) :
    "] \x7d".toList ++ x = ']' :: ' ' :: '\x7d' :: x := by simp

/-- The arguments behind the first one, each with the comma before it. -/
def furtherText (args : List Expr) : List Char :=
  args.flatMap fun e => ',' :: ' ' :: e.inspect.toList

theorem toList_inspectList_cons :
    (inspectList (e :: args)).toList = e.inspect.toList ++ furtherText args := by
  induction args generalizing e with
  | nil => exact (List.append_nil _).symm
  | cons e' args ih => simp [inspectList_cons, ih, furtherText]

/-- A term starts with the letter that the name of its form starts with. -/
theorem head?_inspect (behind : List Char) :
    (e.inspect.toList ++ behind).head? = e.kind.describe.toList.head? := by
  cases e with
  | number => simp [inspect_number, kind, Kind.describe]
  | var => simp [inspect_var, kind, Kind.describe]
  | binary => simp [inspect_binary, kind, Kind.describe]
  | call => simp [inspect_call, kind, Kind.describe]

end terms

/-- No term starts with a bracket. -/
theorem bracket_ne_inspect {e : Expr} {x y : List Char} : ']' :: x ≠ e.inspect.toList ++ y := by
  intro h
  have hhead := congrArg List.head? h
  rw [head?_inspect] at hhead
  cases hkind : e.kind <;> simp [hkind, Kind.describe] at hhead

/-- Terms that start alike are of one form. -/
theorem kind_eq_of_inspect {a b : Expr} {x y : List Char}
    (h : a.inspect.toList ++ x = b.inspect.toList ++ y) : a.kind = b.kind := by
  have hhead := congrArg List.head? h
  rw [head?_inspect, head?_inspect] at hhead
  generalize a.kind = k at hhead ⊢
  generalize b.kind = l at hhead ⊢
  cases k <;> cases l <;> simp [Kind.describe] at hhead ⊢

/-! ## Terms read back -/

mutual

/-- **A term** tells the tree whatever comes behind it. -/
theorem matches_of_inspect (a : Expr) {b : Expr} {x y : List Char}
    (h : a.inspect.toList ++ x = b.inspect.toList ++ y) :
    Matches Binary64.Identical a b ∧ x = y := by
  have hkind := kind_eq_of_inspect h
  cases a with
  | number v =>
    cases b with
    | number w =>
      simp only [inspect_number, String.toList_append, List.append_assoc, toList_closing] at h
      obtain ⟨hsame, hrest⟩ := Binary64.text_append_inj (List.append_cancel_left h)
      exact ⟨.number hsame, (List.cons.inj hrest).2⟩
    | _ => cases hkind
  | var name =>
    cases b with
    | var name' =>
      simp only [inspect_var, String.toList_append, List.append_assoc] at h
      obtain ⟨rfl, hrest⟩ := quotedName_append_inj (List.append_cancel_left h)
      exact ⟨.var, List.append_cancel_left hrest⟩
    | _ => cases hkind
  | binary op lhs rhs =>
    cases b with
    | binary op' lhs' rhs' =>
      simp only [inspect_binary, String.toList_append, List.append_assoc] at h
      obtain ⟨rfl, hoperands⟩ := quotedChar_append_inj (List.append_cancel_left h)
      -- the right operand starts where the left one ends
      obtain ⟨hlhs, hafter⟩ := matches_of_inspect lhs (List.append_cancel_left hoperands)
      obtain ⟨hrhs, hrest⟩ := matches_of_inspect rhs (List.append_cancel_left hafter)
      exact ⟨.binary hlhs hrhs, List.append_cancel_left hrest⟩
    | _ => cases hkind
  | call callee args =>
    cases b with
    | call callee' args' =>
      simp only [inspect_call, String.toList_append, List.append_assoc, toList_bracket] at h
      obtain ⟨rfl, hlisted⟩ := quotedName_append_inj (List.append_cancel_left h)
      obtain ⟨hargs, hrest⟩ := forall₂_of_inspectList args (List.append_cancel_left hlisted)
      exact ⟨.call hargs, (List.cons.inj (List.cons.inj hrest).2).2⟩
    | _ => cases hkind

/-- So does a list of terms behind which a bracket closes. -/
theorem forall₂_of_inspectList (as : List Expr) {bs : List Expr} {x y : List Char}
    (h : (inspectList as).toList ++ ']' :: x = (inspectList bs).toList ++ ']' :: y) :
    List.Forall₂ (Matches Binary64.Identical) as bs ∧ x = y := by
  cases as with
  | nil =>
    cases bs with
    | nil => exact ⟨.nil, (List.cons.inj h).2⟩
    | cons b bs =>
      rw [toList_inspectList_cons, List.append_assoc] at h
      exact absurd h bracket_ne_inspect
  | cons a as =>
    cases bs with
    | nil =>
      rw [toList_inspectList_cons, List.append_assoc] at h
      exact absurd h.symm bracket_ne_inspect
    | cons b bs =>
      rw [toList_inspectList_cons, toList_inspectList_cons, List.append_assoc,
        List.append_assoc] at h
      obtain ⟨hfirst, hafter⟩ := matches_of_inspect a h
      obtain ⟨hothers, hrest⟩ := forall₂_of_furtherText as hafter
      exact ⟨.cons hfirst hothers, hrest⟩

/-- Each further one is told from the bracket by its comma. -/
theorem forall₂_of_furtherText (as : List Expr) {bs : List Expr} {x y : List Char}
    (h : furtherText as ++ ']' :: x = furtherText bs ++ ']' :: y) :
    List.Forall₂ (Matches Binary64.Identical) as bs ∧ x = y := by
  cases as with
  | nil =>
    cases bs with
    | nil => exact ⟨.nil, (List.cons.inj h).2⟩
    | cons b bs => simp [furtherText] at h
  | cons a as =>
    cases bs with
    | nil => simp [furtherText] at h
    | cons b bs =>
      simp only [furtherText, List.flatMap_cons, List.cons_append, List.append_assoc,
        List.cons.injEq, true_and] at h
      obtain ⟨hfirst, hafter⟩ := matches_of_inspect a h
      obtain ⟨hothers, hrest⟩ := forall₂_of_furtherText as hafter
      exact ⟨.cons hfirst hothers, hrest⟩

end

mutual

/-- Identical trees are inspected alike. -/
theorem Matches.inspect_eq : ∀ {a b : Expr}, Matches Binary64.Identical a b →
    a.inspect = b.inspect
  | .number v, _, .number hsame => by
    rw [inspect_number, inspect_number, Binary64.text_eq_text_iff.mpr hsame]
  | .var _, _, .var => rfl
  | .binary op lhs rhs, _, .binary hlhs hrhs => by
    rw [inspect_binary, inspect_binary, hlhs.inspect_eq, hrhs.inspect_eq]
  | .call callee args, _, .call hargs => by
    rw [inspect_call, inspect_call, inspectList_eq hargs]

theorem inspectList_eq : ∀ {as bs : List Expr},
    List.Forall₂ (Matches Binary64.Identical) as bs → inspectList as = inspectList bs
  | [], _, .nil => rfl
  | [_], _, .cons hfirst .nil => hfirst.inspect_eq
  | _ :: _ :: _, _, .cons hfirst (.cons hnext hothers) => by
    rw [inspectList_cons, inspectList_cons, hfirst.inspect_eq,
      inspectList_eq (.cons hnext hothers)]

end

/-- **Inspected alike**: two trees have the same term exactly when they are made in the same
    way, with the same names and operators, and their numbers are identical two by two. -/
theorem inspect_eq_inspect_iff (a b : Expr) :
    a.inspect = b.inspect ↔ Matches Binary64.Identical a b := by
  constructor
  · intro h
    have hlist : a.inspect.toList ++ [] = b.inspect.toList ++ [] := by rw [h]
    exact (matches_of_inspect a hlist).1
  · exact Matches.inspect_eq

/-- One name that is written like two arguments. -/
example :
    (call "f" [.var "x\" \x7d, Variable \x7b name: \"y"]).inspect
      ≠ (call "f" [.var "x", .var "y"]).inspect := by
  decide +kernel

end Expr

end FloatLang
