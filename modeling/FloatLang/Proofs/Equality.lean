import Mathlib.Data.List.Forall2
import FloatLang.Expr.Equality
import FloatLang.Lexeme.Located

/-! # Lawful Equality

  Numbers, tokens, located tokens and expressions each have an equality of their
  own. It is the one that says which values may stand for each other in a hashed
  collection.

  - **Representatives** decide it: two values are the same exactly when their
    representatives are equal. So it is reflexive, symmetric and transitive, even on
    what is not a number.
  - **Hashing** respects it, whatever word a hasher is fed for a number, as long as
    numbers that are the same share their word.
  - **Trees** are the same when they are made in the same way of parts that are the
    same, in the same order.

  Main statement: `equality_lawful`.
-/

namespace FloatLang

/-! ## Laws -/

/-- Numbers that are the same share their word. -/
def SharedWord (word : Binary64 → Nat) : Prop :=
  ∀ v w : Binary64, v.same w = true → word v = word w

/-- What an equality with representatives owes to those who use it, when `words` gives
    the words that a hasher is fed. -/
structure LawfulEquality {α : Type} (same : α → α → Bool) (canonical : α → α)
    (words : (Binary64 → Nat) → α → List Nat) : Prop where
  /-- Representatives decide. -/
  same_iff : ∀ a b, same a b = true ↔ canonical a = canonical b
  /-- A representative is the same as what it stands for. -/
  same_canonical : ∀ a, same a (canonical a) = true
  /-- Everything is the same as itself. -/
  refl : ∀ a, same a a = true
  /-- The order of the two does not matter. -/
  symm : ∀ a b, same a b = same b a
  /-- What is the same as the same is the same. -/
  trans : ∀ a b c, same a b = true → same b c = true → same a c = true
  /-- A hasher is fed the same for both. -/
  words_eq : ∀ word, SharedWord word → ∀ a b, same a b = true → words word a = words word b

/-- It is enough that representatives decide, that they represent themselves, and that
    a hasher cannot tell a value from its representative. -/
theorem LawfulEquality.of_canonical {α : Type} {same : α → α → Bool} {canonical : α → α}
    {words : (Binary64 → Nat) → α → List Nat}
    (hsame : ∀ a b, same a b = true ↔ canonical a = canonical b)
    (hcanonical : ∀ a, canonical (canonical a) = canonical a)
    (hwords : ∀ word, SharedWord word → ∀ a, words word (canonical a) = words word a) :
    LawfulEquality same canonical words where
  same_iff := hsame
  same_canonical a := (hsame a _).mpr (hcanonical a).symm
  refl a := (hsame a a).mpr rfl
  symm a b := by
    rw [Bool.eq_iff_iff, hsame, hsame]
    exact eq_comm
  trans a b c hab hbc := by
    rw [hsame] at hab hbc ⊢
    exact hab.trans hbc
  words_eq word hword a b hab := by
    rw [hsame] at hab
    rw [← hwords word hword a, hab, hwords word hword b]

/-! ## Numbers -/

namespace Binary64

/-- A representative is a number exactly when its value is one. -/
theorem isNaN_canonical (v : Binary64) : v.canonical.isNaN = v.isNaN := by
  unfold canonical
  split
  · next hnan => rw [hnan]; decide
  · next hnan =>
    split
    · rw [Bool.not_eq_true] at hnan
      rw [hnan]
      decide
    · rfl

/-- A number that is no zero represents itself. -/
theorem canonical_of_number {v : Binary64} (hnan : v.isNaN = false) (hzero : v.isZero = false) :
    v.canonical = v := by
  simp [canonical, hnan, hzero]

/-- A zero is represented by positive zero, and by nothing else is a number that is no
    zero. -/
theorem canonical_eq_zero_iff {v : Binary64} (hnan : v.isNaN = false) :
    v.canonical = zero ↔ v.isZero = true := by
  constructor
  · intro hv
    cases hzero : v.isZero with
    | true => rfl
    | false =>
      rw [canonical_of_number hnan hzero] at hv
      rw [hv] at hzero
      exact absurd hzero (by decide)
  · intro hzero
    simp [canonical, hnan, hzero]

theorem canonical_canonical (v : Binary64) : v.canonical.canonical = v.canonical := by
  cases hnan : v.isNaN with
  | true =>
    have hv : v.canonical = notANumber := if_pos hnan
    rw [hv]
    decide
  | false =>
    cases hzero : v.isZero with
    | true =>
      rw [(canonical_eq_zero_iff hnan).mpr hzero]
      decide
    | false => rw [canonical_of_number hnan hzero, canonical_of_number hnan hzero]

/-- Numbers are the same exactly when their representatives are equal. -/
theorem same_iff (v w : Binary64) : v.same w = true ↔ v.canonical = w.canonical := by
  cases hv : v.isNaN with
  | true =>
    have hcanonical : v.canonical = notANumber := if_pos hv
    have hsame : v.same w = w.isNaN := by simp [same, hv]
    rw [hsame, hcanonical]
    constructor
    · intro hw
      exact (if_pos hw).symm
    · intro hw
      rw [← isNaN_canonical w, ← hw]
      decide
  | false =>
    have hsame : v.same w = true ↔
        w.isNaN = false ∧ (v = w ∨ v.isZero = true ∧ w.isZero = true) := by
      simp [same, numericallyEqual, hv]
    rw [hsame]
    constructor
    · rintro ⟨hw, rfl | ⟨hvzero, hwzero⟩⟩
      · rfl
      · rw [(canonical_eq_zero_iff hv).mpr hvzero, (canonical_eq_zero_iff hw).mpr hwzero]
    · intro h
      have hw : w.isNaN = false := by rw [← isNaN_canonical w, ← h, isNaN_canonical, hv]
      refine ⟨hw, ?_⟩
      cases hvzero : v.isZero with
      | true =>
        rw [(canonical_eq_zero_iff hv).mpr hvzero, eq_comm, canonical_eq_zero_iff hw] at h
        exact .inr ⟨rfl, h⟩
      | false =>
        have hwzero : w.isZero = false := by
          rw [Bool.eq_false_iff]
          intro hwzero
          rw [(canonical_eq_zero_iff hw).mpr hwzero, canonical_eq_zero_iff hv, hvzero] at h
          exact Bool.false_ne_true h
        rw [canonical_of_number hv hvzero, canonical_of_number hw hwzero] at h
        exact .inl h

/-- Words that are shared do not tell a number from its representative. -/
theorem word_canonical {word : Binary64 → Nat} (hword : SharedWord word) (v : Binary64) :
    word v.canonical = word v := by
  apply hword
  rw [same_iff, canonical_canonical]

/-- The word that a hasher is fed is shared. -/
theorem sharedWord_hashWord : SharedWord hashWord := by
  intro v w hsame
  rw [same_iff] at hsame
  rw [hashWord, hsame, hashWord]

end Binary64

/-! ## Tokens -/

namespace Token

theorem same_iff (s t : Token) : s.same t = true ↔ s.canonical = t.canonical := by
  cases s <;> cases t <;> simp [same, canonical, Binary64.same_iff]

theorem canonical_canonical (t : Token) : t.canonical.canonical = t.canonical := by
  cases t <;> simp [canonical, Binary64.canonical_canonical]

theorem hashWordsBy_canonical {word : Binary64 → Nat} (hword : SharedWord word) (t : Token) :
    t.canonical.hashWordsBy word = t.hashWordsBy word := by
  cases t <;> simp [canonical, hashWordsBy, Binary64.word_canonical hword]

end Token

namespace Located

theorem same_iff (s t : Located) : s.same t = true ↔ s.canonical = t.canonical := by
  simp [same, canonical, Token.same_iff, and_assoc]

theorem canonical_canonical (s : Located) : s.canonical.canonical = s.canonical := by
  simp [canonical, Token.canonical_canonical]

theorem hashWordsBy_canonical {word : Binary64 → Nat} (hword : SharedWord word) (s : Located) :
    s.canonical.hashWordsBy word = s.hashWordsBy word := by
  simp [canonical, hashWordsBy, Token.hashWordsBy_canonical hword]

end Located

/-! ## Expressions -/

namespace Expr

mutual

/-- Trees are the same exactly when their representatives are equal. -/
theorem same_iff : ∀ a b : Expr, a.same b = true ↔ a.canonical = b.canonical
  | .number v, b => by cases b <;> simp [same, canonical, Binary64.same_iff]
  | .var name, b => by cases b <;> simp [same, canonical]
  | .binary op lhs rhs, b => by
    cases b with
    | binary op' lhs' rhs' =>
      simp [same, canonical, same_iff lhs lhs', same_iff rhs rhs', and_assoc]
    | _ => simp [same, canonical]
  | .call callee args, b => by
    cases b with
    | call callee' args' => simp [same, canonical, sameList_iff args args']
    | _ => simp [same, canonical]

/-- So are lists of trees, and then they are as long. -/
theorem sameList_iff :
    ∀ as bs : List Expr, sameList as bs = true ↔ canonicalList as = canonicalList bs
  | [], bs => by cases bs <;> simp [sameList, canonicalList]
  | a :: as, bs => by
    cases bs with
    | nil => simp [sameList, canonicalList]
    | cons b bs => simp [sameList, canonicalList, same_iff a b, sameList_iff as bs]

end

mutual

theorem canonical_canonical : ∀ e : Expr, e.canonical.canonical = e.canonical
  | .number value => by simp [canonical, Binary64.canonical_canonical]
  | .var name => by simp [canonical]
  | .binary op lhs rhs => by simp [canonical, canonical_canonical lhs, canonical_canonical rhs]
  | .call callee args => by simp [canonical, canonicalList_canonicalList args]

theorem canonicalList_canonicalList :
    ∀ es : List Expr, canonicalList (canonicalList es) = canonicalList es
  | [] => by simp [canonicalList]
  | e :: es => by simp [canonicalList, canonical_canonical e, canonicalList_canonicalList es]

end

theorem length_canonicalList (es : List Expr) : (canonicalList es).length = es.length := by
  induction es with
  | nil => rfl
  | cons e es ih => simp [canonicalList, ih]

mutual

/-- A hasher cannot tell a tree from its representative. -/
theorem hashWordsBy_canonical {word : Binary64 → Nat} (hword : SharedWord word) :
    ∀ e : Expr, e.canonical.hashWordsBy word = e.hashWordsBy word
  | .number value => by simp [canonical, hashWordsBy, Binary64.word_canonical hword]
  | .var name => by simp [canonical, hashWordsBy]
  | .binary op lhs rhs => by
    simp [canonical, hashWordsBy, hashWordsBy_canonical hword lhs, hashWordsBy_canonical hword rhs]
  | .call callee args => by
    simp [canonical, hashWordsBy, length_canonicalList, hashWordsByList_canonicalList hword args]

theorem hashWordsByList_canonicalList {word : Binary64 → Nat} (hword : SharedWord word) :
    ∀ es : List Expr, hashWordsByList word (canonicalList es) = hashWordsByList word es
  | [] => by simp [canonicalList]
  | e :: es => by
    simp [canonicalList, hashWordsByList, hashWordsBy_canonical hword e,
      hashWordsByList_canonicalList hword es]

end

/-- Lists of trees are the same when they are the same one by one. -/
theorem sameList_iff_forall₂ {as bs : List Expr} :
    sameList as bs = true ↔ List.Forall₂ (fun a b => a.same b = true) as bs := by
  induction as generalizing bs with
  | nil => cases bs <;> simp [sameList]
  | cons a as ih => cases bs <;> simp [sameList, ih]

/-- **Operations** are the same when their operators are equal and their operands are
    the same, each on its side. -/
theorem same_binary_iff {op op' : Char} {lhs lhs' rhs rhs' : Expr} :
    (binary op lhs rhs).same (binary op' lhs' rhs') = true ↔
      op = op' ∧ lhs.same lhs' = true ∧ rhs.same rhs' = true := by
  simp [same, and_assoc]

/-- **Calls** are the same when their callees are equal and their arguments are the same
    one by one, none left over. -/
theorem same_call_iff {callee callee' : String} {args args' : List Expr} :
    (call callee args).same (call callee' args') = true ↔
      callee = callee' ∧ List.Forall₂ (fun a b => a.same b = true) args args' := by
  simp [same, sameList_iff_forall₂]

end Expr

/-! ## The laws hold -/

/-- **Lawful equality** of tokens, located tokens and expressions. The equality of
    expressions is a congruence, and tells operands and arguments by their places. -/
theorem equality_lawful :
    LawfulEquality Token.same Token.canonical Token.hashWordsBy ∧
    LawfulEquality Located.same Located.canonical Located.hashWordsBy ∧
    LawfulEquality Expr.same Expr.canonical Expr.hashWordsBy ∧
    SharedWord Binary64.hashWord ∧
    (∀ (op op' : Char) (lhs lhs' rhs rhs' : Expr),
      (Expr.binary op lhs rhs).same (.binary op' lhs' rhs') = true ↔
        op = op' ∧ lhs.same lhs' = true ∧ rhs.same rhs' = true) ∧
    (∀ (callee callee' : String) (args args' : List Expr),
      (Expr.call callee args).same (.call callee' args') = true ↔
        callee = callee' ∧ List.Forall₂ (fun a b => a.same b = true) args args') := by
  refine ⟨?_, ?_, ?_, Binary64.sharedWord_hashWord, ?_, ?_⟩
  · exact .of_canonical Token.same_iff Token.canonical_canonical
      fun _ hword => Token.hashWordsBy_canonical hword
  · exact .of_canonical Located.same_iff Located.canonical_canonical
      fun _ hword => Located.hashWordsBy_canonical hword
  · exact .of_canonical Expr.same_iff Expr.canonical_canonical
      fun _ hword => Expr.hashWordsBy_canonical hword
  · intro op op' lhs lhs' rhs rhs'
    exact Expr.same_binary_iff
  · intro callee callee' args args'
    exact Expr.same_call_iff

/-- Two trees that differ in the payload of what is not a number and in the sign of a
    zero. Exchanging operands is another matter. -/
theorem equality_lawful_payloads :
    ∃ a b c : Expr,
      a = .call "f" [.binary '-' (.number ⟨0x7ff8000000000001⟩) (.number ⟨0⟩), .call "g" []] ∧
      b = .call "f" [.binary '-' (.number ⟨0xfff0000000000002⟩) (.number ⟨0x8000000000000000⟩),
        .call "g" []] ∧
      c = .call "f" [.binary '-' (.number ⟨0⟩) (.number ⟨0x7ff8000000000001⟩), .call "g" []] ∧
      a.same b = true ∧ a.canonical = b.canonical ∧ a.hashWords = b.hashWords ∧
      a.same c = false := by
  obtain ⟨-, -, hexpr, hword, hbinary, hcall⟩ := equality_lawful
  refine ⟨_, _, _, rfl, rfl, rfl, ?_⟩
  have hoperands : (Expr.binary '-' (.number ⟨0x7ff8000000000001⟩) (.number ⟨0⟩)).same
      (.binary '-' (.number ⟨0xfff0000000000002⟩) (.number ⟨0x8000000000000000⟩)) = true :=
    (hbinary _ _ _ _ _ _).mpr ⟨rfl, by decide, by decide⟩
  have hsame := (hcall "f" "f" _ _).mpr
    ⟨rfl, .cons hoperands (.cons (hexpr.refl (.call "g" [])) .nil)⟩
  refine ⟨hsame, (hexpr.same_iff _ _).mp hsame, hexpr.words_eq _ hword _ _ hsame, ?_⟩
  decide

end FloatLang
