import Mathlib.Data.List.Forall2
import FloatLang.Expr.Equality
import FloatLang.Proofs.Grammar.Munch
import FloatLang.Proofs.Stream.Decoding

/-! # Hashed Words of a Tree

  A hasher is fed a tree as one flat sequence of words, without brackets. Nothing of
  the tree is lost in it but what the words of its numbers leave out.

  - **Matching trees** (`Matches agree`): they are made in the same way, with the same
    operators, names and callees, and their numbers agree two by two.
  - **Texts** end with a byte that no text holds, and **lists of arguments** start with
    their length. So where one part of a tree ends the next one starts, whatever
    follows.

  Main statement: `hashWordsBy_decodable`.
-/

namespace FloatLang

/-! ## Texts -/

/-- No character has the byte that closes a text. -/
theorem Utf8.close_not_mem_encode (text : List Char) : 0xff ∉ Utf8.encode text := by
  have hchar (c : Char) : 0xff ∉ String.utf8EncodeChar c := by
    intro hmem
    have hbyte : (0xff : UInt8).toNat ∈ (String.utf8EncodeChar c).map UInt8.toNat :=
      List.mem_map_of_mem hmem
    revert hbyte
    fun_cases String.utf8EncodeChar c
    all_goals
      simp only [List.map_cons, List.map_nil, List.mem_cons, List.not_mem_nil, or_false,
        UInt8.toNat_ofNat', UInt8.reduceToNat]
      omega
  intro hmem
  obtain ⟨c, _, hc⟩ := List.mem_flatMap.mp hmem
  exact hchar c hc

/-- The words of a text tell where it ends, whatever follows. -/
theorem textHashWords_append_inj {s t : String} {x y : List Nat}
    (h : textHashWords s ++ x = textHashWords t ++ y) : s = t ∧ x = y := by
  simp only [textHashWords, List.append_assoc, List.singleton_append] at h
  have hopen (text : String) : 0xff ∉ (Utf8.encode text.toList).map UInt8.toNat := by
    intro hmem
    obtain ⟨b, hb, hclose⟩ := List.mem_map.mp hmem
    obtain rfl : b = 0xff := UInt8.toNat_inj.mp hclose
    exact Utf8.close_not_mem_encode _ hb
  -- the first closing word ends both texts
  obtain ⟨hbytes, hrest⟩ := append_cons_unique h (hopen s) (hopen t)
  have hencode : Utf8.encode s.toList = Utf8.encode t.toList :=
    List.map_injective_iff.mpr (fun _ _ => UInt8.toNat_inj.mp) hbytes
  exact ⟨String.toList_inj.mp (Utf8.LongestText.encode_inj hencode), hrest⟩

namespace Expr

/-! ## Trees -/

/-- Two trees are made in the same way, and their numbers agree two by two. -/
inductive Matches (agree : Binary64 → Binary64 → Prop) : Expr → Expr → Prop where
  /-- Numbers that agree. -/
  | number {v w : Binary64} : agree v w → Matches agree (.number v) (.number w)
  /-- The same variable. -/
  | var {name : String} : Matches agree (.var name) (.var name)
  /-- The same operator with operands that match, each on its side. -/
  | binary {op : Char} {lhs lhs' rhs rhs' : Expr} :
      Matches agree lhs lhs' → Matches agree rhs rhs' →
      Matches agree (.binary op lhs rhs) (.binary op lhs' rhs')
  /-- The same callee with arguments that match one by one, none left over. -/
  | call {callee : String} {args args' : List Expr} :
      List.Forall₂ (Matches agree) args args' →
      Matches agree (.call callee args) (.call callee args')

/-- The numbers have the same word. -/
def SameWord (word : Binary64 → Nat) (v w : Binary64) : Prop :=
  word v = word w

variable {word : Binary64 → Nat}

mutual

/-- **The words of a tree tell where it ends** and what it is, whatever follows. -/
theorem matches_of_append : ∀ {a b : Expr} {x y : List Nat},
    a.hashWordsBy word ++ x = b.hashWordsBy word ++ y → Matches (SameWord word) a b ∧ x = y
  | .number v, b, x, y, h => by
    cases b with
    | number w =>
      simp only [hashWordsBy, List.cons_append, List.nil_append, List.cons.injEq] at h
      exact ⟨.number h.2.1, h.2.2⟩
    | _ => simp [hashWordsBy, Kind.index] at h
  | .var name, b, x, y, h => by
    cases b with
    | var name' =>
      simp only [hashWordsBy, List.cons_append, List.cons.injEq, true_and] at h
      obtain ⟨rfl, hrest⟩ := textHashWords_append_inj h
      exact ⟨.var, hrest⟩
    | _ => simp [hashWordsBy, Kind.index] at h
  | .binary op lhs rhs, b, x, y, h => by
    cases b with
    | binary op' lhs' rhs' =>
      simp only [hashWordsBy, List.cons_append, List.append_assoc, List.cons.injEq, true_and] at h
      obtain ⟨hop, hoperands⟩ := h
      obtain rfl : op = op' := Char.toNat_inj.mp hop
      -- the right operand starts where the left one ends
      obtain ⟨hlhs, hafter⟩ := matches_of_append hoperands
      obtain ⟨hrhs, hrest⟩ := matches_of_append hafter
      exact ⟨.binary hlhs hrhs, hrest⟩
    | _ => simp [hashWordsBy, Kind.index] at h
  | .call callee args, b, x, y, h => by
    cases b with
    | call callee' args' =>
      simp only [hashWordsBy, List.cons_append, List.append_assoc, List.cons.injEq, true_and] at h
      obtain ⟨rfl, hcounted⟩ := textHashWords_append_inj h
      obtain ⟨hlength, hargs⟩ := List.cons.inj hcounted
      obtain ⟨hmatch, hrest⟩ := forall₂_of_append hlength hargs
      exact ⟨.call hmatch, hrest⟩
    | _ => simp [hashWordsBy, Kind.index] at h

/-- So do those of a list of trees of which the length is known. -/
theorem forall₂_of_append : ∀ {as bs : List Expr} {x y : List Nat}, as.length = bs.length →
    hashWordsByList word as ++ x = hashWordsByList word bs ++ y →
      List.Forall₂ (Matches (SameWord word)) as bs ∧ x = y
  | [], bs, x, y, hlength, h => by
    obtain rfl : bs = [] := List.length_eq_zero_iff.mp hlength.symm
    exact ⟨.nil, h⟩
  | a :: as, bs, x, y, hlength, h => by
    cases bs with
    | nil => cases hlength
    | cons b bs =>
      simp only [hashWordsByList, List.append_assoc] at h
      obtain ⟨hfirst, hafter⟩ := matches_of_append h
      obtain ⟨hothers, hrest⟩ := forall₂_of_append (Nat.succ.inj hlength) hafter
      exact ⟨.cons hfirst hothers, hrest⟩

end

mutual

/-- Trees that match are fed as the same words. -/
theorem Matches.hashWordsBy_eq : ∀ {a b : Expr}, Matches (SameWord word) a b →
    a.hashWordsBy word = b.hashWordsBy word
  | .number v, _, .number hword => by rw [hashWordsBy, hashWordsBy, hword]
  | .var _, _, .var => rfl
  | .binary op lhs rhs, _, .binary hlhs hrhs => by
    rw [hashWordsBy, hashWordsBy, hlhs.hashWordsBy_eq, hrhs.hashWordsBy_eq]
  | .call callee args, _, .call hargs => by
    rw [hashWordsBy, hashWordsBy, hashWordsByList_eq hargs, hargs.length_eq]

theorem hashWordsByList_eq : ∀ {as bs : List Expr},
    List.Forall₂ (Matches (SameWord word)) as bs →
      hashWordsByList word as = hashWordsByList word bs
  | [], _, .nil => rfl
  | a :: as, _, .cons hfirst hothers => by
    rw [hashWordsByList, hashWordsByList, hfirst.hashWordsBy_eq, hashWordsByList_eq hothers]

end

/-- **Decodable words**: the words of one tree never go on as those of another, and they
    are those of another exactly when the two trees match, with words in common for
    their numbers. -/
theorem hashWordsBy_decodable (word : Binary64 → Nat) (a b : Expr) :
    (a.hashWordsBy word <+: b.hashWordsBy word → a.hashWordsBy word = b.hashWordsBy word) ∧
    (a.hashWordsBy word = b.hashWordsBy word ↔ Matches (SameWord word) a b) := by
  have hmatches {more : List Nat} (h : a.hashWordsBy word ++ more = b.hashWordsBy word) :
      Matches (SameWord word) a b := by
    rw [← List.append_nil (b.hashWordsBy word)] at h
    exact (matches_of_append h).1
  refine ⟨?_, ?_, Matches.hashWordsBy_eq⟩
  · rintro ⟨more, hmore⟩
    exact (hmatches hmore).hashWordsBy_eq
  · intro heq
    have hnothing : a.hashWordsBy word ++ [] = b.hashWordsBy word := by rwa [List.append_nil]
    exact hmatches hnothing

/-- Calls that differ only in where an argument belongs, and operations on other zeros
    and on other values that are not a number. -/
theorem hashWordsBy_decodable_nested :
    ∃ a b c d : Expr,
      a = .call "f" [.call "g" [.var "x"], .var "y"] ∧
      b = .call "f" [.call "g" [.var "x", .var "y"]] ∧
      c = .binary '-' (.number ⟨0⟩) (.number ⟨0x7ff8000000000001⟩) ∧
      d = .binary '-' (.number ⟨0x8000000000000000⟩) (.number ⟨0xfff0000000000002⟩) ∧
      ¬ a.hashWords <+: b.hashWords ∧ ¬ b.hashWords <+: a.hashWords ∧
      c.hashWords <+: d.hashWords ∧ c.hashWords = d.hashWords ∧
      Matches (SameWord Binary64.hashWord) c d := by
  refine ⟨_, _, _, _, rfl, rfl, rfl, rfl, ?_, ?_, ?_⟩
  · intro hstarts
    have heq := (hashWordsBy_decodable _ _ _).1 hstarts
    exact absurd heq (by decide +kernel)
  · intro hstarts
    have heq := (hashWordsBy_decodable _ _ _).1 hstarts
    exact absurd heq (by decide +kernel)
  · have hstarts : (Expr.binary '-' (.number ⟨0⟩) (.number ⟨0x7ff8000000000001⟩)).hashWords
        <+: (Expr.binary '-' (.number ⟨0x8000000000000000⟩)
          (.number ⟨0xfff0000000000002⟩)).hashWords := by
      decide +kernel
    have heq := (hashWordsBy_decodable _ _ _).1 hstarts
    exact ⟨hstarts, heq, (hashWordsBy_decodable _ _ _).2.mp heq⟩

end Expr

end FloatLang
