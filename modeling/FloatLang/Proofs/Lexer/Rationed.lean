import FloatLang.Proofs.Lexer.Watched
import FloatLang.Proofs.Stream.Rationed

/-! # A Lexer over a Stream without an End

  Over such a stream a call may never return: blanks may go on for ever. But calls
  that return have been given so many answers, and any larger ration of the stream
  serves them as well. What they find with it is what they find.

  Main statement: `run_of_lasts`.
-/

namespace FloatLang.Lexer

variable {τ : Type} [OpenStream τ]

/-- A lexer over `n` answers of a stream. -/
def rationed (s : τ) (n : Nat) : Lexer (Rationed τ) :=
  ofStream ⟨s, n⟩

/-- `n` answers are enough: when all calls have returned, there is one left. -/
def Lasts (s : τ) (calls : List Call) (n : Nat) : Prop :=
  0 < ((rationed s n).run calls).2.stream.ration

/-- **Calls that return** are answered in the same way with any larger ration. -/
theorem run_of_lasts {s : τ} {calls : List Call} {n m : Nat} (h : Lasts s calls n) (hm : n ≤ m) :
    (rationed s m).replies calls = (rationed s n).replies calls ∧
      (rationed s m).turns calls = (rationed s n).turns calls ∧
      (rationed s m).heard calls = (rationed s n).heard calls := by
  obtain ⟨k, rfl⟩ := Nat.exists_eq_add_of_le hm
  have hmore : rationed s (n + k) = (rationed s n).map (Rationed.more k) := rfl
  obtain ⟨_, hreplies, hturns⟩ := run_map (Rationed.keepsAnswersOn_more k) h
  have hpolls := polls_map (Rationed.keepsAnswersOn_more k) h
  rw [hmore, hreplies, hturns, heard, hpolls]
  exact ⟨rfl, rfl, rfl⟩

end FloatLang.Lexer
