import FloatLang.Proofs.Grammar.Positions
import FloatLang.Proofs.Lexer.Places
import FloatLang.Proofs.Lexer.Replay

/-! # Positions of a Run

  Whatever calls a lexer answers, it goes through the places of what it has heard,
  one with every call for a token, and tells their lines and columns.

  - **Tracked** (`Tracked`): each token has the position that counting gives, and
    positions increase until the end of input, where they stay.

  Main statement: `turns_tracked`.
-/

namespace FloatLang

/-- The token and the position are those of the `k`-th place of the text, counted
    in characters. -/
structure Counted (text : List Char) (k : Nat) (turn : Token × Position) : Prop where
  /-- The lexeme stands in the text. -/
  split : ∃ after, text = (place text k).before ++ (place text k).lexeme ++ after
  /-- The token is that of the lexeme. -/
  token : turn.1 = .ofLexeme (place text k).lexeme
  /-- The end of input is where the text ends. -/
  ended : turn.1 = .endOfInput → (place text k).before = text
  /-- The line is one more than there are terminators before the lexeme. -/
  line : turn.2.line = lineAt (fun _ => 1) text (place text k).before.length
  /-- The column is one more than there are characters from the end of the last of
      them up to the lexeme. -/
  column : turn.2.column = columnAt (fun _ => 1) text (place text k).before.length

/-- The tokens of a run, with their positions, over the text that was heard. -/
structure Tracked (text : List Char) (turns : List (Token × Position)) : Prop where
  /-- Each of them is counted. -/
  counted : ∀ k (h : k < turns.length), Counted text k turns[k]
  /-- Before the end of input positions increase. -/
  increasing : ∀ j k (_ : j < k) (hk : k < turns.length),
    turns[j].1 ≠ .endOfInput → turns[j].2 < turns[k].2
  /-- From the end of input on nothing changes. -/
  staying : ∀ j k (_ : j < k) (hk : k < turns.length),
    turns[j].1 = .endOfInput → turns[k] = turns[j]

/-- What stands at the places of a text is counted. -/
theorem counted_place (text : List Char) (k : Nat) :
    Counted text k (place text k).positioned := by
  obtain ⟨after, hfits⟩ := fits_place text k
  have hposition := hfits.counted (fun _ => Nat.one_pos)
  rw [endOffset_one, Nat.zero_add] at hposition
  constructor
  case split => exact ⟨after, by rw [List.append_assoc]; exact hfits.split⟩
  case token => rfl
  case ended =>
    intro hend
    have hnil : (place text k).lexeme = [] := Token.ofLexeme_eq_endOfInput_iff.mp hend
    exact congrArg Place.before (placeFrom_of_end hnil (Nat.le_refl k))
  case line => exact congrArg Position.line hposition
  case column => exact congrArg Position.column hposition

/-- So are the places one after the other. -/
theorem tracked_places (text : List Char) (n : Nat) :
    Tracked text ((List.range n).map fun k => (place text k).positioned) := by
  constructor
  case counted =>
    intro k h
    rw [List.getElem_map, List.getElem_range]
    exact counted_place text k
  case increasing =>
    intro j k hjk hk hne
    rw [List.getElem_map, List.getElem_range] at hne
    rw [List.getElem_map, List.getElem_map, List.getElem_range, List.getElem_range]
    apply position_place_lt hjk
    intro hnil
    exact hne (Token.ofLexeme_eq_endOfInput_iff.mpr hnil)
  case staying =>
    intro j k hjk hk hend
    rw [List.getElem_map, List.getElem_range] at hend
    rw [List.getElem_map, List.getElem_map, List.getElem_range, List.getElem_range]
    have hnil : (place text j).lexeme = [] := Token.ofLexeme_eq_endOfInput_iff.mp hend
    have hj : place text j = ⟨text, []⟩ := placeFrom_of_end hnil (Nat.le_refl j)
    have hk : place text k = ⟨text, []⟩ := placeFrom_of_end hnil (Nat.le_of_lt hjk)
    rw [hj, hk]

namespace Lexer

section places
variable {σ : Type} [CharStream σ]

/-- A lexer that is left alone goes through the places of what it has not read. -/
theorem turns_eq_places {l : Lexer σ} {before : List Char} (hl : l.Coherent)
    (hplaced : l.Placed before) {calls : List Call} (hown : ∀ c ∈ calls, c.isOwn = true) :
    l.turns calls = (List.range (calls.countP Call.forToken)).map fun k =>
      (placeFrom before l.unread k).positioned := by
  induction calls generalizing l before with
  | nil => rfl
  | cons c calls ih =>
    have hrest : ∀ d ∈ calls, d.isOwn = true := by
      intro d hd
      exact hown d (List.mem_cons_of_mem c hd)
    rw [turns_cons]
    cases hc : c.forToken with
    | true =>
      obtain ⟨trivia, lexeme, rest, h⟩ := exists_munch l.unread
      obtain ⟨htoken, hstart, hl', hstands, hunread⟩ := next_of_munch hl hplaced h
      have hshift : (fun k => (placeFrom before l.unread k).positioned) ∘ Nat.succ
          = fun k => (placeFrom (before ++ trivia ++ lexeme) rest k).positioned := by
        funext k
        rw [Function.comp_apply, placeFrom_succ h]
      rw [List.countP_cons_of_pos hc, List.range_succ_eq_map, List.map_cons, List.map_map, hshift,
        answer_of_forToken l hc, ih hl' (.inr hstands) hrest, hunread, placeFrom_zero h,
        htoken, hstart]
      rfl
    | false =>
      obtain rfl := Call.eq_lexemeStart hc (hown c List.mem_cons_self)
      rw [List.countP_cons_of_neg (by decide)]
      exact ih hl hplaced hrest

theorem turns_ofStream (s : σ) {calls : List Call} (hown : ∀ c ∈ calls, c.isOwn = true) :
    (ofStream s).turns calls = (List.range (calls.countP Call.forToken)).map fun k =>
      (place (drain s).text k).positioned := by
  rw [turns_eq_places (coherent_ofStream s) (placed_ofStream s) hown, unread_ofStream]
  rfl

/-- Whatever calls a lexer answers, it goes through the places of what it has
    heard. -/
theorem tracked_heard (s : σ) (calls : List Call) :
    Tracked ((ofStream s).heard calls) ((ofStream s).turns calls) := by
  have hown : ∀ c ∈ calls.filter Call.isOwn, c.isOwn = true := by
    intro c hc
    exact (List.mem_filter.mp hc).2
  rw [(simulation_replays.replies_eq (replays_heard s calls)).2, turns_ofStream _ hown,
    drain_list]
  exact tracked_places _ _

end places

/-- **Position tracking is exact**: whatever calls a lexer answers, the tokens that
    it finds stand in the text that it has heard as their positions say, and these are
    the tokens and positions that it answers. Where a stream has no end, this holds of
    all calls that return. -/
theorem turns_tracked :
    (∀ {σ : Type} [CharStream σ] (s : σ) (calls : List Call),
      Tracked ((ofStream s).heard calls) ((ofStream s).turns calls) ∧
      Answered .start calls ((ofStream s).turns calls) ((ofStream s).replies calls)) ∧
    (∀ {τ : Type} [OpenStream τ] {s : τ} {calls : List Call} {n m : Nat},
      Lasts s calls n → n ≤ m →
      Tracked ((rationed s n).heard calls) ((rationed s m).turns calls) ∧
      Answered .start calls ((rationed s m).turns calls) ((rationed s m).replies calls)) := by
  constructor
  · intro σ _ s calls
    exact ⟨tracked_heard s calls, answered_run (ofStream s) calls⟩
  · intro τ _ s calls n m h hm
    refine ⟨?_, answered_run (rationed s m) calls⟩
    rw [(run_of_lasts h hm).2.1]
    exact tracked_heard _ calls

/-- An operator that comes without end. -/
theorem turns_tracked_unending :
    ∃ (s : AnswerSequence) (calls : List Call),
      s = { answer := fun _ => some '+' } ∧ calls = [.next, .lexemeStart, .next?] ∧
      Lasts s calls 4 ∧
      Tracked ['+', '+', '+'] [(.symbol '+', ⟨1, 1⟩), (.symbol '+', ⟨1, 2⟩)] ∧
      Answered .start calls [(.symbol '+', ⟨1, 1⟩), (.symbol '+', ⟨1, 2⟩)]
        [.token (.symbol '+') ⟨1, 1⟩, .position ⟨1, 1⟩, .token? (some (.symbol '+'))] ∧
      ∀ n, 4 ≤ n → Tracked ['+', '+', '+'] ((rationed s n).turns calls) := by
  obtain ⟨s, hs⟩ : ∃ s : AnswerSequence, s = { answer := fun _ => some '+' } := ⟨_, rfl⟩
  obtain ⟨calls, hcalls⟩ : ∃ calls : List Call, calls = [.next, .lexemeStart, .next?] := ⟨_, rfl⟩
  have hleft : ((rationed s 4).run calls).2.stream.ration = 1 := by
    rw [hs, hcalls]
    decide +kernel
  have hlasts : Lasts s calls 4 := Nat.lt_of_lt_of_eq Nat.one_pos hleft.symm
  have hheard : (rationed s 4).heard calls = ['+', '+', '+'] := by
    rw [hs, hcalls]
    decide +kernel
  have hturns : (rationed s 4).turns calls
      = [(.symbol '+', ⟨1, 1⟩), (.symbol '+', ⟨1, 2⟩)] := by
    rw [hs, hcalls]
    decide +kernel
  have hreplies : (rationed s 4).replies calls
      = [.token (.symbol '+') ⟨1, 1⟩, .position ⟨1, 1⟩, .token? (some (.symbol '+'))] := by
    rw [hs, hcalls]
    decide +kernel
  have htracked : ∀ n, 4 ≤ n → Tracked ['+', '+', '+'] ((rationed s n).turns calls) := by
    intro n hn
    rw [← hheard]
    exact (turns_tracked.2 hlasts hn).1
  have hanswered := (turns_tracked.2 hlasts (Nat.le_refl 4)).2
  rw [hturns, hreplies] at hanswered
  refine ⟨s, calls, hs, hcalls, hlasts, ?_, hanswered, htracked⟩
  rw [← hturns]
  exact htracked 4 (Nat.le_refl 4)

end Lexer

end FloatLang
