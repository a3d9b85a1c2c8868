import FloatLang.Proofs.Grammar.Places

/-! # Places Tile a Text

  The lexemes of a text and the trivia between them are all there is to it, each
  where the one before it ends.

  `Tiled whole passed ps` says that the places `ps` go on from `passed` and come
  to the end of `whole`. Every text is tiled by its places, and what holds of a
  tiling is proved by induction on it:

  - `Tiled.fits`: every lexeme is the first one where it stands.
  - `Tiled.gap`: between two lexemes there is trivia.
  - `Tiled.ordered`: a lexeme ends before the next one starts.
  - `Tiled.ends`: the end of the text is the last place, and no other is empty.
-/

namespace FloatLang

/-- Places that go on from `passed` to the end of `whole`. -/
inductive Tiled (whole : List Char) : List Char → List Place → Prop where
  /-- Trivia to the end of the text. -/
  | last {passed gap : List Char} :
      whole = passed ++ gap → Trivia [] gap → Tiled whole passed [⟨passed ++ gap, []⟩]
  /-- Trivia, then a lexeme. -/
  | next {passed gap lexeme rest : List Char} {ps : List Place} :
      whole = passed ++ gap ++ (lexeme ++ rest) → Munch (gap ++ (lexeme ++ rest)) gap lexeme rest →
      lexeme ≠ [] → Tiled whole (passed ++ gap ++ lexeme) ps →
      Tiled whole passed (⟨passed ++ gap, lexeme⟩ :: ps)

/-- A text is tiled by its places. -/
theorem tiled_places {whole before text : List Char} (h : whole = before ++ text) :
    Tiled whole before (places before text) := by
  -- a lexeme leaves a shorter text
  induction hn : text.length using Nat.strongRecOn generalizing before text with
  | ind n ih =>
    obtain ⟨trivia, lexeme, rest, hmunch⟩ := exists_munch text
    by_cases hlexeme : lexeme = []
    · subst hlexeme
      have htrivia := hmunch.lexeme_eq_nil_iff.mp rfl
      have htext : text = trivia := by
        rw [hmunch.whole, hmunch.rest_eq_nil, List.append_nil, List.append_nil]
      rw [hmunch.places_eq_nil, ← htext]
      exact .last h htrivia
    · have htext := hmunch.whole
      rw [List.append_assoc] at htext
      have hshorter : rest.length < n := by
        have := List.length_pos_iff.mpr hlexeme
        rw [← hn, htext, List.length_append, List.length_append]
        omega
      rw [hmunch.places_eq_cons hlexeme]
      rw [htext] at hmunch
      refine .next (by rw [h, htext, List.append_assoc]) hmunch hlexeme (ih _ hshorter ?_ rfl)
      rw [h, htext]
      simp only [List.append_assoc]

/-! ## Where the text goes on -/

/-- The lexeme is the first one where it stands, and nothing stands there only
    where the text ends. -/
structure Place.Fits (whole : List Char) (p : Place) (after : List Char) : Prop where
  /-- The lexeme is in the text. -/
  split : whole = p.before ++ (p.lexeme ++ after)
  /-- It is as long as it can be. -/
  first : firstLexeme (p.lexeme ++ after) = p.lexeme
  /-- No trivia start there. -/
  stops : ∀ c, (p.lexeme ++ after).head? = some c → ¬ StartsTrivia c

/-- Trivia lead from the end of `a` to the end of `b`, the two being the starts of
    `whole`. -/
def Gap (whole a b : List Char) : Prop :=
  ∃ gap after, b = a ++ gap ∧ whole = a ++ gap ++ after ∧ Trivia after gap

namespace Tiled

variable {whole passed : List Char} {ps : List Place}

/-- Every lexeme is the first one where it stands. -/
theorem fits (h : Tiled whole passed ps) {p : Place} (hp : p ∈ ps) :
    ∃ after, p.Fits whole after := by
  induction h with
  | last hwhole _ =>
    obtain rfl := List.mem_singleton.mp hp
    exact ⟨[], by simpa using hwhole, rfl, by simp⟩
  | @next passed gap lexeme rest ps hwhole hmunch _ _ ih =>
    rcases List.mem_cons.mp hp with rfl | hmem
    · exact ⟨rest, hwhole, hmunch.seam.2, hmunch.seam.1⟩
    · exact ih hmem

/-- Every place is behind what was passed. -/
theorem behind (h : Tiled whole passed ps) {p : Place} (hp : p ∈ ps) : passed <+: p.before := by
  induction h with
  | last _ _ =>
    obtain rfl := List.mem_singleton.mp hp
    exact List.prefix_append _ _
  | next _ _ _ _ ih =>
    rcases List.mem_cons.mp hp with rfl | hmem
    · exact List.prefix_append _ _
    · rename_i passed gap lexeme _ _ _ _ _ _
      refine List.IsPrefix.trans ?_ (ih hmem)
      rw [List.append_assoc]
      exact List.prefix_append _ _

/-- A lexeme ends before the next one starts. -/
theorem ordered (h : Tiled whole passed ps) :
    ps.Pairwise fun p q => p.lexeme ≠ [] ∧ p.before ++ p.lexeme <+: q.before := by
  induction h with
  | last => exact List.pairwise_singleton _ _
  | next _ _ hne htiled ih =>
    apply List.pairwise_cons.mpr
    refine ⟨?_, ih⟩
    intro q hq
    exact ⟨hne, htiled.behind hq⟩

/-- The end of the text is the last place, and at every other stands a
    lexeme. -/
theorem ends (h : Tiled whole passed ps) :
    ∃ front, ps = front ++ [⟨whole, []⟩] ∧ ∀ p ∈ front, IsLexeme p.lexeme := by
  induction h with
  | last hwhole _ => exact ⟨[], by rw [hwhole]; rfl, by simp⟩
  | next hwhole hmunch hne _ ih =>
    obtain ⟨front, rfl, hfront⟩ := ih
    have hlexeme := hmunch.isLexeme.resolve_left hne
    refine ⟨_ :: front, rfl, ?_⟩
    intro p hp
    rcases List.mem_cons.mp hp with rfl | hmem
    · exact hlexeme
    · exact hfront p hmem

/-- Trivia lead from `passed` to the first lexeme. -/
theorem head_gap (h : Tiled whole passed ps) (hk : 0 < ps.length) :
    Gap whole passed ps[0].before := by
  cases h with
  | last hwhole htrivia => exact ⟨_, [], rfl, hwhole.trans (List.append_nil _).symm, htrivia⟩
  | next hwhole hmunch _ _ => exact ⟨_, _, rfl, hwhole, hmunch.isTrivia⟩

/-- Trivia lead from each lexeme to the next one. -/
theorem gap (h : Tiled whole passed ps) (k : Nat) (hk : k + 1 < ps.length) :
    Gap whole (ps[k].before ++ ps[k].lexeme) ps[k + 1].before := by
  induction h generalizing k with
  | last => simp at hk
  | @next passed gap lexeme rest ps _ _ _ htiled ih =>
    cases k with
    | zero => exact htiled.head_gap (Nat.lt_of_succ_lt_succ hk)
    | succ k => exact ih k (Nat.lt_of_succ_lt_succ hk)

end Tiled

end FloatLang
