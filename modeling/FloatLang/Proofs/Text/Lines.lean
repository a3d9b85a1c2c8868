import FloatLang.Text.Position

/-! # Lines and Columns by Counting

  A position can be read off a text without a cursor: the line counts the
  terminators that end at or before an offset, and the column counts the
  characters from the end of the last of them on.

  - **Terminators** are the leftmost-longest decomposition of the text into
    CRLF pairs, lone carriage returns and lone line feeds.
  - **Offsets** are taken in any unit (`size`): bytes for a text in memory,
    or single characters for a stream.

  Main statement: `position_pastAll`, a cursor counts exactly this.
-/

namespace FloatLang

/-! ## Counting -/

/-- The offset at which a text ends that starts at `offset`. -/
def endOffset (size : Char → Nat) (offset : Nat) : List Char → Nat
  | [] => offset
  | c :: rest => endOffset size (offset + size c) rest

/-- The offsets at which the characters of a text start. -/
def charStarts (size : Char → Nat) (offset : Nat) : List Char → List Nat
  | [] => []
  | c :: rest => offset :: charStarts size (offset + size c) rest

/-- The offsets at which the line terminators of a text end. A carriage return
    with the line feed after it is one terminator. -/
def terminatorEnds (size : Char → Nat) (offset : Nat) : List Char → List Nat
  | [] => []
  | '\r' :: '\n' :: rest =>
    let stop := offset + size '\r' + size '\n'
    stop :: terminatorEnds size stop rest
  | c :: rest =>
    if endsLine c then (offset + size c) :: terminatorEnds size (offset + size c) rest
    else terminatorEnds size (offset + size c) rest

/-- The ends of the terminators that lie at or before `n`. -/
def endsUpTo (size : Char → Nat) (offset : Nat) (text : List Char) (n : Nat) : List Nat :=
  (terminatorEnds size offset text).filter (· ≤ n)

/-- The number of characters that start at `low` or later and before `high`. -/
def charsBetween (size : Char → Nat) (offset : Nat) (text : List Char) (low high : Nat) : Nat :=
  (charStarts size offset text).countP fun s => low ≤ s && s < high

/-- The line of offset `n`: one more than there are terminators before it. -/
def lineAt (size : Char → Nat) (text : List Char) (n : Nat) : Nat :=
  1 + (endsUpTo size 0 text n).length

/-- The offset at which the line of offset `n` starts: where the last terminator
    before it ends. -/
def lineStart (size : Char → Nat) (text : List Char) (n : Nat) : Nat :=
  (endsUpTo size 0 text n).getLast?.getD 0

/-- The column of offset `n`: one more than there are characters from the start
    of its line up to it. -/
def columnAt (size : Char → Nat) (text : List Char) (n : Nat) : Nat :=
  1 + charsBetween size 0 text (lineStart size text n) n

/-! ## Offsets -/

section offsets
variable {size : Char → Nat}

theorem le_endOffset (size : Char → Nat) (offset : Nat) (text : List Char) :
    offset ≤ endOffset size offset text := by
  induction text generalizing offset with
  | nil => exact Nat.le_refl _
  | cons c rest ih =>
    have h := ih (offset + size c)
    unfold endOffset
    omega

/-- No character starts before the text does. -/
theorem le_of_mem_charStarts {offset s : Nat} {text : List Char}
    (h : s ∈ charStarts size offset text) : offset ≤ s := by
  induction text generalizing offset with
  | nil => simp [charStarts] at h
  | cons c rest ih =>
    rcases List.mem_cons.mp h with rfl | hrest
    · exact Nat.le_refl _
    · have := ih hrest
      omega

/-- A terminator ends in the text. -/
theorem le_of_mem_terminatorEnds {offset e : Nat} {text : List Char}
    (h : e ∈ terminatorEnds size offset text) : e ≤ endOffset size offset text := by
  fun_induction terminatorEnds size offset text with
  | case1 => simp at h
  | case2 offset rest stop ih =>
    rcases List.mem_cons.mp h with rfl | hrest
    · exact le_endOffset size _ rest
    · exact ih hrest
  | case3 offset c rest _ _ ih =>
    rcases List.mem_cons.mp h with rfl | hrest
    · exact le_endOffset size _ rest
    · exact ih hrest
  | case4 offset c rest _ _ ih => exact ih h

variable (hsize : ∀ c, 0 < size c)
include hsize

/-- A terminator takes up room, so it ends past the start of the text. -/
theorem lt_of_mem_terminatorEnds {offset e : Nat} {text : List Char}
    (h : e ∈ terminatorEnds size offset text) : offset < e := by
  fun_induction terminatorEnds size offset text with
  | case1 => simp at h
  | case2 offset rest stop ih =>
    have := hsize '\r'
    rcases List.mem_cons.mp h with rfl | hrest
    · omega
    · have := ih hrest
      omega
  | case3 offset c rest _ _ ih =>
    have := hsize c
    rcases List.mem_cons.mp h with rfl | hrest
    · omega
    · have := ih hrest
      omega
  | case4 offset c rest _ _ ih =>
    have := ih h
    omega

theorem lt_of_mem_endsUpTo {offset e n : Nat} {text : List Char}
    (h : e ∈ endsUpTo size offset text n) : offset < e :=
  lt_of_mem_terminatorEnds hsize (List.mem_filter.mp h).1

/-- No terminator ends where a text starts. -/
theorem endsUpTo_start (offset : Nat) (text : List Char) :
    endsUpTo size offset text offset = [] := by
  unfold endsUpTo
  rw [List.filter_eq_nil_iff]
  intro e he
  have hlt := lt_of_mem_terminatorEnds hsize he
  have hnot : ¬ e ≤ offset := by omega
  simp [hnot]

/-- The characters that start before the end of `before` are those of
    `before`. -/
theorem charsBetween_start (offset low : Nat) (before after : List Char) (hlow : low ≤ offset) :
    charsBetween size offset (before ++ after) low (endOffset size offset before)
      = before.length := by
  induction before generalizing offset with
  | nil =>
    rw [List.length_nil, charsBetween, List.countP_eq_zero]
    intro s hs
    have hnot : ¬ s < endOffset size offset [] := Nat.not_lt.mpr (le_of_mem_charStarts hs)
    simp [hnot]
  | cons c rest ih =>
    have hc := hsize c
    have hend := le_endOffset size (offset + size c) rest
    -- the first character is counted, and the others as the text goes on
    have hin : offset < endOffset size offset (c :: rest) := by rw [endOffset]; omega
    have hrest := ih (offset + size c) (by omega)
    unfold charsBetween
    rw [List.cons_append, charStarts, List.countP_cons_of_pos (by simp [hlow, hin])]
    unfold charsBetween at hrest
    unfold endOffset
    rw [hrest, List.length_cons]

omit hsize in
/-- Characters before the first one counted make no difference. -/
theorem charsBetween_drop {offset stop low high : Nat} {text rest : List Char} {dropped : List Nat}
    (hstarts : charStarts size offset text = dropped ++ charStarts size stop rest)
    (hdropped : ∀ s ∈ dropped, s < low) :
    charsBetween size offset text low high = charsBetween size stop rest low high := by
  rw [charsBetween, charsBetween, hstarts, List.countP_append, Nat.add_eq_right,
    List.countP_eq_zero]
  intro s hs
  have hnot : ¬ low ≤ s := Nat.not_le.mpr (hdropped s hs)
  simp [hnot]

/-! ## A cursor counts -/

omit hsize in
/-- A character that does not open a CRLF pair is a terminator by itself or
    none. -/
theorem terminatorEnds_cons (size : Char → Nat) (offset : Nat) {c : Char} {text : List Char}
    (h : c = '\r' → text.head? ≠ some '\n') :
    terminatorEnds size offset (c :: text)
      = if endsLine c then (offset + size c) :: terminatorEnds size (offset + size c) text
        else terminatorEnds size (offset + size c) text := by
  rw [terminatorEnds]
  intro rest hc htext
  exact h hc (by simp [htext])

omit hsize in
/-- A pair that is neither in `c :: rest` nor across its end does not start at
    `c`. -/
theorem no_feed_after_return {c : Char} {rest after : List Char}
    (hpair : ∀ rest', c = '\r' → rest = '\n' :: rest' → False)
    (hseam : (c :: rest).getLast? = some '\r' → after.head? ≠ some '\n') :
    c = '\r' → (rest ++ after).head? ≠ some '\n' := by
  intro hc
  cases rest with
  | nil => exact hseam (by simp [hc])
  | cons d rest =>
    intro hd
    obtain rfl : d = '\n' := by simpa using hd
    exact hpair rest hc rfl

omit hsize in
theorem seam_cons {c : Char} {rest after : List Char}
    (hseam : (c :: rest).getLast? = some '\r' → after.head? ≠ some '\n') :
    rest.getLast? = some '\r' → after.head? ≠ some '\n' := by
  intro h
  exact hseam (by simp [List.getLast?_cons, h])

omit hsize in
/-- Where counting comes to past `before`, when `before` starts at offset
    `offset` and position `p` and `after` follows it. -/
def countedFrom (size : Char → Nat) (p : Position) (offset : Nat) (before after : List Char) :
    Position :=
  let stop := endOffset size offset before
  let ends := endsUpTo size offset (before ++ after) stop
  { line := p.line + ends.length
    column := ends.getLast?.elim (p.column + before.length) fun e =>
      1 + charsBetween size offset (before ++ after) e stop }

/-- Nothing is counted over no text. -/
theorem countedFrom_nil (p : Position) (offset : Nat) (after : List Char) :
    countedFrom size p offset [] after = p := by
  have hnone : endsUpTo size offset ([] ++ after) (endOffset size offset []) = [] :=
    endsUpTo_start hsize offset after
  simp only [countedFrom]
  rw [hnone]
  rfl

/-- A terminator counts as a line, and columns start over behind it. -/
theorem countedFrom_terminator (p : Position) {offset : Nat} (stop : Nat)
    {before after : List Char} (rest : List Char) (dropped : List Nat)
    (hends : terminatorEnds size offset (before ++ after)
      = stop :: terminatorEnds size stop (rest ++ after))
    (hstarts : charStarts size offset (before ++ after)
      = dropped ++ charStarts size stop (rest ++ after))
    (hdropped : ∀ s ∈ dropped, s < stop)
    (hstop : endOffset size offset before = endOffset size stop rest) :
    countedFrom size p offset before after
      = countedFrom size ⟨p.line + 1, 1⟩ stop rest after := by
  have hle := le_endOffset size stop rest
  -- the terminator is the first one that ends in time
  have hupTo : endsUpTo size offset (before ++ after) (endOffset size stop rest)
      = stop :: endsUpTo size stop (rest ++ after) (endOffset size stop rest) := by
    rw [endsUpTo, hends, List.filter_cons_of_pos (by simpa using hle), endsUpTo]
  simp only [countedFrom, hstop, hupTo, List.length_cons, List.getLast?_cons, Option.elim_some,
    Position.mk.injEq]
  constructor
  · omega
  · cases hlast : (endsUpTo size stop (rest ++ after) (endOffset size stop rest)).getLast? with
    | none =>
      rw [Option.getD_none, charsBetween_drop hstarts hdropped,
        charsBetween_start hsize stop stop rest after (Nat.le_refl _), Option.elim_none]
    | some e =>
      have hlt := lt_of_mem_endsUpTo hsize (List.mem_of_getLast? hlast)
      have hdropped' : ∀ s ∈ dropped, s < e := by
        intro s hs
        exact Nat.lt_trans (hdropped s hs) hlt
      rw [Option.getD_some, charsBetween_drop hstarts hdropped', Option.elim_some]

/-- A character that ends no line counts as a column. -/
theorem countedFrom_char (p : Position) {offset : Nat} {c : Char} (rest after : List Char)
    (hends : terminatorEnds size offset (c :: rest ++ after)
      = terminatorEnds size (offset + size c) (rest ++ after)) :
    countedFrom size p offset (c :: rest) after
      = countedFrom size ⟨p.line, p.column + 1⟩ (offset + size c) rest after := by
  have hc := hsize c
  have hupTo (n : Nat) : endsUpTo size offset (c :: rest ++ after) n
      = endsUpTo size (offset + size c) (rest ++ after) n := by
    rw [endsUpTo, hends, endsUpTo]
  simp only [countedFrom, hupTo, endOffset, List.length_cons, Position.mk.injEq, true_and]
  cases hlast : (endsUpTo size (offset + size c) (rest ++ after)
      (endOffset size (offset + size c) rest)).getLast? with
  | none =>
    rw [Option.elim_none, Option.elim_none]
    omega
  | some e =>
    have hlt := lt_of_mem_endsUpTo hsize (List.mem_of_getLast? hlast)
    have hstarts : charStarts size offset (c :: rest ++ after)
        = [offset] ++ charStarts size (offset + size c) (rest ++ after) := rfl
    rw [Option.elim_some, Option.elim_some, charsBetween_drop hstarts]
    intro s hs
    rw [List.mem_singleton.mp hs]
    omega

/-- A cursor counts, wherever it starts. The two hypotheses keep a CRLF pair
    whole at either end of `before`. -/
theorem position_pastAll_from (k : Cursor) (offset : Nat) (before after : List Char)
    (hstart : k.afterReturn = true → (before ++ after).head? ≠ some '\n')
    (hseam : before.getLast? = some '\r' → after.head? ≠ some '\n') :
    (k.pastAll before).position = countedFrom size k.position offset before after := by
  fun_induction terminatorEnds size offset before generalizing k with
  | case1 offset =>
    rw [countedFrom_nil hsize, Cursor.pastAll_nil]
  | case2 offset rest stop ih =>
    have hr := hsize '\r'
    have hn := hsize '\n'
    -- the feed completes the terminator that the return has counted
    have hpast : (k.past '\r').past '\n' = ⟨⟨k.position.line + 1, 1⟩, false⟩ := rfl
    have hcount : countedFrom size k.position offset ('\r' :: '\n' :: rest) after
        = countedFrom size ⟨k.position.line + 1, 1⟩ stop rest after :=
      countedFrom_terminator hsize k.position stop rest [offset, offset + size '\r'] rfl rfl
        (by simp; omega) rfl
    rw [hcount, Cursor.pastAll_cons, Cursor.pastAll_cons, hpast]
    exact ih _ (fun h => by cases h) (seam_cons (seam_cons hseam))
  | case3 offset c rest hpair hends ih =>
    have hnext := no_feed_after_return hpair hseam
    have hfeed : k.afterReturn = true → c ≠ '\n' := by
      intro hk hc
      exact hstart hk (by simp [hc])
    have hcount : countedFrom size k.position offset (c :: rest) after
        = countedFrom size ⟨k.position.line + 1, 1⟩ (offset + size c) rest after :=
      countedFrom_terminator hsize k.position (offset + size c) rest [offset]
        ((terminatorEnds_cons size offset hnext).trans (if_pos hends)) rfl (by simp [hsize]) rfl
    rw [hcount, Cursor.pastAll_cons, Cursor.past_endsLine hends hfeed]
    exact ih _ (fun hreturn => hnext (by simpa using hreturn)) (seam_cons hseam)
  | case4 offset c rest hpair hends ih =>
    have hnext := no_feed_after_return hpair hseam
    have hcount := countedFrom_char hsize k.position rest after
      ((terminatorEnds_cons size offset hnext).trans (if_neg hends))
    rw [hcount, Cursor.pastAll_cons, Cursor.past_inLine (by simpa using hends)]
    exact ih _ (fun hreturn => by cases hreturn) (seam_cons hseam)

/-- **A cursor counts.** Past `before` it stands at the line and column that
    counting gives in the whole text, unless a CRLF pair is cut in two. -/
theorem position_pastAll {before after : List Char}
    (hseam : before.getLast? = some '\r' → after.head? ≠ some '\n') :
    (Cursor.start.pastAll before).position
      = ⟨lineAt size (before ++ after) (endOffset size 0 before),
          columnAt size (before ++ after) (endOffset size 0 before)⟩ := by
  rw [position_pastAll_from hsize .start 0 before after (fun h => by cases h) hseam]
  simp only [countedFrom, lineAt, columnAt, lineStart, Position.mk.injEq]
  refine ⟨rfl, ?_⟩
  cases (endsUpTo size 0 (before ++ after) (endOffset size 0 before)).getLast? with
  | none =>
    rw [Option.elim_none, Option.getD_none,
      charsBetween_start hsize 0 0 before after (Nat.le_refl 0)]
    rfl
  | some e => rfl

end offsets

end FloatLang
