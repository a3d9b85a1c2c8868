import FloatLang.Lexeme.Piece
import FloatLang.Proofs.Text.Lines

/-! # Line Styles

  A text can be written over with all of its line terminators in the same style. The
  lines and columns stay, and the bytes move by what the terminators have grown.

  - **Decomposed** (`LineStyle.restyle`, `terminatorSpans`): a text is taken apart into
    its terminators and its other characters, from left to right, and a carriage return
    takes the line feed behind it along.
  - **Streamed** (`LineStyle.writeAll`): character by character it is enough to remember
    whether the last one was a carriage return. The two come to the same, and streaming
    goes on from any point of a text (`writeAll_append`).

  Main statements: `LineStyle.position_restyle` and `LineStyle.width_restyle`.
-/

namespace FloatLang

/-! ## Decomposed -/

/-- The ways to write a line terminator. -/
inductive LineStyle where
  /-- A line feed. -/
  | lineFeed
  /-- A carriage return. -/
  | carriageReturn
  /-- A carriage return and a line feed. -/
  | pair
  deriving DecidableEq, Repr, Inhabited

/-- The bytes of the line terminators of a text that starts at byte `offset`. -/
def terminatorSpans (offset : Nat) : List Char → List Span
  | [] => []
  | '\r' :: '\n' :: rest =>
    let stop := offset + '\r'.utf8Size + '\n'.utf8Size
    ⟨offset, stop⟩ :: terminatorSpans stop rest
  | c :: rest =>
    if endsLine c then ⟨offset, offset + c.utf8Size⟩ :: terminatorSpans (offset + c.utf8Size) rest
    else terminatorSpans (offset + c.utf8Size) rest

namespace LineStyle

/-- The characters of a terminator. -/
def terminator : LineStyle → List Char
  | lineFeed => ['\n']
  | carriageReturn => ['\r']
  | pair => ['\r', '\n']

/-- The text with every line terminator in the same style. -/
def restyle (style : LineStyle) : List Char → List Char
  | [] => []
  | '\r' :: '\n' :: rest => style.terminator ++ style.restyle rest
  | c :: rest =>
    if endsLine c then style.terminator ++ style.restyle rest else c :: style.restyle rest

/-- How many bytes terminators gain in all, when each is written in the same style. -/
def growth (style : LineStyle) (spans : List Span) : Int :=
  spans.foldr (fun s total => (Utf8.width style.terminator : Int) - (s.stop - s.start) + total) 0

/-- How many bytes the terminators of a text gain that end at byte `n` or before it. -/
def growthUpTo (style : LineStyle) (text : List Char) (n : Nat) : Int :=
  style.growth ((terminatorSpans 0 text).filter (·.stop ≤ n))

/-! ## Streamed -/

/-- What is written for a character. A line feed that completes a terminator adds
    nothing to what was written for the return before it. -/
def write (style : LineStyle) (returned : Bool) (c : Char) : List Char :=
  if c == '\n' && returned then [] else if endsLine c then style.terminator else [c]

/-- What is written for a text. -/
def writeAll (style : LineStyle) (returned : Bool) : List Char → List Char
  | [] => []
  | c :: rest => style.write returned c ++ style.writeAll (c == '\r') rest

/-- Whether the last character was a carriage return, past `text`. -/
def returnedPast (returned : Bool) (text : List Char) : Bool :=
  text.getLast?.elim returned (· == '\r')

variable (style : LineStyle) (returned : Bool)

theorem returnedPast_cons (c : Char) (rest : List Char) :
    returnedPast returned (c :: rest) = returnedPast (c == '\r') rest := by
  unfold returnedPast
  rw [List.getLast?_cons]
  cases rest.getLast? <;> rfl

/-- Streaming goes on where it has stopped. -/
theorem writeAll_append (a b : List Char) :
    style.writeAll returned (a ++ b)
      = style.writeAll returned a ++ style.writeAll (returnedPast returned a) b := by
  induction a generalizing returned with
  | nil => rfl
  | cons c a ih =>
    rw [List.cons_append, writeAll, writeAll, ih, returnedPast_cons, List.append_assoc]

/-- A character that ends no line is no carriage return. -/
theorem not_return {c : Char} (hc : endsLine c = false) : (c == '\r') = false := by
  rw [endsLine, Bool.or_eq_false_iff] at hc
  exact hc.2

/-- A character that ends no line is written as it is. -/
theorem write_inLine {c : Char} (hc : endsLine c = false) : style.write returned c = [c] := by
  have hnot : ¬ (c == '\n' && returned) = true := by
    intro h
    rw [Bool.and_eq_true, beq_iff_eq] at h
    rw [h.1] at hc
    exact absurd hc (by decide)
  rw [write, if_neg hnot, if_neg (by simp [hc])]

/-- A line end that completes no terminator is written as one. -/
theorem write_endsLine {c : Char} (hc : endsLine c = true) (hfeed : returned = true → c ≠ '\n') :
    style.write returned c = style.terminator := by
  have hnot : ¬ (c == '\n' && returned) = true := by
    intro h
    rw [Bool.and_eq_true, beq_iff_eq] at h
    exact hfeed h.2 h.1
  rw [write, if_neg hnot, if_pos hc]

/-- A stretch within a line is written as it is. -/
theorem writeAll_inLine {run : List Char} (hrun : ∀ c ∈ run, endsLine c = false) :
    style.writeAll returned run = run := by
  induction run generalizing returned with
  | nil => rfl
  | cons c run ih =>
    have htail : ∀ d ∈ run, endsLine d = false := by
      intro d hd
      exact hrun d (List.mem_cons_of_mem c hd)
    rw [writeAll, style.write_inLine returned (hrun c List.mem_cons_self), ih _ htail]
    rfl

/-- A carriage return matters to a line feed only. -/
theorem writeAll_of_head? {text : List Char} (h : text.head? ≠ some '\n') :
    style.writeAll returned text = style.writeAll false text := by
  cases text with
  | nil => rfl
  | cons c rest =>
    have hc : c ≠ '\n' := by
      rintro rfl
      exact h rfl
    have hwrite : style.write returned c = style.write false c := by
      simp [write, hc]
    rw [writeAll, writeAll, hwrite]

/-- A text is streamed as it is taken apart. -/
theorem restyle_eq_writeAll (text : List Char) :
    style.restyle text = style.writeAll false text := by
  fun_induction restyle style text with
  | case1 => rfl
  | case2 rest ih =>
    rw [ih]
    rfl
  | case3 c rest hpair hends ih =>
    have hnext : style.writeAll (c == '\r') rest = style.writeAll false rest := by
      by_cases hc : c = '\r'
      · apply writeAll_of_head?
        intro hfeed
        obtain ⟨tail, htail⟩ := List.head?_eq_some_iff.mp hfeed
        exact hpair tail hc htail
      · rw [beq_eq_false_iff_ne.mpr hc]
    have hnew : false = true → c ≠ '\n' := fun h => absurd h Bool.false_ne_true
    rw [writeAll, style.write_endsLine false hends hnew, hnext, ih]
  | case4 c rest hpair hends ih =>
    have hc : endsLine c = false := Bool.eq_false_iff.mpr hends
    rw [writeAll, style.write_inLine false hc, not_return hc, ih]
    rfl

/-! ## Lines and columns stay -/

/-- A terminator starts a line, in any style, if it completes none before it. -/
theorem pastAll_terminator {k : Cursor}
    (h : k.afterReturn = true → style.terminator.head? ≠ some '\n') :
    k.pastAll style.terminator
      = ⟨⟨k.position.line + 1, 1⟩, decide (style = .carriageReturn)⟩ := by
  have hne : '\r' ≠ '\n' := by decide
  cases style with
  | lineFeed =>
    have hfeed : k.afterReturn = true → '\n' ≠ '\n' := fun hafter => absurd rfl (h hafter)
    rw [terminator, Cursor.pastAll_cons, Cursor.past_endsLine (by decide) hfeed]
    rfl
  | carriageReturn =>
    rw [terminator, Cursor.pastAll_cons, Cursor.past_endsLine (by decide) (fun _ => hne)]
    rfl
  | pair =>
    rw [terminator, Cursor.pastAll_cons, Cursor.past_endsLine (by decide) (fun _ => hne)]
    rfl

/-- One character moves two cursors alike, one past it and one past what is written for
    it. The hypothesis keeps what is written from completing a terminator. -/
theorem position_write {k k' : Cursor} (hposition : k'.position = k.position)
    (hreturn : k'.afterReturn = true → style.terminator.head? ≠ some '\n') (c : Char) :
    (k'.pastAll (style.write k.afterReturn c)).position = (k.past c).position ∧
      ((k'.pastAll (style.write k.afterReturn c)).afterReturn = true →
        style.terminator.head? ≠ some '\n') ∧
      (k.past c).afterReturn = (c == '\r') := by
  by_cases hends : endsLine c = true
  · by_cases hfeed : k.afterReturn = true ∧ c = '\n'
    · obtain ⟨hafter, rfl⟩ := hfeed
      -- the terminator was counted at the return, and was written there
      rw [write, Cursor.past, hafter]
      exact ⟨hposition, hreturn, rfl⟩
    · have hnew : k.afterReturn = true → c ≠ '\n' := fun hafter hc => hfeed ⟨hafter, hc⟩
      rw [style.write_endsLine _ hends hnew, Cursor.past_endsLine hends hnew, ← hposition]
      rw [style.pastAll_terminator hreturn]
      refine ⟨rfl, ?_, rfl⟩
      intro hafter
      rw [of_decide_eq_true hafter]
      decide
  · have hc : endsLine c = false := Bool.eq_false_iff.mpr hends
    rw [style.write_inLine _ hc, Cursor.pastAll_cons, Cursor.pastAll_nil, Cursor.past_inLine hc,
      Cursor.past_inLine hc, hposition]
    exact ⟨rfl, fun h => absurd h Bool.false_ne_true, (not_return hc).symm⟩

/-- So does a whole text. -/
theorem position_writeAll {k k' : Cursor} (hposition : k'.position = k.position)
    (hreturn : k'.afterReturn = true → style.terminator.head? ≠ some '\n') (text : List Char) :
    (k'.pastAll (style.writeAll k.afterReturn text)).position = (k.pastAll text).position := by
  induction text generalizing k k' with
  | nil => exact hposition
  | cons c rest ih =>
    obtain ⟨hmoved, hreturn', hafter⟩ := style.position_write hposition hreturn c
    rw [writeAll, Cursor.pastAll_append, Cursor.pastAll_cons, ← hafter]
    exact ih hmoved hreturn'

/-- **Lines and columns stay**, whatever the style. -/
theorem position_restyle (text : List Char) :
    (Cursor.start.pastAll (style.restyle text)).position
      = (Cursor.start.pastAll text).position := by
  rw [restyle_eq_writeAll]
  exact style.position_writeAll (k := .start) rfl (fun h => absurd h Bool.false_ne_true) text

/-! ## Bytes move -/

@[simp] theorem growth_nil : style.growth [] = 0 := rfl

@[simp] theorem growth_cons (s : Span) (spans : List Span) :
    style.growth (s :: spans)
      = (Utf8.width style.terminator : Int) - (s.stop - s.start) + style.growth spans := rfl

/-- A text gains what its terminators gain. -/
theorem width_restyle_eq (offset : Nat) (text : List Char) :
    (Utf8.width (style.restyle text) : Int)
      = Utf8.width text + style.growth (terminatorSpans offset text) := by
  fun_induction terminatorSpans offset text with
  | case1 => rfl
  | case2 offset rest stop ih =>
    rw [restyle, Utf8.width_append, Utf8.width_cons, Utf8.width_cons, growth_cons]
    push_cast
    omega
  | case3 offset c rest hpair hends ih =>
    rw [restyle, if_pos hends, Utf8.width_append, Utf8.width_cons, growth_cons]
    · push_cast
      omega
    · exact hpair
  | case4 offset c rest hpair hends ih =>
    rw [restyle, if_neg hends, Utf8.width_cons, Utf8.width_cons]
    · push_cast
      omega
    · exact hpair

end LineStyle

/-! ## Terminators of a part -/

/-- A character that does not open a pair is a terminator by itself or none. -/
theorem terminatorSpans_cons (offset : Nat) {c : Char} {text : List Char}
    (h : c = '\r' → text.head? ≠ some '\n') :
    terminatorSpans offset (c :: text)
      = if endsLine c then
          ⟨offset, offset + c.utf8Size⟩ :: terminatorSpans (offset + c.utf8Size) text
        else terminatorSpans (offset + c.utf8Size) text := by
  rw [terminatorSpans]
  intro rest hc htext
  exact h hc (by simp [htext])

/-- Two parts have the terminators of the one and those of the other, unless a pair is
    cut in two. -/
theorem terminatorSpans_append (offset : Nat) (a b : List Char)
    (hseam : a.getLast? = some '\r' → b.head? ≠ some '\n') :
    terminatorSpans offset (a ++ b)
      = terminatorSpans offset a ++ terminatorSpans (offset + Utf8.width a) b := by
  fun_induction terminatorSpans offset a with
  | case1 => rfl
  | case2 offset rest stop ih =>
    have hstop : stop + Utf8.width rest = offset + Utf8.width ('\r' :: '\n' :: rest) := by
      rw [Utf8.width_cons, Utf8.width_cons]
      omega
    rw [← hstop, List.cons_append, List.cons_append, List.cons_append,
      ← ih (seam_cons (seam_cons hseam))]
    rfl
  | case3 offset c rest hpair hends ih =>
    have hnext := no_feed_after_return hpair hseam
    have hstop : offset + c.utf8Size + Utf8.width rest = offset + Utf8.width (c :: rest) :=
      Nat.add_assoc _ _ _
    rw [List.cons_append, terminatorSpans_cons offset hnext, if_pos hends, ih (seam_cons hseam),
      hstop]
    rfl
  | case4 offset c rest hpair hends ih =>
    have hnext := no_feed_after_return hpair hseam
    have hstop : offset + c.utf8Size + Utf8.width rest = offset + Utf8.width (c :: rest) :=
      Nat.add_assoc _ _ _
    rw [List.cons_append, terminatorSpans_cons offset hnext, if_neg hends, ih (seam_cons hseam),
      hstop]

/-- The terminators of a text end in it, and none ends where it starts. -/
theorem stop_of_mem_terminatorSpans {offset : Nat} {text : List Char} {s : Span}
    (h : s ∈ terminatorSpans offset text) :
    offset < s.stop ∧ s.stop ≤ offset + Utf8.width text := by
  fun_induction terminatorSpans offset text with
  | case1 => cases h
  | case2 offset rest stop ih =>
    have hreturn := '\r'.utf8Size_pos
    rw [Utf8.width_cons, Utf8.width_cons]
    rcases List.mem_cons.mp h with rfl | hrest
    · dsimp only
      omega
    · have := ih hrest
      omega
  | case3 offset c rest hpair hends ih =>
    have hc := c.utf8Size_pos
    rw [Utf8.width_cons]
    rcases List.mem_cons.mp h with rfl | hrest
    · dsimp only
      omega
    · have := ih hrest
      omega
  | case4 offset c rest hpair hends ih =>
    have := ih h
    rw [Utf8.width_cons]
    omega

/-- **Bytes move** by what the terminators before them gain: the first part of a text is
    as wide as it was, and wider by that. -/
theorem LineStyle.width_restyle (style : LineStyle) {a b : List Char}
    (hseam : a.getLast? = some '\r' → b.head? ≠ some '\n') :
    (Utf8.width (style.restyle a) : Int)
      = Utf8.width a + style.growthUpTo (a ++ b) (Utf8.width a) := by
  have hwithin : (terminatorSpans 0 a).filter (·.stop ≤ Utf8.width a) = terminatorSpans 0 a := by
    rw [List.filter_eq_self]
    intro s hs
    have hstop := (stop_of_mem_terminatorSpans hs).2
    exact decide_eq_true (by omega)
  have hbehind : (terminatorSpans (0 + Utf8.width a) b).filter (·.stop ≤ Utf8.width a) = [] := by
    rw [List.filter_eq_nil_iff]
    intro s hs
    have hstop := (stop_of_mem_terminatorSpans hs).1
    have hnot : ¬ s.stop ≤ Utf8.width a := by omega
    simp [hnot]
  rw [style.width_restyle_eq 0 a, growthUpTo, terminatorSpans_append 0 a b hseam,
    List.filter_append, hwithin, hbehind, List.append_nil]

end FloatLang
