import FloatLang.Proofs.Command.Channels
import FloatLang.Proofs.Token.Words

/-! # Listings Read Back

  A listing tells all that it lists. Its columns are as wide as they need to be, but each
  field ends at a blank that it does not have itself, so a line is read back from left to
  right. Two programs have the same listing exactly when they have the same tokens at the
  same places.

  - **Fields** (`field_append_inj`): a field with blanks before it is told whatever comes
    behind its blank.
  - **Lines** (`positionText_eq_iff`, `spanText_eq_iff`): a line tells the token and its
    place.

  Main statement: `listing_decodable`.
-/

namespace FloatLang

/-! ## Places in words -/

theorem toList_number (n : Nat) : (toString n).toList = Nat.toDigits 10 n := by
  simp

theorem Position.toList_describe (p : Position) :
    p.describe.toList = Nat.toDigits 10 p.line ++ ':' :: Nat.toDigits 10 p.column := by
  simp [describe]

theorem Span.toList_describe (s : Span) :
    s.describe.toList = Nat.toDigits 10 s.start ++ '.' :: '.' :: Nat.toDigits 10 s.stop := by
  simp [describe]

theorem Position.describe_inj {p q : Position} (h : p.describe.toList = q.describe.toList) :
    p = q := by
  rw [toList_describe, toList_describe] at h
  obtain ⟨hline, hcolumn⟩ := toDigits_append_inj (by decide) (by decide) (by decide) h
  cases p
  cases q
  exact congrArg₂ Position.mk hline (toDigits_inj (by decide) (by decide) hcolumn)

theorem Span.describe_inj {s t : Span} (h : s.describe.toList = t.describe.toList) : s = t := by
  rw [toList_describe, toList_describe] at h
  obtain ⟨hstart, hstop⟩ := toDigits_append_inj (by decide) (by decide) (by decide) h
  cases s
  cases t
  exact congrArg₂ Span.mk hstart (toDigits_inj (by decide) (by decide) (List.cons.inj hstop).2)

namespace Command

/-! ## Fields -/

/-- What can stand in a column: something without a blank. -/
structure IsField (text : List Char) : Prop where
  /-- There is something. -/
  ne_nil : text ≠ []
  /-- It has no blank. -/
  unbroken : ' ' ∉ text

theorem blank_not_mem_toDigits (n : Nat) : ' ' ∉ Nat.toDigits 10 n :=
  not_mem_toDigits (by decide) (by decide) (by decide) n

theorem isField_position (p : Position) : IsField p.describe.toList where
  ne_nil := by simp [Position.toList_describe]
  unbroken := by simp [Position.toList_describe, blank_not_mem_toDigits]

theorem isField_span (s : Span) : IsField s.describe.toList where
  ne_nil := by simp [Span.toList_describe]
  unbroken := by simp [Span.toList_describe, blank_not_mem_toDigits]

theorem isField_number (n : Nat) : IsField (toString n).toList where
  ne_nil := by simp
  unbroken := by simp [blank_not_mem_toDigits]

/-- **A field** is told whatever comes behind its blank, however many blanks are before
    it. -/
theorem field_append_inj {width width' : Nat} {a b : String} (ha : IsField a.toList)
    (hb : IsField b.toList) {x y : List Char}
    (h : (alignRight width a).toList ++ ' ' :: x = (alignRight width' b).toList ++ ' ' :: y) :
    a.toList = b.toList ∧ x = y := by
  have hblanks (n : Nat) : ∀ c ∈ List.replicate n ' ', (c != ' ') = false := by
    intro c hc
    rw [List.eq_of_mem_replicate hc]
    rfl
  have hstarts {f : String} (hf : IsField f.toList) (z : List Char) :
      ∀ c, (f.toList ++ ' ' :: z).head? = some c → (c != ' ') = true := by
    intro c hc
    obtain ⟨d, rest, hcons⟩ := List.exists_cons_of_ne_nil hf.ne_nil
    have hmem : c ∈ f.toList := by
      rw [hcons, List.cons_append, List.head?_cons, Option.some.injEq] at hc
      rw [hcons, hc]
      exact List.mem_cons_self
    rw [bne_iff_ne]
    rintro rfl
    exact hf.unbroken hmem
  simp only [alignRight, String.toList_ofList, List.leftpad, List.append_assoc] at h
  -- the blanks before the field, and then the field up to its own
  obtain ⟨_, hfields⟩ := append_unique h (hblanks _) (hblanks _) (hstarts ha x) (hstarts hb y)
  exact append_cons_unique hfields ha.unbroken hb.unbroken

/-! ## Lines -/

theorem positionText_eq (entry : Token × Position) :
    positionText entry
      = (alignRight 8 entry.2.describe).toList ++ ' ' :: entry.1.describe.toList := by
  simp [positionText]

theorem spanText_eq (entry : Located) :
    spanText entry
      = (alignRight 4 (toString entry.line)).toList
        ++ ' ' :: ((alignRight 10 entry.span.describe).toList
          ++ ' ' :: entry.token.describe.toList) := by
  simp [spanText]

section lines
variable (p q : Place)

/-- **A line of positions** tells the token and where it stands. -/
theorem positionText_eq_iff :
    positionText p.positioned = positionText q.positioned ↔
      p.positioned.1.same q.positioned.1 = true ∧ p.positioned.2 = q.positioned.2 := by
  have hp := Token.plain_ofLexeme p.lexeme
  have hq := Token.plain_ofLexeme q.lexeme
  show _ ↔ (Token.ofLexeme p.lexeme).same (.ofLexeme q.lexeme) = true ∧ _
  rw [Token.same_iff_eq hp hq]
  constructor
  · intro h
    rw [positionText_eq, positionText_eq] at h
    obtain ⟨hposition, htoken⟩ := field_append_inj (isField_position _) (isField_position _) h
    exact ⟨(Token.describe_eq_iff hp hq).mp (String.toList_inj.mp htoken),
      Position.describe_inj hposition⟩
  · rintro ⟨htoken, hposition⟩
    exact congrArg positionText (Prod.ext htoken hposition)

/-- **A line of spans** tells the token, its bytes and its line. -/
theorem spanText_eq_iff :
    spanText p.located = spanText q.located ↔ p.located.same q.located = true := by
  have hp := Token.plain_ofLexeme p.lexeme
  have hq := Token.plain_ofLexeme q.lexeme
  rw [Located.same, Bool.and_eq_true, Bool.and_eq_true, decide_eq_true_eq, decide_eq_true_eq]
  show _ ↔ ((Token.ofLexeme p.lexeme).same (.ofLexeme q.lexeme) = true ∧ _) ∧ _
  rw [Token.same_iff_eq hp hq]
  constructor
  · intro h
    rw [spanText_eq, spanText_eq] at h
    obtain ⟨hline, hrest⟩ := field_append_inj (isField_number _) (isField_number _) h
    obtain ⟨hspan, htoken⟩ := field_append_inj (isField_span _) (isField_span _) hrest
    refine ⟨⟨(Token.describe_eq_iff hp hq).mp (String.toList_inj.mp htoken),
      Span.describe_inj hspan⟩, ?_⟩
    rw [toList_number, toList_number] at hline
    exact toDigits_inj (by decide) (by decide) hline
  · rintro ⟨⟨htoken, hspan⟩, hline⟩
    have hsame : p.located = q.located :=
      (Located.mk.injEq _ _ _ _ _ _).mpr ⟨htoken, hspan, hline⟩
    exact congrArg spanText hsame

end lines

/-! ## Listings -/

/-- Rows are the same when what is listed in them is related row by row. -/
theorem map_eq_map_iff {α : Type} {f : α → List Char} {R : α → α → Prop} {xs ys : List α}
    (hrow : ∀ x y, f x = f y ↔ R x y) : xs.map f = ys.map f ↔ List.Forall₂ R xs ys := by
  have hrows : (fun x y => f x = f y) = R := by
    funext x y
    exact propext (hrow x y)
  have hequal := congrFun (congrFun List.forall₂_eq_eq_eq (xs.map f)) (ys.map f)
  rw [← hequal, List.forall₂_map_left_iff, List.forall₂_map_right_iff, hrows]

/-- **Listings tell their rows.** -/
theorem listing_eq_listing_iff (listed : List Char → String) {line : Place → List Char}
    {R : Place → Place → Prop}
    (hlisted : ∀ text, (listed text).toList = (places [] text).flatMap fun p => line p ++ ['\n'])
    (hlines : ∀ text, (listed text).toList.splitOn '\n' = (places [] text).map line ++ [[]])
    (hrow : ∀ p q, line p = line q ↔ R p q) (s t : List Char) :
    listed s = listed t ↔ List.Forall₂ R (places [] s) (places [] t) := by
  rw [← map_eq_map_iff hrow]
  constructor
  · intro h
    have hsplit := hlines s
    rw [h, hlines t] at hsplit
    exact (List.append_cancel_right hsplit).symm
  · intro h
    have hclosed (text : List Char) : (places [] text).flatMap (fun p => line p ++ ['\n'])
        = ((places [] text).map line).flatMap (· ++ ['\n']) := by rw [List.flatMap_map]
    apply String.toList_inj.mp
    rw [hlisted, hlisted, hclosed, hclosed, h]

/-- The same token at the same position. -/
def SameEntry (a b : Token × Position) : Prop :=
  a.1.same b.1 = true ∧ a.2 = b.2

/-- Listings of positions are the same when the tokens are, each at its position. -/
theorem listing_false_eq_iff (s t : List Char) :
    listing false s = listing false t ↔
      List.Forall₂ SameEntry (Lexer.ofStream s).tokens.1 (Lexer.ofStream t).tokens.1 := by
  rw [Lexer.tokens_ofStream, Lexer.tokens_ofStream, List.forall₂_map_left_iff,
    List.forall₂_map_right_iff]
  refine listing_eq_listing_iff (listing false) ?_ ?_ positionText_eq_iff s t
  · intro text
    rw [listing_positions, toList_positionListing, List.flatMap_map]
  · intro text
    rw [listing_positions]
    exact splitOn_positionListing text

/-- Listings of spans are the same when the tokens are, each with its place. -/
theorem listing_true_eq_iff (s t : List Char) :
    listing true s = listing true t ↔
      List.Forall₂ (fun p q => p.located.same q.located = true) (places [] s) (places [] t) := by
  refine listing_eq_listing_iff (listing true) ?_ ?_ spanText_eq_iff s t
  · intro text
    rw [listing_spans, toList_spanListing, List.flatMap_map]
  · intro text
    rw [listing_spans]
    exact splitOn_spanListing text

/-! ## Runs -/

/-- A run that asks for the program, whichever way it is handed over, leaves `out` on
    standard output. -/
def Prints (spans : Bool) (text out : String) : Prop :=
  ∃ (channel : Channel) (arguments : List String) (s : Surroundings),
    Options.ofArguments arguments = .ok (channel.options text spans) ∧ channel.Holds text s ∧
      (run arguments s).stdout = out

/-- The text is made of `n` closed lines. -/
def HasLines (out : String) (n : ℕ) : Prop :=
  ∃ rows, out.toList.splitOn '\n' = rows ++ [[]] ∧ rows.length = n

theorem Prints.eq_listing {spans : Bool} {text out : String} (h : Prints spans text out) :
    out = listing spans text.toList := by
  obtain ⟨channel, arguments, s, hoptions, hholds, hout⟩ := h
  rw [← hout, run, hoptions]
  exact congrArg Outcome.stdout (list_of_holds hholds spans)

/-- Every program is listed. -/
theorem prints_listing (spans : Bool) (text : String) :
    Prints spans text (listing spans text.toList) := by
  have hoptions := Channel.ofArguments_arguments text spans .argument
  have hholds : Channel.argument.Holds text ⟨[], fun _ => none⟩ := trivial
  refine ⟨.argument, _, _, hoptions, hholds, ?_⟩
  rw [run, hoptions]
  exact congrArg Outcome.stdout (list_of_holds hholds spans)

theorem ofText_eq_places (text : String) :
    Located.ofText text = (places [] text.toList).map Place.located :=
  Located.ofCut_eq_places (Piece.cutting_cut 0 1 text.toList)

/-- A token of some text, in either lexer. -/
def Lexed (token : Token) : Prop :=
  ∃ text : String, token ∈ tokenize text ∨ token ∈ (Located.ofText text).map Located.token

theorem Lexed.plain {token : Token} (h : Lexed token) : token.Plain := by
  obtain ⟨text, hmem | hmem⟩ := h
  · rw [tokenize_eq_places] at hmem
    obtain ⟨p, _, rfl⟩ := List.mem_map.mp hmem
    exact Token.plain_ofLexeme p.lexeme
  · rw [ofText_eq_places, List.map_map] at hmem
    obtain ⟨p, _, rfl⟩ := List.mem_map.mp hmem
    exact Token.plain_ofLexeme p.lexeme

/-- **A listing is read back**: two programs are listed alike exactly when they have the
    same tokens at the same places, whichever way each is handed over. There is a line for
    each token. Tokens of any texts are the same exactly when they are in words, since
    no number among them is without a value or signed. -/
theorem listing_decodable :
    (∀ {s t out out' : String}, Prints false s out → Prints false t out' →
      (out = out' ↔ List.Forall₂ SameEntry (Lexer.ofStream s.toList).tokens.1
        (Lexer.ofStream t.toList).tokens.1)) ∧
    (∀ {s t out out' : String}, Prints true s out → Prints true t out' →
      (out = out' ↔ List.Forall₂ (fun a b => a.same b = true) (Located.ofText s)
        (Located.ofText t))) ∧
    (∀ {text out : String}, Prints false text out →
      HasLines out (Lexer.ofStream text.toList).tokens.1.length) ∧
    (∀ {text out : String}, Prints true text out → HasLines out (Located.ofText text).length) ∧
    (∀ {a b : Token}, Lexed a → Lexed b → (a.same b = true ↔ a.describe = b.describe)) ∧
    (∀ {v : Binary64}, Lexed (.number v) → v.isNaN = false ∧ v.isNegative = false) := by
  refine ⟨?_, ?_, ?_, ?_, ?_, ?_⟩
  · intro s t out out' hs ht
    rw [hs.eq_listing, ht.eq_listing]
    exact listing_false_eq_iff s.toList t.toList
  · intro s t out out' hs ht
    rw [hs.eq_listing, ht.eq_listing, ofText_eq_places, ofText_eq_places,
      List.forall₂_map_left_iff, List.forall₂_map_right_iff]
    exact listing_true_eq_iff s.toList t.toList
  · intro text out h
    rw [h.eq_listing, listing_positions, Lexer.tokens_ofStream]
    exact ⟨_, splitOn_positionListing text.toList, by rw [List.length_map, List.length_map]⟩
  · intro text out h
    rw [h.eq_listing, listing_spans, ofText_eq_places]
    exact ⟨_, splitOn_spanListing text.toList, by rw [List.length_map, List.length_map]⟩
  · intro a b ha hb
    rw [Token.same_iff_eq ha.plain hb.plain, Token.describe_eq_iff ha.plain hb.plain]
  · intro v h
    exact h.plain v rfl

/-- Two programs that spell a number differently. Their positions are listed alike, and
    their spans are not. -/
theorem listing_decodable_spelling :
    ∃ (s t out spans spans' : String) (v : Binary64),
      s = "1.50" ∧ t = "1.5#" ∧
      out = "     1:1 number 1.5\n     1:5 end of input\n" ∧
      spans = "   1       0..4 number 1.5\n   1       4..4 end of input\n" ∧
      spans' = "   1       0..3 number 1.5\n   1       4..4 end of input\n" ∧
      v.text = "1.5" ∧
      Prints false s out ∧ Prints false t out ∧ Prints true s spans ∧ Prints true t spans' ∧
      List.Forall₂ SameEntry (Lexer.ofStream s.toList).tokens.1
        (Lexer.ofStream t.toList).tokens.1 ∧
      ¬ List.Forall₂ (fun a b => a.same b = true) (Located.ofText s) (Located.ofText t) ∧
      HasLines out (Lexer.ofStream s.toList).tokens.1.length ∧
      HasLines spans' (Located.ofText t).length ∧
      Lexed (.number v) ∧ Lexed (.symbol '\'') ∧
      ((Token.number v).same (.symbol '\'') = true ↔
        (Token.number v).describe = (Token.symbol '\'').describe) ∧
      v.isNaN = false ∧ v.isNegative = false := by
  obtain ⟨s, hs⟩ : ∃ s : String, s = "1.50" := ⟨_, rfl⟩
  obtain ⟨t, ht⟩ : ∃ t : String, t = "1.5#" := ⟨_, rfl⟩
  obtain ⟨v, hv⟩ : ∃ v : Binary64, v = numeralValue ['1', '.', '5', '0'] := ⟨_, rfl⟩
  have hfirst := prints_listing false s
  have hsecond := prints_listing false t
  have hlike : listing false t.toList = listing false s.toList := by
    rw [hs, ht]
    decide +kernel
  have hunlike : listing true s.toList ≠ listing true t.toList := by
    rw [hs, ht]
    decide +kernel
  have hnumber : Lexed (.number v) := by
    rw [hv]
    exact ⟨"1.50", .inl (by decide +kernel)⟩
  have hquote : Lexed (.symbol '\'') := ⟨"'", .inl (by decide +kernel)⟩
  obtain ⟨hpositions, hspans, hcount, hcount', hwords, hplain⟩ := listing_decodable
  rw [hlike] at hsecond
  refine ⟨s, t, listing false s.toList, listing true s.toList, listing true t.toList, v, hs, ht, ?_,
    ?_, ?_, ?_, hfirst, hsecond, prints_listing true s, prints_listing true t,
    (hpositions hfirst hsecond).mp rfl, ?_, hcount hfirst, hcount' (prints_listing true t), hnumber,
    hquote, hwords hnumber hquote, hplain hnumber⟩
  · rw [hs]
    decide +kernel
  · rw [hs]
    decide +kernel
  · rw [ht]
    decide +kernel
  · rw [hv]
    decide +kernel
  · exact fun hsame => hunlike ((hspans (prints_listing true s) (prints_listing true t)).mpr hsame)

end Command

end FloatLang
