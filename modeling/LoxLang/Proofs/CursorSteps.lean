import LoxLang.Proofs.Bytes
import LoxLang.Proofs.LongestMatch

/-!
# One step of the cursor

The cursor looks at bytes, and `cut` at characters. One step of the cursor
reads the piece that is cut off (`scanToken_eq`): it ends behind the bytes of
the piece, on the line the piece ends on, with the kind of its token pending.
No rule stops in the middle of a character, and the zero that is seen behind
the end belongs to no rule, so a text that contains it is read like any other.
-/

namespace LoxLang

open Lexicon

namespace Scan

namespace Cursor

/-! ## Moves -/

/-- These bytes are in front of the cursor. -/
structure Faces (s : Cursor) (bs : List UInt8) : Prop where
  rest : (utf8 s.source).drop s.current = bs
  inside : s.current ≤ s.size

variable {s : Cursor} {b : UInt8} {bs : List UInt8}

theorem Faces.size (h : s.Faces bs) : s.size = s.current + bs.length := by
  have inside := h.inside
  have length := congrArg List.length h.rest
  rw [List.length_drop] at length
  unfold Cursor.size at inside ⊢
  omega

/-- The cursor moved on by a number of bytes. -/
theorem Faces.skip {n : Nat} (h : s.Faces bs) (hn : n ≤ bs.length) {s' : Cursor}
    (source : s'.source = s.source) (current : s'.current = s.current + n) :
    s'.Faces (bs.drop n) where
  rest := by rw [source, current, ← List.drop_drop, h.rest]
  inside := by
    have size := h.size
    unfold Cursor.size at size ⊢
    rw [source, current, size]
    omega

theorem Faces.next (h : s.Faces (b :: bs)) {s' : Cursor} (source : s'.source = s.source)
    (current : s'.current = s.current + 1) : s'.Faces bs :=
  h.skip (Nat.le_add_left 1 _) source current

theorem Faces.getElem? (h : s.Faces bs) (i : Nat) :
    (utf8 s.source)[s.current + i]? = bs[i]? := by
  rw [← h.rest, List.getElem?_drop]

theorem Faces.advance (h : s.Faces (b :: bs)) :
    s.advance = some (b, { s with current := s.current + 1 }) := by
  have here := h.getElem? 0
  rw [Nat.add_zero] at here
  rw [Cursor.advance, here]
  rfl

theorem Faces.atEnd (h : s.Faces bs) : s.atEnd = bs.isEmpty := by
  rw [Cursor.atEnd, h.size]
  cases bs <;> simp

theorem Faces.peek (h : s.Faces bs) : s.peek = bs.headD 0 := by
  have here := h.getElem? 0
  rw [Nat.add_zero] at here
  rw [Cursor.peek, h.atEnd, List.getD_eq_getElem?_getD, here]
  cases bs <;> rfl

theorem Faces.peekNext (h : s.Faces bs) : s.peekNext = bs.tail.headD 0 := by
  rw [Cursor.peekNext, h.size, List.getD_eq_getElem?_getD, h.getElem? 1]
  rcases bs with _ | ⟨b, _ | ⟨b', bs⟩⟩ <;> simp

theorem Faces.matchByte (h : s.Faces (b :: bs)) :
    s.matchByte b = some (true, { s with current := s.current + 1 }) := by
  rw [Cursor.matchByte, h.atEnd, h.peek, h.advance]
  simp

theorem Faces.matchByte_ne {expected : UInt8} (h : s.Faces bs) (hb : bs.head? ≠ some expected) :
    s.matchByte expected = some (false, s) := by
  rw [Cursor.matchByte, h.atEnd, h.peek]
  cases bs with
  | nil => rfl
  | cons b bs =>
      have other : ¬ b = expected := fun heq => hb (by rw [heq]; rfl)
      simp [other]

theorem Faces.skipLine (h : s.Faces bs) : s.skipLine = some
    { s with current := s.current + (bs.takeWhile (· != '\n'.toUInt8)).length } := by
  have taken : (bs.takeWhile (· != '\n'.toUInt8)).length =
      min (bs.findIdx (· == '\n'.toUInt8)) bs.length := by
    have stops : (fun b => !(b != '\n'.toUInt8)) = (· == '\n'.toUInt8) := by
      funext b
      exact Bool.not_not _
    rw [List.takeWhile_eq_take_findIdx_not, List.length_take, stops]
  rw [Cursor.skipLine, if_pos h.inside, h.rest, List.findIdx?_eq_guard_findIdx_lt, taken]
  by_cases found : bs.findIdx (· == '\n'.toUInt8) < bs.length
  · rw [Option.guard, if_pos (by simpa using found), Nat.min_eq_left (Nat.le_of_lt found)]
  · rw [Option.guard, if_neg (by simpa using found), Nat.min_eq_right (Nat.le_of_not_lt found),
      h.size]

theorem Faces.advanceWhile {p : UInt8 → Bool} (hp : p 0 = false) (h : s.Faces bs) :
    s.advanceWhile p = some { s with current := s.current + (bs.takeWhile p).length } := by
  induction bs generalizing s with
  | nil =>
      rw [Cursor.advanceWhile, h.peek, List.headD_nil, hp]
      rfl
  | cons b bs ih =>
      have inside : s.current < s.size := by
        rw [h.size, List.length_cons]
        omega
      have moved : Faces { s with current := s.current + 1 } bs := h.next rfl rfl
      rw [Cursor.advanceWhile, h.peek, List.headD_cons, if_pos inside, ih moved,
        List.takeWhile_cons]
      split
      · rw [List.length_cons, Nat.add_assoc, Nat.add_comm 1]
      · rfl

theorem Faces.toQuote (h : s.Faces bs) : s.toQuote =
    { s with
      current := s.current + (bs.takeWhile (· != '"'.toUInt8)).length
      line := s.line + (bs.takeWhile (· != '"'.toUInt8)).count '\n'.toUInt8 } := by
  induction bs generalizing s with
  | nil =>
      rw [Cursor.toQuote, if_neg]
      · rfl
      · rintro ⟨inside, -⟩
        rw [h.size] at inside
        exact absurd inside (Nat.lt_irrefl _)
  | cons b bs ih =>
      have inside : s.current < s.size := by
        rw [h.size, List.length_cons]
        omega
      rw [Cursor.toQuote, h.peek, List.headD_cons, List.takeWhile_cons]
      by_cases quote : b = '"'.toUInt8
      · rw [if_neg fun both => both.2 quote, quote]
        rfl
      · have moved : ∀ line, Faces { s with current := s.current + 1, line := line } bs :=
          fun _ => h.next rfl rfl
        rw [if_pos ⟨inside, quote⟩, ih (moved _), if_pos (bne_iff_ne.2 quote),
          List.length_cons, List.count_cons]
        simp only [beq_iff_eq]
        congr 1
        · omega
        · split <;> omega

/-! ## One piece -/

/-- The cursor is in a lexeme: behind the first text is where it started, the second has been
read, and the third is what is left. -/
structure Reads (s : Cursor) (pre text cs : List Char) : Prop where
  source : s.source = pre ++ (text ++ cs)
  start : s.start = (utf8 pre).length
  current : s.current = (utf8 (pre ++ text)).length

variable {pre text cs : List Char}

theorem Reads.faces (h : s.Reads pre text cs) : s.Faces (utf8 cs) where
  rest := by
    rw [h.source, h.current, ← List.append_assoc, utf8_append _ cs, List.drop_left]
  inside := by
    rw [Cursor.size, h.source, h.current, ← List.append_assoc, utf8_append _ cs,
      List.length_append]
    exact Nat.le_add_right _ _

theorem Reads.slice? (h : s.Reads pre text cs) : slice? s.source s.start s.current = some text := by
  rw [h.source]
  exact slice?_append pre text cs h.start h.current

theorem Reads.more (more : List Char) (h : s.Reads pre text (more ++ cs)) {s' : Cursor}
    (source : s'.source = s.source) (start : s'.start = s.start)
    (current : s'.current = s.current + (utf8 more).length) : s'.Reads pre (text ++ more) cs where
  source := by rw [source, h.source, List.append_assoc]
  start := by rw [start, h.start]
  current := by
    rw [current, h.current, ← List.append_assoc, utf8_append (pre ++ text), List.length_append]

/-- Behind the characters of a sort. -/
theorem Reads.moreWhile (h : s.Reads pre text cs) (q : Char → Bool) {s' : Cursor}
    (source : s'.source = s.source) (start : s'.start = s.start)
    (current : s'.current = s.current + (utf8 (cs.takeWhile q)).length) :
    s'.Reads pre (text ++ cs.takeWhile q) (cs.dropWhile q) := by
  refine Reads.more _ ?_ source start current
  rw [List.takeWhile_append_dropWhile]
  exact h

theorem Reads.advanceWhile {q : Char → Bool} (zero : q '\x00' = false)
    (small : ∀ c, q c = true → Ascii c) (h : s.Reads pre text cs) :
    s.advanceWhile (fun b => q (Char.ofUInt8 b)) =
      some { s with current := s.current + (utf8 (cs.takeWhile q)).length } := by
  rw [h.faces.advanceWhile zero, takeWhile_utf8 false fun _ => not_wide small]

theorem Reads.matchByte {c : Char} (ascii : Ascii c) (h : s.Reads pre text (c :: cs)) :
    s.matchByte c.toUInt8 = some (true, { s with current := s.current + 1 }) := by
  have faces := h.faces
  rw [utf8_cons, ascii.encode, List.singleton_append] at faces
  exact faces.matchByte

theorem Reads.matchByte_ne {c : Char} (ascii : Ascii c) (h : s.Reads pre text cs)
    (hc : cs.head? ≠ some c) : s.matchByte c.toUInt8 = some (false, s) :=
  h.faces.matchByte_ne fun heq => hc ((head?_utf8 ascii cs).1 heq)

/-- The kind of the token that a piece is. -/
def kind? : Content → Option Token.Kind
  | .token kind => some kind
  | _ => none

/-- Behind a piece that starts where the lexeme does, with the kind of its token. -/
def past (s : Cursor) (p : Piece) : Cursor :=
  { s with
    current := s.start + (utf8 p.text).length
    line := s.line + p.text.count '\n'
    pending := kind? p.content }

/-- The error that a piece is. -/
def report (line : Nat) : Content → Report
  | .error e => .error (line, e)
  | _ => .ok ()

/-- What reading a piece comes to. -/
def read (s : Cursor) (p : Piece) : Report × Cursor := (report (s.past p).line p.content, s.past p)

theorem Reads.current_eq (h : s.Reads pre text cs) : s.current = s.start + (utf8 text).length := by
  rw [h.current, h.start, utf8_append, List.length_append]

/-- A token that has been read, up to its kind. -/
theorem Reads.read_token {s' : Cursor} (h : s'.Reads pre text cs) (source : s'.source = s.source)
    (start : s'.start = s.start) (line : s'.line = s.line + text.count '\n') (kind : Token.Kind) :
    s.read ⟨text, .token kind⟩ = (.ok (), { s' with pending := some kind }) := by
  have past : s.past ⟨text, .token kind⟩ = { s' with pending := some kind } := by
    rw [past, ← line, ← source, ← start, ← h.current_eq]
    rfl
  exact congrArg (Prod.mk _) past

/-- A stretch that has been read and is no token. -/
theorem Reads.past_eq {s' : Cursor} (h : s'.Reads pre text cs) (source : s'.source = s.source)
    (start : s'.start = s.start) (line : s'.line = s.line + text.count '\n')
    (pending : s'.pending = none) {content : Content} (hc : kind? content = none) :
    s.past ⟨text, content⟩ = s' := by
  rw [past, ← line, ← source, ← start, ← h.current_eq, hc, ← pending]

theorem Reads.read_skipped {s' : Cursor} (h : s'.Reads pre text cs) (source : s'.source = s.source)
    (start : s'.start = s.start) (line : s'.line = s.line + text.count '\n')
    (pending : s'.pending = none) : s.read ⟨text, .skipped⟩ = (.ok (), s') :=
  congrArg (Prod.mk _) (h.past_eq source start line pending rfl)

theorem Reads.read_error {s' : Cursor} (h : s'.Reads pre text cs) (source : s'.source = s.source)
    (start : s'.start = s.start) (line : s'.line = s.line + text.count '\n')
    (pending : s'.pending = none) (e : LexicalError) :
    s.read ⟨text, .error e⟩ = (.error (s'.line, e), s') := by
  rw [read, h.past_eq source start line pending rfl]
  rfl

theorem parseString_eq (h : s.Reads pre ['"'] cs) (pending : s.pending = none) :
    s.parseString = some (s.read (cutString cs).1) := by
  have quote := h.faces.toQuote
  rw [takeWhile_bne (by decide), count_utf8 (by decide)] at quote
  have source : s.toQuote.source = s.source := by rw [quote]
  have start : s.toQuote.start = s.start := by rw [quote]
  have line : s.toQuote.line = s.line + (cs.takeWhile (· != '"')).count '\n' := by rw [quote]
  have body : s.toQuote.Reads pre (['"'] ++ cs.takeWhile (· != '"')) (cs.dropWhile (· != '"')) :=
    h.moreWhile _ source start (by rw [quote])
  have whole := List.takeWhile_append_dropWhile (p := (· != '"')) (l := cs)
  rw [parseString, body.faces.atEnd]
  unfold cutString
  cases rest : cs.dropWhile (· != '"') with
  | nil =>
      rw [rest, List.append_nil] at whole
      rw [rest, whole] at body
      rw [whole] at line
      have line : s.toQuote.line = s.line + ('"' :: cs).count '\n' := by
        rw [line, List.count_cons_of_ne (by decide)]
      rw [utf8_nil, List.isEmpty_nil, if_pos rfl]
      exact congrArg some (body.read_error source start line (by rw [quote, pending]) _).symm
  | cons q rest' =>
      obtain rfl : q = '"' := by
        have stopped := List.head_dropWhile_not (p := (· != '"')) (l := cs)
          (by rw [rest]; exact List.cons_ne_nil q rest')
        simpa [rest] using stopped
      rw [rest] at body
      have closed : Reads { s.toQuote with current := s.toQuote.current + 1 } pre
          (['"'] ++ cs.takeWhile (· != '"') ++ ['"']) rest' :=
        body.more ['"'] rfl rfl rfl
      have slice : slice? s.toQuote.source (s.toQuote.start + 1) s.toQuote.current =
          some (cs.takeWhile (· != '"')) := by
        have parts := slice?_append (pre ++ ['"']) (cs.takeWhile (· != '"')) ('"' :: rest') rfl rfl
        rw [List.append_assoc, List.append_assoc, utf8_append pre ['"'],
          List.length_append] at parts
        rw [body.source, body.start, body.current]
        exact parts
      have open' : (utf8 ('"' :: rest')).isEmpty = false := rfl
      have line : s.toQuote.line =
          s.line + (['"'] ++ cs.takeWhile (· != '"') ++ ['"']).count '\n' := by
        rw [line, List.count_append, List.count_append]
        simp
      rw [open', if_neg Bool.noConfusion, body.faces.advance]
      simp only [Option.bind_eq_bind, Option.bind_some, Option.pure_def]
      rw [Nat.add_sub_cancel, slice, Option.bind_some]
      exact congrArg some (closed.read_token source start line _).symm

theorem zero_isDigit : isDigit '\x00' = false := rfl

theorem isDigit_ne_point {ds : List Char} (h : ∀ d ∈ ds, isDigit d = true) :
    ∀ d ∈ ds, (d != '.') = true := by
  intro d hd
  refine bne_iff_ne.2 ?_
  rintro rfl
  exact absurd (h _ hd) (by decide)

theorem numeral_whole {ds : List Char} (h : ∀ d ∈ ds, isDigit d = true) :
    numeral ds = Numeral.ofLiteral ds [] := by
  have plain := isDigit_ne_point h
  rw [numeral, List.takeWhile_eq_self_iff.2 plain, List.dropWhile_eq_nil_iff.2 plain]
  rfl

theorem numeral_fraction {ds : List Char} (h : ∀ d ∈ ds, isDigit d = true) (fs : List Char) :
    numeral (ds ++ '.' :: fs) = Numeral.ofLiteral ds fs := by
  have plain := isDigit_ne_point h
  rw [numeral, List.takeWhile_append_of_pos plain, List.dropWhile_append_of_pos plain]
  show Numeral.ofLiteral (ds ++ []) fs = _
  rw [List.append_nil]

/-- The cursor sees a fraction: a point, and a digit behind it. -/
theorem Reads.seesFraction (h : s.Reads pre text cs) :
    (s.peek == '.'.toUInt8 && isDigitByte s.peekNext) = true ↔
      ∃ d rest, cs = '.' :: d :: rest ∧ isDigit d = true := by
  have peek : (s.peek == '.'.toUInt8) = cs.head?.any (· == '.') := by
    rw [← headD_utf8 (q := (· == '.')) rfl fun c hc => by rw [beq_iff_eq.1 hc]; decide,
      h.faces.peek, Bool.eq_iff_iff, beq_iff_eq, beq_iff_eq, ofUInt8_eq_iff (by decide)]
  rw [peek]
  cases cs with
  | nil => simp
  | cons c cs =>
      rw [List.head?_cons, Option.any_some, Bool.and_eq_true, beq_iff_eq]
      constructor
      · rintro ⟨rfl, digit⟩
        have faces := h.faces.peekNext
        rw [faces] at digit
        have digit : isDigit (Char.ofUInt8 ((utf8 cs).headD 0)) = true := digit
        rw [headD_utf8 zero_isDigit fun _ => ascii_of_isDigit] at digit
        obtain ⟨d, hd, digit⟩ := (Option.any_eq_true _ _).1 digit
        obtain ⟨rest, rfl⟩ := List.head?_eq_some_iff.1 hd
        exact ⟨d, rest, rfl, digit⟩
      · rintro ⟨d, rest, heq, digit⟩
        cases heq
        refine ⟨rfl, ?_⟩
        rw [h.faces.peekNext]
        show isDigit (Char.ofUInt8 ((utf8 (d :: rest)).headD 0)) = true
        rw [headD_utf8 zero_isDigit fun _ => ascii_of_isDigit, List.head?_cons, Option.any_some,
          digit]

theorem line_of_none {w : List Char} (h : '\n' ∉ w) (line : Nat) :
    line = line + w.count '\n' := by
  rw [List.count_eq_zero_of_not_mem h, Nat.add_zero]

theorem line_of_parts {w : List Char} (h : ∀ c ∈ w, isWordPart c = true) (line : Nat) :
    line = line + w.count '\n' :=
  line_of_none (fun hm => absurd (h _ hm) (by decide)) line

theorem isWordPart_of_isDigit {c : Char} (h : isDigit c = true) : isWordPart c = true := by
  rw [isWordPart, h, Bool.or_true]

/-- A point and the digits behind it are left behind. -/
theorem Reads.skipFraction {d : Char} {rest : List Char} (digit : isDigit d = true)
    (h : s.Reads pre text ('.' :: d :: rest)) : s.skipFraction = some
      { s with current := s.current + (utf8 ('.' :: (d :: rest).takeWhile isDigit)).length } := by
  have point : Reads { s with current := s.current + 1 } pre (text ++ ['.']) (d :: rest) :=
    h.more ['.'] rfl rfl rfl
  rw [Cursor.skipFraction, if_pos (h.seesFraction.2 ⟨d, rest, rfl, digit⟩), h.faces.advance]
  simp only [Option.bind_eq_bind, Option.bind_some]
  refine (point.advanceWhile zero_isDigit fun _ => ascii_of_isDigit).trans ?_
  rw [utf8_cons, List.length_append, ← Nat.add_assoc]
  rfl

theorem parseNumber_eq {c : Char} (digit : isDigit c = true) (h : s.Reads pre [c] cs) :
    (do
      let s ← s.parseNumber
      pure (.ok (), s)) = some (s.read (cutNumber (c :: cs)).1) := by
  have taken : (c :: cs).takeWhile isDigit = [c] ++ cs.takeWhile isDigit := by
    rw [List.takeWhile_cons_of_pos digit, List.singleton_append]
  have left : (c :: cs).dropWhile isDigit = cs.dropWhile isDigit :=
    List.dropWhile_cons_of_pos digit
  have digits : ∀ d ∈ (c :: cs).takeWhile isDigit, isDigit d = true :=
    fun d hd => List.mem_takeWhile_imp hd
  have parts : ∀ d ∈ (c :: cs).takeWhile isDigit, isWordPart d = true :=
    fun d hd => isWordPart_of_isDigit (digits d hd)
  have whole : Reads { s with current := s.current + (utf8 (cs.takeWhile isDigit)).length } pre
      ([c] ++ cs.takeWhile isDigit) (cs.dropWhile isDigit) := h.moreWhile isDigit rfl rfl rfl
  rw [← taken, ← left] at whole
  rw [parseNumber, show isDigitByte = fun b => isDigit (Char.ofUInt8 b) from rfl,
    h.advanceWhile zero_isDigit fun _ => ascii_of_isDigit]
  simp only [Option.bind_eq_bind, Option.pure_def, Option.bind_some]
  by_cases fraction : ∃ d rest, (c :: cs).dropWhile isDigit = '.' :: d :: rest ∧ isDigit d = true
  · obtain ⟨d, rest, heq, digit'⟩ := fraction
    have parts' : ∀ e ∈ (d :: rest).takeWhile isDigit, isWordPart e = true :=
      fun e he => isWordPart_of_isDigit (List.mem_takeWhile_imp he)
    have line : s.line = s.line +
        ((c :: cs).takeWhile isDigit ++ '.' :: (d :: rest).takeWhile isDigit).count '\n' := by
      rw [List.count_append, List.count_cons_of_ne (by decide), ← Nat.add_assoc,
        ← line_of_parts parts, ← line_of_parts parts']
    rw [heq] at whole
    have more : Reads { s with
        current := s.current + (utf8 (cs.takeWhile isDigit)).length +
          (utf8 ('.' :: (d :: rest).takeWhile isDigit)).length } pre
        ((c :: cs).takeWhile isDigit ++ '.' :: (d :: rest).takeWhile isDigit)
        ((d :: rest).dropWhile isDigit) := by
      rw [← List.takeWhile_append_dropWhile (p := isDigit) (l := d :: rest),
        ← List.cons_append] at whole
      exact whole.more _ rfl rfl rfl
    rw [whole.skipFraction digit', Option.bind_some, more.slice?, Option.bind_some,
      numeral_fraction digits, cutNumber_fraction digit' heq]
    exact congrArg some (more.read_token rfl rfl line _).symm
  · have noFraction : ¬ _ := fun sees => fraction (whole.seesFraction.1 sees)
    rw [Cursor.skipFraction, if_neg noFraction, Option.bind_some, whole.slice?, Option.bind_some,
      numeral_whole digits, cutNumber_whole fraction]
    exact congrArg some (whole.read_token rfl rfl (line_of_parts parts _) _).symm

theorem parseWord_eq {c : Char} (start : isWordStart c = true) (h : s.Reads pre [c] cs) :
    (do
      let s ← s.parseWord
      pure (.ok (), s)) = some (s.read (cutWord (c :: cs)).1) := by
  have taken : (c :: cs).takeWhile isWordPart = [c] ++ cs.takeWhile isWordPart := by
    rw [List.takeWhile_cons_of_pos (by rw [isWordPart, start, Bool.true_or]),
      List.singleton_append]
  have parts : ∀ d ∈ (c :: cs).takeWhile isWordPart, isWordPart d = true :=
    fun d hd => List.mem_takeWhile_imp hd
  have word : Reads { s with current := s.current + (utf8 (cs.takeWhile isWordPart)).length } pre
      ([c] ++ cs.takeWhile isWordPart) (cs.dropWhile isWordPart) :=
    h.moreWhile isWordPart rfl rfl rfl
  rw [← taken] at word
  rw [parseWord, show isWordByte = fun b => isWordPart (Char.ofUInt8 b) from rfl,
    h.advanceWhile rfl fun _ => ascii_of_isWordPart]
  simp only [Option.bind_eq_bind, Option.pure_def, Option.bind_some]
  rw [word.slice?]
  exact congrArg some (word.read_token rfl rfl (line_of_parts parts _) _).symm

theorem select_eq {c : Char} {shorter longer : Symbol} (hs : single? c = some shorter)
    (hl : beforeEqual? c = some longer) (h : s.Reads pre [c] cs) :
    (do
      let s ← s.select '='.toUInt8 longer shorter
      pure (.ok (), s)) =
      some (s.read (cutOperator c cs).1) := by
  have plain : c ≠ '\n' := by
    rintro rfl
    cases hs
  rw [select]
  by_cases equal : ∃ rest, cs = '=' :: rest
  · obtain ⟨rest, rfl⟩ := equal
    have both : Reads { s with current := s.current + 1 } pre [c, '='] rest :=
      h.more ['='] rfl rfl rfl
    have line := line_of_none (w := [c, '=']) (by simpa using plain.symm) s.line
    rw [cutOperator_equal hl, h.matchByte (by decide)]
    exact congrArg some (both.read_token rfl rfl line _).symm
  · have other : cs.head? ≠ some '=' := fun head => equal (List.head?_eq_some_iff.1 head)
    rw [cutOperator_single fun _ rest _ heq => equal ⟨rest, heq⟩, hs,
      h.matchByte_ne (by decide) other]
    exact congrArg some (h.read_token rfl rfl (line_of_none (by simpa using plain.symm) _) _).symm

/-- From anywhere in a character that starts nothing, the cursor goes behind it. -/
theorem skipCharacter_eq {c : Char} (line : c ≠ '\n') (h : s.Reads pre [] (c :: cs))
    (pending : s.pending = none) (n : Nat) :
    skipCharacter { s with current := n } =
      some (s.read ⟨[c], .error .unexpectedCharacter⟩) := by
  have size : c.utf8Size = (utf8 [c]).length := by
    rw [utf8_cons, utf8_nil, List.append_nil, length_encode]
  have behind : Reads { s with current := s.start + c.utf8Size } pre [c] cs :=
    h.more [c] rfl rfl (by rw [h.current_eq, size]; rfl)
  have rest : dropBytes s.source s.start = some (c :: cs) := by
    rw [h.source, h.start, List.nil_append, dropBytes_append]
  rw [skipCharacter, rest]
  exact congrArg some
    (behind.read_error rfl rfl (line_of_none (by simpa using line.symm) _) pending _).symm

/-- A character that is in no rule. -/
structure Stray (c : Char) : Prop where
  blank : isBlank c = false
  slash : c ≠ '/'
  quote : c ≠ '"'
  digit : isDigit c = false
  word : isWordStart c = false
  single : single? c = none

theorem Stray.line {c : Char} (h : Stray c) : c ≠ '\n' := by
  rintro rfl
  exact absurd h.blank (by decide)

theorem Stray.cut_eq {c : Char} (h : Stray c) (cs : List Char) :
    cut c cs = (⟨[c], .error .unexpectedCharacter⟩, cs) := by
  have before : ∀ s, beforeEqual? c ≠ some s := fun s hs => by
    obtain ⟨-, s', hs'⟩ := single_of_beforeEqual hs
    rw [h.single] at hs'
    cases hs'
  rw [cut_other h.blank h.slash h.quote, h.digit, if_neg nofun, h.word, if_neg nofun,
    cutOperator_single fun s _ hs _ => before s hs, h.single]

theorem stray_of_wide {c : Char} (h : ¬ Ascii c) : Stray c where
  blank := not_wide (fun c hc => by
    rcases isBlank_iff.1 hc with rfl | rfl | rfl | rfl <;> decide) h
  slash := fun heq => h (by rw [heq]; decide)
  quote := fun heq => h (by rw [heq]; decide)
  digit := not_wide (fun _ => ascii_of_isDigit) h
  word := not_wide (fun c hc => ascii_of_isWordPart (by rw [isWordPart, hc, Bool.true_or])) h
  single := by
    cases hs : single? c with
    | none => rfl
    | some s =>
        refine absurd ?_ h
        unfold single? at hs
        split at hs <;> first | decide | cases hs

/-- Where the first byte is in no rule, its character is skipped. -/
theorem scanToken_stray {c : Char} {b : UInt8} {bs : List UInt8} (h : s.Reads pre [] (c :: cs))
    (pending : s.pending = none) (first : utf8 (c :: cs) = b :: bs) (hc : Stray c)
    (hb : Stray (Char.ofUInt8 b)) : s.scanToken = some (s.read (cut c cs).1) := by
  have faces := h.faces
  rw [first] at faces
  rw [scanToken, faces.advance]
  simp only [Option.bind_eq_bind, Option.bind_some, beq_iff_eq, hb.line, hb.blank, hb.slash,
    hb.quote, hb.digit, hb.word, hb.single, if_false, Bool.false_eq_true]
  rw [skipCharacter_eq hc.line h pending, hc.cut_eq]

theorem slash_eq (h : s.Reads pre ['/'] cs) (pending : s.pending = none) :
    (do
      let (matched, s) ← s.matchByte '/'.toUInt8
      if matched then
        let s ← s.skipLine
        pure (.ok (), s)
      else pure (.ok (), { s with pending := some (.symbol .slash) })) =
      some (s.read (cut '/' cs).1) := by
  by_cases comment : ∃ rest, cs = '/' :: rest
  · obtain ⟨rest, rfl⟩ := comment
    have opened : Reads { s with current := s.current + 1 } pre ['/', '/'] rest :=
      h.more ['/'] rfl rfl rfl
    have skipped := opened.faces.skipLine
    rw [takeWhile_bne (by decide)] at skipped
    have body : Reads { s with
        current := s.current + 1 + (utf8 (rest.takeWhile (· != '\n'))).length } pre
        (['/', '/'] ++ rest.takeWhile (· != '\n')) (rest.dropWhile (· != '\n')) :=
      opened.moreWhile (· != '\n') rfl rfl rfl
    have noLine : '\n' ∉ ['/', '/'] ++ rest.takeWhile (· != '\n') := by
      have stops : '\n' ∉ rest.takeWhile (· != '\n') :=
        fun hm => absurd (List.mem_takeWhile_imp hm) (by decide)
      simpa using stops
    rw [h.matchByte (by decide), cut_comment]
    simp only [Option.bind_eq_bind, Option.bind_some, if_true]
    rw [skipped]
    exact congrArg some (body.read_skipped rfl rfl (line_of_none noLine _) pending).symm
  · have other : cs.head? ≠ some '/' := fun head => comment (List.head?_eq_some_iff.1 head)
    rw [h.matchByte_ne (by decide) other, cut_single rfl fun _ => other,
      cutOperator_single (by rintro _ _ ⟨⟩)]
    exact congrArg some (h.read_token rfl rfl rfl _).symm

/-- One step of the cursor reads one piece. -/
theorem scanToken_eq {c : Char} (h : s.Reads pre [] (c :: cs)) (pending : s.pending = none) :
    s.scanToken = some (s.read (cut c cs).1) := by
  by_cases wide : ¬ Ascii c
  · obtain ⟨b, bs, heq⟩ := List.exists_cons_of_ne_nil (encode_ne_nil c)
    have wide' := wide_bytes wide b (by rw [heq]; exact List.mem_cons_self)
    exact scanToken_stray h pending (by rw [utf8_cons, heq, List.cons_append])
      (stray_of_wide wide) (stray_of_wide wide')
  have ascii : Ascii c := Classical.not_not.1 wide
  have first : utf8 (c :: cs) = c.toUInt8 :: utf8 cs := by
    rw [utf8_cons, ascii.encode, List.singleton_append]
  have faces := h.faces
  rw [first] at faces
  have begun : Reads { s with current := s.current + 1 } pre [c] cs :=
    h.more [c] rfl rfl (by rw [utf8_cons, ascii.encode]; rfl)
  by_cases stray : Stray c
  · exact scanToken_stray h pending first stray (by rwa [ascii.ofUInt8])
  rw [scanToken, faces.advance]
  simp only [Option.bind_eq_bind, Option.bind_some, ascii.ofUInt8, beq_iff_eq]
  by_cases line : c = '\n'
  · subst line
    have next : Reads { s with current := s.current + 1, line := s.line + 1 } pre ['\n'] cs :=
      ⟨begun.source, begun.start, begun.current⟩
    rw [if_pos rfl, cut_blank rfl]
    exact congrArg some (next.read_skipped (s := s) rfl rfl rfl pending).symm
  rw [if_neg line]
  have plain : s.line = s.line + [c].count '\n' := line_of_none (by simpa using Ne.symm line) _
  by_cases blank : isBlank c = true
  · rw [if_pos blank, cut_blank blank]
    exact congrArg some (begun.read_skipped rfl rfl plain pending).symm
  rw [if_neg blank]
  by_cases slash : c = '/'
  · subst slash
    rw [if_pos rfl]
    exact slash_eq begun pending
  rw [if_neg slash]
  by_cases quote : c = '"'
  · subst quote
    rw [if_pos rfl]
    exact parseString_eq begun pending
  rw [if_neg quote, cut_other (Bool.eq_false_iff.2 blank) slash quote]
  by_cases digit : isDigit c = true
  · rw [if_pos digit, if_pos digit]
    exact parseNumber_eq digit begun
  rw [if_neg digit, if_neg digit]
  by_cases word : isWordStart c = true
  · rw [if_pos word, if_pos word]
    exact parseWord_eq word begun
  rw [if_neg word, if_neg word]
  cases hs : single? c with
  | none =>
      exact absurd ⟨Bool.eq_false_iff.2 blank, slash, quote, Bool.eq_false_iff.2 digit,
        Bool.eq_false_iff.2 word, hs⟩ stray
  | some shorter =>
      cases hl : beforeEqual? c with
      | some longer => exact select_eq hs hl begun
      | none =>
          rw [cutOperator_single (by rw [hl]; nofun), hs]
          exact congrArg some (begun.read_token rfl rfl plain _).symm

end Cursor

end Scan

end LoxLang
