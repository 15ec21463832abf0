import LoxLang.Token.Scan

/-!
# Scanning byte by byte

The items of a text as an iterator gives them: a cursor moves over the UTF-8
bytes of the text and is asked for the next item again and again. It sees the
byte it stands at and the one behind it, and both read as zero where the text
has ended. Positions are counted in bytes, and a lexeme is a slice of the text
between two of them.

Reading a byte behind the end has no answer, and neither has a slice whose
ends are inside a character or the wrong way round. In both cases the functions
give `none`.
-/

namespace LoxLang.Scan

/-- The bytes of a text. -/
def utf8 (cs : List Char) : List UInt8 := cs.flatMap String.utf8EncodeChar

/-- The characters behind the first bytes of a text. -/
def dropBytes : List Char → Nat → Option (List Char)
  | cs, 0 => some cs
  | [], _ + 1 => none
  | c :: cs, n + 1 =>
    if c.utf8Size ≤ n + 1 then dropBytes cs (n + 1 - c.utf8Size) else none

/-- The characters that the first bytes of a text encode. -/
def takeBytes : List Char → Nat → Option (List Char)
  | _, 0 => some []
  | [], _ + 1 => none
  | c :: cs, n + 1 =>
    if c.utf8Size ≤ n + 1 then (takeBytes cs (n + 1 - c.utf8Size)).map (c :: ·) else none

/-- The characters between two positions. -/
def slice? (cs : List Char) (i j : Nat) : Option (List Char) :=
  if i ≤ j then (dropBytes cs i).bind (takeBytes · (j - i)) else none

/-- A scanner at work: where the current lexeme starts, the position that is looked at, its line,
and the kind of the lexeme once it is known. -/
structure Cursor where
  source : List Char
  start : Nat
  current : Nat
  line : Nat
  pending : Option Token.Kind

namespace Cursor

/-- In front of a text. -/
def begin (source : String) : Cursor := ⟨source.toList, 0, 0, 1, none⟩

/-- How many bytes the text has. -/
def size (s : Cursor) : Nat := (utf8 s.source).length

def atEnd (s : Cursor) : Bool := s.size ≤ s.current

/-- The byte looked at, which is left behind. -/
def advance (s : Cursor) : Option (UInt8 × Cursor) :=
  (utf8 s.source)[s.current]?.map fun b => (b, { s with current := s.current + 1 })

def peek (s : Cursor) : UInt8 :=
  if s.atEnd then 0 else (utf8 s.source).getD s.current 0

def peekNext (s : Cursor) : UInt8 :=
  if s.size ≤ s.current + 1 then 0 else (utf8 s.source).getD (s.current + 1) 0

/-- The byte looked at is left behind if it is the expected one. -/
def matchByte (expected : UInt8) (s : Cursor) : Option (Bool × Cursor) :=
  if !s.atEnd && s.peek == expected then s.advance.map fun (_, s) => (true, s)
  else some (false, s)

/-- The longer of two operators if the expected byte follows, the shorter otherwise. -/
def select (expected : UInt8) (longer shorter : Symbol) (s : Cursor) : Option Cursor := do
  let (matched, s) ← s.matchByte expected
  pure { s with pending := some (.symbol (if matched then longer else shorter)) }

/-- Up to the end of the line, or of the text. -/
def skipLine (s : Cursor) : Option Cursor :=
  if s.current ≤ s.size then
    match ((utf8 s.source).drop s.current).findIdx? (· == '\n'.toUInt8) with
    | some distance => some { s with current := s.current + distance }
    | none => some { s with current := s.size }
  else none

/-- Behind all bytes of a sort. -/
def advanceWhile (p : UInt8 → Bool) (s : Cursor) : Option Cursor :=
  if p s.peek then
    if s.current < s.size then advanceWhile p { s with current := s.current + 1 } else none
  else some s
termination_by s.size - s.current
decreasing_by
  show s.size - (s.current + 1) < s.size - s.current
  omega

/-- Up to the next quote, or to the end of the text. -/
def toQuote (s : Cursor) : Cursor :=
  if s.current < s.size ∧ s.peek ≠ '"'.toUInt8 then
    toQuote { s with
      current := s.current + 1
      line := if s.peek = '\n'.toUInt8 then s.line + 1 else s.line }
  else s
termination_by s.size - s.current
decreasing_by
  show s.size - (s.current + 1) < s.size - s.current
  omega

/-- What reading one lexeme reports: nothing, or an error with its line. -/
abbrev Report := Except (Nat × LexicalError) Unit

/-- A string behind its opening quote. -/
def parseString (s : Cursor) : Option (Report × Cursor) :=
  let s := s.toQuote
  if s.atEnd then some (.error (s.line, .unterminatedString), s)
  else do
    let (_, s) ← s.advance
    let body ← slice? s.source (s.start + 1) (s.current - 1)
    pure (.ok (), { s with pending := some (.string (String.ofList body)) })

def isDigitByte (b : UInt8) : Bool := isDigit (Char.ofUInt8 b)

def isWordByte (b : UInt8) : Bool := isWordPart (Char.ofUInt8 b)

/-- The number that digits with at most one point denote. -/
def numeral (text : List Char) : Float :=
  Numeral.ofLiteral (text.takeWhile (· != '.')) ((text.dropWhile (· != '.')).drop 1)

/-- A point and the digits behind it, if there are any. -/
def skipFraction (s : Cursor) : Option Cursor :=
  if s.peek == '.'.toUInt8 && isDigitByte s.peekNext then do
    let (_, s) ← s.advance
    s.advanceWhile isDigitByte
  else some s

/-- A number behind its first digit. -/
def parseNumber (s : Cursor) : Option Cursor := do
  let s ← s.advanceWhile isDigitByte
  let s ← s.skipFraction
  let text ← slice? s.source s.start s.current
  pure { s with pending := some (.number (numeral text)) }

/-- A word behind its first letter. -/
def parseWord (s : Cursor) : Option Cursor := do
  let s ← s.advanceWhile isWordByte
  let word ← slice? s.source s.start s.current
  pure { s with pending := some (wordKind word) }

/-- A character that starts nothing is left behind whole. -/
def skipCharacter (s : Cursor) : Option (Report × Cursor) := do
  let rest ← dropBytes s.source s.start
  let s := match rest with
    | c :: _ => { s with current := s.start + c.utf8Size }
    | [] => s
  pure (.error (s.line, .unexpectedCharacter), s)

/-- One lexeme, blank, comment or error. A kind is left pending if there is a token. -/
def scanToken (s : Cursor) : Option (Report × Cursor) := do
  let (b, s) ← s.advance
  let c := Char.ofUInt8 b
  if c == '\n' then pure (.ok (), { s with line := s.line + 1 })
  else if isBlank c then pure (.ok (), s)
  else if c == '/' then
    let (matched, s) ← s.matchByte '/'.toUInt8
    if matched then
      let s ← s.skipLine
      pure (.ok (), s)
    else pure (.ok (), { s with pending := some (.symbol .slash) })
  else if c == '"' then s.parseString
  else if isDigit c then
    let s ← s.parseNumber
    pure (.ok (), s)
  else if isWordStart c then
    let s ← s.parseWord
    pure (.ok (), s)
  else
    match single? c, beforeEqual? c with
    | some shorter, some longer => do
      let s ← s.select '='.toUInt8 longer shorter
      pure (.ok (), s)
    | some shorter, none => pure (.ok (), { s with pending := some (.symbol shorter) })
    | none, _ => s.skipCharacter

/-! Scanning goes forward, so it ends. -/

/-- The second cursor is in the same lexeme of the same text and has not gone back. -/
structure Ahead (s s' : Cursor) : Prop where
  source : s'.source = s.source
  start : s'.start = s.start
  current : s.current ≤ s'.current

theorem Ahead.refl (s : Cursor) : s.Ahead s := ⟨rfl, rfl, Nat.le_refl _⟩

theorem Ahead.trans {s s' s'' : Cursor} (h : s.Ahead s') (h' : s'.Ahead s'') : s.Ahead s'' :=
  ⟨h'.source.trans h.source, h'.start.trans h.start, Nat.le_trans h.current h'.current⟩

theorem advance_eq_some {s s' : Cursor} {b : UInt8} (h : s.advance = some (b, s')) :
    s' = { s with current := s.current + 1 } := by
  unfold advance at h
  obtain ⟨_, -, heq⟩ := Option.map_eq_some_iff.1 h
  cases heq
  rfl

theorem advance_ahead {s s' : Cursor} {b : UInt8} (h : s.advance = some (b, s')) : s.Ahead s' := by
  rw [advance_eq_some h]
  exact ⟨rfl, rfl, Nat.le_succ _⟩

theorem matchByte_ahead {s s' : Cursor} {expected : UInt8} {matched : Bool}
    (h : s.matchByte expected = some (matched, s')) : s.Ahead s' := by
  unfold matchByte at h
  split at h
  · obtain ⟨⟨b, _⟩, ha, heq⟩ := Option.map_eq_some_iff.1 h
    cases heq
    exact advance_ahead ha
  · cases h
    exact .refl s

theorem select_ahead {s s' : Cursor} {expected : UInt8} {longer shorter : Symbol}
    (h : s.select expected longer shorter = some s') : s.Ahead s' := by
  obtain ⟨⟨matched, s1⟩, hm, heq⟩ := Option.bind_eq_some_iff.1 h
  cases heq
  obtain ⟨source, start, current⟩ := matchByte_ahead hm
  exact ⟨source, start, current⟩

theorem skipLine_ahead {s s' : Cursor} (h : s.skipLine = some s') : s.Ahead s' := by
  unfold skipLine at h
  split at h
  · next inside =>
      split at h <;> cases h
      · exact ⟨rfl, rfl, Nat.le_add_right _ _⟩
      · exact ⟨rfl, rfl, inside⟩
  · cases h

theorem advanceWhile_ahead {p : UInt8 → Bool} {s s' : Cursor}
    (h : s.advanceWhile p = some s') : s.Ahead s' := by
  fun_induction advanceWhile p s with
  | case1 s _ _ ih =>
      have moved : s.Ahead { s with current := s.current + 1 } := ⟨rfl, rfl, Nat.le_succ _⟩
      exact moved.trans (ih h)
  | case2 => cases h
  | case3 =>
      cases h
      exact .refl _

theorem toQuote_ahead (s : Cursor) : s.Ahead s.toQuote := by
  fun_induction toQuote s with
  | case1 s _ ih =>
      obtain ⟨source, start, current⟩ := ih
      exact ⟨source, start, Nat.le_of_succ_le current⟩
  | case2 s _ => exact .refl s

theorem parseString_ahead {s s' : Cursor} {r : Report} (h : s.parseString = some (r, s')) :
    s.Ahead s' := by
  have quote := toQuote_ahead s
  unfold parseString at h
  dsimp only at h
  split at h
  · cases h
    exact quote
  · obtain ⟨⟨b, s1⟩, ha, h⟩ := Option.bind_eq_some_iff.1 h
    obtain ⟨body, -, heq⟩ := Option.bind_eq_some_iff.1 h
    cases heq
    obtain ⟨source, start, current⟩ := quote.trans (advance_ahead ha)
    exact ⟨source, start, current⟩

theorem parseNumber_ahead {s s' : Cursor} (h : s.parseNumber = some s') : s.Ahead s' := by
  obtain ⟨s1, hw, h⟩ := Option.bind_eq_some_iff.1 h
  obtain ⟨s2, hf, h⟩ := Option.bind_eq_some_iff.1 h
  obtain ⟨text, -, heq⟩ := Option.bind_eq_some_iff.1 h
  cases heq
  have fraction : s1.Ahead s2 := by
    unfold skipFraction at hf
    split at hf
    · obtain ⟨⟨b, s3⟩, ha, hf⟩ := Option.bind_eq_some_iff.1 hf
      exact (advance_ahead ha).trans (advanceWhile_ahead hf)
    · cases hf
      exact .refl s1
  obtain ⟨source, start, current⟩ := (advanceWhile_ahead hw).trans fraction
  exact ⟨source, start, current⟩

theorem parseWord_ahead {s s' : Cursor} (h : s.parseWord = some s') : s.Ahead s' := by
  obtain ⟨s1, hw, h⟩ := Option.bind_eq_some_iff.1 h
  obtain ⟨text, -, heq⟩ := Option.bind_eq_some_iff.1 h
  cases heq
  obtain ⟨source, start, current⟩ := advanceWhile_ahead hw
  exact ⟨source, start, current⟩

theorem skipCharacter_ahead {s s' : Cursor} {r : Report} (hs : s.start < s.current)
    (h : s.skipCharacter = some (r, s')) : s'.source = s.source ∧ s.start < s'.current := by
  obtain ⟨rest, -, heq⟩ := Option.bind_eq_some_iff.1 h
  cases heq
  split
  · next c _ => exact ⟨rfl, Nat.lt_add_of_pos_right c.utf8Size_pos⟩
  · exact ⟨rfl, hs⟩

theorem scanToken_ahead {s s' : Cursor} {r : Report} (hs : s.start = s.current)
    (h : s.scanToken = some (r, s')) : s'.source = s.source ∧ s.current < s'.current := by
  obtain ⟨⟨b, s1⟩, ha, h⟩ := Option.bind_eq_some_iff.1 h
  cases advance_eq_some ha
  have moved : ∀ {s'}, Ahead { s with current := s.current + 1 } s' →
      s'.source = s.source ∧ s.current < s'.current := fun h => ⟨h.source, h.current⟩
  dsimp only at h
  split at h
  · cases h
    exact ⟨rfl, Nat.lt_succ_self _⟩
  split at h
  · cases h
    exact ⟨rfl, Nat.lt_succ_self _⟩
  split at h
  · obtain ⟨⟨matched, s2⟩, hm, h⟩ := Option.bind_eq_some_iff.1 h
    have slash := matchByte_ahead hm
    dsimp only at h
    split at h
    · obtain ⟨s3, hl, heq⟩ := Option.bind_eq_some_iff.1 h
      cases heq
      exact moved (slash.trans (skipLine_ahead hl))
    · cases h
      obtain ⟨source, start, current⟩ := slash
      exact ⟨source, current⟩
  split at h
  · exact moved (parseString_ahead h)
  split at h
  · obtain ⟨s2, hn, heq⟩ := Option.bind_eq_some_iff.1 h
    cases heq
    exact moved (parseNumber_ahead hn)
  split at h
  · obtain ⟨s2, hw, heq⟩ := Option.bind_eq_some_iff.1 h
    cases heq
    exact moved (parseWord_ahead hw)
  split at h
  · obtain ⟨s2, ho, heq⟩ := Option.bind_eq_some_iff.1 h
    cases heq
    exact moved (select_ahead ho)
  · cases h
    exact ⟨rfl, Nat.lt_succ_self _⟩
  · rw [← hs]
    exact skipCharacter_ahead (s := { s with current := s.current + 1 })
      (by rw [hs]; exact Nat.lt_succ_self _) h

/-- The next item, if there is one: a token or an error, and once behind the text its end. -/
def next (s : Cursor) : Option (Option Item × Cursor) :=
  if s.current < s.size then
    match _h : { s with start := s.current, pending := none }.scanToken with
    | none => none
    | some (.error (line, e), s') => some (some (.error line e), s')
    | some (.ok (), s') =>
      match s'.pending with
      | some kind => (slice? s'.source s'.start s'.current).map fun lexeme =>
        (some (.token ⟨kind, String.ofList lexeme, s'.line⟩), s')
      | none => next s'
  else if s.current = s.size then
    some (some (.token (.endOn s.line)), { s with current := s.current + 1 })
  else some (none, s)
termination_by s.size - s.current
decreasing_by
  obtain ⟨source, ahead⟩ := scanToken_ahead rfl _h
  have ahead : s.current < s'.current := ahead
  have size : s'.size = s.size := by rw [Cursor.size, source, Cursor.size]
  rw [size]
  omega

theorem next_ahead {s s' : Cursor} {item : Item} (h : s.next = some (some item, s')) :
    s'.source = s.source ∧ s.current < s'.current ∧ s.current ≤ s.size := by
  fun_induction next s with
  | case1 => cases h
  | case2 s inside line e s'' hs =>
      cases h
      obtain ⟨source, ahead⟩ := scanToken_ahead rfl hs
      exact ⟨source, ahead, Nat.le_of_lt inside⟩
  | case3 s inside s'' hs kind =>
      obtain ⟨lexeme, -, heq⟩ := Option.map_eq_some_iff.1 h
      cases heq
      obtain ⟨source, ahead⟩ := scanToken_ahead rfl hs
      exact ⟨source, ahead, Nat.le_of_lt inside⟩
  | case4 s inside s'' hs _ ih =>
      obtain ⟨source, ahead⟩ := scanToken_ahead rfl hs
      obtain ⟨source', ahead', -⟩ := ih h
      exact ⟨source'.trans source, Nat.lt_trans ahead ahead', Nat.le_of_lt inside⟩
  | case5 s _ last =>
      cases h
      exact ⟨rfl, Nat.lt_succ_self _, Nat.le_of_eq last⟩
  | case6 => cases h

/-- The first answers of a cursor that is asked for the next item again and again. -/
def answers : Nat → Cursor → Option (List (Option Item))
  | 0, _ => some []
  | n + 1, s => do
    let (item, s) ← s.next
    let more ← answers n s
    pure (item :: more)

/-- All tokens, and all errors with their lines, each in order. -/
def scanTokens (s : Cursor) : Option (List Token × List (Nat × LexicalError)) :=
  match _h : s.next with
  | none => none
  | some (none, _) => some ([], [])
  | some (some item, s') =>
    (scanTokens s').map fun (tokens, errors) =>
      (item.token?.toList ++ tokens, item.error?.toList ++ errors)
termination_by s.size + 1 - s.current
decreasing_by
  obtain ⟨source, ahead, inside⟩ := next_ahead _h
  have size : s'.size = s.size := by rw [Cursor.size, source, Cursor.size]
  rw [size]
  omega

end Cursor

end LoxLang.Scan
