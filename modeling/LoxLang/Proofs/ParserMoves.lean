import Mathlib.Data.List.Nodup
import LoxLang.Grammar.Parser
import LoxLang.Proofs.ProgramGrammar

/-!
# How a parser moves

What a parser does to its own state, whatever it parses. The tokens stay. The
cursor goes forward and never behind the first end. Reports, looks and turns
are only added to: every look was made with the cursor between the two places,
the latest furthest on, and read nothing in front of it; every turn started
there, moved the cursor on, and started where no other one did. At most one
error that unwinds is reported for each turn.

All this is `Moves`. It holds of one step, and it goes through one run behind
another, so it holds of whatever a production does.
-/

namespace LoxLang

namespace Parser

open Grammar

/-- The position of the first end. -/
def ending (p : Parser) : Nat := (content p.tokens).length

/-- The tokens between the cursor and the first end. -/
def left (p : Parser) : List Token := (content p.tokens).drop p.current

/-- There is an end, and the cursor is not behind it. -/
structure Ready (p : Parser) : Prop where
  hasEnd : ∃ behind, p.tokens = content p.tokens ++ endToken p.tokens :: behind
  inside : p.current ≤ p.ending

/-- How many errors that unwind have been reported. -/
def unwound (p : Parser) : Nat := p.reports.countP (·.unwinds)

variable {p q r : Parser} {low low' : Nat} {noted noted' : List Complaint}

/-- Looks were made between two places of the cursor. -/
structure Looked (p q : Parser) : Prop where
  added : ∃ new, q.looks = p.looks ++ new ∧ new.Pairwise (fun l l' => l.cursor ≤ l'.cursor) ∧
    ∀ l ∈ new, p.current ≤ l.cursor ∧ l.cursor ≤ q.current ∧ l.index ≤ l.cursor

/-- Declarations were dealt with between a position and a place of the cursor. -/
structure Turned (low : Nat) (p q : Parser) : Prop where
  added : ∃ new, q.turns = p.turns ++ new ∧ (new.map Turn.start).Nodup ∧
    (∀ t ∈ new, low ≤ t.start ∧ t.start < t.stop ∧ t.stop ≤ q.current) ∧
    q.unwound ≤ p.unwound + new.length

/-- Errors were reported. -/
structure Reported (p q : Parser) (noted : List Complaint) : Prop where
  added : ∃ new, q.reports = p.reports ++ new ∧
    new.map (·.error) = located (endToken p.tokens) noted

/-- What a parser did between two states. -/
structure Moves (low : Nat) (p q : Parser) (noted : List Complaint) : Prop where
  tokens : q.tokens = p.tokens
  forward : p.current ≤ q.current
  inside : q.current ≤ p.ending
  numbers : p.nextId ≤ q.nextId
  looks : Looked p q
  turns : Turned low p q
  reports : Reported p q noted

theorem ending_eq (h : q.tokens = p.tokens) : q.ending = p.ending := by rw [ending, ending, h]

theorem Moves.ready (h : Moves low p q noted) (ready : p.Ready) : q.Ready where
  hasEnd := h.tokens ▸ ready.hasEnd
  inside := (ending_eq h.tokens).symm ▸ h.inside

theorem Ready.current_add_left (ready : p.Ready) : p.current + p.left.length = p.ending := by
  rw [left, List.length_drop]
  exact Nat.add_sub_cancel' ready.inside

/-- The cursor goes on by as many tokens as there are fewer left. -/
theorem Moves.current_add_left (h : Moves low p q noted) (ready : p.Ready) :
    q.current + q.left.length = p.current + p.left.length := by
  rw [(h.ready ready).current_add_left, ready.current_add_left, ending_eq h.tokens]

/-! ## One run behind another -/

theorem Looked.trans (h : Looked p q) (h' : Looked q r) (hpq : p.current ≤ q.current)
    (hqr : q.current ≤ r.current) : Looked p r := by
  obtain ⟨new, eq, sorted, within⟩ := h
  obtain ⟨new', eq', sorted', within'⟩ := h'
  refine ⟨new ++ new', by rw [eq', eq, List.append_assoc], ?_, ?_⟩
  · refine List.pairwise_append.2 ⟨sorted, sorted', fun l hl l' hl' => ?_⟩
    exact Nat.le_trans (within l hl).2.1 (within' l' hl').1
  · intro l hl
    rcases List.mem_append.1 hl with hl | hl
    · obtain ⟨low, high, index⟩ := within l hl
      exact ⟨low, Nat.le_trans high hqr, index⟩
    · obtain ⟨low, high, index⟩ := within' l hl
      exact ⟨Nat.le_trans hpq low, high, index⟩

/-- The turns of the second run start where the first one ended, or behind that. -/
theorem Turned.trans (h : Turned low p q) (h' : Turned low' q r) (hlow : low ≤ low')
    (behind : q.current ≤ low') (hqr : q.current ≤ r.current) : Turned low p r := by
  obtain ⟨new, eq, distinct, within, count⟩ := h
  obtain ⟨new', eq', distinct', within', count'⟩ := h'
  refine ⟨new ++ new', by rw [eq', eq, List.append_assoc], ?_, ?_, ?_⟩
  · rw [List.map_append]
    refine List.Nodup.append distinct distinct' fun start hs hs' => ?_
    obtain ⟨t, ht, rfl⟩ := List.mem_map.1 hs
    obtain ⟨t', ht', same⟩ := List.mem_map.1 hs'
    have := within t ht
    have := within' t' ht'
    omega
  · intro t ht
    rcases List.mem_append.1 ht with ht | ht
    · obtain ⟨start, moves, stop⟩ := within t ht
      exact ⟨start, moves, Nat.le_trans stop hqr⟩
    · obtain ⟨start, moves, stop⟩ := within' t ht
      exact ⟨Nat.le_trans hlow start, moves, stop⟩
  · rw [List.length_append]
    omega

theorem Reported.trans (h : Reported p q noted) (h' : Reported q r noted')
    (tokens : q.tokens = p.tokens) : Reported p r (noted ++ noted') := by
  obtain ⟨new, eq, errors⟩ := h
  obtain ⟨new', eq', errors'⟩ := h'
  refine ⟨new ++ new', by rw [eq', eq, List.append_assoc], ?_⟩
  rw [List.map_append, errors, errors', tokens, located, located, located, List.map_append]

theorem Moves.trans (h : Moves low p q noted) (h' : Moves low' q r noted') (hlow : low ≤ low')
    (behind : q.current ≤ low') : Moves low p r (noted ++ noted') where
  tokens := h'.tokens.trans h.tokens
  forward := Nat.le_trans h.forward h'.forward
  inside := ending_eq h.tokens ▸ h'.inside
  numbers := Nat.le_trans h.numbers h'.numbers
  looks := h.looks.trans h'.looks h.forward h'.forward
  turns := h.turns.trans h'.turns hlow behind h'.forward
  reports := h.reports.trans h'.reports h.tokens

theorem Moves.mono (h : Moves low' p q noted) (hlow : low ≤ low') : Moves low p q noted :=
  { h with
    turns := by
      obtain ⟨new, eq, distinct, within, count⟩ := h.turns
      exact ⟨new, eq, distinct, fun t ht => ⟨Nat.le_trans hlow (within t ht).1, (within t ht).2⟩,
        count⟩ }

/-! ## Steps -/

/-- Nothing happened but looks, and the cursor moved on by some tokens. -/
structure Steps (n : Nat) (p q : Parser) : Prop where
  tokens : q.tokens = p.tokens
  current : q.current = p.current + n
  inside : q.current ≤ p.ending
  reports : q.reports = p.reports
  nextId : q.nextId = p.nextId
  turns : q.turns = p.turns
  looks : Looked p q

theorem Looked.refl (p : Parser) : Looked p p :=
  ⟨[], (List.append_nil _).symm, .nil, nofun⟩

theorem Steps.refl (ready : p.Ready) : Steps 0 p p :=
  ⟨rfl, rfl, ready.inside, rfl, rfl, rfl, .refl p⟩

theorem Steps.trans {n m : Nat} (h : Steps n p q) (h' : Steps m q r) : Steps (n + m) p r where
  tokens := h'.tokens.trans h.tokens
  current := by rw [h'.current, h.current, Nat.add_assoc]
  inside := ending_eq h.tokens ▸ h'.inside
  reports := h'.reports.trans h.reports
  nextId := h'.nextId.trans h.nextId
  turns := h'.turns.trans h.turns
  looks := h.looks.trans h'.looks (h.current ▸ Nat.le_add_right _ _)
    (h'.current ▸ Nat.le_add_right _ _)

theorem Turned.of_eq (turns : q.turns = p.turns) (count : q.unwound = p.unwound) :
    Turned low p q :=
  ⟨[], by rw [turns, List.append_nil], .nil, nofun, Nat.le_of_eq count⟩

theorem Reported.of_eq (h : q.reports = p.reports) : Reported p q [] :=
  ⟨[], by rw [h, List.append_nil], rfl⟩

theorem Steps.moves {n : Nat} (h : Steps n p q) : Moves low p q [] where
  tokens := h.tokens
  forward := h.current ▸ Nat.le_add_right _ _
  inside := h.inside
  numbers := Nat.le_of_eq h.nextId.symm
  looks := h.looks
  turns := .of_eq h.turns (by rw [unwound, h.reports, unwound])
  reports := .of_eq h.reports

theorem Moves.steps {n : Nat} (h : Moves low p q noted) (h' : Steps n q r) :
    Moves low p r noted := by
  have all := h.trans (h'.moves : Moves (max low q.current) q r []) (Nat.le_max_left _ _)
    (Nat.le_max_right _ _)
  rwa [List.append_nil] at all

theorem Steps.left_eq {n : Nat} (h : Steps n p q) : q.left = p.left.drop n := by
  rw [left, left, h.tokens, h.current, List.drop_drop]

theorem Steps.ready {n : Nat} (h : Steps n p q) (ready : p.Ready) : q.Ready :=
  (h.moves : Moves 0 p q []).ready ready

/-! ## What is left -/

/-- The cursor is in front of a token. -/
theorem getElem?_current {t : Token} {rest : List Token} (h : p.left = t :: rest) :
    p.tokens[p.current]? = some t ∧ t.isEnd = false ∧ p.current < p.ending := by
  have inner : (content p.tokens)[p.current]? = some t := by
    rw [← List.head?_drop]
    exact congrArg List.head? h
  have within := (List.getElem?_eq_some_iff.1 inner).1
  have split : content p.tokens ++ p.tokens.dropWhile (fun t => !t.isEnd) = p.tokens :=
    List.takeWhile_append_dropWhile
  refine ⟨?_, isEnd_of_mem_content (List.mem_of_getElem? inner), within⟩
  exact (congrArg (·[p.current]?) split).symm.trans
    ((List.getElem?_append_left within).trans inner)

/-- The cursor is at the first end. -/
theorem getElem?_ending (ready : p.Ready) (h : p.left = []) :
    p.tokens[p.current]? = some (endToken p.tokens) ∧ p.current = p.ending := by
  obtain ⟨⟨behind, split⟩, inside⟩ := ready
  have atEnd : p.current = p.ending := Nat.le_antisymm inside (List.drop_eq_nil_iff.1 h)
  refine ⟨(congrArg (·[p.current]?) split).trans ?_, atEnd⟩
  rw [atEnd, ending, List.getElem?_append_right (Nat.le_refl _), Nat.sub_self]
  rfl

/-! ## Primitive steps -/

variable {α β : Type}

theorem bind_eq {act : Stepping α} {next : α → Stepping β} {a : α} (h : act p = some (a, q)) :
    (act >>= next) p = next a q := by
  show (act p).bind _ = _
  rw [h]
  rfl

theorem look_eq {index : Nat} {t : Token} (ready : p.Ready) (h : p.tokens[index]? = some t)
    (behind : index ≤ p.current) : ∃ q, look index p = some (t, q) ∧ Steps 0 p q := by
  refine ⟨{ p with looks := p.looks ++ [⟨p.current, index⟩] }, ?_, rfl, rfl, ready.inside, rfl,
    rfl, rfl, ⟨[⟨p.current, index⟩], rfl, List.pairwise_singleton _ _, ?_⟩⟩
  · rw [look, h]
  · simpa using behind

theorem peek_eq {t : Token} (ready : p.Ready) (h : p.tokens[p.current]? = some t) :
    ∃ q, peek p = some (t, q) ∧ Steps 0 p q := look_eq ready h (Nat.le_refl _)

theorem previous_eq {t : Token} (ready : p.Ready) (h : p.tokens[p.current - 1]? = some t) :
    ∃ q, previous p = some (t, q) ∧ Steps 0 p q := look_eq ready h (Nat.sub_le _ _)

/-- The next token is one that is left, or else the end. -/
theorem peek_left (ready : p.Ready) :
    ∃ q, peek p = some (p.left.head?.getD (endToken p.tokens), q) ∧ Steps 0 p q := by
  cases h : p.left with
  | nil => exact peek_eq ready (getElem?_ending ready h).1
  | cons t rest => exact peek_eq ready (getElem?_current h).1

theorem isAtEnd_eq (ready : p.Ready) :
    ∃ q, isAtEnd p = some (p.left.isEmpty, q) ∧ Steps 0 p q := by
  obtain ⟨q, hq, steps⟩ := peek_left ready
  refine ⟨q, (bind_eq hq).trans ?_, steps⟩
  cases h : p.left with
  | nil => rw [List.head?_nil, Option.getD_none, isEnd_endToken]; rfl
  | cons t rest => rw [List.head?_cons, Option.getD_some, (getElem?_current h).2.1]; rfl

theorem check_eq (sort : Token → Bool) (ready : p.Ready) :
    ∃ q, check sort p = some (p.left.head?.any sort, q) ∧ Steps 0 p q := by
  obtain ⟨q, hq, steps⟩ := isAtEnd_eq ready
  cases h : p.left with
  | nil =>
      rw [h] at hq
      exact ⟨q, bind_eq hq, steps⟩
  | cons t rest =>
      rw [h] at hq
      have left : q.left = t :: rest := steps.left_eq.trans h
      obtain ⟨q', hq', steps'⟩ := peek_left (steps.ready ready)
      rw [left] at hq'
      exact ⟨q', (bind_eq hq).trans (bind_eq hq'), steps.trans steps'⟩

/-- A token is left behind, and is the one in front of the cursor then. -/
theorem advance_eq {t : Token} {rest : List Token} (ready : p.Ready) (h : p.left = t :: rest) :
    ∃ q, advance p = some (t, q) ∧ Steps 1 p q ∧ q.tokens[q.current - 1]? = some t := by
  obtain ⟨q, hq, steps⟩ := isAtEnd_eq ready
  rw [h] at hq
  obtain ⟨next, -, inside⟩ := getElem?_current h
  have moved : Steps 1 q { q with current := q.current + 1 } := by
    refine ⟨rfl, rfl, ?_, rfl, rfl, rfl, ⟨[], (List.append_nil _).symm, .nil, nofun⟩⟩
    rw [ending_eq steps.tokens]
    exact steps.current ▸ inside
  have both := steps.trans moved
  have front : ({ q with current := q.current + 1 } : Parser).tokens[q.current + 1 - 1]? =
      some t := by
    rw [Nat.add_sub_cancel, steps.current, ← next]
    exact congrArg (·[p.current]?) steps.tokens
  obtain ⟨q', hq', steps'⟩ := previous_eq (both.ready ready) front
  refine ⟨q', (bind_eq hq).trans hq', both.trans steps', ?_⟩
  rw [steps'.tokens, steps'.current]
  exact front

/-- At the end the cursor stays. -/
theorem advance_end (ready : p.Ready) (h : p.left = []) :
    ∃ t q, advance p = some (t, q) ∧ Steps 0 p q := by
  obtain ⟨q, hq, steps⟩ := isAtEnd_eq ready
  rw [h] at hq
  have inVector : ∃ t, q.tokens[q.current - 1]? = some t := by
    have inside := (steps.ready ready).inside
    obtain ⟨behind, split⟩ := (steps.ready ready).hasEnd
    refine ⟨_, List.getElem?_eq_getElem ?_⟩
    rw [split, List.length_append, List.length_cons, ← ending]
    omega
  obtain ⟨t, ht⟩ := inVector
  obtain ⟨q', hq', steps'⟩ := previous_eq (steps.ready ready) ht
  exact ⟨t, q', (bind_eq hq).trans hq', steps.trans steps'⟩

theorem matchNext_true (sort : Token → Bool) {t : Token} {rest : List Token} (ready : p.Ready)
    (h : p.left = t :: rest) (ht : sort t = true) :
    ∃ q, matchNext sort p = some (true, q) ∧ Steps 1 p q ∧
      q.tokens[q.current - 1]? = some t := by
  obtain ⟨q, hq, steps⟩ := check_eq sort ready
  rw [h, List.head?_cons, Option.any_some, ht] at hq
  obtain ⟨q', hq', steps', front⟩ := advance_eq (steps.ready ready) (steps.left_eq.trans h)
  exact ⟨q', (bind_eq hq).trans (bind_eq hq'), (Nat.zero_add 1) ▸ steps.trans steps', front⟩

theorem matchNext_false (sort : Token → Bool) (ready : p.Ready)
    (h : p.left.head?.any sort = false) :
    ∃ q, matchNext sort p = some (false, q) ∧ Steps 0 p q := by
  obtain ⟨q, hq, steps⟩ := check_eq sort ready
  rw [h] at hq
  exact ⟨q, bind_eq hq, steps⟩

theorem matchAny_true {t : Token} {rest : List Token} : ∀ {symbols : List Symbol} {p : Parser},
    p.Ready → p.left = t :: rest → symbols.any t.isSymbol = true →
      ∃ q, matchAny symbols p = some (true, q) ∧ Steps 1 p q ∧ q.tokens[q.current - 1]? = some t
  | [], _, _, _, h => nomatch h
  | s :: more, p, ready, left, h => by
      by_cases hs : t.isSymbol s = true
      · obtain ⟨q, hq, steps, front⟩ := matchNext_true (·.isSymbol s) ready left hs
        exact ⟨q, bind_eq hq, steps, front⟩
      · obtain ⟨q, hq, steps⟩ := matchNext_false (·.isSymbol s) ready
          (by rw [left, List.head?_cons, Option.any_some]; exact Bool.eq_false_iff.2 hs)
        rw [List.any_cons, Bool.eq_false_iff.2 hs, Bool.false_or] at h
        obtain ⟨q', hq', steps', front⟩ :=
          matchAny_true (steps.ready ready) (steps.left_eq.trans left) h
        exact ⟨q', (bind_eq hq).trans hq', (Nat.zero_add 1) ▸ steps.trans steps', front⟩

theorem matchAny_false : ∀ {symbols : List Symbol} {p : Parser}, p.Ready →
    (p.left.head?.any fun t => symbols.any t.isSymbol) = false →
      ∃ q, matchAny symbols p = some (false, q) ∧ Steps 0 p q
  | [], p, ready, _ => ⟨p, rfl, .refl ready⟩
  | s :: more, p, ready, h => by
      have apart : p.left.head?.any (·.isSymbol s) = false ∧
          (p.left.head?.any fun t => more.any t.isSymbol) = false := by
        cases hl : p.left.head? with
        | none => exact ⟨rfl, rfl⟩
        | some t => simpa [hl] using h
      obtain ⟨q, hq, steps⟩ := matchNext_false (·.isSymbol s) ready apart.1
      obtain ⟨q', hq', steps'⟩ := matchAny_false (steps.ready ready)
        (by rw [steps.left_eq]; exact apart.2)
      exact ⟨q', (bind_eq hq).trans hq', steps.trans steps'⟩

end Parser

end LoxLang
