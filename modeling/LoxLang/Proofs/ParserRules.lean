import LoxLang.Proofs.ParserMoves
import LoxLang.Session.Tabled

/-!
# Productions that follow the grammar

A production of the parser follows a parser of lists if the two agree on what
is left in front of the first end: the production reads what the other reads,
or unwinds where it refuses, with the same reports, and it moves as a parser
may. In particular it has an outcome at all, so it ends, and it looks at no
position that the vector does not have.

There is one rule for each way to put productions together, and the rule says
which combinator of replies goes with it.
-/

namespace LoxLang

namespace Parser

open Grammar

variable {α β γ δ : Type} {n m : Nat} {p q r : Parser} {low : Nat}

/-- A complaint about what is left, located in the vector. -/
def locate (p : Parser) (c : Complaint) : Located GrammarError :=
  ⟨c.found.getD (endToken p.tokens), c.error⟩

/-- The production does what the reply says, moving as a parser may. A value that it reads is
compared with that of the reply, given the numbers that have been drawn by then. -/
def Follows (low : Nat) (act : Parsing α) (p : Parser) (reply : Reply β n)
    (post : Nat → α → β → Prop) : Prop :=
  match reply with
  | .parsed b rest reports _ =>
    ∃ a q, act.run p = some (.ok a, q) ∧ q.left = rest ∧ Moves low p q reports ∧
      post q.nextId a b
  | .refused rest reports reason _ =>
    ∃ q, act.run p = some (.error (p.locate reason), q) ∧ q.left = rest ∧ Moves low p q reports

variable {act : Parsing α} {reply : Reply β n} {post : Nat → α → β → Prop}

/-! ## Combinators -/

theorem Follows.imp {post' : Nat → α → β → Prop} (h : Follows low act p reply post)
    (imp : ∀ q a b, p.nextId ≤ q → post q a b → post' q a b) : Follows low act p reply post' := by
  cases reply with
  | refused => exact h
  | parsed b rest reports shorter =>
      obtain ⟨a, q, run, left, moves, ha⟩ := h
      exact ⟨a, q, run, left, moves, imp _ a b moves.numbers ha⟩

@[simp] theorem follows_widen {h : n ≤ m} :
    Follows low act p (reply.widen h) post ↔ Follows low act p reply post := by
  cases reply <;> exact Iff.rfl

@[simp] theorem follows_map {f : β → γ} {post : Nat → α → γ → Prop} :
    Follows low act p (reply.map f) post ↔
      Follows low act p reply fun q a b => post q a (f b) := by
  cases reply <;> exact Iff.rfl

theorem follows_pure {a : α} {b : β} {ts : List Token} {shorter : ts.length < n}
    (ready : p.Ready) (left : p.left = ts) (h : post p.nextId a b) :
    Follows low (pure a) p (.parsed b ts [] shorter) post :=
  ⟨a, p, rfl, left, (Steps.refl ready).moves, h⟩

/-- First one production, then another that depends on the value. -/
theorem Follows.bind {next : α → Parsing γ}
    {then' : (b : β) → (rest : List Token) → rest.length < n → Reply δ (rest.length + 1)}
    {post' : Nat → γ → δ → Prop} (ready : p.Ready) (h : Follows low act p reply post)
    (behind : ∀ a b q rest shorter, q.left = rest → q.Ready →
      q.current + rest.length = p.current + p.left.length → p.nextId ≤ q.nextId → post q.nextId a b →
        Follows (max low q.current) (next a) q (then' b rest shorter) post') :
    Follows low (act >>= next) p (reply.andThen then') post' := by
  cases reply with
  | refused rest reports reason notLonger =>
      obtain ⟨q, run, left, moves⟩ := h
      refine ⟨q, ?_, left, moves⟩
      show (act.run p).bind _ = _
      rw [run]
      rfl
  | parsed b rest reports shorter =>
      obtain ⟨a, q, run, left, moves, ha⟩ := h
      have follows := behind a b q rest shorter left (moves.ready ready)
        (left ▸ moves.current_add_left ready) moves.numbers ha
      have located : ∀ reason, q.locate reason = p.locate reason := fun reason => by
        rw [locate, locate, moves.tokens]
      have first : (act >>= next).run p = (next a).run q := by
        show (act.run p).bind _ = _
        rw [run]
        rfl
      have reaches : ∀ {s noted}, Moves (max low q.current) q s noted →
          Moves low p s (reports ++ noted) := fun moves' =>
        moves.trans moves' (Nat.le_max_left _ _) (Nat.le_max_right _ _)
      simp only [Reply.andThen]
      revert follows
      cases then' b rest shorter with
      | refused =>
          rintro ⟨s, run', left', moves'⟩
          exact ⟨s, first.trans (located _ ▸ run'), left', reaches moves'⟩
      | parsed =>
          rintro ⟨c, s, run', left', moves', hc⟩
          exact ⟨c, s, first.trans run', left', reaches moves', hc⟩

theorem Follows.map {f : α → γ} {post' : Nat → γ → β → Prop}
    (h : Follows low act p reply fun n a b => post' n (f a) b) :
    Follows low (f <$> act) p reply post' := by
  have run : ∀ {a q}, act.run p = some (a, q) → (f <$> act).run p = some (a.map f, q) :=
    fun {a q} h => by
      show (act.run p).bind _ = _
      rw [h]
      cases a <;> rfl
  cases reply with
  | refused =>
      obtain ⟨q, hq, left, moves⟩ := h
      exact ⟨q, run hq, left, moves⟩
  | parsed =>
      obtain ⟨a, q, hq, left, moves, ha⟩ := h
      exact ⟨f a, q, run hq, left, moves, ha⟩

/-! ## Steps in front of a production -/

theorem Steps.then {k : Nat} {noted : List Complaint} (h : Steps k p q) (h' : Moves low q r noted) :
    Moves low p r noted where
  tokens := h'.tokens.trans h.tokens
  forward := Nat.le_trans (h.current ▸ Nat.le_add_right _ _) h'.forward
  inside := ending_eq h.tokens ▸ h'.inside
  numbers := h.nextId ▸ h'.numbers
  looks := h.looks.trans h'.looks (h.current ▸ Nat.le_add_right _ _) h'.forward
  turns := by
    obtain ⟨new, eq, distinct, within, count⟩ := h'.turns
    refine ⟨new, h.turns ▸ eq, distinct, within, ?_⟩
    rwa [unwound, unwound, h.reports] at count
  reports := by
    obtain ⟨new, eq, errors⟩ := h'.reports
    exact ⟨new, h.reports ▸ eq, h.tokens ▸ errors⟩

theorem Follows.of_steps {k : Nat} {act' : Parsing α} (steps : Steps k p q)
    (run : act.run p = act'.run q) (h : Follows low act' q reply post) :
    Follows low act p reply post := by
  have located : ∀ reason, q.locate reason = p.locate reason := fun reason => by
    rw [locate, locate, steps.tokens]
  cases reply with
  | refused =>
      obtain ⟨s, run', left, moves⟩ := h
      exact ⟨s, run.trans (located _ ▸ run'), left, steps.then moves⟩
  | parsed =>
      obtain ⟨a, s, run', left, moves, ha⟩ := h
      exact ⟨a, s, run.trans run', left, steps.then moves, ha⟩

theorem lift_eq {step : Stepping γ} {c : γ} (h : step p = some (c, q)) :
    (liftM step : Parsing γ).run p = some (.ok c, q) := by
  show (step p).bind (fun a => some (Except.ok a.1, a.2)) = _
  rw [h]
  rfl

theorem lift_bind_eq {step : Stepping γ} {next : γ → Parsing α} {c : γ}
    (h : step p = some (c, q)) : ((liftM step : Parsing γ) >>= next).run p = (next c).run q := by
  show ((step p).bind _ : Option _).bind _ = _
  rw [h]
  rfl

/-- A parser with some tokens left that is where another was, but for tokens left behind. -/
structure Stands (k : Nat) (p q : Parser) (ts : List Token) : Prop where
  ready : q.Ready
  left : q.left = ts
  current : q.current = p.current + k
  nextId : q.nextId = p.nextId

theorem Stands.trans {k k' : Nat} {ts ts' : List Token} (h : Stands k p q ts)
    (h' : Stands k' q r ts') : Stands (k + k') p r ts' :=
  ⟨h'.ready, h'.left, by rw [h'.current, h.current, Nat.add_assoc], h'.nextId.trans h.nextId⟩

theorem Steps.stands {k : Nat} (h : Steps k p q) (ready : p.Ready) :
    Stands k p q (p.left.drop k) :=
  ⟨h.ready ready, h.left_eq, h.current, h.nextId⟩

variable {ts rest : List Token} {t : Token}

/-- The next token is of no sort looked for, and nothing happens. -/
theorem follows_match_false {sort : Token → Bool} {next : Bool → Parsing α} (ready : p.Ready)
    (left : p.left = ts) (no : ts.head?.any sort = false)
    (h : ∀ q, Stands 0 p q ts → Follows low (next false) q reply post) :
    Follows low ((liftM (matchNext sort) : Parsing Bool) >>= next) p reply post := by
  subst left
  obtain ⟨q, hq, steps⟩ := matchNext_false sort ready no
  exact .of_steps steps (lift_bind_eq hq) (h q (steps.stands ready))

/-- The next token is left behind, and it is the previous one then. -/
theorem follows_match_true {sort : Token → Bool} {next : Bool → Parsing α} (ready : p.Ready)
    (left : p.left = t :: rest) (yes : sort t = true)
    (h : ∀ q, Stands 1 p q rest → q.tokens[q.current - 1]? = some t →
      Follows low (next true) q reply post) :
    Follows low ((liftM (matchNext sort) : Parsing Bool) >>= next) p reply post := by
  obtain ⟨q, hq, steps, front⟩ := matchNext_true sort ready left yes
  have stands := steps.stands ready
  rw [left] at stands
  exact .of_steps steps (lift_bind_eq hq) (h q stands front)

/-- The first production of a table for whose sort the next token is, behind that token, or another
production. -/
def firstMatch (table : List ((Token → Bool) × Parsing α)) (other : Parsing α) : Parsing α :=
  match table with
  | [] => other
  | (sort, act) :: more => do if ← matchNext sort then act else firstMatch more other

theorem follows_firstMatch {sort : Token → Bool} {other : Parsing α} (i : Nat) :
    ∀ {table : List ((Token → Bool) × Parsing α)} {p : Parser}, p.Ready → p.left = t :: rest →
      table[i]? = some (sort, act) → (∀ c ∈ table.take i, c.1 t = false) → sort t = true →
      (∀ q, Stands 1 p q rest → q.tokens[q.current - 1]? = some t →
        Follows low act q reply post) → Follows low (firstMatch table other) p reply post := by
  induction i with
  | zero =>
      intro table p ready left here _ yes h
      obtain ⟨more, rfl⟩ : ∃ more, table = (sort, act) :: more := by
        cases table with
        | nil => cases here
        | cons c more => exact ⟨more, by rw [Option.some.inj here]⟩
      exact follows_match_true ready left yes h
  | succ i ih =>
      intro table p ready left here earlier yes h
      cases table with
      | nil => cases here
      | cons c more =>
          obtain ⟨first, later⟩ := List.forall_mem_cons.1 earlier
          refine follows_match_false ready left first fun q s => ?_
          refine ih s.ready s.left here later yes fun q' s' front => ?_
          exact h q' ((Nat.zero_add 1) ▸ s.trans s') front

theorem follows_firstMatch_none {other : Parsing α} :
    ∀ {table : List ((Token → Bool) × Parsing α)} {p : Parser}, p.Ready → p.left = ts →
      (∀ c ∈ table, ts.head?.any c.1 = false) →
      (∀ q, Stands 0 p q ts → Follows low other q reply post) →
        Follows low (firstMatch table other) p reply post
  | [], p, ready, left, _, h => h p ⟨ready, left, rfl, rfl⟩
  | (sort, act) :: more, p, ready, left, no, h => by
      obtain ⟨first, later⟩ := List.forall_mem_cons.1 no
      refine follows_match_false ready left first fun q s => ?_
      exact follows_firstMatch_none s.ready s.left later fun q' s' => h q' (s.trans s')

theorem follows_matchAny_false {symbols : List Symbol} {next : Bool → Parsing α} (ready : p.Ready)
    (left : p.left = ts) (no : (ts.head?.any fun t => symbols.any t.isSymbol) = false)
    (h : ∀ q, Stands 0 p q ts → Follows low (next false) q reply post) :
    Follows low ((liftM (matchAny symbols) : Parsing Bool) >>= next) p reply post := by
  subst left
  obtain ⟨q, hq, steps⟩ := matchAny_false ready no
  exact .of_steps steps (lift_bind_eq hq) (h q (steps.stands ready))

theorem follows_matchAny_true {symbols : List Symbol} {next : Bool → Parsing α} (ready : p.Ready)
    (left : p.left = t :: rest) (yes : symbols.any t.isSymbol = true)
    (h : ∀ q, Stands 1 p q rest → q.tokens[q.current - 1]? = some t →
      Follows low (next true) q reply post) :
    Follows low ((liftM (matchAny symbols) : Parsing Bool) >>= next) p reply post := by
  obtain ⟨q, hq, steps, front⟩ := matchAny_true ready left yes
  have stands := steps.stands ready
  rw [left] at stands
  exact .of_steps steps (lift_bind_eq hq) (h q stands front)

theorem follows_previous {next : Token → Parsing α} (ready : p.Ready) (left : p.left = ts)
    (front : p.tokens[p.current - 1]? = some t)
    (h : ∀ q, Stands 0 p q ts → Follows low (next t) q reply post) :
    Follows low ((liftM previous : Parsing Token) >>= next) p reply post := by
  subst left
  obtain ⟨q, hq, steps⟩ := previous_eq ready front
  exact .of_steps steps (lift_bind_eq hq) (h q (steps.stands ready))

theorem follows_check {sort : Token → Bool} {next : Bool → Parsing α} (ready : p.Ready)
    (left : p.left = ts)
    (h : ∀ q, Stands 0 p q ts → Follows low (next (ts.head?.any sort)) q reply post) :
    Follows low ((liftM (check sort) : Parsing Bool) >>= next) p reply post := by
  subst left
  obtain ⟨q, hq, steps⟩ := check_eq sort ready
  exact .of_steps steps (lift_bind_eq hq) (h q (steps.stands ready))

/-! ## Refusals -/

/-- A refusal at the next token, or at the end. -/
theorem follows_throw {error : GrammarError} {ts : List Token} (ready : p.Ready)
    (left : p.left = ts) {β : Type} {post : Nat → α → β → Prop} :
    Follows low (do throw ⟨← (liftM peek : Parsing Token), error⟩ : Parsing α) p
      (.refuse error ts : Reply β ts.length) post := by
  obtain ⟨q, hq, steps⟩ := peek_left ready
  subst left
  exact ⟨q, (lift_bind_eq hq).trans rfl, steps.left_eq, steps.moves⟩

theorem follows_consume (sort : Token → Bool) {error : GrammarError} {t : Token}
    {rest : List Token} {shorter : rest.length < n} (ready : p.Ready) (left : p.left = t :: rest)
    (yes : sort t = true) :
    Follows low (consume sort error) p (.parsed t rest [] shorter) fun _ a b => a = b := by
  obtain ⟨q, hq, steps⟩ := check_eq sort ready
  rw [left, List.head?_cons, Option.any_some, yes] at hq
  obtain ⟨q', hq', steps', -⟩ := advance_eq (steps.ready ready) (steps.left_eq.trans left)
  refine ⟨t, q', (lift_bind_eq hq).trans ?_, ?_, (steps.trans steps').moves, rfl⟩
  · show ((advance q).bind _ : Option _) = _
    rw [hq']
    rfl
  · rw [steps'.left_eq, steps.left_eq, left]
    rfl

theorem follows_consume_refuse {sort : Token → Bool} {error : GrammarError} {ts : List Token}
    (ready : p.Ready) (left : p.left = ts) (no : ts.head?.any sort = false) :
    Follows low (consume sort error) p (.refuse error ts : Reply Token ts.length)
      fun _ a b => a = b := by
  obtain ⟨q, hq, steps⟩ := check_eq sort ready
  rw [left, no] at hq
  exact .of_steps steps (lift_bind_eq hq)
    (follows_throw (steps.ready ready) (steps.left_eq.trans left))

theorem follows_expect {s : Symbol} {error : GrammarError} {ts : List Token} (ready : p.Ready)
    (left : p.left = ts) :
    Follows low (consume (·.isSymbol s) error) p (expect s error ts) fun _ a b => a = b := by
  unfold expect
  split
  · exact follows_consume_refuse ready left rfl
  · split
    · next h => exact follows_consume _ ready left h
    · next h => exact follows_consume_refuse ready left (by simpa using h)

theorem follows_expectName {error : GrammarError} {ts : List Token} (ready : p.Ready)
    (left : p.left = ts) :
    Follows low (consume Token.isIdentifier error) p (expectName error ts) fun _ a b => a = b := by
  unfold expectName
  split
  · exact follows_consume_refuse ready left rfl
  · split
    · next h => exact follows_consume _ ready left (by rw [Token.isIdentifier, h])
    · next t _ h =>
        refine follows_consume_refuse ready left ?_
        rw [List.head?_cons, Option.any_some, Token.isIdentifier]
        split
        · next hk => exact absurd hk h
        · rfl

/-! ## Numbers, and reports that do not unwind -/

theorem Follows.of_moves {act' : Parsing α} {noted : List Complaint} (moves : Moves low p q noted)
    (run : act.run p = act'.run q) (h : Follows (max low q.current) act' q reply post) :
    Follows low act p (reply.noting noted) post := by
  have located : ∀ reason, q.locate reason = p.locate reason := fun reason => by
    rw [locate, locate, moves.tokens]
  have reaches : ∀ {s noted'}, Moves (max low q.current) q s noted' →
      Moves low p s (noted ++ noted') := fun moves' =>
    moves.trans moves' (Nat.le_max_left _ _) (Nat.le_max_right _ _)
  cases reply with
  | refused =>
      obtain ⟨s, run', left, moves'⟩ := h
      exact ⟨s, run.trans (located _ ▸ run'), left, reaches moves'⟩
  | parsed =>
      obtain ⟨a, s, run', left, moves', ha⟩ := h
      exact ⟨a, s, run.trans run', left, reaches moves', ha⟩

theorem freshId_eq (low : Nat) (ready : p.Ready) :
    ∃ q, freshId p = some (p.nextId, q) ∧ Moves low p q [] ∧ q.left = p.left ∧
      q.current = p.current ∧ q.nextId = p.nextId + 1 := by
  refine ⟨{ p with nextId := p.nextId + 1 }, rfl, ?_, rfl, rfl, rfl⟩
  exact ⟨rfl, Nat.le_refl _, ready.inside, Nat.le_succ _,
    ⟨[], (List.append_nil _).symm, .nil, nofun⟩, .of_eq rfl rfl, .of_eq rfl⟩

/-- A report of a complaint, which does not unwind. -/
theorem report_eq (low : Nat) (ready : p.Ready) (c : Complaint) :
    ∃ q, report (p.locate c) false p = some ((), q) ∧ Moves low p q [c] ∧ q.left = p.left ∧
      q.current = p.current ∧ q.nextId = p.nextId := by
  refine ⟨{ p with reports := p.reports ++ [⟨p.locate c, false⟩] }, rfl, ?_, rfl, rfl, rfl⟩
  refine ⟨rfl, Nat.le_refl _, ready.inside, Nat.le_refl _,
    ⟨[], (List.append_nil _).symm, .nil, nofun⟩, .of_eq rfl ?_, ⟨_, rfl, rfl⟩⟩
  simp [unwound]

@[simp] theorem noting_nil (reply : Reply β n) : reply.noting [] = reply := by cases reply <;> rfl

theorem map_eq_andThen (reply : Reply β n) (f : β → γ) :
    reply.map f = reply.andThen fun b rest _ => .keep (f b) rest := by
  cases reply with
  | refused => rfl
  | parsed b rest reports => simp only [Reply.map, Reply.andThen, Reply.keep, List.append_nil]

/-- A number is drawn. -/
theorem follows_freshId {next : Nat → Parsing α} {ts : List Token} (ready : p.Ready)
    (left : p.left = ts)
    (h : ∀ q, q.Ready → q.left = ts → q.current = p.current → q.tokens = p.tokens →
      q.nextId = p.nextId + 1 → Follows (max low q.current) (next p.nextId) q reply post) :
    Follows low ((liftM freshId : Parsing Nat) >>= next) p reply post := by
  obtain ⟨q, hq, moves, left', current, next⟩ := freshId_eq low ready
  rw [← noting_nil reply]
  exact .of_moves moves (lift_bind_eq hq)
    (h q (moves.ready ready) (left'.trans left) current moves.tokens next)

/-- A report at the next token, which does not unwind. -/
theorem noteNext_eq (low : Nat) {ts : List Token} (error : GrammarError) (ready : p.Ready)
    (left : p.left = ts) :
    ∃ q, noteNext error p = some ((), q) ∧ Moves low p q [⟨ts.head?, error⟩] ∧ q.left = ts ∧
      q.current = p.current ∧ q.nextId = p.nextId := by
  obtain ⟨q, hq, steps⟩ := peek_left ready
  have located : q.locate ⟨ts.head?, error⟩ = ⟨p.left.head?.getD (endToken p.tokens), error⟩ := by
    rw [locate, steps.tokens, left]
  obtain ⟨r, hr, moves, left', current, numbers⟩ :=
    report_eq low (steps.ready ready) ⟨ts.head?, error⟩
  exact ⟨r, (bind_eq hq).trans (located ▸ hr), steps.then moves,
    left'.trans (steps.left_eq.trans left), current.trans steps.current,
    numbers.trans steps.nextId⟩

/-- One item more than the limit is reported, and the parser goes on. -/
theorem follows_limit {error : GrammarError} {count : Nat} {ts : List Token}
    {next : Unit → Parsing α} (ready : p.Ready) (left : p.left = ts)
    (h : ∀ q, q.left = ts → q.Ready → q.current = p.current → q.nextId = p.nextId →
      Follows (max low q.current) (next ()) q reply post) :
    Follows low (if maxArguments ≤ count then (liftM (noteNext error) : Parsing Unit) >>= next
      else next ()) p (reply.noting (limitReport error count ts)) post := by
  unfold limitReport
  split
  · obtain ⟨q, hq, moves, left', current, numbers⟩ := noteNext_eq low error ready left
    exact .of_moves moves (lift_bind_eq hq) (h q left' (moves.ready ready) current numbers)
  · exact .of_moves (Steps.refl ready).moves rfl (h p left ready rfl rfl)

end Parser

/-! ## Numbers drawn -/

section Numbers

variable {α β : Type} {low mid high : Nat} {ss ss' : List (Option Nat)}

theorem HoldNumbers.nil : HoldNumbers low high [] := ⟨[], rfl, .nil, nofun⟩

theorem HoldNumbers.mono {low' high' : Nat} (h : HoldNumbers low high ss) (hlow : low' ≤ low)
    (hhigh : high ≤ high') : HoldNumbers low' high' ss := by
  obtain ⟨ids, eq, distinct, within⟩ := h
  exact ⟨ids, eq, distinct, fun id hid => ⟨Nat.le_trans hlow (within id hid).1,
    Nat.lt_of_lt_of_le (within id hid).2 hhigh⟩⟩

theorem HoldNumbers.singleton : HoldNumbers low (low + 1) [some low] :=
  ⟨[low], rfl, List.nodup_singleton _, by simp⟩

/-- Numbers drawn one after the other are different, in whatever order they stand in a tree. -/
theorem HoldNumbers.append (h : HoldNumbers low mid ss) (h' : HoldNumbers mid high ss')
    (hlow : low ≤ mid) (hhigh : mid ≤ high) :
    HoldNumbers low high (ss ++ ss') ∧ HoldNumbers low high (ss' ++ ss) := by
  obtain ⟨ids, rfl, distinct, within⟩ := h
  obtain ⟨ids', rfl, distinct', within'⟩ := h'
  have disjoint : List.Disjoint ids ids' := fun id hid hid' => by
    have := within id hid
    have := within' id hid'
    omega
  have bounds : ∀ id, id ∈ ids ∨ id ∈ ids' → low ≤ id ∧ id < high := by
    rintro id (hid | hid)
    · have := within id hid
      omega
    · have := within' id hid
      omega
  exact ⟨⟨ids ++ ids', (List.map_append ..).symm, distinct.append distinct' disjoint,
      fun id hid => bounds id (List.mem_append.1 hid)⟩,
    ⟨ids' ++ ids, (List.map_append ..).symm, distinct'.append distinct (List.disjoint_comm.1 disjoint),
      fun id hid => bounds id (List.mem_append.1 hid).symm⟩⟩

/-- The first is the second with numbers in its slots, all different and drawn between two
points. -/
structure Drawn (plain : α → β) (slots : α → List (Option Nat)) (low high : Nat) (a : α) (b : β) :
    Prop where
  plain_eq : plain a = b
  numbers : HoldNumbers low high (slots a)

theorem Drawn.mono {plain : α → β} {slots : α → List (Option Nat)} {low' high' : Nat} {a : α}
    {b : β} (h : Drawn plain slots low high a b) (hlow : low' ≤ low) (hhigh : high ≤ high') :
    Drawn plain slots low' high' a b := ⟨h.plain_eq, h.numbers.mono hlow hhigh⟩

end Numbers

end LoxLang
