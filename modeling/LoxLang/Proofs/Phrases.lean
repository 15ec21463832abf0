import LoxLang.Grammar.Rules

/-!
# What phrases derive

Derivations of a phrase taken apart by its form, and what all of them have in
common: every phrase derives something, and no list that a phrase derives
contains an end of the input.
-/

namespace LoxLang.Grammar.Phrase

variable {a b p q : Phrase} {n : Nonterminal} {x : Terminal} {ts us : List Token}

/-! ## By the form of the phrase -/

theorem derives_empty : empty.Derives ts ↔ ts = [] := by
  constructor
  · rintro ⟨⟩
    rfl
  · rintro rfl
    exact .empty

theorem derives_token : (token x).Derives ts ↔ ∃ t, ts = [t] ∧ x.Fits t := by
  constructor
  · rintro ⟨⟩
    next t fits => exact ⟨t, rfl, fits⟩
  · rintro ⟨t, rfl, fits⟩
    exact .token fits

theorem derives_word {s : Symbol} : (word s).Derives ts ↔ ∃ t, ts = [t] ∧ t.kind = .symbol s :=
  derives_token

theorem derives_name : name.Derives ts ↔ ∃ t, ts = [t] ∧ t.kind = .identifier := derives_token

theorem derives_use : (use n).Derives ts ↔ n.rule.Derives ts := by
  constructor
  · rintro ⟨⟩
    assumption
  · exact .use

theorem derives_seq :
    (seq a b).Derives ts ↔ ∃ front back, ts = front ++ back ∧ a.Derives front ∧ b.Derives back := by
  constructor
  · rintro ⟨⟩
    next first second => exact ⟨_, _, rfl, first, second⟩
  · rintro ⟨front, back, rfl, first, second⟩
    exact .seq first second

/-- A phrase behind a token. -/
theorem derives_token_seq :
    (seq (token x) b).Derives ts ↔ ∃ t back, ts = t :: back ∧ x.Fits t ∧ b.Derives back := by
  rw [derives_seq]
  constructor
  · rintro ⟨_, back, rfl, first, second⟩
    obtain ⟨t, rfl, fits⟩ := derives_token.1 first
    exact ⟨t, back, rfl, fits, second⟩
  · rintro ⟨t, back, rfl, fits, second⟩
    exact ⟨[t], back, rfl, .token fits, second⟩

theorem derives_word_seq {s : Symbol} :
    (seq (word s) b).Derives ts ↔ ∃ t back, ts = t :: back ∧ t.kind = .symbol s ∧ b.Derives back :=
  derives_token_seq

theorem derives_name_seq :
    (seq name b).Derives ts ↔ ∃ t back, ts = t :: back ∧ t.kind = .identifier ∧ b.Derives back :=
  derives_token_seq

theorem derives_either : (either a b).Derives ts ↔ a.Derives ts ∨ b.Derives ts := by
  constructor
  · rintro ⟨⟩
    · next h => exact .inl h
    · next h => exact .inr h
  · rintro (h | h)
    · exact .left h
    · exact .right h

theorem derives_maybe : (maybe a).Derives ts ↔ ts = [] ∨ a.Derives ts := by
  constructor
  · rintro ⟨⟩
    · exact .inl rfl
    · next h => exact .inr h
  · rintro (rfl | h)
    · exact .skip
    · exact .once h

theorem derives_many :
    (many a).Derives ts ↔
      ts = [] ∨ ∃ front back, ts = front ++ back ∧ a.Derives front ∧ (many a).Derives back := by
  constructor
  · rintro ⟨⟩
    · exact .inl rfl
    · next first others => exact .inr ⟨_, _, rfl, first, others⟩
  · rintro (rfl | ⟨front, back, rfl, first, others⟩)
    · exact .stop
    · exact .more first others

@[simp] theorem oneOf_nil : oneOf a [] = a := rfl
@[simp] theorem oneOf_cons {more : List Phrase} : oneOf a (b :: more) = either a (oneOf b more) :=
  rfl

/-- Each of the phrases will do, here the one at a position. -/
theorem derives_oneOf (i : Nat) {more : List Phrase} (at' : (a :: more)[i]? = some p)
    (h : p.Derives ts) : (oneOf a more).Derives ts := by
  induction more generalizing a i with
  | nil =>
      cases i with
      | zero =>
          cases at'
          exact h
      | succ i => cases at'
  | cons b more ih =>
      cases i with
      | zero =>
          cases at'
          exact .left h
      | succ i => exact .right (ih i at')

/-! ## Every phrase derives something -/

theorem exists_fits (x : Terminal) : ∃ t, x.Fits t := by
  cases x with
  | word s => exact ⟨⟨.symbol s, "", 1⟩, rfl⟩
  | operator level =>
      cases level
      · exact ⟨⟨.symbol .orWord, "", 1⟩, rfl⟩
      · exact ⟨⟨.symbol .andWord, "", 1⟩, rfl⟩
      · exact ⟨⟨.symbol .equalEqual, "", 1⟩, rfl⟩
      · exact ⟨⟨.symbol .less, "", 1⟩, rfl⟩
      · exact ⟨⟨.symbol .plus, "", 1⟩, rfl⟩
      · exact ⟨⟨.symbol .star, "", 1⟩, rfl⟩
  | identifier => exact ⟨⟨.identifier, "", 1⟩, rfl⟩
  | number => exact ⟨⟨.number 0, "", 1⟩, 0, rfl⟩
  | string => exact ⟨⟨.string "", "", 1⟩, "", rfl⟩

/-- The phrase derives something. -/
def Has (p : Phrase) : Prop := ∃ ts, p.Derives ts

theorem has_token (x : Terminal) : (token x).Has := by
  obtain ⟨t, fits⟩ := exists_fits x
  exact ⟨[t], .token fits⟩

theorem has_word (s : Symbol) : (word s).Has := has_token _

theorem has_name : name.Has := has_token _

theorem has_maybe : (maybe a).Has := ⟨[], .skip⟩

theorem has_many : (many a).Has := ⟨[], .stop⟩

theorem Has.seq (ha : a.Has) (hb : b.Has) : (seq a b).Has := by
  obtain ⟨_, ha⟩ := ha
  obtain ⟨_, hb⟩ := hb
  exact ⟨_, .seq ha hb⟩

theorem Has.left (h : a.Has) : (either a b).Has := h.imp fun _ => .left

theorem Has.right (h : b.Has) : (either a b).Has := h.imp fun _ => .right

theorem Has.use (h : n.rule.Has) : (use n).Has := h.imp fun _ => .use

theorem has_primary : (use .primary).Has := .use (.left (has_token _))

theorem has_call : (use .call).Has := .use (.seq has_primary has_many)

theorem has_unary : (use .unary).Has := .use (.right has_call)

theorem has_binary (level : Level) : (use (.binary level)).Has := by
  refine .use (.seq ?_ has_many)
  unfold Nonterminal.operand
  split
  · next tighter h =>
      have := Level.height_lt_of_tighter h
      exact has_binary tighter
  · exact has_unary
termination_by level.height

theorem has_assignment : (use .assignment).Has := .use (.right (has_binary .or))

theorem has_expression : (use .expression).Has := .use has_assignment

theorem has_exprStmt : (use .exprStmt).Has := .use (.seq has_expression (has_word _))

theorem has_statement : (use .statement).Has := .use (.left has_exprStmt)

theorem has_block : (use .block).Has := .use (.seq (has_word _) (.seq has_many (has_word _)))

theorem has_function : (use .function).Has :=
  .use (.seq has_name (.seq (has_word _) (.seq has_maybe (.seq (has_word _) has_block))))

/-- Each nonterminal has a sentence. -/
theorem has_use (n : Nonterminal) : (use n).Has := by
  cases n with
  | declaration => exact .use (.right (.right (.right has_statement)))
  | classDecl =>
      exact .use (.seq (has_word _) (.seq has_name (.seq has_maybe (.seq (has_word _)
        (.seq has_many (has_word _))))))
  | funDecl => exact .use (.seq (has_word _) has_function)
  | function => exact has_function
  | parameters => exact .use (.seq has_name has_many)
  | varDecl => exact .use (.seq (has_word _) (.seq has_name (.seq has_maybe (has_word _))))
  | statement => exact has_statement
  | exprStmt => exact has_exprStmt
  | forStmt =>
      exact .use (.seq (has_word _) (.seq (has_word _) (.seq (.right (.right (has_word _)))
        (.seq has_maybe (.seq (has_word _) (.seq has_maybe (.seq (has_word _) has_statement)))))))
  | ifStmt =>
      exact .use (.seq (has_word _) (.seq (has_word _) (.seq has_expression
        (.seq (has_word _) (.seq has_statement has_maybe)))))
  | printStmt => exact .use (.seq (has_word _) (.seq has_expression (has_word _)))
  | returnStmt => exact .use (.seq (has_word _) (.seq has_maybe (has_word _)))
  | whileStmt =>
      exact .use (.seq (has_word _) (.seq (has_word _) (.seq has_expression
        (.seq (has_word _) has_statement))))
  | block => exact has_block
  | expression => exact has_expression
  | assignment => exact has_assignment
  | binary level => exact has_binary level
  | unary => exact has_unary
  | call => exact has_call
  | arguments => exact .use (.seq has_expression has_many)
  | primary => exact has_primary

/-- Every phrase derives something. -/
theorem has : ∀ p : Phrase, p.Has
  | .empty => ⟨[], .empty⟩
  | .token x => has_token x
  | .use n => has_use n
  | .seq a b => a.has.seq b.has
  | .either a _ => a.has.left
  | .maybe _ => has_maybe
  | .many _ => has_many

/-! ## No sentence contains an end of the input -/

theorem inner_of_fits {t : Token} (fits : x.Fits t) : t.isEnd = false := by
  cases hk : t.kind <;> simp [Token.isEnd, hk]
  cases x <;> simp [Terminal.Fits, Level.hasOperator, Token.isSymbol, hk] at fits

theorem Derives.inner (h : p.Derives ts) : ∀ t ∈ ts, t.isEnd = false := by
  induction h with
  | empty | skip | stop => nofun
  | token fits => exact List.forall_mem_singleton.2 (inner_of_fits fits)
  | use _ ih | left _ ih | right _ ih | once _ ih => exact ih
  | seq _ _ ih ih' | more _ _ ih ih' => exact List.forall_mem_append.2 ⟨ih, ih'⟩

/-! ## Beginnings -/

theorem Viable.imp (h : p.Viable ts) (imp : ∀ us, p.Derives us → q.Derives us) : q.Viable ts :=
  Exists.imp (fun _ => imp _) h

/-- What begins the first part begins the whole, since the second part can follow. -/
theorem Viable.seq (h : a.Viable ts) : (seq a b).Viable ts := by
  obtain ⟨more, ha⟩ := h
  obtain ⟨us, hb⟩ := b.has
  exact ⟨more ++ us, by rw [← List.append_assoc]; exact .seq ha hb⟩

theorem Derives.seq_viable (h : a.Derives ts) (h' : b.Viable us) :
    (Phrase.seq a b).Viable (ts ++ us) := by
  obtain ⟨more, hb⟩ := h'
  exact ⟨more, by rw [List.append_assoc]; exact .seq h hb⟩

end LoxLang.Grammar.Phrase
