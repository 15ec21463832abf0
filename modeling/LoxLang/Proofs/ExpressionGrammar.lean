import LoxLang.Proofs.Derivation
import LoxLang.Proofs.ExpressionSteps

/-!
# Expressions are read by their grammar

The parser of expressions reads exactly the sentences of the grammar.

Soundness follows the recursion of the parser. The loops carry the derivation
of what stands to the left, since they build left-recursive derivations from
the outside in.

Completeness follows the derivation, and it has to say where a sentence may
stop: the parser is greedy, so it reads a sentence only in front of a token
that cannot go on with it. `looseness` orders the tokens that can, from the
ones that bind tightest on; a sentence of a level stops in front of a looser
token or of one that continues nothing. For a left operand the claim is put in
terms of the loop: whatever the loop makes of the operand and the rest, the
level makes of the whole.
-/

namespace LoxLang

open LoxLang.Derivation Grammar

/-! ## The levels of binary operators, as one -/

namespace Level

variable {level : Level} {ts mid rest : List Token} {t : Token} {e l r : Expr}

/-- The nonterminal of a level. -/
def Derives : Level → List Token → Expr → List Token → Prop
  | .or => Or
  | .and => And
  | .equality => Equality
  | .comparison => Comparison
  | .term => Term
  | .factor => Factor

/-- The nonterminal of the operands of a level. -/
def Operand : Level → List Token → Expr → List Token → Prop
  | .or => And
  | .and => Equality
  | .equality => Comparison
  | .comparison => Term
  | .term => Factor
  | .factor => Unary

theorem operand_of_tighter {tighter : Level} (h : level.tighter = some tighter) :
    level.Operand = tighter.Derives := by
  cases level <;> cases h <;> rfl

theorem operand_of_tightest (h : level.tighter = none) : level.Operand = Unary := by
  cases level <;> cases h
  rfl

theorem Operand.derives (h : level.Operand ts e rest) : level.Derives ts e rest := by
  cases level with
  | or => exact .and h
  | and => exact .equality h
  | equality => exact .comparison h
  | comparison => exact .term h
  | term => exact .factor h
  | factor => exact .unary h

theorem Derives.join (left : level.Derives ts l (t :: mid)) (operator : level.hasOperator t)
    (right : level.Operand mid r rest) : level.Derives ts (level.node l t r) rest := by
  cases level <;> simp only [hasOperator, operators, List.any_cons, List.any_nil, Bool.or_false,
    Bool.or_eq_true, Token.isSymbol_iff] at operator
  case or => exact .join left operator right
  case and => exact .join left operator right
  case equality => exact .join left operator right
  case comparison => exact .join left operator right
  case term => exact .join left operator right
  case factor => exact .join left operator.symm right

end Level

/-! ## Soundness -/

namespace Grammar

variable {ts rest : List Token} {e : Expr}

/-- A name or a property that is read at the loosest level stands there alone. -/
theorem call_of_or (h : Or ts e rest) (logical : ∀ l t r, e ≠ .logical l t r)
    (binary : ∀ l t r, e ≠ .binary l t r) (unary : ∀ t r, e ≠ .unary t r) : Call ts e rest := by
  obtain ⟨h⟩ | ⟨_, _, _⟩ := h
  · obtain ⟨h⟩ | ⟨_, _, _⟩ := h
    · obtain ⟨h⟩ | ⟨_, _, _⟩ := h
      · obtain ⟨h⟩ | ⟨_, _, _⟩ := h
        · obtain ⟨h⟩ | ⟨_, _, _⟩ := h
          · obtain ⟨h⟩ | ⟨_, _, _⟩ := h
            · obtain ⟨_, _⟩ | ⟨h⟩ := h
              · exact absurd rfl (unary _ _)
              · exact h
            · exact absurd rfl (binary _ _ _)
          · exact absurd rfl (binary _ _ _)
        · exact absurd rfl (binary _ _ _)
      · exact absurd rfl (binary _ _ _)
    · exact absurd rfl (logical _ _ _)
  · exact absurd rfl (logical _ _ _)

theorem name_of_or {x : Token} {depth : Option Nat} (h : Or ts (.name x depth) rest) :
    ts = x :: rest ∧ x.kind = .identifier ∧ depth = none := by
  cases call_of_or h (by simp) (by simp) (by simp) with
  | primary h =>
      cases h with
      | name kind => exact ⟨rfl, kind, rfl⟩

theorem property_of_or {object : Expr} {x : Token} (h : Or ts (.get object x) rest) :
    ∃ dot, Call ts object (dot :: x :: rest) ∧ dot.kind = .symbol .dot ∧
      x.kind = .identifier := by
  cases call_of_or h (by simp) (by simp) (by simp) with
  | primary h => cases h
  | property call point name => exact ⟨_, call, point, name⟩

mutual

theorem expression_sound {ts rest : List Token} {e : Expr} (h : (expression ts).Reads e rest) :
    Expression ts e rest := by
  rcases expression_reads.1 h with ⟨h, -⟩ | ⟨target, t, mid, value, ht, hk, hv, ha⟩
  · exact .or (binary_sound h)
  · have := ht.length_lt
    have value := expression_sound hv
    rcases assigned_eq_iff.1 ha with ⟨x, depth, rfl, rfl⟩ | ⟨object, x, rfl, rfl⟩
    · obtain ⟨rfl, name, -⟩ := name_of_or (binary_sound ht)
      exact .assign name hk value
    · obtain ⟨dot, call, point, name⟩ := property_of_or (binary_sound ht)
      exact .set call point name hk value
termination_by 32 * ts.length + 20
decreasing_by all_goals simp only [List.length_cons, Level.height] at *; omega

theorem binary_sound {level : Level} {ts rest : List Token} {e : Expr}
    (h : (binary level ts).Reads e rest) : level.Derives ts e rest := by
  obtain ⟨left, mid, hl, h⟩ := binary_reads.1 h
  have := hl.length_lt
  exact binaryRest_sound (operand_sound hl).derives h
termination_by 32 * ts.length + 2 * level.height + 5
decreasing_by all_goals omega

theorem operand_sound {level : Level} {ts rest : List Token} {e : Expr}
    (h : (operand level ts).Reads e rest) : level.Operand ts e rest := by
  cases ht : level.tighter with
  | some tighter =>
      have := Level.height_lt_of_tighter ht
      rw [Level.operand_of_tighter ht]
      exact binary_sound ((operand_reads_some ht).1 h)
  | none =>
      rw [Level.operand_of_tightest ht]
      exact unary_sound ((operand_reads_none ht).1 h)
termination_by 32 * ts.length + 2 * level.height + 4
decreasing_by all_goals omega

/-- What the loop reads extends the derivation of what it started with. -/
theorem binaryRest_sound {level : Level} {all ts rest : List Token} {left e : Expr}
    (before : level.Derives all left ts) (h : (binaryRest level left ts).Reads e rest) :
    level.Derives all e rest := by
  rcases binaryRest_reads.1 h with ⟨rfl, rfl, -⟩ | ⟨t, mid, right, mid', rfl, hop, hr, h⟩
  · exact before
  · have := hr.length_lt
    have : level.height ≤ 5 := by cases level <;> decide
    exact binaryRest_sound (before.join hop (operand_sound hr)) h
termination_by 32 * ts.length
decreasing_by all_goals subst_vars; simp only [List.length_cons]; omega

theorem unary_sound {ts rest : List Token} {e : Expr} (h : (unary ts).Reads e rest) :
    Unary ts e rest := by
  rcases unary_reads.1 h with ⟨h, -⟩ | ⟨t, mid, right, rfl, hop, hr, rfl⟩
  · exact .call (call_sound h)
  · exact .sign hop (unary_sound hr)
termination_by 32 * ts.length + 3
decreasing_by all_goals (try subst_vars); (try simp only [List.length_cons]); omega

theorem call_sound {ts rest : List Token} {e : Expr} (h : (call ts).Reads e rest) :
    Call ts e rest := by
  obtain ⟨head, mid, hh, h⟩ := call_reads.1 h
  have := hh.length_lt
  exact callRest_sound (.primary (primary_sound hh)) h
termination_by 32 * ts.length + 2
decreasing_by all_goals omega

theorem callRest_sound {all ts rest : List Token} {left e : Expr} (before : Call all left ts)
    (h : (callRest left ts).Reads e rest) : Call all e rest := by
  rcases callRest_reads.1 h with ⟨rfl, rfl, -⟩ |
    ⟨t, mid, list, paren, mid', rfl, hp, ha, h⟩ | ⟨t, x, mid, rfl, point, name, h⟩
  · exact before
  · have := ha.length_lt
    refine callRest_sound ?_ h
    rcases arguments_reads.1 ha with ⟨rfl, rfl, close⟩ | ⟨-, ha⟩
    · exact .noArguments before hp close
    · obtain ⟨arguments, close, limit⟩ := someArguments_sound ha
      exact .arguments before hp arguments close (by omega)
  · exact callRest_sound (.property before point name) h
termination_by 32 * ts.length
decreasing_by all_goals subst_vars; simp only [List.length_cons]; omega

theorem someArguments_sound {count : Nat} {ts rest : List Token} {list : List Expr}
    {paren : Token} (h : (someArguments count ts).Reads (list, paren) rest) :
    Arguments ts list (paren :: rest) ∧ paren.kind = .symbol .rightParen ∧
      count + list.length ≤ 255 := by
  obtain ⟨limit, e, mid, he, h⟩ := someArguments_reads.1 h
  have := he.length_lt
  have first := expression_sound he
  rcases h with ⟨rfl, rfl, close⟩ | ⟨comma, mid', list', rfl, sep, hm, rfl⟩
  · exact ⟨.last first, close, limit⟩
  · obtain ⟨more, close, limit'⟩ := someArguments_sound hm
    refine ⟨.more first sep more, close, ?_⟩
    rw [List.length_cons]
    omega
termination_by 32 * ts.length + 21
decreasing_by all_goals (try simp only [List.length_cons] at *); omega

theorem primary_sound {ts rest : List Token} {e : Expr} (h : (primary ts).Reads e rest) :
    Primary ts e rest := by
  match ts, h with
  | [], h => rw [primary] at h; exact absurd h Reply.not_reads_refuse
  | t :: mid, h =>
      rw [primary] at h
      split at h
      case h_8 word =>
        obtain ⟨dot, mid', hd, _, hm⟩ := Reply.reads_andThen.1 (Reply.reads_widen.1 h)
        obtain ⟨rfl, point⟩ := expect_reads.1 hd
        obtain ⟨x, hx, rfl⟩ := Reply.reads_map.1 (Reply.reads_widen.1 hm)
        obtain ⟨rfl, method⟩ := expectName_reads.1 hx
        exact .super word point method
      case h_9 opening =>
        obtain ⟨inner, mid', hi, _, h⟩ := Reply.reads_andThen.1 (Reply.reads_widen.1 h)
        obtain ⟨closing, hc, rfl⟩ := Reply.reads_map.1 (Reply.reads_widen.1 h)
        obtain ⟨rfl, close⟩ := expect_reads.1 hc
        exact .group opening (expression_sound hi) close
      case h_10 => exact absurd h Reply.not_reads_refuse
      all_goals
        next kind =>
          obtain ⟨rfl, rfl, -⟩ := Reply.reads_parsed.1 h
          first
            | exact .number kind
            | exact .string kind
            | exact .true kind
            | exact .false kind
            | exact .nil kind
            | exact .this kind
            | exact .name kind
termination_by 32 * ts.length + 1
decreasing_by all_goals simp only [List.length_cons]; omega

end

end Grammar

/-! ## How sentences begin -/

namespace Derivation

/-- May a primary expression begin with the token? -/
def StartsPrimary (t : Token) : Prop :=
  match t.kind with
  | .number _ | .string _ | .identifier => True
  | .symbol s => s ∈ [Symbol.trueWord, .falseWord, .nilWord, .thisWord, .superWord, .leftParen]
  | .eof => False

/-- May an expression begin with the token? -/
def StartsExpression (t : Token) : Prop := StartsPrimary t ∨ IsSign t

theorem StartsPrimary.not_isSign {t : Token} (h : StartsPrimary t) : ¬ IsSign t := by
  rintro (hk | hk) <;> simp [StartsPrimary, hk] at h

/-- An expression begins with none of the symbols that the parsers look for in its place. -/
theorem StartsExpression.kind_ne {t : Token} (h : StartsExpression t) {s : Symbol}
    (hs : s ∉ [Symbol.trueWord, .falseWord, .nilWord, .thisWord, .superWord, .leftParen, .bang,
      .minus]) : t.kind ≠ .symbol s := by
  intro hk
  simp only [List.mem_cons, List.not_mem_nil, or_false, not_or] at hs
  obtain ⟨h1, h2, h3, h4, h5, h6, h7, h8⟩ := hs
  rcases h with h | h | h
  · simp [StartsPrimary, hk, h1, h2, h3, h4, h5, h6] at h
  · exact h7 (by simpa [hk] using h)
  · exact h8 (by simpa [hk] using h)

theorem Primary.first {ts rest : List Token} {e : Expr} (h : Primary ts e rest) :
    ∃ t tail, ts = t :: tail ∧ StartsPrimary t := by
  cases h
  case group opening _ _ => exact ⟨_, _, rfl, by simp [StartsPrimary, opening]⟩
  case super word _ _ => exact ⟨_, _, rfl, by simp [StartsPrimary, word]⟩
  all_goals next kind => exact ⟨_, _, rfl, by simp [StartsPrimary, kind]⟩

theorem Call.first : ∀ {ts rest : List Token} {e : Expr}, Call ts e rest →
    ∃ t tail, ts = t :: tail ∧ StartsPrimary t
  | _, _, _, .primary h => h.first
  | _, _, _, .noArguments h _ _ | _, _, _, .arguments h _ _ _ _ | _, _, _, .property h _ _ =>
      h.first

theorem Unary.first {ts rest : List Token} {e : Expr} (h : Unary ts e rest) :
    ∃ t tail, ts = t :: tail ∧ StartsExpression t := by
  cases h with
  | sign operator _ => exact ⟨_, _, rfl, .inr operator⟩
  | call h =>
      obtain ⟨t, tail, rfl, ht⟩ := h.first
      exact ⟨t, tail, rfl, .inl ht⟩

theorem Factor.first : ∀ {ts rest : List Token} {e : Expr}, Factor ts e rest →
    ∃ t tail, ts = t :: tail ∧ StartsExpression t
  | _, _, _, .unary h => h.first
  | _, _, _, .join h _ _ => h.first

theorem Term.first : ∀ {ts rest : List Token} {e : Expr}, Term ts e rest →
    ∃ t tail, ts = t :: tail ∧ StartsExpression t
  | _, _, _, .factor h => h.first
  | _, _, _, .join h _ _ => h.first

theorem Comparison.first : ∀ {ts rest : List Token} {e : Expr}, Comparison ts e rest →
    ∃ t tail, ts = t :: tail ∧ StartsExpression t
  | _, _, _, .term h => h.first
  | _, _, _, .join h _ _ => h.first

theorem Equality.first : ∀ {ts rest : List Token} {e : Expr}, Equality ts e rest →
    ∃ t tail, ts = t :: tail ∧ StartsExpression t
  | _, _, _, .comparison h => h.first
  | _, _, _, .join h _ _ => h.first

theorem And.first : ∀ {ts rest : List Token} {e : Expr}, And ts e rest →
    ∃ t tail, ts = t :: tail ∧ StartsExpression t
  | _, _, _, .equality h => h.first
  | _, _, _, .join h _ _ => h.first

theorem Or.first : ∀ {ts rest : List Token} {e : Expr}, Or ts e rest →
    ∃ t tail, ts = t :: tail ∧ StartsExpression t
  | _, _, _, .and h => h.first
  | _, _, _, .join h _ _ => h.first

theorem Expression.first {ts rest : List Token} {e : Expr} (h : Expression ts e rest) :
    ∃ t tail, ts = t :: tail ∧ StartsExpression t := by
  cases h with
  | assign name _ _ => exact ⟨_, _, rfl, .inl (by simp [StartsPrimary, name])⟩
  | set call _ _ _ _ =>
      obtain ⟨t, tail, rfl, ht⟩ := call.first
      exact ⟨t, tail, rfl, .inl ht⟩
  | or h => exact h.first

/-- No expression stands in front of a symbol that begins none. -/
theorem Expression.notNext {ts rest : List Token} {e : Expr} (h : Expression ts e rest)
    {s : Symbol} (hs : s ∉ [Symbol.trueWord, .falseWord, .nilWord, .thisWord, .superWord,
      .leftParen, .bang, .minus]) : NotNext s ts := by
  obtain ⟨t, tail, rfl, ht⟩ := h.first
  exact notNext_cons.2 (ht.kind_ne hs)

theorem Arguments.notNext {ts rest : List Token} {es : List Expr} (h : Arguments ts es rest) :
    NotNext .rightParen ts := by
  cases h with
  | last h => exact h.notNext (by decide)
  | more h _ _ => exact h.notNext (by decide)

end Derivation

/-! ## Where sentences stop -/

/-- How loosely a token continues the expression in front of it; 8 if it does not. -/
def Token.looseness (t : Token) : Nat :=
  match t.kind with
  | .symbol .leftParen | .symbol .dot => 0
  | .symbol .star | .symbol .slash => 1
  | .symbol .minus | .symbol .plus => 2
  | .symbol .greater | .symbol .greaterEqual | .symbol .less | .symbol .lessEqual => 3
  | .symbol .bangEqual | .symbol .equalEqual => 4
  | .symbol .andWord => 5
  | .symbol .orWord => 6
  | .symbol .equal => 7
  | _ => 8

namespace Grammar

/-- The next token, if there is one, is at least that loose. -/
def Stops (n : Nat) (ts : List Token) : Prop :=
  ∀ t tail, ts = t :: tail → n ≤ t.looseness

theorem Stops.mono {n m : Nat} {ts : List Token} (h : Stops n ts) (hle : m ≤ n) : Stops m ts :=
  fun t tail ht => Nat.le_trans hle (h t tail ht)

theorem stops_nil {n : Nat} : Stops n [] := fun _ _ h => nomatch h

theorem stops_cons {n : Nat} {t : Token} {ts : List Token} (h : n ≤ t.looseness) :
    Stops n (t :: ts) := by
  rintro _ _ ⟨⟩
  exact h

theorem Stops.notNext {n : Nat} {ts : List Token} {s : Symbol} (h : Stops n ts)
    (hs : ∀ t : Token, t.kind = .symbol s → t.looseness < n) : NotNext s ts := by
  intro t tail ht hk
  have := h t tail ht
  have := hs t hk
  omega

theorem hasOperator_iff {level : Level} {t : Token} :
    level.hasOperator t = true ↔ t.looseness = level.height + 1 := by
  unfold Token.looseness
  cases level <;>
    simp only [Level.hasOperator, Level.operators, Level.height, List.any_cons, List.any_nil,
      Bool.or_false, Bool.or_eq_true, Token.isSymbol_iff] <;>
    split <;> simp_all

theorem binaryRest_stops {level : Level} {e : Expr} {ts : List Token}
    (h : Stops (level.height + 2) ts) : (binaryRest level e ts).Reads e ts := by
  refine binaryRest_reads.2 (.inl ⟨rfl, rfl, fun t tail ht => ?_⟩)
  have := h t tail ht
  rw [Bool.eq_false_iff, ne_eq, hasOperator_iff]
  omega

theorem callRest_stops {e : Expr} {ts : List Token} (h : Stops 1 ts) :
    (callRest e ts).Reads e ts := by
  refine callRest_reads.2 (.inl ⟨rfl, rfl, h.notNext ?_, h.notNext ?_⟩) <;>
    intro t ht <;> simp [Token.looseness, ht]

/-! ## Completeness -/

/-- Whatever the loop of a level makes of `left` and `mid`, the level makes of `ts`. -/
def Leads (level : Level) (ts : List Token) (left : Expr) (mid : List Token) : Prop :=
  ∀ e rest, (binaryRest level left mid).Reads e rest → (binary level ts).Reads e rest

/-- The same for calls and property accesses. -/
def LeadsCall (ts : List Token) (left : Expr) (mid : List Token) : Prop :=
  ∀ e rest, (callRest left mid).Reads e rest → (call ts).Reads e rest

section Levels

variable {level tighter : Level} {ts mid rest : List Token} {t : Token} {e l r : Expr}

theorem leads_of_operand (h : (operand level ts).Reads l mid) : Leads level ts l mid :=
  fun _ _ he => binary_reads.2 ⟨l, mid, h, he⟩

theorem Leads.join (left : Leads level ts l (t :: mid)) (operator : level.hasOperator t)
    (right : (operand level mid).Reads r rest) : Leads level ts (level.node l t r) rest :=
  fun e rest' he => left e rest' (binaryRest_reads.2 (.inr ⟨t, mid, r, rest, rfl, operator,
    right, he⟩))

theorem Leads.binary (h : Leads level ts e rest) (hs : Stops (level.height + 2) rest) :
    (binary level ts).Reads e rest := h e rest (binaryRest_stops hs)

theorem Leads.operand (h : Leads tighter ts e rest) (ht : level.tighter = some tighter)
    (hs : Stops (tighter.height + 2) rest) : (operand level ts).Reads e rest :=
  (operand_reads_some ht).2 (h.binary hs)

theorem stops_operator (operator : level.hasOperator t) : Stops (level.height + 1) (t :: ts) :=
  stops_cons (Nat.le_of_eq (hasOperator_iff.1 operator).symm)

/-- What stands in front of a loose token is read alike at all levels. -/
theorem binary_of_unary {level : Level} (h : (unary ts).Reads e rest)
    (hs : Stops (level.height + 2) rest) : (Grammar.binary level ts).Reads e rest := by
  refine (leads_of_operand ?_).binary hs
  cases ht : level.tighter with
  | none => exact (operand_reads_none ht).2 h
  | some tighter =>
      have := Level.height_lt_of_tighter ht
      exact (operand_reads_some ht).2 (binary_of_unary h (hs.mono (by omega)))
termination_by level.height

theorem unary_of_call (h : (call ts).Reads e rest) {tail : List Token} (hts : ts = t :: tail)
    (first : StartsPrimary t) : (unary ts).Reads e rest := by
  refine unary_reads.2 (.inl ⟨h, ?_⟩)
  rintro _ _ rfl
  cases hts
  exact first.not_isSign

end Levels

theorem stops_of_kind {n : Nat} {t : Token} {ts : List Token} {s : Symbol}
    (hk : t.kind = .symbol s) (hn : n ≤ (Token.mk (.symbol s) "" 0).looseness) :
    Stops n (t :: ts) := by
  refine stops_cons (Nat.le_trans hn (Nat.le_of_eq ?_))
  unfold Token.looseness
  rw [hk]

theorem primary_name {t : Token} {rest : List Token} (kind : t.kind = .identifier) :
    (primary (t :: rest)).Reads (.name t none) rest := by
  rw [primary, kind]
  exact Reply.reads_parsed.2 ⟨rfl, rfl, rfl⟩

/-- The two kinds of targets, each in front of its equals sign. -/
theorem or_name {x equals : Token} {ts : List Token} (name : x.kind = .identifier)
    (eq : equals.kind = .symbol .equal) :
    (binary .or (x :: equals :: ts)).Reads (.name x none) (equals :: ts) := by
  have call : (call (x :: equals :: ts)).Reads (.name x none) (equals :: ts) := call_reads.2
    ⟨_, _, primary_name name, callRest_stops (stops_of_kind eq (by decide))⟩
  have unary := unary_of_call call rfl (by simp [StartsPrimary, name])
  exact binary_of_unary unary (stops_of_kind eq (by decide))

theorem or_property {ts mid : List Token} {object : Expr} {dot x equals : Token}
    (first : ∃ t tail, ts = t :: tail ∧ StartsPrimary t)
    (h : LeadsCall ts object (dot :: x :: equals :: mid)) (point : dot.kind = .symbol .dot)
    (name : x.kind = .identifier) (eq : equals.kind = .symbol .equal) :
    (binary .or ts).Reads (.get object x) (equals :: mid) := by
  have access : (callRest object (dot :: x :: equals :: mid)).Reads (.get object x)
      (equals :: mid) :=
    callRest_reads.2 (.inr (.inr ⟨dot, x, _, rfl, point, name,
      callRest_stops (stops_of_kind eq (by decide))⟩))
  obtain ⟨t, tail, hts, first⟩ := first
  have unary := unary_of_call (h _ _ access) hts first
  exact binary_of_unary unary (stops_of_kind eq (by decide))

mutual

theorem expression_complete : ∀ {ts rest : List Token} {e : Expr}, Expression ts e rest →
    Stops 8 rest → (expression ts).Reads e rest
  | _, _, _, .assign name eq value, hs =>
      expression_reads.2 (.inr ⟨_, _, _, _, or_name name eq, eq, expression_complete value hs,
        assigned_eq_iff.2 (.inl ⟨_, none, rfl, rfl⟩)⟩)
  | _, _, _, .set object point name eq value, hs =>
      expression_reads.2 (.inr ⟨_, _, _, _,
        or_property object.first (call_complete object) point name eq, eq,
        expression_complete value hs, assigned_eq_iff.2 (.inr ⟨_, _, rfl, rfl⟩)⟩)
  | _, _, _, .or h, hs =>
      expression_reads.2 (.inl ⟨(or_complete h (hs.mono (by decide))).binary
        (hs.mono (by decide)), hs.notNext fun _ ht => by simp [Token.looseness, ht]⟩)

theorem or_complete : ∀ {ts rest : List Token} {e : Expr}, Or ts e rest → Stops 6 rest →
    Leads .or ts e rest
  | _, _, _, .and h, hs =>
      leads_of_operand ((and_complete h (hs.mono (by decide))).operand rfl hs)
  | _, _, _, .join left operator right, hs =>
      have op : Level.hasOperator .or _ := hasOperator_iff.2 (by
        simp [Token.looseness, operator, Level.height])
      (or_complete left (stops_operator op)).join op
        ((and_complete right (hs.mono (by decide))).operand rfl hs)

theorem and_complete : ∀ {ts rest : List Token} {e : Expr}, And ts e rest → Stops 5 rest →
    Leads .and ts e rest
  | _, _, _, .equality h, hs =>
      leads_of_operand ((equality_complete h (hs.mono (by decide))).operand rfl hs)
  | _, _, _, .join left operator right, hs =>
      have op : Level.hasOperator .and _ := hasOperator_iff.2 (by
        simp [Token.looseness, operator, Level.height])
      (and_complete left (stops_operator op)).join op
        ((equality_complete right (hs.mono (by decide))).operand rfl hs)

theorem equality_complete : ∀ {ts rest : List Token} {e : Expr}, Equality ts e rest →
    Stops 4 rest → Leads .equality ts e rest
  | _, _, _, .comparison h, hs =>
      leads_of_operand ((comparison_complete h (hs.mono (by decide))).operand rfl hs)
  | _, _, _, .join left operator right, hs =>
      have op : Level.hasOperator .equality _ := hasOperator_iff.2 (by
        rcases operator with h | h <;> simp [Token.looseness, h, Level.height])
      (equality_complete left (stops_operator op)).join op
        ((comparison_complete right (hs.mono (by decide))).operand rfl hs)

theorem comparison_complete : ∀ {ts rest : List Token} {e : Expr}, Comparison ts e rest →
    Stops 3 rest → Leads .comparison ts e rest
  | _, _, _, .term h, hs =>
      leads_of_operand ((term_complete h (hs.mono (by decide))).operand rfl hs)
  | _, _, _, .join left operator right, hs =>
      have op : Level.hasOperator .comparison _ := hasOperator_iff.2 (by
        rcases operator with h | h | h | h <;> simp [Token.looseness, h, Level.height])
      (comparison_complete left (stops_operator op)).join op
        ((term_complete right (hs.mono (by decide))).operand rfl hs)

theorem term_complete : ∀ {ts rest : List Token} {e : Expr}, Term ts e rest → Stops 2 rest →
    Leads .term ts e rest
  | _, _, _, .factor h, hs =>
      leads_of_operand ((factor_complete h (hs.mono (by decide))).operand rfl hs)
  | _, _, _, .join left operator right, hs =>
      have op : Level.hasOperator .term _ := hasOperator_iff.2 (by
        rcases operator with h | h <;> simp [Token.looseness, h, Level.height])
      (term_complete left (stops_operator op)).join op
        ((factor_complete right (hs.mono (by decide))).operand rfl hs)

theorem factor_complete : ∀ {ts rest : List Token} {e : Expr}, Factor ts e rest →
    Stops 1 rest → Leads .factor ts e rest
  | _, _, _, .unary h, hs => leads_of_operand ((operand_reads_none rfl).2 (unary_complete h hs))
  | _, _, _, .join left operator right, hs =>
      have op : Level.hasOperator .factor _ := hasOperator_iff.2 (by
        rcases operator with h | h <;> simp [Token.looseness, h, Level.height])
      (factor_complete left (stops_operator op)).join op
        ((operand_reads_none rfl).2 (unary_complete right hs))

theorem unary_complete : ∀ {ts rest : List Token} {e : Expr}, Unary ts e rest → Stops 1 rest →
    (unary ts).Reads e rest
  | _, _, _, .sign operator h, hs =>
      unary_reads.2 (.inr ⟨_, _, _, rfl, operator, unary_complete h hs, rfl⟩)
  | _, _, _, .call h, hs => by
      obtain ⟨t, tail, hts, first⟩ := h.first
      exact unary_of_call (call_complete h _ _ (callRest_stops hs)) hts first

theorem call_complete : ∀ {ts rest : List Token} {e : Expr}, Call ts e rest →
    LeadsCall ts e rest
  | _, _, _, .primary h => fun _ _ he => call_reads.2 ⟨_, _, primary_complete h, he⟩
  | _, _, _, .noArguments h opening close => fun e rest he =>
      call_complete h e rest (callRest_reads.2 (.inr (.inl ⟨_, _, [], _, _, rfl, opening,
        arguments_reads.2 (.inl ⟨rfl, rfl, close⟩), he⟩)))
  | _, _, _, .arguments h opening list close limit => fun e rest he =>
      call_complete h e rest (callRest_reads.2 (.inr (.inl ⟨_, _, _, _, _, rfl, opening,
        arguments_reads.2 (.inr ⟨list.notNext,
          someArguments_complete list rfl close (by omega)⟩), he⟩)))
  | _, _, _, .property h point name => fun e rest he =>
      call_complete h e rest (callRest_reads.2 (.inr (.inr ⟨_, _, _, rfl, point, name, he⟩)))

theorem someArguments_complete : ∀ {ts mid : List Token} {es : List Expr}, Arguments ts es mid →
    ∀ {paren : Token} {rest : List Token} {count : Nat}, mid = paren :: rest →
    paren.kind = .symbol .rightParen → count + es.length ≤ 255 →
    (someArguments count ts).Reads (es, paren) rest
  | _, _, _, .last h, _, _, _, rfl, close, limit =>
      someArguments_reads.2 ⟨by rw [List.length_singleton] at limit; omega, _, _,
        expression_complete h (stops_of_kind close (by decide)), .inl ⟨rfl, rfl, close⟩⟩
  | _, _, _, .more h sep list, _, _, _, rfl, close, limit =>
      someArguments_reads.2 ⟨by rw [List.length_cons] at limit; omega, _, _,
        expression_complete h (stops_of_kind sep (by decide)), .inr ⟨_, _, _, rfl, sep,
          someArguments_complete list rfl close (by rw [List.length_cons] at limit; omega),
          rfl⟩⟩

theorem primary_complete : ∀ {ts rest : List Token} {e : Expr}, Primary ts e rest →
    (primary ts).Reads e rest
  | _, _, _, .name kind => primary_name kind
  | _, _, _, .super word point method => by
      rw [primary, word]
      exact Reply.reads_widen.2 (Reply.reads_andThen.2 ⟨_, _, expect_reads.2 ⟨rfl, point⟩,
        by simp, Reply.reads_widen.2 (Reply.reads_map.2 ⟨_, expectName_reads.2 ⟨rfl, method⟩,
          rfl⟩)⟩)
  | _, _, _, .group opening h close => by
      have inner := expression_complete h (stops_of_kind close (by decide))
      rw [primary, opening]
      exact Reply.reads_widen.2 (Reply.reads_andThen.2 ⟨_, _, inner, inner.length_lt,
        Reply.reads_widen.2 (Reply.reads_map.2 ⟨_, expect_reads.2 ⟨rfl, close⟩, rfl⟩)⟩)
  | _, _, _, .number kind | _, _, _, .string kind | _, _, _, .true kind | _, _, _, .false kind
  | _, _, _, .nil kind | _, _, _, .this kind => by
      rw [primary, kind]
      exact Reply.reads_parsed.2 ⟨rfl, rfl, rfl⟩

end

/-- An expression is read exactly in front of a token that does not continue it. -/
theorem expression_reads_iff_of_stops {ts rest : List Token} {e : Expr} (hs : Stops 8 rest) :
    (expression ts).Reads e rest ↔ Expression ts e rest :=
  ⟨expression_sound, fun h => expression_complete h hs⟩

end Grammar

end LoxLang
