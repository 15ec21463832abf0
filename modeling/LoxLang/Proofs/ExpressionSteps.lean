import LoxLang.Proofs.Reads

/-!
# The expression parsers, one step at a time

For each parser of expressions, what it reads in terms of what the parsers
below it read. These are the only lemmas that open the parsers: soundness and
completeness of the grammar follow from them, and a change to one parser
reaches the theory through its lemma here.
-/

namespace LoxLang.Grammar

variable {ts rest : List Token} {e left : Expr} {level : Level}

/-- The next token, if there is one, is not the given symbol. -/
def NotNext (s : Symbol) (ts : List Token) : Prop :=
  ∀ t tail, ts = t :: tail → t.kind ≠ .symbol s

@[simp] theorem notNext_nil {s : Symbol} : NotNext s [] := by
  intro t tail h
  cases h

@[simp] theorem notNext_cons {s : Symbol} {t : Token} {ts : List Token} :
    NotNext s (t :: ts) ↔ t.kind ≠ .symbol s := by
  constructor
  · exact fun h => h t ts rfl
  · rintro h _ _ ⟨⟩
    exact h

/-- Only names and properties take a value without a complaint. -/
theorem assigned_eq_iff {target value : Expr} {t : Token} :
    assigned target t value = (e, []) ↔
      (∃ x depth, target = .name x depth ∧ e = .assign x none value) ∨
      (∃ object x, target = .get object x ∧ e = .set object x value) := by
  unfold assigned
  split
  · simp [eq_comm]
  · next object x =>
      simp only [Prod.mk.injEq, and_true, reduceCtorEq, false_and, exists_const, false_or,
        Expr.get.injEq]
      constructor
      · rintro rfl
        exact ⟨object, x, ⟨rfl, rfl⟩, rfl⟩
      · rintro ⟨_, _, ⟨rfl, rfl⟩, rfl⟩
        rfl
  · next hname hget =>
      simp only [Prod.mk.injEq, List.cons_ne_nil, and_false, false_iff]
      rintro (⟨x, depth, h, -⟩ | ⟨object, x, h, -⟩)
      · exact hname x depth h
      · exact hget object x h

theorem expression_reads :
    (expression ts).Reads e rest ↔
      (binary .or ts).Reads e rest ∧ NotNext .equal rest ∨
      ∃ target t mid value, (binary .or ts).Reads target (t :: mid) ∧ t.kind = .symbol .equal ∧
        (expression mid).Reads value rest ∧ assigned target t value = (e, []) := by
  rw [expression, Reply.reads_andThen]
  constructor
  · rintro ⟨target, mid, ht, _, h⟩
    cases mid with
    | nil =>
        obtain ⟨rfl, rfl⟩ := Reply.reads_keep.1 h
        exact .inl ⟨ht, notNext_nil⟩
    | cons t mid =>
        dsimp only at h
        split at h
        · next heq =>
            obtain ⟨value, mid', hv, _, h⟩ := Reply.reads_andThen.1 (Reply.reads_widen.1 h)
            obtain ⟨rfl, rfl, hr⟩ := Reply.reads_parsed.1 h
            exact .inr ⟨target, t, mid, value, ht, Token.isSymbol_iff.1 heq, hv,
              Prod.ext rfl hr⟩
        · next hne =>
            obtain ⟨rfl, rfl⟩ := Reply.reads_keep.1 h
            exact .inl ⟨ht, by simpa [Token.isSymbol_iff] using hne⟩
  · rintro (⟨h, hn⟩ | ⟨target, t, mid, value, ht, hk, hv, ha⟩)
    · refine ⟨e, rest, h, h.length_lt, ?_⟩
      cases rest with
      | nil => exact Reply.reads_keep.2 ⟨rfl, rfl⟩
      | cons t tail =>
          dsimp only
          rw [if_neg (by simpa [Token.isSymbol_iff] using hn)]
          exact Reply.reads_keep.2 ⟨rfl, rfl⟩
    · refine ⟨target, t :: mid, ht, ht.length_lt, ?_⟩
      dsimp only
      rw [if_pos (Token.isSymbol_iff.2 hk), Reply.reads_widen, Reply.reads_andThen]
      refine ⟨value, rest, hv, hv.length_lt, ?_⟩
      rw [ha]
      exact Reply.reads_parsed.2 ⟨rfl, rfl, rfl⟩

theorem binary_reads :
    (binary level ts).Reads e rest ↔
      ∃ left mid, (operand level ts).Reads left mid ∧
        (binaryRest level left mid).Reads e rest := by
  rw [binary, Reply.reads_andThen]
  constructor
  · rintro ⟨left, mid, hl, _, h⟩
    exact ⟨left, mid, hl, h⟩
  · rintro ⟨left, mid, hl, h⟩
    exact ⟨left, mid, hl, hl.length_lt, h⟩

theorem operand_reads_some {tighter : Level} (h : level.tighter = some tighter) :
    (operand level ts).Reads e rest ↔ (binary tighter ts).Reads e rest := by
  rw [operand]
  split
  · next h' =>
      obtain rfl := Option.some.inj (h.symm.trans h')
      exact Iff.rfl
  · next h' => rw [h] at h'; cases h'

theorem operand_reads_none (h : level.tighter = none) :
    (operand level ts).Reads e rest ↔ (unary ts).Reads e rest := by
  rw [operand]
  split
  · next h' => rw [h] at h'; cases h'
  · exact Iff.rfl

theorem binaryRest_reads :
    (binaryRest level left ts).Reads e rest ↔
      left = e ∧ ts = rest ∧ (∀ t tail, ts = t :: tail → level.hasOperator t = false) ∨
      ∃ t mid right mid', ts = t :: mid ∧ level.hasOperator t = true ∧
        (operand level mid).Reads right mid' ∧
        (binaryRest level (level.node left t right) mid').Reads e rest := by
  cases ts with
  | nil => rw [binaryRest]; simp
  | cons t mid =>
      rw [binaryRest]
      split
      · next hop =>
          rw [Reply.reads_widen, Reply.reads_andThen]
          constructor
          · rintro ⟨right, mid', hr, _, h⟩
            exact .inr ⟨t, mid, right, mid', rfl, hop, hr, h⟩
          · rintro (⟨-, -, hno⟩ | ⟨_, _, right, mid', ⟨⟩, -, hr, h⟩)
            · exact absurd hop (by simp [hno t mid rfl])
            · exact ⟨right, mid', hr, hr.length_lt, h⟩
      · next hop =>
          rw [Reply.reads_keep]
          constructor
          · rintro ⟨rfl, rfl⟩
            refine .inl ⟨rfl, rfl, ?_⟩
            rintro _ _ ⟨⟩
            exact Bool.eq_false_iff.2 hop
          · rintro (⟨rfl, rfl, -⟩ | ⟨_, _, _, _, ⟨⟩, hop', -⟩)
            · exact ⟨rfl, rfl⟩
            · exact absurd hop' hop

/-- Is the token a unary operator? -/
def IsSign (t : Token) : Prop := t.kind = .symbol .bang ∨ t.kind = .symbol .minus

theorem isSign_iff {t : Token} :
    (t.isSymbol .bang || t.isSymbol .minus) = true ↔ IsSign t := by
  simp [IsSign, Token.isSymbol_iff]

theorem unary_reads :
    (unary ts).Reads e rest ↔
      (call ts).Reads e rest ∧ (∀ t tail, ts = t :: tail → ¬ IsSign t) ∨
      ∃ t mid right, ts = t :: mid ∧ IsSign t ∧ (unary mid).Reads right rest ∧
        e = .unary t right := by
  cases ts with
  | nil => rw [unary]; simp
  | cons t mid =>
      rw [unary]
      split
      · next hop =>
          rw [isSign_iff] at hop
          rw [Reply.reads_widen, Reply.reads_map]
          constructor
          · rintro ⟨right, hr, rfl⟩
            exact .inr ⟨t, mid, right, rfl, hop, hr, rfl⟩
          · rintro (⟨-, hno⟩ | ⟨_, _, right, ⟨⟩, -, hr, rfl⟩)
            · exact absurd hop (hno t mid rfl)
            · exact ⟨right, hr, rfl⟩
      · next hop =>
          rw [isSign_iff] at hop
          constructor
          · intro h
            refine .inl ⟨h, ?_⟩
            rintro _ _ ⟨⟩
            exact hop
          · rintro (⟨h, -⟩ | ⟨_, _, _, ⟨⟩, hop', -⟩)
            · exact h
            · exact absurd hop' hop

theorem call_reads :
    (call ts).Reads e rest ↔
      ∃ head mid, (primary ts).Reads head mid ∧ (callRest head mid).Reads e rest := by
  rw [call, Reply.reads_andThen]
  constructor
  · rintro ⟨head, mid, hh, _, h⟩
    exact ⟨head, mid, hh, h⟩
  · rintro ⟨head, mid, hh, h⟩
    exact ⟨head, mid, hh, hh.length_lt, h⟩

/-- Nothing behind a call; a call; a property access. -/
theorem callRest_reads :
    (callRest left ts).Reads e rest ↔
      left = e ∧ ts = rest ∧ NotNext .leftParen ts ∧ NotNext .dot ts ∨
      (∃ t mid list paren mid', ts = t :: mid ∧ t.kind = .symbol .leftParen ∧
        (arguments mid).Reads (list, paren) mid' ∧
        (callRest (.call left paren list) mid').Reads e rest) ∨
      ∃ t x mid, ts = t :: x :: mid ∧ t.kind = .symbol .dot ∧ x.kind = .identifier ∧
        (callRest (.get left x) mid).Reads e rest := by
  cases ts with
  | nil => rw [callRest]; simp
  | cons t mid =>
      rw [callRest]
      split
      · next hp =>
          rw [Token.isSymbol_iff] at hp
          rw [Reply.reads_widen, Reply.reads_andThen]
          constructor
          · rintro ⟨⟨list, paren⟩, mid', ha, _, h⟩
            exact .inr (.inl ⟨t, mid, list, paren, mid', rfl, hp, ha, h⟩)
          · rintro (⟨-, -, hno, -⟩ | ⟨_, _, list, paren, mid', ⟨⟩, -, ha, h⟩ |
              ⟨_, _, _, ⟨⟩, hd, -⟩)
            · exact absurd hp (notNext_cons.1 hno)
            · exact ⟨(list, paren), mid', ha, ha.length_lt, h⟩
            · rw [hp] at hd; cases hd
      · next hp =>
          rw [Token.isSymbol_iff] at hp
          split
          · next hd =>
              rw [Token.isSymbol_iff] at hd
              rw [Reply.reads_widen, Reply.reads_andThen]
              constructor
              · rintro ⟨x, mid', hx, _, h⟩
                obtain ⟨rfl, hk⟩ := expectName_reads.1 hx
                exact .inr (.inr ⟨t, x, mid', rfl, hd, hk, h⟩)
              · rintro (⟨-, -, -, hno⟩ | ⟨_, _, _, _, _, ⟨⟩, hp', -⟩ | ⟨_, x, mid', ⟨⟩, -, hk, h⟩)
                · exact absurd hd (notNext_cons.1 hno)
                · exact absurd hp' hp
                · exact ⟨x, mid', expectName_reads.2 ⟨rfl, hk⟩, by simp, h⟩
          · next hd =>
              rw [Token.isSymbol_iff] at hd
              rw [Reply.reads_keep]
              constructor
              · rintro ⟨rfl, rfl⟩
                exact .inl ⟨rfl, rfl, notNext_cons.2 hp, notNext_cons.2 hd⟩
              · rintro (⟨rfl, rfl, -⟩ | ⟨_, _, _, _, _, ⟨⟩, hp', -⟩ | ⟨_, _, _, ⟨⟩, hd', -⟩)
                · exact ⟨rfl, rfl⟩
                · exact absurd hp' hp
                · exact absurd hd' hd

variable {list : List Expr} {paren : Token} {count : Nat}

theorem arguments_reads :
    (arguments ts).Reads (list, paren) rest ↔
      (list = [] ∧ ts = paren :: rest ∧ paren.kind = .symbol .rightParen) ∨
      (NotNext .rightParen ts ∧ (someArguments 0 ts).Reads (list, paren) rest) := by
  cases ts with
  | nil => rw [arguments]; simp
  | cons t mid =>
      rw [arguments]
      split
      · next hp =>
          rw [Token.isSymbol_iff] at hp
          simp only [Reply.reads_parsed, Prod.mk.injEq, List.cons.injEq, notNext_cons]
          constructor
          · rintro ⟨⟨rfl, rfl⟩, rfl, -⟩
            exact .inl ⟨rfl, ⟨rfl, rfl⟩, hp⟩
          · rintro (⟨rfl, ⟨rfl, rfl⟩, -⟩ | ⟨hno, -⟩)
            · exact ⟨⟨rfl, rfl⟩, rfl, trivial⟩
            · exact absurd hp hno
      · next hp =>
          rw [Token.isSymbol_iff] at hp
          constructor
          · exact fun h => .inr ⟨notNext_cons.2 hp, h⟩
          · rintro (⟨-, ⟨⟩, hp'⟩ | ⟨-, h⟩)
            · exact absurd hp' hp
            · exact h

/-- One argument and the parenthesis, or one argument, a comma and more, below the limit. -/
theorem someArguments_reads :
    (someArguments count ts).Reads (list, paren) rest ↔
      count < 255 ∧ ∃ e mid, (expression ts).Reads e mid ∧
        ((list = [e] ∧ mid = paren :: rest ∧ paren.kind = .symbol .rightParen) ∨
          ∃ comma mid' list', mid = comma :: mid' ∧ comma.kind = .symbol .comma ∧
            (someArguments (count + 1) mid').Reads (list', paren) rest ∧ list = e :: list') := by
  rw [someArguments, Reply.reads_noting, limitReport_eq_nil, Reply.reads_andThen]
  refine and_congr_right fun _ => exists_congr fun e => exists_congr fun mid => ?_
  constructor
  · rintro ⟨he, _, h⟩
    refine ⟨he, ?_⟩
    cases mid with
    | nil => simp at h
    | cons t mid =>
        dsimp only at h
        split at h
        · next hc =>
            simp only [Reply.reads_widen, Reply.reads_map, Prod.exists, Prod.mk.injEq] at h
            obtain ⟨list', _, h, rfl, rfl⟩ := h
            exact .inr ⟨t, mid, list', rfl, Token.isSymbol_iff.1 hc, h, rfl⟩
        · simp only [Reply.reads_widen, Reply.reads_map, expect_reads, Prod.mk.injEq] at h
          obtain ⟨_, ⟨⟨rfl, rfl⟩, hk⟩, rfl, rfl⟩ := h
          exact .inl ⟨rfl, rfl, hk⟩
  · rintro ⟨he, h⟩
    refine ⟨he, he.length_lt, ?_⟩
    rcases h with ⟨rfl, rfl, hk⟩ | ⟨comma, mid', list', rfl, hk, h, rfl⟩
    · dsimp only
      rw [if_neg (by simp [Token.isSymbol_iff, hk])]
      simp [hk]
    · dsimp only
      rw [if_pos (Token.isSymbol_iff.2 hk)]
      simpa using h

end LoxLang.Grammar
