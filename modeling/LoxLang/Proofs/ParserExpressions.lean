import LoxLang.Proofs.ParserRules

/-!
# Expressions with a cursor

The productions for expressions follow the parsers of lists. What they build is
the tree that those build, with the numbers drawn on the way in its slots. A
node that is dropped leaves a gap: its number is in no slot.

The recursion of the theorems is that of the list parsers, on what is left. The
productions themselves have no measure, and that they have an outcome is part
of what is proved.
-/

namespace LoxLang

namespace Parser

open Grammar

variable {p q : Parser} {low : Nat} {ts rest : List Token} {e b : Expr} {t : Token}

/-- An expression that was read, with numbers drawn since a point. -/
abbrev Read (since : Nat) : Nat → Expr → Expr → Prop := Drawn Expr.plain Expr.slots since

/-- Expressions that were read. -/
abbrev ReadAll (since : Nat) : Nat → List Expr → List Expr → Prop :=
  Drawn (Expr.mapAllSlots fun _ => none) Expr.allSlots since

/-! ## Nodes -/

section Nodes

variable {since mid high : Nat} {l l' r r' : Expr} {es bs : List Expr}

theorem Read.unary (h : Read since high e b) : Read since high (.unary t e) (.unary t b) :=
  ⟨congrArg (Expr.unary t) h.plain_eq, h.numbers⟩

theorem Read.group (h : Read since high e b) : Read since high (.group e) (.group b) :=
  ⟨congrArg Expr.group h.plain_eq, h.numbers⟩

theorem Read.get (h : Read since high e b) : Read since high (.get e t) (.get b t) :=
  ⟨congrArg (Expr.get · t) h.plain_eq, h.numbers⟩

theorem Read.node (left : Read since mid l l') (right : Read mid high r r') (hlow : since ≤ mid)
    (hhigh : mid ≤ high) (level : Level) :
    Read since high (level.node l t r) (level.node l' t r') := by
  have both := (left.numbers.append right.numbers hlow hhigh).1
  cases level with
  | or | and => exact ⟨congrArg₂ (Expr.logical · t ·) left.plain_eq right.plain_eq, both⟩
  | _ => exact ⟨congrArg₂ (Expr.binary · t ·) left.plain_eq right.plain_eq, both⟩

theorem Read.call (callee : Read since mid e b) (list : ReadAll mid high es bs)
    (hlow : since ≤ mid) (hhigh : mid ≤ high) : Read since high (.call e t es) (.call b t bs) :=
  ⟨congrArg₂ (Expr.call · t ·) callee.plain_eq list.plain_eq,
    (callee.numbers.append list.numbers hlow hhigh).1⟩

theorem ReadAll.nil : ReadAll since high [] [] := ⟨rfl, .nil⟩

theorem ReadAll.cons (head : Read since mid e b) (tail : ReadAll mid high es bs)
    (hlow : since ≤ mid) (hhigh : mid ≤ high) : ReadAll since high (e :: es) (b :: bs) :=
  ⟨congrArg₂ List.cons head.plain_eq tail.plain_eq,
    (head.numbers.append tail.numbers hlow hhigh).1⟩

theorem ReadAll.singleton (h : Read since high e b) : ReadAll since high [e] [b] :=
  ⟨congrArg (· :: []) h.plain_eq, by
    rw [Expr.allSlots, Expr.allSlots, List.append_nil]
    exact h.numbers⟩

end Nodes

/-! ## Productions that draw a number -/

theorem occurrence_follows {n : Nat} {shorter : rest.length < n} (ready : p.Ready)
    (left : p.left = rest) :
    Follows low (liftM (occurrence t)) p (.parsed (.name t none) rest [] shorter)
      (Read p.nextId) := by
  obtain ⟨q, hq, moves, left', -, next⟩ := freshId_eq low ready
  refine ⟨.name t (some p.nextId), q, lift_eq (bind_eq hq), left'.trans left, moves, rfl, ?_⟩
  rw [next]
  exact .singleton

/-- The number of a target that is a name is lost; the assignment draws its own. -/
theorem assigned_follows {since mid n : Nat} {target value b' : Expr} {shorter : rest.length < n}
    (ready : p.Ready) (left : p.left = rest) (ht : Read since mid target b)
    (hv : Read mid p.nextId value b') (hlow : since ≤ mid) (hhigh : mid ≤ p.nextId) :
    Follows low (liftM (assigned target t value)) p
      (.parsed (Grammar.assigned b t b').1 rest (Grammar.assigned b t b').2 shorter)
      (Read since) := by
  obtain ⟨rfl, numbers⟩ := ht
  have other : assigned target t value = (do
      report (p.locate ⟨some t, .assignmentTarget⟩) false
      pure target) → Grammar.assigned target.plain t b' =
        (target.plain, [⟨some t, .assignmentTarget⟩]) →
      Follows low (liftM (assigned target t value)) p
        (.parsed (Grammar.assigned target.plain t b').1 rest
          (Grammar.assigned target.plain t b').2 shorter) (Read since) := by
    intro h h'
    obtain ⟨q, hq, moves, left', current, next⟩ :=
      report_eq low ready ⟨some t, .assignmentTarget⟩
    rw [h, h']
    exact ⟨target, q, lift_eq (bind_eq hq), left'.trans left, moves, rfl,
      numbers.mono (Nat.le_refl _) (next ▸ hhigh)⟩
  cases target with
  | name x slot =>
      obtain ⟨q, hq, moves, left', -, next⟩ := freshId_eq low ready
      refine ⟨.assign x (some p.nextId) value, q, lift_eq (bind_eq hq), left'.trans left, moves,
        congrArg (Expr.assign x none) hv.plain_eq, ?_⟩
      rw [next]
      exact ((hv.numbers.mono hlow (Nat.le_refl _)).append .singleton
        (Nat.le_trans hlow hhigh) (Nat.le_succ _)).1
  | get object x =>
      refine ⟨.set object x value, p, rfl, left, (Steps.refl ready).moves,
        congrArg (Expr.set object.plain x) hv.plain_eq, ?_⟩
      exact (numbers.append hv.numbers hlow hhigh).2
  | _ => exact other rfl rfl

/-- The list of arguments with the closing parenthesis. -/
def closedArguments (count : Nat) : Parsing (List Expr × Token) := do
  let list ← arguments count
  let paren ← consume (·.isSymbol .rightParen) .argumentsClose
  pure (list, paren)

theorem closedArguments_eq (count : Nat) : closedArguments count =
    (let go : Unit → Parsing (List Expr × Token) := fun _ => do
      let e ← expression
      if ← matchNext (·.isSymbol .comma) then
        (fun r => (e :: r.1, r.2)) <$> closedArguments (count + 1)
      else (fun paren => ([e], paren)) <$> consume (·.isSymbol .rightParen) .argumentsClose
    if maxArguments ≤ count then liftM (noteNext .tooManyArguments) >>= go else go ()) := by
  have behind : ∀ e : Expr, ∀ comma : Bool, ((if comma = true then do
          let list ← arguments (count + 1)
          pure (e :: list)
        else pure [e]) >>= fun list => do
          let paren ← consume (·.isSymbol .rightParen) .argumentsClose
          pure (list, paren)) =
      if comma = true then (fun r => (e :: r.1, r.2)) <$> closedArguments (count + 1)
      else (fun paren => ([e], paren)) <$> consume (·.isSymbol .rightParen) .argumentsClose := by
    intro e comma
    split <;> simp [closedArguments]
  rw [closedArguments, arguments.eq_1]
  split <;> simp only [bind_assoc, behind]

theorem finishCall_eq (callee : Expr) : finishCall callee = (do
    if ← check (·.isSymbol .rightParen) then
      (fun paren => .call callee paren []) <$> consume (·.isSymbol .rightParen) .argumentsClose
    else (fun r => .call callee r.2 r.1) <$> closedArguments 0) := by
  rw [finishCall.eq_1]
  refine bind_congr fun none => ?_
  split <;> simp [closedArguments]

/-! ## Where a production goes no further -/

section Stops

variable {β : Type} {n : Nat} {reply : Reply β n} {post : Nat → Expr → β → Prop} {since : Nat}
  {level : Level}

theorem binaryRest_stop (ready : p.Ready) (left : p.left = ts)
    (no : (ts.head?.any level.hasOperator) = false) (read : Read since p.nextId e b) :
    Follows low (binaryRest level e) p (.keep b ts) (Read since) := by
  rw [binaryRest.eq_1]
  exact follows_matchAny_false ready left no fun q s =>
    follows_pure s.ready s.left (s.nextId ▸ read)

theorem unary_stop (ready : p.Ready) (left : p.left = ts)
    (no : (ts.head?.any fun t => t.isSymbol .bang || t.isSymbol .minus) = false)
    (h : ∀ q, Stands 0 p q ts → Follows low call q reply post) :
    Follows low unary p reply post := by
  rw [unary.eq_1]
  refine follows_matchAny_false ready left ?_ h
  simpa using no

theorem callRest_stop (ready : p.Ready) (left : p.left = ts)
    (paren : ts.head?.any (·.isSymbol .leftParen) = false)
    (dot : ts.head?.any (·.isSymbol .dot) = false) (read : Read since p.nextId e b) :
    Follows low (callRest e) p (.keep b ts) (Read since) := by
  rw [callRest.eq_1]
  exact follows_match_false ready left paren fun q s =>
    follows_match_false s.ready s.left dot fun q' s' =>
      follows_pure s'.ready s'.left ((s'.nextId.trans s.nextId) ▸ read)

theorem not_constant (h : t.literal? = none) :
    t.isSymbol .falseWord = false ∧ t.isSymbol .trueWord = false ∧ t.isSymbol .nilWord = false ∧
      t.isConstant = false := by
  unfold Token.literal? at h
  unfold Token.isSymbol Token.isConstant
  split at h <;> simp_all
  split <;> simp_all

theorem primary_eq : primary = firstMatch
    [((·.isSymbol .falseWord), pure (.literal (.bool false))),
      ((·.isSymbol .trueWord), pure (.literal (.bool true))),
      ((·.isSymbol .nilWord), pure (.literal .nil)),
      (Token.isConstant, do
        match (← previous).literal? with
        | some value => pure (.literal value)
        | none => reference)] reference := primary.eq_1

theorem reference_eq : reference = firstMatch
    [((·.isSymbol .superWord), do
        let keyword ← previous
        let _ ← consume (·.isSymbol .dot) .superDot
        let method ← consume Token.isIdentifier .superMethod
        pure (.super keyword (some (← freshId)) method)),
      ((·.isSymbol .thisWord), do
        let id ← freshId
        pure (.this (← previous) (some id))),
      (Token.isIdentifier, do occurrence (← previous)),
      ((·.isSymbol .leftParen), do
        let e ← expression
        let _ ← consume (·.isSymbol .rightParen) .groupClose
        pure (.group e))] (do throw ⟨← peek, .expression⟩) := reference.eq_1

/-- No constant is next. -/
theorem primary_stop (ready : p.Ready) (left : p.left = ts)
    (no : ∀ t ∈ ts.head?, t.literal? = none)
    (h : ∀ q, Stands 0 p q ts → Follows low reference q reply post) :
    Follows low primary p reply post := by
  rw [primary_eq]
  refine follows_firstMatch_none ready left ?_ h
  simp only [List.forall_mem_cons, Option.any_eq_false]
  have apart : ∀ t ∈ ts.head?, _ := fun t ht => not_constant (no t ht)
  exact ⟨fun t ht => (apart t ht).1, fun t ht => (apart t ht).2.1, fun t ht => (apart t ht).2.2.1,
    fun t ht => (apart t ht).2.2.2, List.forall_mem_nil _⟩

theorem primary_literal {n : Nat} {value : Literal} {shorter : rest.length < n} (ready : p.Ready)
    (left : p.left = t :: rest) (h : t.literal? = some value) :
    Follows low primary p (.parsed (.literal value) rest [] shorter) (Read since) := by
  have word : ∀ {v}, some v = some value → ∀ q, Stands 1 p q rest →
      q.tokens[q.current - 1]? = some t → Follows low (pure (.literal v)) q
        (.parsed (.literal value) rest [] shorter) (Read since) := by
    rintro v ⟨⟩ q s _
    exact follows_pure s.ready s.left ⟨rfl, .nil⟩
  have constant : ∀ q, Stands 1 p q rest → q.tokens[q.current - 1]? = some t →
      Follows low (do
        match (← previous).literal? with
        | some value => pure (.literal value)
        | none => reference) q (.parsed (.literal value) rest [] shorter) (Read since) := by
    intro q s front
    refine follows_previous s.ready s.left front fun q' s' => ?_
    rw [h]
    exact follows_pure s'.ready s'.left ⟨rfl, .nil⟩
  rw [primary_eq]
  have literal := h
  unfold Token.literal? at h
  split at h
  · next hk =>
      exact follows_firstMatch 3 ready left rfl (by simp [Token.isSymbol, hk])
        (by rw [Token.isConstant, hk]) constant
  · next hk =>
      exact follows_firstMatch 3 ready left rfl (by simp [Token.isSymbol, hk])
        (by rw [Token.isConstant, hk]) constant
  · next hk =>
      exact follows_firstMatch 1 ready left rfl (by simp [Token.isSymbol, hk])
        (Token.isSymbol_iff.2 hk) (word h)
  · next hk =>
      exact follows_firstMatch 0 ready left rfl (List.forall_mem_nil _) (Token.isSymbol_iff.2 hk)
        (word h)
  · next hk =>
      exact follows_firstMatch 2 ready left rfl (by simp [Token.isSymbol, hk])
        (Token.isSymbol_iff.2 hk) (word h)
  · cases h

theorem reference_this {n : Nat} {shorter : rest.length < n} (ready : p.Ready)
    (left : p.left = t :: rest) (hk : t.kind = .symbol .thisWord) :
    Follows low reference p (.parsed (.this t none) rest [] shorter) (Read p.nextId) := by
  rw [reference_eq]
  refine follows_firstMatch 1 ready left rfl (by simp [Token.isSymbol, hk])
    (Token.isSymbol_iff.2 hk) fun q1 s1 front => ?_
  refine follows_freshId s1.ready s1.left fun q2 ready2 left2 current tokens next => ?_
  refine follows_previous ready2 left2 (current ▸ tokens ▸ front) fun q3 s3 => ?_
  refine follows_pure s3.ready s3.left ⟨rfl, ?_⟩
  rw [s3.nextId, next, s1.nextId]
  exact .singleton

theorem reference_name {n : Nat} {shorter : rest.length < n} (ready : p.Ready)
    (left : p.left = t :: rest) (hk : t.kind = .identifier) :
    Follows low reference p (.parsed (.name t none) rest [] shorter) (Read p.nextId) := by
  rw [reference_eq]
  refine follows_firstMatch 2 ready left rfl (by simp [Token.isSymbol, hk])
    (by rw [Token.isIdentifier, hk]) fun q1 s1 front => ?_
  refine follows_previous s1.ready s1.left front fun q2 s2 => ?_
  exact (s2.nextId.trans s1.nextId) ▸ occurrence_follows s2.ready s2.left

theorem reference_super (ready : p.Ready) (left : p.left = t :: rest)
    (hk : t.kind = .symbol .superWord) :
    Follows low reference p
      ((expect .dot .superDot rest).andThen fun _ rest' _ =>
        ((expectName .superMethod rest').map fun method => .super t none method).widen
          (length_le_succ rest')) (Read p.nextId) := by
  rw [reference_eq]
  refine follows_firstMatch 0 ready left rfl nofun (Token.isSymbol_iff.2 hk) fun q1 s1 front => ?_
  refine follows_previous s1.ready s1.left front fun q2 s2 => ?_
  refine (follows_expect s2.ready s2.left).bind s2.ready fun _ _ q3 rest _ left3 ready3 _
    numbers3 _ => ?_
  rw [follows_widen, map_eq_andThen]
  refine (follows_expectName ready3 left3).bind ready3 fun method _ q4 rest _ left4 ready4 _
    numbers4 eq => ?_
  subst eq
  refine follows_freshId ready4 left4 fun q5 ready5 left5 _ _ next => ?_
  refine follows_pure ready5 left5 ⟨rfl, ?_⟩
  rw [next]
  refine HoldNumbers.singleton.mono ?_ (Nat.le_refl _)
  rw [← s1.nextId, ← s2.nextId]
  exact Nat.le_trans numbers3 numbers4

theorem reference_refuses {β : Type} {post : Nat → Expr → β → Prop} (ready : p.Ready)
    (left : p.left = ts)
    (no : ∀ t ∈ ts.head?, t.isIdentifier = false ∧
      ∀ s ∈ [Symbol.superWord, .thisWord, .leftParen], t.kind ≠ .symbol s) :
    Follows low reference p (.refuse .expression ts : Reply β ts.length) post := by
  rw [reference_eq]
  refine follows_firstMatch_none ready left ?_ fun q s => follows_throw s.ready s.left
  simp only [List.forall_mem_cons, Option.any_eq_false]
  refine ⟨fun t ht => ?_, fun t ht => ?_, fun t ht => (no t ht).1, fun t ht => ?_, nofun⟩ <;>
    exact Bool.eq_false_iff.2 fun h => (no t ht).2 _ (by simp) (Token.isSymbol_iff.1 h)

end Stops

/-! ## Productions -/

/-- The arguments, and the parenthesis behind them. -/
def ReadArguments (since high : Nat) (r r' : List Expr × Token) : Prop :=
  ReadAll since high r.1 r'.1 ∧ r.2 = r'.2

mutual

theorem expression_follows {p : Parser} {low : Nat} {ts : List Token} (ready : p.Ready)
    (left : p.left = ts) :
    Follows low expression p (Grammar.expression ts) (Read p.nextId) := by
  rw [expression.eq_1, Grammar.expression]
  refine (binary_follows ready left .or).bind ready fun target b q rest shorter left ready _
    numbers read => ?_
  match rest, left with
  | [], left =>
      exact follows_match_false ready left rfl fun q' s =>
        follows_pure s.ready s.left (s.nextId ▸ read)
  | t :: rest, left =>
      dsimp only
      split
      · next ht =>
          rw [follows_widen]
          refine follows_match_true ready left ht fun q1 s1 front => ?_
          refine follows_previous s1.ready s1.left front fun q2 s2 => ?_
          have same : q2.nextId = q.nextId := s2.nextId.trans s1.nextId
          refine (expression_follows s2.ready s2.left).bind s2.ready fun value b' q3 rest' _ left3
            ready3 _ numbers3 read3 => ?_
          exact assigned_follows ready3 left3 (same ▸ read) read3 (same ▸ numbers) numbers3
      · next ht =>
          exact follows_match_false ready left (Bool.eq_false_iff.2 ht) fun q' s =>
            follows_pure s.ready s.left (s.nextId ▸ read)
termination_by 32 * ts.length + 20
decreasing_by
  · simp only [Level.height]
    omega
  · simp only [List.length_cons] at *
    omega

theorem binary_follows {p : Parser} {low : Nat} {ts : List Token} (ready : p.Ready)
    (left : p.left = ts) (level : Level) :
    Follows low (binary level) p (Grammar.binary level ts) (Read p.nextId) := by
  rw [binary.eq_1, Grammar.binary]
  exact (operand_follows ready left level).bind ready fun e b q rest shorter left ready _ numbers
    read => binaryRest_follows ready left read numbers level
termination_by 32 * ts.length + 2 * level.height + 5
decreasing_by all_goals omega

theorem operand_follows {p : Parser} {low : Nat} {ts : List Token} (ready : p.Ready)
    (left : p.left = ts) (level : Level) :
    Follows low (operand level) p (Grammar.operand level ts) (Read p.nextId) := by
  rw [operand.eq_1, Grammar.operand]
  split
  · next tighter h =>
      have := Level.height_lt_of_tighter h
      split
      · next h' =>
          obtain rfl := Option.some.inj (h.symm.trans h')
          exact binary_follows ready left tighter
      · next h' => rw [h] at h'; cases h'
  · next h =>
      split
      · next h' => rw [h] at h'; cases h'
      · exact unary_follows ready left
termination_by 32 * ts.length + 2 * level.height + 4
decreasing_by all_goals omega

theorem binaryRest_follows {p : Parser} {low since : Nat} {ts : List Token} {e b : Expr}
    (ready : p.Ready) (left : p.left = ts) (read : Read since p.nextId e b)
    (numbers : since ≤ p.nextId) (level : Level) :
    Follows low (binaryRest level e) p (Grammar.binaryRest level b ts) (Read since) := by
  match ts, left with
  | [], left => rw [Grammar.binaryRest]; exact binaryRest_stop ready left rfl read
  | t :: rest, left =>
      rw [Grammar.binaryRest]
      split
      · next ht =>
          rw [binaryRest.eq_1, follows_widen]
          refine follows_matchAny_true ready left ht fun q1 s1 front => ?_
          refine follows_previous s1.ready s1.left front fun q2 s2 => ?_
          have same : q2.nextId = p.nextId := s2.nextId.trans s1.nextId
          refine (operand_follows s2.ready s2.left level).bind s2.ready fun right r q3 rest' _ left3
            ready3 _ numbers3 read3 => ?_
          rw [same] at numbers3 read3
          exact binaryRest_follows ready3 left3 (read.node read3 numbers numbers3 level)
            (Nat.le_trans numbers numbers3) level
      · next ht => exact binaryRest_stop ready left (Bool.eq_false_iff.2 ht) read
termination_by 32 * ts.length
decreasing_by
  all_goals
    have : level.height ≤ 5 := by cases level <;> decide
    simp only [List.length_cons] at *
    omega

theorem unary_follows {p : Parser} {low : Nat} {ts : List Token} (ready : p.Ready)
    (left : p.left = ts) : Follows low unary p (Grammar.unary ts) (Read p.nextId) := by
  match ts, left with
  | [], left =>
      rw [Grammar.unary]
      exact unary_stop ready left rfl fun q s => s.nextId ▸ call_follows s.ready s.left
  | t :: rest, left =>
      rw [Grammar.unary]
      split
      · next ht =>
          rw [unary.eq_1, follows_widen, follows_map]
          refine follows_matchAny_true ready left (by simpa using ht) fun q1 s1 front => ?_
          refine follows_previous s1.ready s1.left front fun q2 s2 => ?_
          have same : q2.nextId = p.nextId := s2.nextId.trans s1.nextId
          rw [bind_pure_comp]
          exact ((unary_follows s2.ready s2.left).imp fun _ _ _ _ read => .unary (same ▸ read)).map
      · next ht =>
          exact unary_stop ready left (Bool.eq_false_iff.2 ht) fun q s =>
            s.nextId ▸ call_follows s.ready s.left
termination_by 32 * ts.length + 3
decreasing_by all_goals (try simp only [List.length_cons] at *); omega

theorem call_follows {p : Parser} {low : Nat} {ts : List Token} (ready : p.Ready)
    (left : p.left = ts) : Follows low call p (Grammar.call ts) (Read p.nextId) := by
  rw [call.eq_1, Grammar.call]
  exact (primary_follows ready left).bind ready fun e b q rest shorter left ready _ numbers read =>
    callRest_follows ready left read numbers
termination_by 32 * ts.length + 2
decreasing_by all_goals omega

theorem callRest_follows {p : Parser} {low since : Nat} {ts : List Token} {e b : Expr}
    (ready : p.Ready) (left : p.left = ts) (read : Read since p.nextId e b)
    (numbers : since ≤ p.nextId) :
    Follows low (callRest e) p (Grammar.callRest b ts) (Read since) := by
  match ts, left with
  | [], left => rw [Grammar.callRest]; exact callRest_stop ready left rfl rfl read
  | t :: rest, left =>
      rw [Grammar.callRest]
      split
      · next ht =>
          rw [callRest.eq_1, follows_widen]
          refine follows_match_true ready left ht fun q1 s1 _ => ?_
          have same : q1.nextId = p.nextId := s1.nextId
          refine (finishCall_follows s1.ready s1.left (same ▸ read) (same ▸ numbers)).bind s1.ready
            fun e' r q2 rest' _ left2 ready2 _ numbers2 read2 => ?_
          exact callRest_follows ready2 left2 read2 (Nat.le_trans numbers (same ▸ numbers2))
      · next ht =>
          split
          · next hd =>
              rw [callRest.eq_1, follows_widen]
              refine follows_match_false ready left (Bool.eq_false_iff.2 ht) fun q1 s1 => ?_
              refine follows_match_true s1.ready s1.left hd fun q2 s2 _ => ?_
              have same : q2.nextId = p.nextId := s2.nextId.trans s1.nextId
              refine (follows_expectName s2.ready s2.left).bind s2.ready fun x x' q3 rest' _ left3
                ready3 _ numbers3 eq => ?_
              subst eq
              rw [same] at numbers3
              exact callRest_follows ready3 left3 (Read.get (read.mono (Nat.le_refl _) numbers3))
                (Nat.le_trans numbers numbers3)
          · next hd =>
              exact callRest_stop ready left (Bool.eq_false_iff.2 ht) (Bool.eq_false_iff.2 hd) read
termination_by 32 * ts.length
decreasing_by all_goals simp only [List.length_cons] at *; omega

theorem finishCall_follows {p : Parser} {low since : Nat} {ts : List Token} {e b : Expr}
    (ready : p.Ready) (left : p.left = ts) (read : Read since p.nextId e b)
    (numbers : since ≤ p.nextId) :
    Follows low (finishCall e) p (Grammar.arguments ts) fun high a r =>
      Read since high a (.call b r.2 r.1) := by
  have further : ∀ {q}, Stands 0 p q ts →
      Follows low ((fun r => .call e r.2 r.1) <$> closedArguments 0) q
        (Grammar.someArguments 0 ts) fun high a r => Read since high a (.call b r.2 r.1) :=
    fun s => ((closedArguments_follows s.ready s.left 0).imp fun high a r more h =>
      h.2 ▸ (read.call (s.nextId ▸ h.1) numbers (s.nextId ▸ more))).map
  rw [finishCall_eq]
  match ts, left with
  | [], left =>
      rw [Grammar.arguments]
      exact follows_check ready left fun q s => further s
  | t :: rest, left =>
      rw [Grammar.arguments]
      refine follows_check ready left fun q s => ?_
      rw [List.head?_cons, Option.any_some]
      split
      · next ht =>
          show Follows low _ q ((Reply.parsed t rest [] (tail_lt t rest)).map
            fun paren => (([] : List Expr), paren)) _
          rw [follows_map]
          refine ((follows_consume (·.isSymbol .rightParen) s.ready s.left ht).imp
            fun high _ _ more eq => ?_).map
          subst eq
          exact read.call .nil numbers (s.nextId ▸ more)
      · exact further s
termination_by 32 * ts.length + 22
decreasing_by all_goals omega

theorem closedArguments_follows {p : Parser} {low : Nat} {ts : List Token} (ready : p.Ready)
    (left : p.left = ts) (count : Nat) :
    Follows low (closedArguments count) p (Grammar.someArguments count ts)
      (ReadArguments p.nextId) := by
  rw [closedArguments_eq, Grammar.someArguments]
  refine follows_limit ready left fun q1 left1 ready1 _ same => ?_
  refine (expression_follows ready1 left1).bind ready1 fun e b q2 rest shorter left2 ready2 _
    numbers2 read2 => ?_
  rw [same] at numbers2 read2
  have last : ∀ {q ts}, Stands 0 q2 q ts →
      Follows (max (max low q1.current) q2.current)
        ((fun paren => ([e], paren)) <$> consume (·.isSymbol .rightParen) .argumentsClose) q
        (expect .rightParen .argumentsClose ts) fun high a paren =>
          ReadArguments p.nextId high a ([b], paren) := fun s =>
    ((follows_expect s.ready s.left).imp fun high _ _ more eq =>
      ⟨(ReadAll.singleton read2).mono (Nat.le_refl _) (s.nextId ▸ more), eq⟩).map
  match rest, left2 with
  | [], left2 =>
      refine follows_match_false ready2 left2 rfl fun q3 s3 => ?_
      rw [follows_map, follows_widen]
      exact last s3
  | t :: rest, left2 =>
      dsimp only
      split
      · next ht =>
          rw [follows_widen, follows_map]
          refine follows_match_true ready2 left2 ht fun q3 s3 _ => ?_
          refine ((closedArguments_follows s3.ready s3.left (count + 1)).imp
            fun high a r more h => ?_).map
          rw [s3.nextId] at h more
          exact ⟨.cons read2 h.1 numbers2 more, h.2⟩
      · next ht =>
          refine follows_match_false ready2 left2 (Bool.eq_false_iff.2 ht) fun q3 s3 => ?_
          rw [follows_widen, follows_map]
          exact last s3
termination_by 32 * ts.length + 21
decreasing_by all_goals (try simp only [List.length_cons] at *); omega

theorem primary_follows {p : Parser} {low : Nat} {ts : List Token} (ready : p.Ready)
    (left : p.left = ts) : Follows low primary p (Grammar.primary ts) (Read p.nextId) := by
  match ts, left with
  | [], left =>
      rw [Grammar.primary]
      exact primary_stop ready left nofun fun q s => reference_refuses s.ready s.left nofun
  | t :: rest, left =>
      rw [Grammar.primary]
      have other : ∀ {n} {reply : Reply Expr n}, t.literal? = none →
          (∀ q, Stands 0 p q (t :: rest) → Follows low reference q reply (Read q.nextId)) →
            Follows low primary p reply (Read p.nextId) := fun {_ _} no h =>
        primary_stop ready left (by simpa using no) fun q s => s.nextId ▸ h q s
      split
      · next hk => exact primary_literal ready left (by simp [Token.literal?, hk])
      · next hk => exact primary_literal ready left (by simp [Token.literal?, hk])
      · next hk => exact primary_literal ready left (by simp [Token.literal?, hk])
      · next hk => exact primary_literal ready left (by simp [Token.literal?, hk])
      · next hk => exact primary_literal ready left (by simp [Token.literal?, hk])
      · next hk =>
          exact other (by simp [Token.literal?, hk]) fun q s => reference_this s.ready s.left hk
      · next hk =>
          exact other (by simp [Token.literal?, hk]) fun q s => reference_name s.ready s.left hk
      · next hk =>
          rw [follows_widen]
          exact other (by simp [Token.literal?, hk]) fun q s => reference_super s.ready s.left hk
      · next hk =>
          refine other (by simp [Token.literal?, hk]) fun q s => ?_
          rw [follows_widen, reference_eq]
          refine follows_firstMatch 3 s.ready s.left rfl
            (by simp [Token.isSymbol, Token.isIdentifier, hk]) (Token.isSymbol_iff.2 hk)
            fun q1 s1 _ => ?_
          refine (expression_follows s1.ready s1.left).bind s1.ready fun e b q2 rest _ left2 ready2
            _ _ read => ?_
          rw [follows_widen, follows_map, bind_pure_comp]
          refine ((follows_expect ready2 left2).imp fun high _ _ more _ => ?_).map
          exact (Read.group read).mono (Nat.le_of_eq s1.nextId.symm) more
      · next =>
          have literal : t.literal? = none := by
            unfold Token.literal?
            split <;> simp_all
          refine other literal fun q s => reference_refuses s.ready s.left ?_
          rintro _ ⟨⟩
          unfold Token.isIdentifier
          split <;> simp_all
termination_by 32 * ts.length + 1
decreasing_by all_goals simp only [List.length_cons] at *; omega

end

end Parser

end LoxLang
