import LoxLang.Proofs.Twins

/-!
# Where reading resumes

What the parser makes of a statement that lacks its semicolon, when a word that
starts a statement stands in its place. The statement is dropped and one error
is reported, at that word. The word itself is skipped as well, so reading
resumes behind it: at the next semicolon, or at the next word of that kind. The
statement that the word begins is therefore never read.

The argument has two halves. A sentence is read in front of whatever does not
continue it, so the parser gets as far as the word. There it refuses, and a
refusal goes up through the parsers to the loop over declarations unchanged.
-/

namespace LoxLang

open LoxLang.Derivation

namespace Reply

variable {α β : Type} {n m : Nat}

/-- The reply is a refusal for the given reason with the given rest, and there are no reports. -/
def Refuses (r : Reply α n) (rest : List Token) (reason : Complaint) : Prop :=
  ∃ notLonger, r = .refused rest [] reason notLonger

variable {r : Reply α n} {rest : List Token} {reason : Complaint}

theorem Refuses.andThen (h : r.Refuses rest reason)
    {next : (a : α) → (mid : List Token) → mid.length < n → Reply β (mid.length + 1)} :
    (r.andThen next).Refuses rest reason := by
  obtain ⟨notLonger, rfl⟩ := h
  exact ⟨notLonger, rfl⟩

/-- A sequence refuses where its second part does, behind what the first has read. -/
theorem Reads.andThen_refuses {a : α} {mid : List Token} (h : r.Reads a mid)
    {next : (a : α) → (mid : List Token) → mid.length < n → Reply β (mid.length + 1)}
    (hn : (next a mid h.length_lt).Refuses rest reason) : (r.andThen next).Refuses rest reason := by
  obtain ⟨shorter, rfl⟩ := h
  obtain ⟨notLonger, hn⟩ := hn
  refine ⟨by omega, ?_⟩
  simp only [Reply.andThen, hn]
  rfl

theorem Refuses.map {f : α → β} (h : r.Refuses rest reason) : (r.map f).Refuses rest reason := by
  obtain ⟨notLonger, rfl⟩ := h
  exact ⟨notLonger, rfl⟩

theorem Refuses.widen (h : r.Refuses rest reason) (hle : n ≤ m) :
    (r.widen hle).Refuses rest reason := by
  obtain ⟨notLonger, rfl⟩ := h
  exact ⟨Nat.le_trans notLonger hle, rfl⟩

end Reply

namespace Grammar

variable {ts q : List Token} {t k : Token} {e : Expr} {s : Symbol} {error : GrammarError}

/-! ## Refusals -/

theorem expect_refuses (hk : k.kind ≠ .symbol s) :
    (expect s error (k :: q)).Refuses (k :: q) ⟨some k, error⟩ := by
  rw [expect, if_neg (by simpa [Token.isSymbol_iff] using hk)]
  exact ⟨Nat.le_refl _, rfl⟩

/-- Behind an expression in front of a token that neither continues nor closes it. -/
theorem closed_refuses (h : Expression ts e (k :: q)) (stops : 8 ≤ k.looseness)
    (hk : k.kind ≠ .symbol s) : (closed s error ts).Refuses (k :: q) ⟨some k, error⟩ :=
  (expression_complete h (stops_cons stops)).andThen_refuses
    ((expect_refuses hk).map.widen _)

/-- A primary expression begins with its first token. -/
theorem primary_refuses (hk : ¬ StartsExpression k) :
    (primary (k :: q)).Refuses (k :: q) ⟨some k, .expression⟩ := by
  rw [primary]
  split
  case h_10 => exact ⟨Nat.le_refl _, rfl⟩
  all_goals next kind => exact absurd (.inl (by simp [StartsPrimary, kind])) hk

theorem unary_refuses (hk : ¬ StartsExpression k) :
    (unary (k :: q)).Refuses (k :: q) ⟨some k, .expression⟩ := by
  rw [unary, if_neg fun hop => hk (.inr (isSign_iff.1 hop)), call]
  exact (primary_refuses hk).andThen

mutual

theorem binary_refuses (hk : ¬ StartsExpression k) (level : Level) :
    (binary level (k :: q)).Refuses (k :: q) ⟨some k, .expression⟩ := by
  rw [binary]
  exact (operand_refuses hk level).andThen
termination_by 2 * level.height + 1

theorem operand_refuses (hk : ¬ StartsExpression k) (level : Level) :
    (operand level (k :: q)).Refuses (k :: q) ⟨some k, .expression⟩ := by
  rw [operand]
  split
  · next tighter h =>
      have := Level.height_lt_of_tighter h
      exact binary_refuses hk tighter
  · exact unary_refuses hk
termination_by 2 * level.height

end

/-- No expression begins with the token: the refusal comes up from the innermost level. -/
theorem expression_refuses (hk : ¬ StartsExpression k) :
    (expression (k :: q)).Refuses (k :: q) ⟨some k, .expression⟩ := by
  rw [expression]
  exact (binary_refuses hk .or).andThen

/-! ## Words that start statements -/

theorem startsStatement_iff :
    t.startsStatement = true ↔ ∃ word ∈ [Symbol.classWord, .funWord, .varWord, .forWord, .ifWord,
      .whileWord, .printWord, .returnWord], t.kind = .symbol word := by
  unfold Token.startsStatement
  split
  · next h => simp [h]
  · next h =>
      simp only [Bool.false_eq_true, false_iff]
      rintro ⟨word, -, hk⟩
      exact h word hk

/-- Such a word neither continues an expression nor begins or ends one. -/
theorem startsStatement_apart (hk : k.startsStatement = true) :
    8 ≤ k.looseness ∧ ¬ StartsExpression k ∧ k.kind ≠ .symbol .semicolon ∧
      k.kind ≠ .symbol .equal := by
  obtain ⟨word, hm, hk⟩ := startsStatement_iff.1 hk
  simp only [List.mem_cons, List.not_mem_nil, or_false] at hm
  rcases hm with rfl | rfl | rfl | rfl | rfl | rfl | rfl | rfl <;>
    simp [Token.looseness, StartsExpression, StartsPrimary, IsSign, hk]

end Grammar

namespace Derivation

/-- A derivation does not look behind its sentence. -/
theorem Expression.frame {ts rest : List Token} {e : Expr} (h : Expression ts e rest) :
    ∃ front, ts = front ++ rest ∧ ∀ more, Expression (front ++ more) e more := by
  have keeps : KeepsKinds Eq := ⟨fun _ => rfl, fun h => h ▸ rfl⟩
  have reads : ∀ more, ∃ front, ts = front ++ rest ∧ Expression (front ++ more) e more := by
    intro more
    obtain ⟨us, h, changed⟩ := h.twin keeps (.refl keeps.same e) more
    obtain ⟨front, front', rfl, rfl, same⟩ := exchanged_iff.1 changed
    obtain rfl := List.forall₂_eq_eq_eq ▸ same
    exact ⟨front, rfl, h⟩
  obtain ⟨front, hts, -⟩ := reads []
  refine ⟨front, hts, fun more => ?_⟩
  obtain ⟨front', hts', h⟩ := reads more
  rwa [List.append_cancel_right (hts.symm.trans hts')]

end Derivation

/-- What is reported where the semicolon at the end of a statement is missing. A `return` without a
value then misses the expression that could stand there; statements of other forms do not end in a
semicolon of their own. -/
def Stmt.missingEnd? : Stmt → Option GrammarError
  | .expr _ => some .expressionEnd
  | .print _ => some .printEnd
  | .var _ _ => some .variableEnd
  | .returning _ none => some .expression
  | .returning _ (some _) => some .returnEnd
  | _ => none

theorem missingEnd?_forForm (initial : Option Stmt) (condition increment : Option Expr)
    (body : Stmt) : (forForm initial condition increment body).missingEnd? = none := by
  cases initial <;> cases increment <;> rfl

namespace Grammar

variable {s q : List Token} {semi k : Token} {st : Stmt} {error : GrammarError}

theorem append_last_inj {front : List Token} {stop : Token} (h : s ++ [semi] = front ++ [stop]) :
    s = front := (List.append_inj' h rfl).1

/-! ## A statement without its semicolon -/

theorem exprStmt_refuses (h : ExprStmt (s ++ [semi]) st []) (hm : st.missingEnd? = some error)
    (hk : k.startsStatement = true) :
    ∃ t u, s = t :: u ∧ (declaration t (u ++ k :: q)).Refuses (k :: q) ⟨some k, error⟩ := by
  obtain ⟨stops, -, hsemi, -⟩ := startsStatement_apart hk
  obtain ⟨he, -⟩ := h
  obtain ⟨front, hs, he⟩ := he.frame
  obtain rfl := append_last_inj hs
  have he := he (k :: q)
  obtain ⟨t, tail, ht, first⟩ := he.first
  cases s with
  | nil =>
      cases ht
      exact absurd first (startsStatement_apart hk).2.1
  | cons t' u =>
      cases ht
      refine ⟨t, u, rfl, ?_⟩
      rw [declaration]
      split
      case h_4 =>
        rw [statement]
        split
        case h_7 => cases hm; exact (closed_refuses he stops hsemi).map
        all_goals next word => exact absurd word (first.kind_ne (by decide))
      all_goals next word => exact absurd word (first.kind_ne (by decide))

theorem varDecl_refuses (h : VarDecl (s ++ [semi]) st []) (hm : st.missingEnd? = some error)
    (hk : k.startsStatement = true) :
    ∃ t u, s = t :: u ∧ (declaration t (u ++ k :: q)).Refuses (k :: q) ⟨some k, error⟩ := by
  obtain ⟨stops, -, hsemi, hequal⟩ := startsStatement_apart hk
  generalize hts : s ++ [semi] = ts at h
  cases h with
  | @bare keyword x _ _ word name stop =>
      obtain rfl : s = [keyword, x] := append_last_inj hts
      refine ⟨keyword, [x], rfl, ?_⟩
      rw [List.cons_append, List.nil_append, declaration, word]
      refine Reply.Refuses.widen ((expectName_reads.2 ⟨rfl, name⟩).andThen_refuses ?_) _
      dsimp only
      rw [if_neg (by simpa [Token.isSymbol_iff] using hequal)]
      cases hm
      exact (expect_refuses hsemi).map.widen _
  | @initial mid e _ _ keyword x equals word name eq he stop =>
      obtain ⟨front, rfl, again⟩ := he.frame
      obtain rfl : s = keyword :: x :: equals :: front := append_last_inj hts
      refine ⟨keyword, x :: equals :: front, rfl, ?_⟩
      rw [List.cons_append, List.cons_append, declaration, word]
      refine Reply.Refuses.widen ((expectName_reads.2 ⟨rfl, name⟩).andThen_refuses ?_) _
      dsimp only
      rw [if_pos (Token.isSymbol_iff.2 eq)]
      cases hm
      exact ((expression_complete (again _) (stops_cons stops)).andThen_refuses
        ((expect_refuses hsemi).map.widen _)).widen _

theorem statement_refuses {isOpen : Bool} (h : Statement .nearest isOpen (s ++ [semi]) st [])
    (hm : st.missingEnd? = some error) (hk : k.startsStatement = true) :
    ∃ t u, s = t :: u ∧ (declaration t (u ++ k :: q)).Refuses (k :: q) ⟨some k, error⟩ := by
  obtain ⟨stops, starts, hsemi, -⟩ := startsStatement_apart hk
  generalize hts : s ++ [semi] = ts at h
  cases h with
  | exprStmt h => exact exprStmt_refuses (hts ▸ h) hm hk
  | @print mid e _ _ keyword word he stop =>
      obtain ⟨front, rfl, again⟩ := he.frame
      obtain rfl : s = keyword :: front := append_last_inj hts
      refine ⟨keyword, front, rfl, ?_⟩
      rw [declaration, word]
      dsimp only
      rw [statement, word]
      cases hm
      exact (closed_refuses (again _) stops hsemi).map.widen _
  | @«return» mid value stop rest keyword word ho stop =>
      cases ho with
      | none =>
          obtain rfl : s = [keyword] := append_last_inj hts
          refine ⟨keyword, [], rfl, ?_⟩
          rw [declaration, word]
          dsimp only
          rw [statement, word]
          cases hm
          dsimp only [returnValue, optionallyClosed, List.nil_append]
          rw [if_neg (by simpa [Token.isSymbol_iff] using hsemi)]
          exact (expression_refuses starts).andThen.map.map.widen _
      | some he =>
          obtain ⟨front, rfl, again⟩ := he.frame
          obtain rfl : s = keyword :: front := append_last_inj hts
          refine ⟨keyword, front, rfl, ?_⟩
          rw [declaration, word]
          dsimp only
          rw [statement, word]
          cases hm
          have he := again (k :: q)
          obtain ⟨t, tail, ht, first⟩ := he.first
          dsimp only [returnValue, optionallyClosed]
          rw [ht] at he ⊢
          dsimp only
          rw [if_neg (by simpa [Token.isSymbol_iff] using first.kind_ne (by decide))]
          exact (closed_refuses he stops hsemi).map.map.widen _
  | «for» => rw [missingEnd?_forForm] at hm; cases hm
  | ifThen => cases hm
  | ifElse => cases hm
  | «while» => cases hm
  | block => cases hm

theorem declaration_refuses (h : Declaration .nearest (s ++ [semi]) st [])
    (hm : st.missingEnd? = some error) (hk : k.startsStatement = true) :
    ∃ t u, s = t :: u ∧ (declaration t (u ++ k :: q)).Refuses (k :: q) ⟨some k, error⟩ := by
  generalize hts : s ++ [semi] = ts at h
  cases h with
  | rootClass => cases hm
  | subclass => cases hm
  | funDecl => cases hm
  | varDecl h => exact varDecl_refuses (hts ▸ h) hm hk
  | statement h => exact statement_refuses (hts ▸ h) hm hk

/-- A declaration that is refused is dropped, and reading goes on where it resumes. -/
theorem declarations_refused {t : Token} {ts rest : List Token} {reason : Complaint}
    (h : (declaration t ts).Refuses rest reason) :
    (declarations false (t :: ts)).stmts = (declarations false (resume rest)).stmts ∧
      (declarations false (t :: ts)).reports =
        reason :: (declarations false (resume rest)).reports := by
  obtain ⟨notLonger, h⟩ := h
  rw [declarations, Bool.false_and, if_neg Bool.false_ne_true]
  split
  · next hd => rw [h] at hd; cases hd
  · next hd =>
      rw [h] at hd
      cases hd
      exact ⟨rfl, rfl⟩

/-! ## Whole programs -/

theorem skipToBoundary_subset (previous : Token) (ts : List Token) :
    skipToBoundary previous ts ⊆ ts := by
  induction ts generalizing previous with
  | nil => exact List.Subset.refl _
  | cons t ts ih =>
      rw [skipToBoundary]
      split
      · exact List.Subset.refl _
      · exact List.Subset.trans (ih t) (List.subset_cons_self t ts)

/-- A list without ends in front of one: its declarations, and its complaints located there. -/
theorem program_append_end {ts : List Token} {last : Token} (inner : ∀ t ∈ ts, t.isEnd = false)
    (ending : last.isEnd = true) :
    program (ts ++ [last]) =
      ((declarations false ts).stmts, located last (declarations false ts).reports) := by
  have first : endToken (ts ++ [last]) = last := by
    rw [endToken_append inner, endToken, List.find?_cons_of_pos ending]
    rfl
  rw [program, content_append inner ending, first]

/-- Where a statement that ends in a semicolon lacks it, and a word that starts a statement stands
in its place, one error is reported at the word, and the statement is dropped. Reading resumes
behind the word, at the next boundary: all further errors and all statements are those of what is
left there. -/
theorem program_resumes (inner : ∀ t ∈ s, t.isEnd = false)
    (stop : semi.kind = .symbol .semicolon) (reads : program (s ++ [semi]) = ([st], []))
    (ends : st.missingEnd? = some error) (starts : k.startsStatement = true) :
    program (s ++ k :: q) =
      ((program (skipToBoundary k (content q) ++ [endToken (k :: q)])).1,
        ⟨k, error⟩ :: (program (skipToBoundary k (content q) ++ [endToken (k :: q)])).2) := by
  have whole : content (s ++ [semi]) = s ++ [semi] := by
    rw [content_append_of_inner inner, content_of_inner]
    simpa using isEnd_of_symbol stop
  have derivation : Declaration .nearest (s ++ [semi]) st [] := by
    have h := program_eq_iff.1 reads
    rw [whole] at h
    cases h with
    | cons declaration none =>
        cases none
        exact declaration
  have open' : content (s ++ k :: q) = s ++ k :: content q := by
    obtain ⟨word, -, hk⟩ := startsStatement_iff.1 starts
    rw [content_append_of_inner inner]
    exact congrArg (s ++ ·) (List.takeWhile_cons_of_pos (by rw [isEnd_of_symbol hk]; rfl))
  obtain ⟨t, u, rfl, refuses⟩ := declaration_refuses (q := content q) derivation ends starts
  obtain ⟨stmts, reports⟩ := declarations_refused refuses
  have left : ∀ t ∈ skipToBoundary k (content q), t.isEnd = false := fun t ht =>
    isEnd_of_mem_content (skipToBoundary_subset _ _ ht)
  rw [program_append_end left (isEnd_endToken _), program, open', endToken_append inner]
  rw [List.cons_append, stmts, reports]
  rfl

/-- `print v;` -/
def printNumber (v : Float) (text : String) : List Token :=
  [⟨.symbol .printWord, "print", 1⟩, ⟨.number v, text, 1⟩, ⟨.symbol .semicolon, ";", 1⟩]

theorem printNumber_read (v : Float) (text : String) (last : Token) (ending : last.isEnd = true) :
    program (printNumber v text ++ [last]) = ([.print (.literal (.number v))], []) := by
  rw [program_eq_iff, content_append (by simp [printNumber, Token.isEnd]) ending]
  exact .cons (.statement (.print rfl (.or (.and (.equality (.comparison (.term (.factor (.unary
    (.call (.primary (.number rfl)))))))))) rfl)) .nil

/-- `print 1 var x = 2; print 3;`: the declaration of `x` is lost with the statement in front. -/
theorem brokenPrint_loses_variable :
    program ([⟨.symbol .printWord, "print", 1⟩, ⟨.number 1, "1", 1⟩] ++
        ⟨.symbol .varWord, "var", 1⟩ ::
          ([⟨.identifier, "x", 1⟩, ⟨.symbol .equal, "=", 1⟩, ⟨.number 2, "2", 1⟩,
            ⟨.symbol .semicolon, ";", 1⟩] ++ printNumber 3 "3" ++ [.endOn 1])) =
      ([.print (.literal (.number 3))], [⟨⟨.symbol .varWord, "var", 1⟩, .printEnd⟩]) := by
  have reads : program ([⟨.symbol .printWord, "print", 1⟩, ⟨.number 1, "1", 1⟩] ++
      [⟨.symbol .semicolon, ";", 1⟩]) = ([.print (.literal (.number 1))], []) := by
    rw [program_eq_iff]
    exact .cons (.statement (.print rfl (.or (.and (.equality (.comparison (.term (.factor (.unary
      (.call (.primary (.number rfl)))))))))) rfl)) .nil
  rw [program_resumes (by simp [Token.isEnd]) rfl reads rfl rfl]
  show ((program (printNumber 3 "3" ++ [.endOn 1])).1,
    _ :: (program (printNumber 3 "3" ++ [.endOn 1])).2) = _
  rw [printNumber_read 3 "3" _ rfl]

end Grammar

end LoxLang
