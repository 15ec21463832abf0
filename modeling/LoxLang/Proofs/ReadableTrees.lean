import LoxLang.Proofs.NestedTexts
import LoxLang.Proofs.NumeralTexts
import LoxLang.Proofs.Spelling
import LoxLang.Tree.Reading

/-!
# Trees that can be read from their text

A tree is readable if its text is that of a nested list from which the tree is
read back, on one line. A node of readable parts is readable, given that its
tokens are those of a source. This is one law for each kind of node. The law of
expressions is one about forms, a word with expressions behind it, since the
names in an expression are printed like names that stand for themselves.
-/

namespace LoxLang

open Lexicon Nested

/-! ## Words -/

/-- A token that a tree can be read back from: it is spelled like its kind, it is no string, and a
number is finite and has no sign. -/
def Token.Legible (t : Token) : Prop :=
  match t.kind with
  | .symbol s => t.lexeme = s.spelling
  | .identifier => Pattern (.token .identifier) t.lexeme.toList
  | .number x => ∃ m, NumberView.of x = .finite false m
  | .string _ => False
  | .eof => True

namespace Token

theorem ofWord?_of_scan {t u : Token} {w : String} (h : Scan.ofText w = [.token t, .token u]) :
    ofWord? w = some t := by
  rw [ofWord?, h]

theorem ofWord?_spelling (s : Symbol) : ofWord? s.spelling = some ⟨.symbol s, s.spelling, 1⟩ := by
  have oneLine : '\n' ∉ s.spelling.toList := by
    cases s <;> decide
  have pattern : Pattern (.token (.symbol s)) s.spelling.toList :=
    (s.mem_punctuators_or_keywords).elim .punctuator .keyword
  have scan := Scan.ofText_token pattern oneLine
  rw [String.ofList_toList] at scan
  exact ofWord?_of_scan scan

variable {t : Token}

theorem Legible.lexeme_eq {s : Symbol} (h : t.Legible) (kind : t.kind = .symbol s) :
    t.lexeme = s.spelling := by
  unfold Legible at h
  rw [kind] at h
  exact h

theorem onFirstLine_symbol {s : Symbol} (h : t.Legible) (kind : t.kind = .symbol s) :
    t.onFirstLine = ⟨.symbol s, s.spelling, 1⟩ := by
  rw [onFirstLine, kind, h.lexeme_eq kind]

theorem Legible.pattern (h : t.Legible) (kind : t.kind = .identifier) :
    Pattern (.token .identifier) t.lexeme.toList := by
  unfold Legible at h
  rw [kind] at h
  exact h

end Token

theorem wordPart_not_separates {c : Char} (part : Scan.isWordPart c = true) :
    separates c = false := by
  by_contra separate
  simp only [separates, Bool.not_eq_false, Bool.or_eq_true, beq_iff_eq] at separate
  rcases separate with (rfl | rfl) | rfl <;> cases part

theorem isWord_identifier {w : List Char} (h : Pattern (.token .identifier) w) :
    IsWord w ∧ '\n' ∉ w := by
  cases h with
  | @identifier c w start parts _ =>
      have first : Scan.isWordPart c = true := by rw [Scan.isWordPart, start, Bool.true_or]
      have whole : ∀ d ∈ c :: w, Scan.isWordPart d = true := List.forall_mem_cons.2 ⟨first, parts⟩
      refine ⟨⟨List.cons_ne_nil _ _, fun c hc => wordPart_not_separates (whole c hc)⟩,
        fun mem => ?_⟩
      cases whole _ mem

/-- A name is printed as the word that it is read from. -/
theorem Token.Legible.name {x : Token} (legible : x.Legible) (kind : x.kind = .identifier) :
    IsWord x.lexeme.toList ∧ Token.ofWord? x.lexeme = some x.onFirstLine := by
  obtain ⟨isWord, oneLine⟩ := isWord_identifier (legible.pattern kind)
  have scan := Scan.ofText_token (legible.pattern kind) oneLine
  rw [String.ofList_toList] at scan
  refine ⟨isWord, (Token.ofWord?_of_scan scan).trans ?_⟩
  rw [Token.onFirstLine, kind]

theorem isWord_plain {w : List Char} {d : Decimal} (h : Plain w d) : IsWord w := by
  have digit {c : Char} (is : Scan.isDigit c = true) : separates c = false :=
    wordPart_not_separates (by rw [Scan.isWordPart, is, Bool.or_true])
  cases h with
  | whole nonempty digits => exact ⟨nonempty, fun c hc => digit (digits c hc)⟩
  | fraction nonempty digits _ digits' =>
      refine ⟨List.append_ne_nil_of_left_ne_nil nonempty _, List.forall_mem_append.2 ⟨?_, ?_⟩⟩
      · exact fun c hc => digit (digits c hc)
      · exact List.forall_mem_cons.2 ⟨rfl, fun c hc => digit (digits' c hc)⟩

/-! ## Expressions -/

namespace Expr

/-- The text of the expression is that of a nested list that it is read back from. -/
def Readable (e : Expr) : Prop :=
  ∃ n : Nested, Shows e.printed.toList n.parts ∧ n.expr? = some e.onFirstLine

/-- The same for an expression that may be absent. -/
def OptReadable (o : Option Expr) : Prop := ∀ e ∈ o, e.Readable

/-- The same for expressions with blanks in front of them. -/
def AllReadable (es : List Expr) : Prop :=
  ∃ ns : List Nested, Tail (printedAll es).toList (allParts ns) ∧
    exprs? ns = some (allOnFirstLine es)

variable {e : Expr} {es : List Expr}

theorem OptReadable.none : OptReadable none := fun _ he => (Option.not_mem_none _ he).elim

theorem OptReadable.some (h : e.Readable) : OptReadable (some e) := by
  rintro _ ⟨⟩
  exact h

theorem Readable.ofPrinted? (h : e.Readable) : Expr.ofPrinted? e.printed = some e.onFirstLine := by
  obtain ⟨n, shows, reads⟩ := h
  rw [Expr.ofPrinted?, ofText?_of_shows shows]
  exact reads

theorem AllReadable.nil : AllReadable [] := ⟨[], .nil, rfl⟩

theorem AllReadable.cons (h : e.Readable) (hs : AllReadable es) : AllReadable (e :: es) := by
  obtain ⟨n, shows, reads⟩ := h
  obtain ⟨ns, tail, reads'⟩ := hs
  refine ⟨n :: ns, ?_, ?_⟩
  · have text := tail.cons shows
    simpa [printedAll, allParts] using text
  · rw [exprs?, reads, reads']
    rfl

theorem AllReadable.singleton (h : e.Readable) : AllReadable [e] := .cons h .nil

theorem AllReadable.pair {e' : Expr} (h : e.Readable) (h' : e'.Readable) : AllReadable [e, e'] :=
  .cons h (.singleton h')

namespace Readable

theorem printed_name (x : Token) (depth : Option Nat) :
    (Expr.name x depth).printed = x.lexeme := rfl

/-- A word that is the expression. -/
theorem word {w : String} {t : Token} (is : IsWord w.toList) (printed : e.printed = w)
    (read : Token.ofWord? w = some t) (atom : t.atom? = some e.onFirstLine) : e.Readable := by
  refine ⟨.word w, ?_, ?_⟩
  · rw [printed, parts]
    have text := Shows.word is
    rwa [String.ofList_toList] at text
  · rw [expr?, read]
    exact atom

/-- A word with expressions behind it. -/
theorem form (head : String) (is : IsWord head.toList) (items : AllReadable es)
    (printed : e.printed.toList = '(' :: (head.toList ++ (printedAll es).toList ++ [')']))
    (made : ofForm? head (allOnFirstLine es) = some e.onFirstLine) : e.Readable := by
  obtain ⟨ns, tail, reads⟩ := items
  refine ⟨.list (.word head :: ns), ?_, ?_⟩
  · rw [printed, parts, allParts, parts]
    have text := tail.headed is
    rwa [String.ofList_toList] at text
  · rw [expr?, reads]
    exact made

/-! ### Words -/

/-- A reserved word that is the expression. -/
theorem constant (s : Symbol) (is : IsWord s.spelling.toList) (printed : e.printed = s.spelling)
    (atom : (Token.mk (.symbol s) s.spelling 1).atom? = some e.onFirstLine) : e.Readable :=
  word is printed (Token.ofWord?_spelling s) atom

theorem bool : ∀ b : Bool, (Expr.literal (.bool b)).Readable
  | true => constant .trueWord (by simp [IsWord, separates, Symbol.spelling]) rfl rfl
  | false => constant .falseWord (by simp [IsWord, separates, Symbol.spelling]) rfl rfl

theorem nil : (Expr.literal .nil).Readable :=
  constant .nilWord (by simp [IsWord, separates, Symbol.spelling]) rfl rfl

theorem number {x : Float} {m : Magnitude} (finite : NumberView.of x = .finite false m) :
    (Expr.literal (.number x)).Readable := by
  have text := Numeral.treeText_readsBack finite
  have scan := text.scanned (NumberView.of_eq_finite finite).1
  obtain ⟨d, plain, -⟩ := text
  exact word (isWord_plain plain) rfl (Token.ofWord?_of_scan scan) rfl

theorem name {x : Token} (legible : x.Legible) (kind : x.kind = .identifier) :
    (Expr.name x none).Readable := by
  obtain ⟨isWord, read⟩ := legible.name kind
  refine word isWord rfl read ?_
  rw [onFirstLine, Token.onFirstLine, kind]
  rfl

theorem this {keyword : Token} (legible : keyword.Legible)
    (kind : keyword.kind = .symbol .thisWord) : (Expr.this keyword none).Readable := by
  refine constant .thisWord (by simp [IsWord, separates, Symbol.spelling]) rfl ?_
  rw [onFirstLine, Token.onFirstLine_symbol legible kind]
  rfl

/-! ### Forms -/

theorem group (h : e.Readable) : (Expr.group e).Readable := by
  refine form "group" (by simp [IsWord, separates]) (.singleton h) ?_ rfl
  show ("(group " ++ e.printed ++ ")").toList = _
  simp [printedAll]

theorem call {f : Expr} {paren : Token} (h : f.Readable) (legible : paren.Legible)
    (kind : paren.kind = .symbol .rightParen) (hs : AllReadable es) :
    (Expr.call f paren es).Readable := by
  refine form "call" (by simp [IsWord, separates]) (.cons h hs) ?_ ?_
  · show ("(call " ++ f.printed ++ printedAll es ++ ")").toList = _
    simp [printedAll]
  · rw [onFirstLine, Token.onFirstLine_symbol legible kind, allOnFirstLine, ofForm?,
      Token.ofWord?_spelling]
    rfl

variable {x : Token} {v : Expr}

theorem assign (legible : x.Legible) (kind : x.kind = .identifier) (h : v.Readable) :
    (Expr.assign x none v).Readable := by
  refine form "=" (by simp [IsWord, separates]) (.pair (name legible kind) h) ?_ rfl
  show ("(= " ++ x.lexeme ++ " " ++ v.printed ++ ")").toList = _
  simp [printedAll, printed_name]

theorem get (h : e.Readable) (legible : x.Legible) (kind : x.kind = .identifier) :
    (Expr.get e x).Readable := by
  refine form "." (by simp [IsWord, separates]) (.pair h (name legible kind)) ?_ rfl
  show ("(. " ++ e.printed ++ " " ++ x.lexeme ++ ")").toList = _
  simp [printedAll, printed_name]

theorem set (h : e.Readable) (legible : x.Legible) (kind : x.kind = .identifier) (hv : v.Readable) :
    (Expr.set e x v).Readable := by
  refine form ".=" (by simp [IsWord, separates])
    (.cons h (.pair (name legible kind) hv)) ?_ rfl
  show ("(.= " ++ e.printed ++ " " ++ x.lexeme ++ " " ++ v.printed ++ ")").toList = _
  simp [printedAll, printed_name]

theorem super {keyword : Token} (legible : keyword.Legible)
    (kind : keyword.kind = .symbol .superWord) (legible' : x.Legible)
    (kind' : x.kind = .identifier) : (Expr.super keyword none x).Readable := by
  refine form "super" (by simp [IsWord, separates]) (.singleton (name legible' kind'))
    ?_ ?_
  · show ("(super " ++ x.lexeme ++ ")").toList = _
    simp [printedAll, printed_name]
  · rw [onFirstLine, Token.onFirstLine_symbol legible kind, allOnFirstLine, allOnFirstLine,
      onFirstLine, ofForm?, Token.ofWord?_spelling]
    rfl

/-! ### Operators -/

/-- The operators that stand between two operands and always evaluate both. -/
def strictOperators : List Symbol :=
  [.bangEqual, .equalEqual, .greater, .greaterEqual, .less, .lessEqual, .minus, .plus, .slash,
    .star]

/-- The operators that may leave out their right operand. -/
def lazyOperators : List Symbol := [.orWord, .andWord]

/-- The operators in front of their only operand. -/
def signs : List Symbol := [.bang, .minus]

/-- No operator is a word that says what a form is. -/
theorem ofForm?_operator {s : Symbol} (is : s ∈ strictOperators ++ lazyOperators ++ signs)
    (es : List Expr) : IsWord s.spelling.toList ∧
      ofForm? s.spelling es = ofOperator? ⟨.symbol s, s.spelling, 1⟩ es := by
  have read := Token.ofWord?_spelling s
  cases s <;> first
    | exact absurd is (by decide)
    | exact ⟨by simp [IsWord, separates, Symbol.spelling], by simp_all [ofForm?, Symbol.spelling]⟩

variable {t : Token} {s : Symbol} {l r : Expr}

theorem unary (is : s ∈ signs) (legible : t.Legible) (kind : t.kind = .symbol s) (h : e.Readable) :
    (Expr.unary t e).Readable := by
  obtain ⟨isWord, made⟩ := ofForm?_operator (List.mem_append_right _ is) [e.onFirstLine]
  refine form _ isWord (.singleton h) ?_ ?_
  · show ("(" ++ t.lexeme ++ " " ++ e.printed ++ ")").toList = _
    simp [printedAll, legible.lexeme_eq kind]
  · rw [onFirstLine, Token.onFirstLine_symbol legible kind]
    exact made

theorem binary (is : s ∈ strictOperators) (legible : t.Legible) (kind : t.kind = .symbol s)
    (hl : l.Readable) (hr : r.Readable) : (Expr.binary l t r).Readable := by
  obtain ⟨isWord, made⟩ := ofForm?_operator (List.mem_append_left _ (List.mem_append_left _ is))
    [l.onFirstLine, r.onFirstLine]
  have strict : (s == .orWord || s == .andWord) = false := by
    revert is
    cases s <;> decide
  refine form _ isWord (.pair hl hr) ?_ ?_
  · show ("(" ++ t.lexeme ++ " " ++ l.printed ++ " " ++ r.printed ++ ")").toList = _
    simp [printedAll, legible.lexeme_eq kind]
  · rw [onFirstLine, Token.onFirstLine_symbol legible kind]
    exact made.trans (if_neg (by rw [Token.isSymbol, Token.isSymbol, strict]; decide))

theorem logical (is : s ∈ lazyOperators) (legible : t.Legible) (kind : t.kind = .symbol s)
    (hl : l.Readable) (hr : r.Readable) : (Expr.logical l t r).Readable := by
  obtain ⟨isWord, made⟩ := ofForm?_operator (List.mem_append_left _ (List.mem_append_right _ is))
    [l.onFirstLine, r.onFirstLine]
  have mayLeaveOut : (s == .orWord || s == .andWord) = true := by
    revert is
    cases s <;> decide
  refine form _ isWord (.pair hl hr) ?_ ?_
  · show ("(" ++ t.lexeme ++ " " ++ l.printed ++ " " ++ r.printed ++ ")").toList = _
    simp [printedAll, legible.lexeme_eq kind]
  · rw [onFirstLine, Token.onFirstLine_symbol legible kind]
    exact made.trans (if_pos mayLeaveOut)

end Readable

end Expr

/-! ## Statements -/

theorem shows_name {x : Token} (legible : x.Legible) (kind : x.kind = .identifier) :
    Shows x.lexeme.toList (Nested.word x.lexeme).parts := by
  have text := Shows.word (legible.name kind).1
  rwa [String.ofList_toList] at text

/-- Names with blanks between them are read back. -/
theorem names_readable {xs : List Token} (h : ∀ x ∈ xs, x.Legible ∧ x.kind = .identifier) :
    Shows (" ".intercalate (xs.map (·.lexeme))).toList (allParts (xs.map (.word ·.lexeme))) ∧
      tokens? (xs.map (.word ·.lexeme)) = some (xs.map Token.onFirstLine) := by
  induction xs with
  | nil => exact ⟨.nil, rfl⟩
  | cons x xs ih =>
      obtain ⟨⟨legible, kind⟩, h⟩ := List.forall_mem_cons.1 h
      obtain ⟨shows, reads⟩ := ih h
      have first := shows_name legible kind
      refine ⟨?_, ?_⟩
      · cases xs with
        | nil => simpa [allParts] using first
        | cons y ys =>
            have text := first.append shows.blank (by rintro _ ⟨⟩; rfl)
            simpa [allParts, String.intercalate_cons_cons] using text
      · rw [List.map_cons, tokens?, (legible.name kind).2, reads]
        rfl

namespace Stmt

/-- The text of the statement is that of a nested list that it is read back from. -/
def Readable (s : Stmt) : Prop :=
  ∃ n : Nested, Shows s.printed.toList n.parts ∧ n.stmt? = some s.onFirstLine

/-- The same for statements with blanks in front of them. -/
def AllReadable (ss : List Stmt) : Prop :=
  ∃ ns : List Nested, Tail (printedAll ss).toList (allParts ns) ∧
    stmts? ns = some (allOnFirstLine ss)

end Stmt

/-- The text of the function, without the word at its head, is that of nested lists that it is read
back from. -/
def FunctionDecl.Readable (f : FunctionDecl) : Prop :=
  ∃ (text : List Char) (ns : List Nested), Tail text (allParts ns) ∧
    (∀ word, (f.printed word).toList = '(' :: (word.toList ++ text ++ [')'])) ∧
    routine? ns = some f.onFirstLine

/-- The same for methods, with the word and blanks in front of them. -/
def FunctionDecl.AllReadable (fs : List FunctionDecl) : Prop :=
  ∃ ns : List Nested, Tail (printedAll fs).toList (allParts ns) ∧
    methods? ns = some (allOnFirstLine fs)

namespace Stmt

variable {s s' : Stmt} {ss : List Stmt} {e : Expr} {x : Token}

theorem Readable.ofPrinted? (h : s.Readable) : Stmt.ofPrinted? s.printed = some s.onFirstLine := by
  obtain ⟨n, shows, reads⟩ := h
  rw [Stmt.ofPrinted?, ofText?_of_shows shows]
  exact reads

theorem AllReadable.nil : AllReadable [] := ⟨[], .nil, rfl⟩

theorem AllReadable.cons (h : s.Readable) (hs : AllReadable ss) : AllReadable (s :: ss) := by
  obtain ⟨n, shows, reads⟩ := h
  obtain ⟨ns, tail, reads'⟩ := hs
  refine ⟨n :: ns, ?_, ?_⟩
  · have text := tail.cons shows
    simpa [printedAll, allParts] using text
  · rw [stmts?, reads, reads']
    rfl

namespace Readable

/-- A word with nested lists behind it. -/
theorem form (head : String) (ns : List Nested) {text : List Char} (is : IsWord head.toList)
    (tail : Tail text (allParts ns))
    (printed : s.printed.toList = '(' :: (head.toList ++ text ++ [')']))
    (reads : (Nested.list (.word head :: ns)).stmt? = some s.onFirstLine) : s.Readable := by
  refine ⟨_, ?_, reads⟩
  rw [printed, parts, allParts, parts]
  have text := tail.headed is
  rwa [String.ofList_toList] at text

theorem expr (h : e.Readable) : (Stmt.expr e).Readable := by
  obtain ⟨n, shows, reads⟩ := h
  refine form ";" [n] (by simp [IsWord, separates]) (.cons shows .nil) ?_ ?_
  · show ("(; " ++ e.printed ++ ")").toList = _
    simp
  · show (do some (Stmt.expr (← n.expr?))) = _
    rw [reads]
    rfl

theorem print (h : e.Readable) : (Stmt.print e).Readable := by
  obtain ⟨n, shows, reads⟩ := h
  refine form "print" [n] (by simp [IsWord, separates]) (.cons shows .nil) ?_ ?_
  · show ("(print " ++ e.printed ++ ")").toList = _
    simp
  · show (do some (Stmt.print (← n.expr?))) = _
    rw [reads]
    rfl

theorem var (legible : x.Legible) (kind : x.kind = .identifier)
    {initial : Option Expr} (h : Expr.OptReadable initial) : (Stmt.var x initial).Readable := by
  have name := shows_name legible kind
  have read := (legible.name kind).2
  cases initial with
  | none =>
      refine form "var" [.word x.lexeme] (by simp [IsWord, separates])
        (.cons name .nil) ?_ ?_
      · show ("(var " ++ x.lexeme ++ ")").toList = _
        simp
      · show (do some (Stmt.var (← Token.ofWord? x.lexeme) none)) = _
        rw [read]
        rfl
  | some e =>
      obtain ⟨n, shows, reads⟩ := h e rfl
      refine form "var" [.word x.lexeme, n] (by simp [IsWord, separates])
        (.cons name (.cons shows .nil)) ?_ ?_
      · show ("(var " ++ x.lexeme ++ " " ++ e.printed ++ ")").toList = _
        simp
      · show (do some (Stmt.var (← Token.ofWord? x.lexeme) (some (← n.expr?)))) = _
        rw [read, reads]
        rfl

theorem block (hs : AllReadable ss) : (Stmt.block ss).Readable := by
  obtain ⟨ns, tail, reads⟩ := hs
  refine form "block" _ (by simp [IsWord, separates]) tail ?_ ?_
  · show ("(block" ++ printedAll ss ++ ")").toList = _
    simp
  · show (do some (Stmt.block (← stmts? ns))) = _
    rw [reads]
    rfl

theorem ifThen (h : e.Readable) (hs : s.Readable) : (Stmt.ifThen e s).Readable := by
  obtain ⟨n, shows, reads⟩ := h
  obtain ⟨n', shows', reads'⟩ := hs
  refine form "if" [n, n'] (by simp [IsWord, separates])
    (.cons shows (.cons shows' .nil)) ?_ ?_
  · show ("(if " ++ e.printed ++ " " ++ s.printed ++ ")").toList = _
    simp
  · show (do some (Stmt.ifThen (← n.expr?) (← n'.stmt?))) = _
    rw [reads, reads']
    rfl

theorem ifElse (h : e.Readable) (hs : s.Readable) (hs' : s'.Readable) :
    (Stmt.ifElse e s s').Readable := by
  obtain ⟨n, shows, reads⟩ := h
  obtain ⟨n', shows', reads'⟩ := hs
  obtain ⟨n'', shows'', reads''⟩ := hs'
  refine form "if-else" [n, n', n''] (by simp [IsWord, separates])
    (.cons shows (.cons shows' (.cons shows'' .nil))) ?_ ?_
  · show ("(if-else " ++ e.printed ++ " " ++ s.printed ++ " " ++ s'.printed ++ ")").toList = _
    simp
  · show (do some (Stmt.ifElse (← n.expr?) (← n'.stmt?) (← n''.stmt?))) = _
    rw [reads, reads', reads'']
    rfl

theorem whileDo (h : e.Readable) (hs : s.Readable) : (Stmt.whileDo e s).Readable := by
  obtain ⟨n, shows, reads⟩ := h
  obtain ⟨n', shows', reads'⟩ := hs
  refine form "while" [n, n'] (by simp [IsWord, separates])
    (.cons shows (.cons shows' .nil)) ?_ ?_
  · show ("(while " ++ e.printed ++ " " ++ s.printed ++ ")").toList = _
    simp
  · show (do some (Stmt.whileDo (← n.expr?) (← n'.stmt?))) = _
    rw [reads, reads']
    rfl

theorem function {f : FunctionDecl} (h : f.Readable) : (Stmt.function f).Readable := by
  obtain ⟨text, ns, tail, printed, reads⟩ := h
  refine form "fun" _ (by simp [IsWord, separates]) tail (printed "fun") ?_
  show (do some (Stmt.function (← routine? ns))) = _
  rw [reads]
  rfl

theorem returning (legible : x.Legible) (kind : x.kind = .symbol .returnWord)
    {value : Option Expr} (h : Expr.OptReadable value) : (Stmt.returning x value).Readable := by
  have keyword := Token.ofWord?_spelling .returnWord
  rw [← Token.onFirstLine_symbol legible kind] at keyword
  cases value with
  | none =>
      refine form "return" [] (by simp [IsWord, separates]) .nil ?_ ?_
      · show "(return)".toList = _
        simp
      · show (do some (Stmt.returning (← Token.ofWord? Symbol.returnWord.spelling) none)) = _
        rw [keyword]
        rfl
  | some e =>
      obtain ⟨n, shows, reads⟩ := h e rfl
      refine form "return" [n] (by simp [IsWord, separates]) (.cons shows .nil)
        ?_ ?_
      · show ("(return " ++ e.printed ++ ")").toList = _
        simp
      · show (do some (Stmt.returning (← Token.ofWord? Symbol.returnWord.spelling)
          (some (← n.expr?)))) = _
        rw [keyword, reads]
        rfl

end Readable

end Stmt

/-! ## Functions and classes -/

namespace FunctionDecl

variable {f : FunctionDecl} {fs : List FunctionDecl}

/-- The parameters follow the name with no blank between them. -/
theorem Readable.mk {x : Token} {xs : List Token} {body : List Stmt} (legible : x.Legible)
    (kind : x.kind = .identifier) (parameters : ∀ p ∈ xs, p.Legible ∧ p.kind = .identifier)
    (hs : Stmt.AllReadable body) : FunctionDecl.Readable ⟨x, xs, body⟩ := by
  obtain ⟨shows, reads⟩ := names_readable parameters
  obtain ⟨ns, tail, reads'⟩ := hs
  refine ⟨_, .word x.lexeme :: .list (xs.map (.word ·.lexeme)) :: ns,
    .cons (shows_name legible kind) (.list shows tail), fun word => ?_, ?_⟩
  · show ("(" ++ word ++ " " ++ x.lexeme ++ "(" ++ " ".intercalate (xs.map (·.lexeme)) ++ ")"
      ++ Stmt.printedAll body ++ ")").toList = _
    simp
  · show (do some (FunctionDecl.mk (← Token.ofWord? x.lexeme)
      (← tokens? (xs.map fun p : Token => .word p.lexeme)) (← stmts? ns))) = _
    rw [(legible.name kind).2, reads, reads']
    rfl

theorem AllReadable.nil : AllReadable [] := ⟨[], .nil, rfl⟩

theorem AllReadable.cons (h : f.Readable) (hs : AllReadable fs) : AllReadable (f :: fs) := by
  obtain ⟨text, ns, tail, printed, reads⟩ := h
  obtain ⟨ns', tail', reads'⟩ := hs
  refine ⟨.list (.word "method" :: ns) :: ns', ?_, ?_⟩
  · have method := tail.headed (w := "method".toList) (by simp [IsWord, separates])
    have text := tail'.cons method
    rw [← printed] at text
    simpa [printedAll, allParts, parts] using text
  · show (do some ((← routine? ns) :: (← methods? ns'))) = _
    rw [reads, reads']
    rfl

end FunctionDecl

theorem Stmt.Readable.classDecl {x : Token} {superclass : Option Expr} {fs : List FunctionDecl}
    (legible : x.Legible) (kind : x.kind = .identifier) (h : Expr.OptReadable superclass)
    (hs : FunctionDecl.AllReadable fs) : (Stmt.classDecl x superclass fs).Readable := by
  have name := shows_name legible kind
  have read := (legible.name kind).2
  obtain ⟨ns, tail, reads⟩ := hs
  cases superclass with
  | none =>
      refine form "class" (.word x.lexeme :: ns) (by simp [IsWord, separates])
        (.cons name tail) ?_ ?_
      · show ("(class " ++ x.lexeme ++ FunctionDecl.printedAll fs ++ ")").toList = _
        simp
      · -- A method is a list, so what stands behind the name is not taken for a superclass.
        have alone : (Nested.list (.word "class" :: .word x.lexeme :: ns)).stmt? =
            (do some (Stmt.classDecl (← Token.ofWord? x.lexeme) Option.none (← methods? ns))) := by
          cases ns with
          | nil => rfl
          | cons n ns =>
              cases n with
              | word w => cases reads
              | list items => rfl
        rw [alone, read, reads]
        rfl
  | some e =>
      obtain ⟨n, shows, reads'⟩ := h e rfl
      have less : Shows ['<'] (Nested.word "<").parts := Shows.word (by simp [IsWord, separates])
      refine form "class" (.word x.lexeme :: .word "<" :: n :: ns)
        (by simp [IsWord, separates]) (.cons name (.cons less (.cons shows tail))) ?_ ?_
      · show ("(class " ++ x.lexeme ++ " < " ++ e.printed ++ FunctionDecl.printedAll fs
          ++ ")").toList = _
        simp
      · show (do some (Stmt.classDecl (← Token.ofWord? x.lexeme) (some (← n.expr?))
          (← methods? ns))) = _
        rw [read, reads, reads']
        rfl

end LoxLang
