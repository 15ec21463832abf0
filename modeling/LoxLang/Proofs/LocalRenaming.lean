import LoxLang.Proofs.LexicalDistance
import LoxLang.Proofs.RenamedResolution
import LoxLang.Proofs.RenamedRuns
import LoxLang.Proofs.RenamedText
import LoxLang.Proofs.Scanning
import LoxLang.Proofs.SentencesAlike
import LoxLang.Proofs.Sessions

/-!
# Renaming a local variable changes nothing

A program in which a variable of a block or function has another name, one that
occurs nowhere in the program, is a program like the first: it has no static
errors, its occurrences have the depths that they had, and it prints the same
lines and ends in the same way.
-/

namespace LoxLang

variable {x y : String}

/-- The reports are of the same fault, at the same token or at one with the other name. -/
inductive Diagnostic.Renamed (x y : String) : Diagnostic → Diagnostic → Prop
  | runtime {e e' : Located Fault} (fault : e.Renamed x y e') :
      Diagnostic.Renamed x y (.runtime e) (.runtime e')

/-- The sessions have printed the same lines and reported the same, up to the name. -/
structure Session.Renamed (x y : String) (s s' : Session) : Prop where
  printed : s'.machine.printed = s.machine.printed
  diagnostics : List.Forall₂ (Diagnostic.Renamed x y) s.diagnostics s'.diagnostics

/-! ## Names -/

theorem Scan.ne_of_identifier {z : String} (h : Lexicon.Pattern (.token .identifier) z.toList)
    {s : Symbol} (hs : s ∈ Symbol.keywords) : z ≠ s.spelling := by
  rintro rfl
  have kind := (Scan.identifier_word h).2.2
  rw [Lexicon.wordKind_keyword hs] at kind
  cases kind

theorem renamable_of_identifiers (old : Lexicon.Pattern (.token .identifier) x.toList)
    (new : Lexicon.Pattern (.token .identifier) y.toList) : Renamable x y where
  old_this := Scan.ne_of_identifier (s := .thisWord) old (by decide)
  old_super := Scan.ne_of_identifier (s := .superWord) old (by decide)
  new_this := Scan.ne_of_identifier (s := .thisWord) new (by decide)
  new_super := Scan.ne_of_identifier (s := .superWord) new (by decide)

/-! ## The old name

What is renamed is declared, so that its name is that of an identifier in the
text. -/

theorem Scan.pattern_of_identifier {source : String} {t : Token} (h : t ∈ Scan.tokens source)
    (identifier : t.kind = .identifier) :
    Lexicon.Pattern (.token .identifier) t.lexeme.toList := by
  rcases Scan.pattern_of_mem_tokens h with fits | eof
  · rwa [identifier] at fits
  · cases identifier.symm.trans eof

section Declared

variable {L : Likeness}

/-- The name is declared with a token that stands for some token. -/
def Likeness.Declares (L : Likeness) (x : String) : Prop :=
  ∃ t t', L.token t t' ∧ t.kind = .identifier ∧ t.lexeme = x

theorem Stmt.AllAlike.declares_of_any {ss ss₀ : List Stmt} (h : Stmt.AllAlike L ss ss₀)
    (formed : Stmt.FormedAll ss) (variable' : ss.any (·.isVariable x) = true) : L.Declares x := by
  induction ss generalizing ss₀ with
  | nil => cases variable'
  | cons s ss ih =>
      cases h with
      | cons head tail =>
          rw [List.any_cons, Bool.or_eq_true] at variable'
          rcases variable' with here | later
          · obtain ⟨t, o, rfl, rfl⟩ := Stmt.isVariable_eq here
            cases head with
            | var name _ => exact ⟨t, _, name, formed.1.1.kind, rfl⟩
          · exact ih tail formed.2 later

theorem Token.declares_of_any {ps ps₀ : List Token} (h : List.Forall₂ L.token ps ps₀)
    (formed : ∀ p ∈ ps, p.IsName) (parameter : ps.any (·.lexeme == x) = true) : L.Declares x := by
  induction h with
  | nil => cases parameter
  | @cons p p' _ _ token _ ih =>
      obtain ⟨name, formed⟩ := List.forall_mem_cons.1 formed
      rw [List.any_cons, Bool.or_eq_true] at parameter
      rcases parameter with here | later
      · exact ⟨p, p', token, name.kind, beq_iff_eq.1 here⟩
      · exact ih formed later

mutual

theorem Stmt.Alike.declares_of_renamings {c : Context} : ∀ {s s₀ : Stmt}, s.Alike L s₀ →
    s.Formed → ∀ s' ∈ (s.annotate c).renamings x y, L.Declares x
  | _, _, .block body, formed => by
      intro s' h
      rcases List.mem_append.1 h with h | h
      · split at h
        · next variable' =>
            rw [Stmt.any_isVariable_annotate] at variable'
            exact body.declares_of_any formed variable'
        · cases h
      · obtain ⟨_, mem, -⟩ := List.mem_map.1 h
        exact body.declares_of_renamings formed _ mem
  | _, _, .ifThen _ consequent, ⟨_, formed, _⟩ => by
      intro s' h
      obtain ⟨_, mem, -⟩ := List.mem_map.1 h
      exact consequent.declares_of_renamings formed _ mem
  | _, _, .ifElse _ consequent alternative, ⟨_, ⟨formed, _⟩, formed', _⟩ => by
      intro s' h
      rcases List.mem_append.1 h with h | h
      · obtain ⟨_, mem, -⟩ := List.mem_map.1 h
        exact consequent.declares_of_renamings formed _ mem
      · obtain ⟨_, mem, -⟩ := List.mem_map.1 h
        exact alternative.declares_of_renamings formed' _ mem
  | _, _, .whileDo _ body, ⟨_, formed, _⟩ => by
      intro s' h
      obtain ⟨_, mem, -⟩ := List.mem_map.1 h
      exact body.declares_of_renamings formed _ mem
  | _, _, .function declaration, formed => by
      intro s' h
      obtain ⟨_, mem, -⟩ := List.mem_map.1 h
      exact declaration.declares_of_renamings formed _ mem
  | _, _, .classDecl _ _ methods, ⟨_, _, formed⟩ => by
      intro s' h
      obtain ⟨_, mem, -⟩ := List.mem_map.1 h
      exact methods.declares_of_renamings formed _ mem
  | _, _, .expr _, _ | _, _, .print _, _ | _, _, .var _ _, _ | _, _, .returning _ _, _ =>
      fun _ h => absurd h List.not_mem_nil

theorem Stmt.AllAlike.declares_of_renamings {c : Context} : ∀ {ss ss₀ : List Stmt},
    Stmt.AllAlike L ss ss₀ → Stmt.FormedAll ss →
      ∀ ss' ∈ Stmt.allRenamings x y (Stmt.annotateAll c ss), L.Declares x
  | _, _, .nil, _ => fun _ h => absurd h List.not_mem_nil
  | _, _, .cons head tail, formed => by
      intro ss' h
      rcases List.mem_append.1 h with h | h
      · obtain ⟨_, mem, -⟩ := List.mem_map.1 h
        exact head.declares_of_renamings formed.1 _ mem
      · obtain ⟨_, mem, -⟩ := List.mem_map.1 h
        exact tail.declares_of_renamings formed.2 _ mem

theorem FunctionDecl.Alike.declares_of_renamings {kind : Body} {c : Context} :
    ∀ {f f₀ : FunctionDecl}, f.Alike L f₀ → f.Formed →
      ∀ f' ∈ (f.annotate kind c).renamings x y, L.Declares x
  | _, _, .mk _ parameters body, ⟨_, names, formed⟩ => by
      intro f' h
      rcases List.mem_append.1 h with h | h
      · split at h
        · next named =>
            rw [Stmt.any_isVariable_annotate, Bool.or_eq_true] at named
            rcases named with parameter | variable'
            · exact Token.declares_of_any parameters names parameter
            · exact body.declares_of_any formed variable'
        · cases h
      · obtain ⟨_, mem, -⟩ := List.mem_map.1 h
        exact body.declares_of_renamings formed _ mem

theorem FunctionDecl.AllAlike.declares_of_renamings {c : Context} :
    ∀ {fs fs₀ : List FunctionDecl}, FunctionDecl.AllAlike L fs fs₀ →
      FunctionDecl.FormedAll fs →
      ∀ fs' ∈ FunctionDecl.allRenamings x y (FunctionDecl.annotateMethods c fs), L.Declares x
  | _, _, .nil, _ => fun _ h => absurd h List.not_mem_nil
  | _, _, .cons head tail, formed => by
      intro fs' h
      rcases List.mem_append.1 h with h | h
      · obtain ⟨_, mem, -⟩ := List.mem_map.1 h
        exact head.declares_of_renamings formed.1 _ mem
      · obtain ⟨_, mem, -⟩ := List.mem_map.1 h
        exact tail.declares_of_renamings formed.2 _ mem

end

end Declared

/-- A token stands for itself if it is none of the identifiers, or spelled like one. -/
def Likeness.identifiers : Likeness where
  token t t' := t' = t ∧
    (t.kind = .identifier → Lexicon.Pattern (.token .identifier) t.lexeme.toList)
  depth := Eq
  kind_eq h := congrArg Token.kind h.1.symm
  lexeme_eq h := congrArg Token.lexeme h.1.symm

theorem identifier_of_renamings {source : String} {program renamed : List Stmt}
    (parses : Grammar.program (Scan.tokens source) = (program, []))
    (way : renamed ∈ Stmt.allRenamings x y (Stmt.resolve program)) :
    Lexicon.Pattern (.token .identifier) x.toList := by
  have tokens : ∀ t ∈ Grammar.content (Scan.tokens source),
      Likeness.identifiers.token (id t) (id t) :=
    fun t ht => ⟨rfl, Scan.pattern_of_identifier ((List.takeWhile_sublist _).subset ht)⟩
  have plain : Likeness.identifiers.Plain := rfl
  have derivation := Grammar.program_eq_iff.1 parses
  rw [← List.map_id (Grammar.content _)] at derivation
  obtain ⟨_, -, alike⟩ := derivation.along plain tokens
  obtain ⟨t, _, ⟨-, spelled⟩, kind, rfl⟩ :=
    alike.declares_of_renamings (Grammar.program_formed parses) renamed way
  exact spelled kind

/-! ## Runs in fresh sessions -/

theorem Store.Renamed.initial (clock : Nat → Float) :
    (Machine.initial clock).store.Renamed x y [false] (Machine.initial clock).store where
  size := rfl
  marked := rfl
  read {frame marked} here {z} _ := by
    cases frame with
    | succ frame => cases here
    | zero =>
        cases here
        rw [renamedName_false, Machine.initial, Store.read?_write, Store.read?_enter]
        split
        · exact .some .clock
        · exact .none

theorem Machine.Renamed.initial (clock : Nat → Float) :
    Machine.Renamed x y [false] (.initial clock) (.initial clock) where
  store := .initial clock
  globals := rfl
  fields := ⟨rfl, fun _ _ => .none⟩
  rest := rfl

theorem Marks.clear_fit : Marks.clear.Fit [false] Machine.globalScope := by
  intro depth frame hd
  cases depth with
  | zero =>
      cases hd
      rfl
  | succ depth => cases hd

/-- A program and the renamed program run alike in fresh sessions. -/
theorem Session.execute_renamed (names : Renamable x y) {ss ss' : List Stmt}
    (h : Stmt.AllRenamed x y .clear ss ss') (fuel : Nat) (clock : Nat → Float) :
    Option.Rel (Session.Renamed x y) ((Session.initial clock).execute fuel ss)
      ((Session.initial clock).execute fuel ss') := by
  have run : Outcome.Renamed x y [false] Machine.globalScope _ _ _ :=
    Mirrors.execAll (mirrors names fuel).2 h Marks.clear_fit _ _ (.initial clock) rfl
  unfold Session.execute
  show Option.Rel _ (Option.map _ (Session.settle _ (execProgram fuel ss (.initial clock))))
    (Option.map _ (Session.settle _ (execProgram fuel ss' (.initial clock))))
  unfold execProgram
  generalize Action.execAll (exec fuel) ss (.initial clock) = o,
    Action.execAll (exec fuel) ss' (.initial clock) = o' at run
  cases run with
  | done _ _ machine _ => exact .some ⟨machine.printed_eq, .nil⟩
  | failed _ fault machine => exact .some ⟨machine.printed_eq, .cons (.runtime fault) .nil⟩
  | exhausted => exact .none

/-! ## Programs -/

/-- Renaming a local variable changes nothing. Let a program be read and resolved without errors,
and let `y` be an identifier that occurs nowhere in it. Of each way to give `y` as its name to a
variable or parameter `x` of a block or function, where it is declared and wherever a depth leads
there, this holds: a text in which some names `x` are replaced is read as the renamed program. That
has no static errors, and resolving it gives every occurrence the depth that it had. And in fresh
sessions the two texts print the same lines and end in the same way, but for the name in the report
of a fault. The new name may even be `clock`, since a program without that name cannot tell. -/
theorem renaming_changes_nothing {source : String} {program renamed : List Stmt}
    (reads : Session.readProgram source = (program, []))
    (clean : Stmt.staticErrors program = [])
    (new : Lexicon.Pattern (.token .identifier) y.toList)
    (fresh : ∀ t ∈ Stmt.allTokens program, t.lexeme ≠ y)
    (way : renamed ∈ Stmt.allRenamings x y (Stmt.resolve program)) :
    ∃ source', List.Forall₂ (Scan.Piece.Renamed x y) (Scan.pieces source.toList)
        (Scan.pieces source'.toList) ∧
      Session.readProgram source' = (Stmt.allPlain renamed, []) ∧
      Stmt.staticErrors (Stmt.allPlain renamed) = [] ∧
      Stmt.resolve (Stmt.allPlain renamed) = renamed ∧
      List.Forall₂ (Occurrence.Renaming x y) (Stmt.occurrencesAll (Stmt.resolve program))
        (Stmt.occurrencesAll renamed) ∧
      ∀ fuel clock, Option.Rel (Session.Renamed x y) ((Session.initial clock).run fuel source)
        ((Session.initial clock).run fuel source') := by
  obtain ⟨scans, parses⟩ := Session.readProgram_eq_iff.1 reads
  have old := identifier_of_renamings parses way
  have names := renamable_of_identifiers old new
  have formed := Grammar.program_formed parses
  have h : Stmt.AllRenamed x y .clear (Stmt.resolve program) renamed :=
    Stmt.allRenamed_of_renamings formed clean fresh renamed way
  obtain ⟨resolved, clean'⟩ : Stmt.AllFollow x y .clear .global renamed :=
    Stmt.AllRenamed.follow names formed clean fresh nofun renamed h
  -- The renamed tree has the form of the program, so its tokens are those of the text one by one.
  have twin : Stmt.AllTwin (Token.Renaming x y) program (Stmt.allPlain renamed) := by
    have twin : Stmt.AllTwin _ (Stmt.allPlain (Stmt.resolve program)) _ := h.twin fun _ => none
    rwa [Stmt.resolve, Stmt.plain_annotateAll .global formed] at twin
  obtain ⟨us, parses', tokens⟩ :=
    (Grammar.program_eq_iff.1 parses).twin Token.renaming_keepsKinds twin
  obtain ⟨source', pieces, content, scans'⟩ := Scan.exists_renamed_text old new scans tokens
  have reads' : Session.readProgram source' = (Stmt.allPlain renamed, []) :=
    Session.readProgram_eq_iff.2 ⟨scans', Grammar.program_eq_iff.2 (content ▸ parses')⟩
  refine ⟨source', pieces, reads', clean', resolved, h.occurrences, fun fuel clock => ?_⟩
  rw [Session.run_of_open rfl reads clean, Session.run_of_open rfl reads' clean']
  have same : Stmt.resolve (Stmt.allPlain renamed) = renamed := resolved
  rw [same]
  exact Session.execute_renamed names h fuel clock

/-- `var a = "out"; { var a = "in"; fun show() { print a; } show(); } print a;`, with the inner
variable called otherwise. -/
def shadowing (z : String) : List Stmt :=
  [.var ⟨.identifier, "a", 1⟩ (some (.literal (.string "out"))),
    .block [.var ⟨.identifier, z, 1⟩ (some (.literal (.string "in"))),
      .function ⟨⟨.identifier, "show", 1⟩, [], [.print (.name ⟨.identifier, z, 1⟩ (some 1))]⟩,
      .expr (.call (.name ⟨.identifier, "show", 1⟩ (some 0)) ⟨.symbol .rightParen, ")", 1⟩ [])],
    .print (.name ⟨.identifier, "a", 1⟩ none)]

/-- The text of that program. -/
def shadowingText : String :=
  "var a = \"out\"; \x7b var a = \"in\"; fun show() \x7b print a; \x7d show(); \x7d print a;"

theorem shadowing_renamed :
    Session.readProgram shadowingText = (Stmt.allPlain (shadowing "a"), []) ∧
    Stmt.staticErrors (Stmt.allPlain (shadowing "a")) = [] ∧
    Stmt.allRenamings "a" "b" (Stmt.resolve (Stmt.allPlain (shadowing "a"))) =
      [shadowing "b"] ∧
    ∃ source', Session.readProgram source' = (Stmt.allPlain (shadowing "b"), []) ∧
      Stmt.staticErrors (Stmt.allPlain (shadowing "b")) = [] ∧
      Stmt.resolve (Stmt.allPlain (shadowing "b")) = shadowing "b" ∧
      ∀ fuel clock, Option.Rel (Session.Renamed "a" "b")
        ((Session.initial clock).run fuel shadowingText)
        ((Session.initial clock).run fuel source') := by
  have reads : Session.readProgram shadowingText = (Stmt.allPlain (shadowing "a"), []) := by
    with_unfolding_all rfl
  have identifier : Lexicon.Pattern (.token .identifier) "b".toList :=
    .identifier (c := 'b') (w := []) rfl (List.forall_mem_nil _) (by decide)
  have ways : Stmt.allRenamings "a" "b" (Stmt.resolve (Stmt.allPlain (shadowing "a"))) =
      [shadowing "b"] := rfl
  obtain ⟨source', -, reads', clean, same, -, runs⟩ :=
    renaming_changes_nothing reads rfl identifier (by decide) (ways ▸ List.mem_singleton_self _)
  exact ⟨reads, rfl, ways, source', reads', clean, same, runs⟩

end LoxLang
