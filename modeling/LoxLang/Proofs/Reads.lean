import LoxLang.Grammar.Expression

/-!
# Replies without complaints

What a parser says when nothing is wrong. `r.Reads v rest` holds of a reply
that has a value, the tokens behind it, and no report. It goes through the
combinators one by one, so a parser can be taken apart without a look at the
bounds that its type carries: a sequence reads something exactly if its parts
do one after the other, and a change of bound or of value changes nothing.
-/

namespace LoxLang

namespace Reply

variable {α β : Type} {n m : Nat}

/-- The reply has a value and a rest, and reports nothing. -/
def Reads (r : Reply α n) (value : α) (rest : List Token) : Prop :=
  ∃ shorter, r = .parsed value rest [] shorter

theorem Reads.length_lt {r : Reply α n} {value : α} {rest : List Token}
    (h : r.Reads value rest) : rest.length < n := h.1

@[simp] theorem reads_parsed {a b : α} {rest rest' : List Token} {reports : List Complaint}
    {shorter : rest.length < n} :
    (parsed a rest reports shorter).Reads b rest' ↔ a = b ∧ rest = rest' ∧ reports = [] := by
  constructor
  · rintro ⟨_, h⟩
    cases h
    exact ⟨rfl, rfl, rfl⟩
  · rintro ⟨rfl, rfl, rfl⟩
    exact ⟨shorter, rfl⟩

@[simp] theorem not_reads_refused {a : α} {rest rest' : List Token} {reports : List Complaint}
    {reason : Complaint} {notLonger : rest.length ≤ n} :
    ¬ (refused rest reports reason notLonger : Reply α n).Reads a rest' := by
  rintro ⟨_, h⟩
  cases h

@[simp] theorem not_reads_refuse {error : GrammarError} {ts rest : List Token} {a : α} :
    ¬ (refuse error ts : Reply α ts.length).Reads a rest := not_reads_refused

@[simp] theorem reads_keep {a b : α} {ts rest : List Token} :
    (keep a ts).Reads b rest ↔ a = b ∧ ts = rest := by
  simp [keep]

/-- A sequence reads what its parts read one after the other. -/
theorem reads_andThen {r : Reply α n}
    {next : (a : α) → (mid : List Token) → mid.length < n → Reply β (mid.length + 1)} {b : β}
    {rest : List Token} :
    (r.andThen next).Reads b rest ↔
      ∃ a mid, r.Reads a mid ∧ ∃ shorter, (next a mid shorter).Reads b rest := by
  constructor
  · intro h
    cases r with
    | refused mid reports reason notLonger => exact absurd h not_reads_refused
    | parsed a mid reports shorter =>
        simp only [andThen] at h
        cases hn : next a mid shorter with
        | refused => rw [hn] at h; exact absurd h not_reads_refused
        | parsed b' rest' reports' shorter' =>
            rw [hn] at h
            obtain ⟨rfl, rfl, hr⟩ := reads_parsed.1 h
            obtain ⟨rfl, rfl⟩ := List.append_eq_nil_iff.1 hr
            exact ⟨a, mid, ⟨shorter, rfl⟩, shorter, ⟨shorter', hn⟩⟩
  · rintro ⟨a, mid, ⟨_, rfl⟩, _, ⟨shorter', hn⟩⟩
    simp only [andThen, hn]
    exact reads_parsed.2 ⟨rfl, rfl, rfl⟩

@[simp] theorem reads_map {f : α → β} {r : Reply α n} {b : β} {rest : List Token} :
    (r.map f).Reads b rest ↔ ∃ a, r.Reads a rest ∧ f a = b := by
  cases r with
  | refused => simp [map]
  | parsed a rest' reports shorter =>
      simp only [map, reads_parsed]
      constructor
      · rintro ⟨rfl, rfl, rfl⟩
        exact ⟨a, ⟨rfl, rfl, rfl⟩, rfl⟩
      · rintro ⟨_, ⟨rfl, rfl, rfl⟩, rfl⟩
        exact ⟨rfl, rfl, rfl⟩

@[simp] theorem reads_widen {h : n ≤ m} {r : Reply α n} {a : α} {rest : List Token} :
    (r.widen h).Reads a rest ↔ r.Reads a rest := by
  cases r <;> simp [widen]

@[simp] theorem reads_noting {earlier : List Complaint} {r : Reply α n} {a : α}
    {rest : List Token} :
    (r.noting earlier).Reads a rest ↔ earlier = [] ∧ r.Reads a rest := by
  cases r with
  | refused => simp [noting]
  | parsed a' rest' reports shorter =>
      simp only [noting, reads_parsed, List.append_eq_nil_iff]
      constructor
      · rintro ⟨rfl, rfl, rfl, rfl⟩
        exact ⟨rfl, rfl, rfl, rfl⟩
      · rintro ⟨rfl, rfl, rfl, rfl⟩
        exact ⟨rfl, rfl, rfl, rfl⟩

end Reply

namespace Grammar

@[simp] theorem expect_reads {s : Symbol} {error : GrammarError} {ts rest : List Token}
    {t : Token} :
    (expect s error ts).Reads t rest ↔ ts = t :: rest ∧ t.kind = .symbol s := by
  unfold expect
  split
  · simp
  · split
    · next h =>
        simp only [Reply.reads_parsed, List.cons.injEq]
        constructor
        · rintro ⟨rfl, rfl, -⟩
          exact ⟨⟨rfl, rfl⟩, Token.isSymbol_iff.1 h⟩
        · rintro ⟨⟨rfl, rfl⟩, -⟩
          exact ⟨rfl, rfl, trivial⟩
    · next h =>
        simp only [Reply.not_reads_refuse, false_iff, List.cons.injEq]
        rintro ⟨⟨rfl, rfl⟩, hk⟩
        exact h (Token.isSymbol_iff.2 hk)

@[simp] theorem expectName_reads {error : GrammarError} {ts rest : List Token} {t : Token} :
    (expectName error ts).Reads t rest ↔ ts = t :: rest ∧ t.kind = .identifier := by
  unfold expectName
  split
  · simp
  · split
    · next h =>
        simp only [Reply.reads_parsed, List.cons.injEq]
        constructor
        · rintro ⟨rfl, rfl, -⟩
          exact ⟨⟨rfl, rfl⟩, h⟩
        · rintro ⟨⟨rfl, rfl⟩, -⟩
          exact ⟨rfl, rfl, trivial⟩
    · next h =>
        simp only [Reply.not_reads_refuse, false_iff, List.cons.injEq]
        rintro ⟨⟨rfl, rfl⟩, hk⟩
        exact h hk

/-- The limit is reported from item 256 on. -/
theorem limitReport_eq_nil {error : GrammarError} {count : Nat} {ts : List Token} :
    limitReport error count ts = [] ↔ count < 255 := by
  unfold limitReport maxArguments
  split <;> simp <;> omega

end Grammar

end LoxLang
