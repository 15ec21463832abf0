import LoxLang.Token.Scan

/-!
# How tokens are spelled

The lexeme of a scanned token goes with its kind. A symbol is spelled out, so
the lexeme of a keyword can be relied on, and an identifier is none of the
reserved words. In particular `this` and `super` are the names of no variables.
-/

namespace LoxLang

namespace Token

/-- The lexeme is that of the kind: a symbol is spelled out, an identifier is no reserved word. -/
def Spelled (t : Token) : Prop :=
  match t.kind with
  | .symbol s => t.lexeme = s.spelling
  | .identifier => Symbol.keyword? t.lexeme = none
  | _ => True

/-- The token is a name that a program can declare. -/
structure IsName (t : Token) : Prop where
  kind : t.kind = .identifier
  not_this : t.lexeme ≠ "this"
  not_super : t.lexeme ≠ "super"

theorem Spelled.lexeme_eq {t : Token} {s : Symbol} (h : t.Spelled) (hk : t.kind = .symbol s) :
    t.lexeme = s.spelling := by
  unfold Spelled at h
  rw [hk] at h
  exact h

theorem Spelled.isName {t : Token} (h : t.Spelled) (hk : t.kind = .identifier) : t.IsName := by
  unfold Spelled at h
  rw [hk] at h
  refine ⟨hk, ?_, ?_⟩ <;> intro heq <;> rw [heq] at h <;> exact absurd h (by decide)

end Token

namespace Scan

theorem spelling_of_single {c : Char} {s : Symbol} (h : single? c = some s) :
    String.ofList [c] = s.spelling := by
  unfold single? at h
  split at h <;> cases h <;> decide

theorem spelling_of_beforeEqual {c : Char} {s : Symbol} (h : beforeEqual? c = some s) :
    String.ofList [c, '='] = s.spelling := by
  unfold beforeEqual? at h
  split at h <;> cases h <;> decide

theorem spelled_word (word : List Char) (line : Nat) :
    (Token.mk (wordKind word) (String.ofList word) line).Spelled := by
  unfold wordKind
  cases h : Symbol.keyword? (String.ofList word) with
  | none => exact h
  | some s =>
      have := List.find?_some h
      exact (beq_iff_eq.1 this).symm

theorem cut_spelled (c : Char) (cs : List Char) {kind : Token.Kind} (line : Nat)
    (h : (cut c cs).1.content = .token kind) :
    (Token.mk kind (String.ofList (cut c cs).1.text) line).Spelled := by
  unfold cut at h ⊢
  split
  · next hb => rw [if_pos hb] at h; cases h
  · next hb =>
      rw [if_neg hb] at h
      split
      · next hc => rw [if_pos hc] at h; cases h
      · next hc =>
          rw [if_neg hc] at h
          split
          · next hq =>
              rw [if_pos hq] at h
              unfold cutString at h
              dsimp only at h
              split at h <;> cases h
              trivial
          · next hq =>
              rw [if_neg hq] at h
              split
              · next hd =>
                  rw [if_pos hd] at h
                  unfold cutNumber at h
                  dsimp only at h
                  split at h
                  · split at h <;> cases h <;> trivial
                  · cases h
                    trivial
              · next hd =>
                  rw [if_neg hd] at h
                  split
                  · next hw =>
                      rw [if_pos hw] at h
                      cases h
                      exact spelled_word _ line
                  · next hw =>
                      rw [if_neg hw] at h
                      unfold cutOperator at h ⊢
                      split
                      · next hs =>
                          simp only [hs] at h
                          cases h
                          exact spelling_of_beforeEqual hs
                      · next hs =>
                          split at h
                          · exact absurd rfl (hs _ _ ‹_›)
                          · split at h <;> cases h
                            simp only [*]
                            exact spelling_of_single ‹_›

theorem items_spelled {t : Token} : ∀ {line : Nat} {ps : List Piece},
    (∀ p ∈ ps, ∀ kind line, p.content = .token kind →
      (Token.mk kind (String.ofList p.text) line).Spelled) →
    Item.token t ∈ items line ps → t.Spelled := by
  intro line ps hps h
  induction ps generalizing line with
  | nil =>
      cases List.mem_singleton.1 h
      trivial
  | cons p ps ih =>
      rw [items] at h
      rcases List.mem_append.1 h with h | h
      · rw [Option.mem_toList] at h
        unfold Piece.item? at h
        split at h
        · cases h
        · next hk =>
            cases h
            exact hps p List.mem_cons_self _ _ hk
        · cases h
      · exact ih (fun p hp => hps p (List.mem_cons_of_mem _ hp)) h

theorem tokens_spelled {source : String} {t : Token} (h : t ∈ tokens source) : t.Spelled := by
  obtain ⟨item, hitem, hit⟩ := List.mem_filterMap.1 h
  cases item with
  | error line e => cases hit
  | token t' =>
      cases hit
      refine items_spelled ?_ hitem
      generalize source.toList = cs
      intro p hp
      fun_induction pieces cs with
      | case1 => cases hp
      | case2 c cs ih =>
          rcases List.mem_cons.1 hp with rfl | hp
          · exact fun kind line hk => cut_spelled c cs line hk
          · exact ih hp

end Scan

end LoxLang
