import LoxLang.Token.Cursor

/-!
# Bytes of a text

A character of ASCII is one byte, which is its number, and all bytes of any
other character are beyond ASCII. So a question that no character beyond ASCII
passes, or that all of them pass, can be asked of bytes: the bytes up to the
first that fails encode the characters up to the first that fails.
-/

namespace LoxLang

namespace Scan

/-! ## Bytes and characters -/

@[simp] theorem utf8_nil : utf8 [] = [] := rfl

@[simp] theorem utf8_cons (c : Char) (cs : List Char) :
    utf8 (c :: cs) = String.utf8EncodeChar c ++ utf8 cs := rfl

@[simp] theorem utf8_append (cs ds : List Char) : utf8 (cs ++ ds) = utf8 cs ++ utf8 ds :=
  List.flatMap_append

/-- A character that is one byte. -/
def Ascii (c : Char) : Prop := c.val.toNat < 128

instance : DecidablePred Ascii := fun c => inferInstanceAs (Decidable (c.val.toNat < 128))

theorem Ascii.encode {c : Char} (h : Ascii c) : String.utf8EncodeChar c = [c.toUInt8] := by
  have small : c.val.toNat ≤ 127 := Nat.le_of_lt_succ h
  simp only [String.utf8EncodeChar, if_pos small]
  rfl

theorem Ascii.ofUInt8 {c : Char} (h : Ascii c) : Char.ofUInt8 c.toUInt8 = c := by
  refine Char.ext (UInt32.toNat_inj.1 ?_)
  show c.val.toUInt8.toUInt32.toNat = c.val.toNat
  unfold Ascii at h
  simp only [UInt8.toNat_toUInt32, UInt32.toNat_toUInt8]
  omega

/-- The bytes of a character beyond ASCII are beyond ASCII. -/
theorem wide_bytes {c : Char} (h : ¬ Ascii c) :
    ∀ b ∈ String.utf8EncodeChar c, ¬ Ascii (Char.ofUInt8 b) := by
  have bytes : ∀ n, 128 ≤ n → n < 256 → ¬ Ascii (Char.ofUInt8 (UInt8.ofNat n)) := by
    intro n low high ascii
    have ascii : (UInt8.ofNat n).toUInt32.toNat < 128 := ascii
    simp only [UInt8.toNat_toUInt32, UInt8.toNat_ofNat'] at ascii
    omega
  have large : ¬ c.val.toNat ≤ 127 := fun small => h (Nat.lt_succ_of_le small)
  have bound : c.val.toNat < 1114112 := by
    rcases c.valid with h | ⟨-, h⟩
    · exact Nat.lt_trans h (by decide)
    · exact h
  simp only [String.utf8EncodeChar, if_neg large]
  split
  · simp only [List.forall_mem_cons]
    exact ⟨bytes _ (by omega) (by omega), bytes _ (by omega) (by omega), nofun⟩
  split
  · simp only [List.forall_mem_cons]
    exact ⟨bytes _ (by omega) (by omega), bytes _ (by omega) (by omega),
      bytes _ (by omega) (by omega), nofun⟩
  · simp only [List.forall_mem_cons]
    exact ⟨bytes _ (by omega) (by omega), bytes _ (by omega) (by omega),
      bytes _ (by omega) (by omega), bytes _ (by omega) (by omega), nofun⟩

theorem encode_ne_nil (c : Char) : String.utf8EncodeChar c ≠ [] := by
  rw [Ne, ← List.length_eq_zero_iff, String.length_utf8EncodeChar]
  exact Nat.ne_of_gt c.utf8Size_pos

theorem utf8_ne_nil {cs : List Char} (h : cs ≠ []) : utf8 cs ≠ [] := by
  cases cs with
  | nil => exact absurd rfl h
  | cons c cs => exact fun heq => encode_ne_nil c (List.append_eq_nil_iff.1 heq).1

/-- A question about characters that none or all beyond ASCII pass, asked of the bytes. -/
theorem takeWhile_utf8 {q : Char → Bool} (wide : Bool) (hq : ∀ c, ¬ Ascii c → q c = wide)
    (cs : List Char) :
    (utf8 cs).takeWhile (fun b => q (Char.ofUInt8 b)) = utf8 (cs.takeWhile q) := by
  induction cs with
  | nil => rfl
  | cons c cs ih =>
      rw [utf8_cons]
      by_cases ascii : Ascii c
      · rw [ascii.encode, List.singleton_append, List.takeWhile_cons, List.takeWhile_cons,
          ascii.ofUInt8]
        split
        · rw [ih, utf8_cons, ascii.encode, List.singleton_append]
        · rfl
      · have bytes := wide_bytes ascii
        cases wide with
        | true =>
            rw [List.takeWhile_append_of_pos fun b hb => hq _ (bytes b hb),
              List.takeWhile_cons_of_pos (hq c ascii), ih, utf8_cons]
        | false =>
            obtain ⟨b, bs, heq⟩ := List.exists_cons_of_ne_nil (encode_ne_nil c)
            rw [heq] at bytes ⊢
            rw [List.cons_append, List.takeWhile_cons, hq _ (bytes b List.mem_cons_self),
              List.takeWhile_cons, hq c ascii]
            rfl

theorem ofUInt8_eq_iff {b : UInt8} {c : Char} (h : Ascii c) :
    Char.ofUInt8 b = c ↔ b = c.toUInt8 := by
  refine ⟨fun heq => ?_, fun heq => by rw [heq, h.ofUInt8]⟩
  rw [← heq]
  refine UInt8.toNat_inj.1 ?_
  show b.toNat = b.toUInt32.toUInt8.toNat
  simp

theorem takeWhile_bne {c : Char} (h : Ascii c) (cs : List Char) :
    (utf8 cs).takeWhile (· != c.toUInt8) = utf8 (cs.takeWhile (· != c)) := by
  rw [← takeWhile_utf8 (q := (· != c)) true]
  · congr 1
    funext b
    rw [Bool.eq_iff_iff, bne_iff_ne, bne_iff_ne, Ne, Ne, ofUInt8_eq_iff h]
  · intro d wide
    refine bne_iff_ne.2 ?_
    rintro rfl
    exact wide h

theorem count_utf8 {c : Char} (h : Ascii c) (cs : List Char) :
    (utf8 cs).count c.toUInt8 = cs.count c := by
  induction cs with
  | nil => rfl
  | cons d cs ih =>
      rw [utf8_cons, List.count_append, ih, List.count_cons, Nat.add_comm]
      congr 1
      by_cases ascii : Ascii d
      · rw [ascii.encode, List.count_singleton]
        have same : (d.toUInt8 == c.toUInt8) = (d == c) := by
          rw [Bool.eq_iff_iff, beq_iff_eq, beq_iff_eq, ← ofUInt8_eq_iff h, ascii.ofUInt8]
        rw [same]
      · have other : (d == c) = false := by
          refine beq_eq_false_iff_ne.2 ?_
          rintro rfl
          exact ascii h
        rw [other, if_neg nofun]
        refine List.count_eq_zero_of_not_mem fun hm => wide_bytes ascii _ hm ?_
        rw [h.ofUInt8]
        exact h

theorem not_wide {p : Char → Bool} (small : ∀ c, p c = true → Ascii c) {c : Char}
    (h : ¬ Ascii c) : p c = false :=
  Bool.eq_false_iff.2 fun hp => h (small c hp)

theorem ascii_of_isWordPart {c : Char} (h : isWordPart c = true) : Ascii c := by
  simp only [isWordPart, isWordStart, isDigit, Bool.or_eq_true, Bool.and_eq_true,
    decide_eq_true_eq, beq_iff_eq, Char.le_def, UInt32.le_iff_toNat_le] at h
  unfold Ascii
  rcases h with ((⟨-, h⟩ | ⟨-, h⟩) | rfl) | ⟨-, h⟩
  · exact Nat.lt_of_le_of_lt h (by decide)
  · exact Nat.lt_of_le_of_lt h (by decide)
  · decide
  · exact Nat.lt_of_le_of_lt h (by decide)

theorem ascii_of_isDigit {c : Char} (h : isDigit c = true) : Ascii c :=
  ascii_of_isWordPart (by rw [isWordPart, h, Bool.or_true])

theorem head?_utf8 {c : Char} (h : Ascii c) (cs : List Char) :
    (utf8 cs).head? = some c.toUInt8 ↔ cs.head? = some c := by
  cases cs with
  | nil => simp
  | cons d cs =>
      obtain ⟨b, bs, heq⟩ := List.exists_cons_of_ne_nil (encode_ne_nil d)
      rw [utf8_cons, heq, List.cons_append, List.head?_cons, List.head?_cons, Option.some.injEq,
        Option.some.injEq, ← ofUInt8_eq_iff h]
      by_cases ascii : Ascii d
      · rw [ascii.encode] at heq
        cases heq
        rw [ascii.ofUInt8]
      · have wide := wide_bytes ascii b (by rw [heq]; exact List.mem_cons_self)
        constructor <;> rintro rfl
        · exact absurd h wide
        · exact absurd h ascii

/-- The byte seen answers like the character in front, if the zero behind the end answers no. -/
theorem headD_utf8 {q : Char → Bool} (zero : q '\x00' = false)
    (small : ∀ c, q c = true → Ascii c) (cs : List Char) :
    q (Char.ofUInt8 ((utf8 cs).headD 0)) = cs.head?.any q := by
  cases cs with
  | nil => exact zero
  | cons d cs =>
      rw [utf8_cons, List.head?_cons, Option.any_some]
      by_cases ascii : Ascii d
      · rw [ascii.encode, List.singleton_append, List.headD_cons, ascii.ofUInt8]
      · obtain ⟨b, bs, heq⟩ := List.exists_cons_of_ne_nil (encode_ne_nil d)
        have wide := wide_bytes ascii b (by rw [heq]; exact List.mem_cons_self)
        rw [heq, List.cons_append, List.headD_cons, not_wide small ascii, not_wide small wide]

/-! ## Slices -/

theorem length_encode (c : Char) : (String.utf8EncodeChar c).length = c.utf8Size :=
  String.length_utf8EncodeChar c

theorem dropBytes_append (cs ds : List Char) : dropBytes (cs ++ ds) (utf8 cs).length = some ds := by
  induction cs with
  | nil => rw [List.nil_append, utf8_nil, List.length_nil, dropBytes]
  | cons c cs ih =>
      have pos := c.utf8Size_pos
      rw [utf8_cons, List.length_append, length_encode, List.cons_append]
      have nonzero : c.utf8Size + (utf8 cs).length ≠ 0 := by omega
      obtain ⟨n, hn⟩ := Nat.exists_eq_succ_of_ne_zero nonzero
      rw [hn, dropBytes, if_pos (by omega), ← ih]
      congr 1
      omega

theorem takeBytes_append (cs ds : List Char) : takeBytes (cs ++ ds) (utf8 cs).length = some cs := by
  induction cs with
  | nil => rw [List.nil_append, utf8_nil, List.length_nil, takeBytes]
  | cons c cs ih =>
      have pos := c.utf8Size_pos
      rw [utf8_cons, List.length_append, length_encode, List.cons_append]
      have nonzero : c.utf8Size + (utf8 cs).length ≠ 0 := by omega
      obtain ⟨n, hn⟩ := Nat.exists_eq_succ_of_ne_zero nonzero
      have rest : n + 1 - c.utf8Size = (utf8 cs).length := by omega
      rw [hn, takeBytes, if_pos (by omega), rest, ih]
      rfl

theorem slice?_append (pre text post : List Char) {i j : Nat} (hi : i = (utf8 pre).length)
    (hj : j = (utf8 (pre ++ text)).length) :
    slice? (pre ++ (text ++ post)) i j = some text := by
  subst hi hj
  rw [utf8_append, List.length_append, slice?, if_pos (Nat.le_add_right _ _), dropBytes_append,
    Option.bind_some, Nat.add_sub_cancel_left, takeBytes_append]

end Scan

end LoxLang
