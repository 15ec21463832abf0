import LoxLang.Proofs.Layouts
import LoxLang.Proofs.ShortestDigits
import LoxLang.Tree.Printed
import LoxLang.Value

/-!
# Number texts lose nothing

A number has four texts: that of the value, that in a tree, that in a listing
and that in a record. Each denotes a decimal whose nearest number is the number
itself, so whoever reads the text has the number again. An integral number
written out exactly denotes itself; the shortest digits denote a decimal in the
interval that rounds to the number.

Texts without a power of ten are literals of the language, and reading one as a
source gives back the number too.

The texts are not the same text, though: trees write every integral number with
a fraction, listings only those below `2 ^ 63`.
-/

namespace LoxLang

open Magnitude

/-! ## Bit patterns of nonnegative numbers -/

theorem NumberView.of_eq_finite {x : Float} {m : Magnitude}
    (h : NumberView.of x = .finite false m) :
    x.toBits.toNat < infinityBits ∧ m = Magnitude.ofBits x.toBits.toNat := by
  have wide := x.toBits.toNat_lt
  unfold NumberView.of NumberView.ofBits at h
  dsimp only at h
  split at h
  · next below =>
      simp only [NumberView.finite.injEq, decide_eq_false_iff_not, Nat.not_le, Nat.pow_eq] at h
      rw [Nat.pow_eq, Nat.mod_eq_of_lt h.1] at below
      rw [Nat.mod_eq_of_lt h.1] at h
      exact ⟨below, h.2.symm⟩
  · split at h <;> cases h

/-- Rounding a decimal to the nearest number gives the number. -/
theorem NearestEven.toFloat_eq {d : Decimal} {x : Float} (h : NearestEven d.value x.toBits.toNat)
    (finite : x.toBits.toNat < infinityBits) : d.toFloat = x := by
  rw [Decimal.toFloat, h.nearestBits_eq finite, UInt64.ofNat_toNat, Float.ofBits_toBits]

open Float.Model in
/-- The patterns up to that of infinity are patterns of numbers. -/
theorem toBits_ofBits {n : ℕ} (h : n ≤ infinityBits) :
    (Float.ofBits (UInt64.ofNat n)).toBits.toNat = n := by
  have bound : n ≤ 2047 * 2 ^ 52 := h
  have fits : n % 2 ^ 64 = n := Nat.mod_eq_of_lt (by omega)
  have packed : (Float.ofBits (UInt64.ofNat n)).toBits = .ofBitVec
      (UnpackedFloat.pack .binary64 (UnpackedFloat.unpack .binary64 (BitVec.ofNat 64 n))) := rfl
  have number : @UnpackedFloat.isNaNBits .binary64 (BitVec.ofNat 64 n) = false := by
    refine decide_eq_false fun ⟨exponent, mantissa⟩ => mantissa ?_
    rw [UnpackedFloat.unpackExponent_def] at exponent
    have field : (n % 2 ^ 64) >>> 52 % 2 ^ 11 = 2047 := congrArg BitVec.toNat exponent
    have fraction : (n % 2 ^ 64) >>> 0 % 2 ^ 52 = 0 := by
      rw [fits, Nat.shiftRight_eq_div_pow] at *
      omega
    rw [UnpackedFloat.unpackMantissa_def]
    exact BitVec.eq_of_toNat_eq fraction
  rw [packed, UnpackedFloat.pack_unpack, number]
  exact fits

/-- The number nearest to a decimal has no sign. -/
theorem Decimal.toFloat_unsigned {d : Decimal} {negative : Bool} {m : Magnitude}
    (h : NumberView.of d.toFloat = .finite negative m) : negative = false := by
  have bound := nearestBits_le d.numerator d.denominator
  have below : ¬ 2 ^ 63 ≤ nearestBits d.numerator d.denominator := by
    have top : infinityBits < 2 ^ 63 := by decide
    omega
  rw [Decimal.toFloat, NumberView.of, toBits_ofBits bound] at h
  unfold NumberView.ofBits at h
  dsimp only at h
  split at h
  · obtain ⟨rfl, -⟩ := NumberView.finite.inj h
    exact decide_eq_false below
  · split at h <;> cases h

namespace Numeral

/-- The text denotes a decimal whose nearest number, a tie going to the even one, is `x`. -/
def ReadsBack (text : String) (x : Float) : Prop :=
  ∃ d, Decimal.ofNumeral? text.toList = some d ∧ NearestEven d.value x.toBits.toNat

theorem Denotes.readsBack {text : String} {q : ℚ} {x : Float} (h : Denotes text.toList q)
    (near : NearestEven q x.toBits.toNat) : ReadsBack text x := by
  obtain ⟨d, read, rfl⟩ := h
  exact ⟨d, read, near⟩

/-- A text that reads back and has no power of ten. -/
def PlainReadsBack (text : String) (x : Float) : Prop :=
  ∃ d, Plain text.toList d ∧ NearestEven d.value x.toBits.toNat

namespace PlainReadsBack

variable {text : String} {x : Float}

theorem readsBack (h : PlainReadsBack text x) : ReadsBack text x := by
  obtain ⟨d, plain, near⟩ := h
  exact ⟨d, plain.ofNumeral?, near⟩

/-- As a source the text is the number's literal. -/
theorem scanned (h : PlainReadsBack text x) (finite : x.toBits.toNat < infinityBits) :
    Scan.ofText text = [.token ⟨.number x, text, 1⟩, .token (.endOn 1)] := by
  obtain ⟨d, plain, near⟩ := h
  have scan := plain.scanned
  rw [String.ofList_toList, near.toFloat_eq finite] at scan
  exact scan

end PlainReadsBack

/-! ## The texts -/

theorem integralText_toList (n : ℕ) :
    (integralText false n).toList = Nat.toDigits 10 n ++ ['.', '0'] := by
  simp [integralText, sign]

section

variable {x : Float} {m : Magnitude} (finite : NumberView.of x = .finite false m)

include finite

theorem shortest_near (tie : Tie) : NearestEven (m.shortest tie).value x.toBits.toNat := by
  rw [(NumberView.of_eq_finite finite).2]
  exact shortest_nearest _ tie

theorem plainText_eq : plainText x = String.ofList (m.shortest .up).positional := by
  rw [plainText, finite]
  exact String.empty_append

theorem plainText_readsBack : PlainReadsBack (plainText x) x := by
  obtain ⟨d, plain, same⟩ := Decimal.positional_plain (m.shortest .up)
  refine ⟨d, ?_, same ▸ shortest_near finite .up⟩
  rw [plainText_eq finite, String.toList_ofList]
  exact plain

theorem integralText_readsBack {n : ℕ} (integral : m.natural? = some n) :
    PlainReadsBack (integralText false n) x := by
  obtain ⟨d, plain, same⟩ := plain_pointZero Nat.toDigits_ne_nil (allDigits_toDigits n)
  refine ⟨d, integralText_toList n ▸ plain, ?_⟩
  rw [same, digitsValue_toDigits, natural?_value integral, (NumberView.of_eq_finite finite).2]
  exact .of_value _

theorem treeText_of_integral {n : ℕ} (integral : m.natural? = some n) :
    treeText x = integralText false n := by
  rw [treeText, finite]
  dsimp only
  rw [integral]

theorem treeText_of_fraction (fraction : m.natural? = none) : treeText x = plainText x := by
  rw [treeText, finite]
  dsimp only
  rw [fraction]

theorem treeText_readsBack : PlainReadsBack (treeText x) x := by
  cases integral : m.natural? with
  | none => exact treeText_of_fraction finite integral ▸ plainText_readsBack finite
  | some n => exact treeText_of_integral finite integral ▸ integralText_readsBack finite integral

theorem listingText_of_fraction (fraction : m.natural? = none) : listingText x = plainText x := by
  rw [listingText, finite]
  dsimp only
  rw [fraction]

theorem listingText_of_small {n : ℕ} (integral : m.natural? = some n) (small : n < 2 ^ 63) :
    listingText x = integralText false n := by
  rw [listingText, finite]
  dsimp only
  rw [integral]
  exact if_pos small

theorem listingText_of_large {n : ℕ} (integral : m.natural? = some n) (large : 2 ^ 63 ≤ n) :
    listingText x = plainText x := by
  rw [listingText, finite]
  dsimp only
  rw [integral]
  exact if_neg large.not_gt

theorem listingText_readsBack : PlainReadsBack (listingText x) x := by
  cases integral : m.natural? with
  | none => exact listingText_of_fraction finite integral ▸ plainText_readsBack finite
  | some n =>
      rcases lt_or_ge n (2 ^ 63) with small | large
      · exact listingText_of_small finite integral small ▸ integralText_readsBack finite integral
      · exact listingText_of_large finite integral large ▸ plainText_readsBack finite

theorem valueText_readsBack :
    PlainReadsBack (valueText x) x ∨ ReadsBack (valueText x) x ∧ 'E' ∈ (valueText x).toList := by
  have text : valueText x =
      if -3 ≤ (m.shortest .up).leadingExponent ∧ (m.shortest .up).leadingExponent ≤ 6 then
        String.ofList (m.shortest .up).positional
      else scientificValue (m.shortest .up) := by
    rw [valueText, finite]
    exact String.empty_append
  rw [text]
  split
  · rw [← plainText_eq finite]
    exact .inl (plainText_readsBack finite)
  · refine .inr ⟨(scientificValue_denotes _).readsBack (shortest_near finite .up), ?_⟩
    simp [scientificValue]

theorem jsonText_readsBack : ReadsBack (jsonText x) x := by
  have text : jsonText x =
      if -5 ≤ (m.shortest .toEven).leadingExponent ∧ (m.shortest .toEven).leadingExponent ≤ 15 then
        String.ofList (m.shortest .toEven).positionalWithPoint
      else scientificRecord (m.shortest .toEven) := by
    rw [jsonText, finite]
    exact String.empty_append
  rw [text]
  split
  · obtain ⟨d, plain, same⟩ := Decimal.positionalWithPoint_plain (m.shortest .toEven)
    refine ⟨d, ?_, same ▸ shortest_near finite .toEven⟩
    rw [String.toList_ofList]
    exact plain.ofNumeral?
  · exact (scientificRecord_denotes _).readsBack (shortest_near finite .toEven)

end

end Numeral

open Numeral

/-- Every text written for a nonnegative finite number reads back as the number: the text of the
value, the text in a tree, the payload in a listing and the payload in a record. The tree's text,
and the value's where it has no power of ten, is one literal of the language, of that number. -/
theorem number_texts_lossless {x : Float} {m : Magnitude}
    (finite : NumberView.of x = .finite false m) :
    ReadsBack (Value.number x : Value).text x ∧
      ReadsBack (Literal.number x).printed x ∧
      ReadsBack (Token.Kind.number x).payloadText x ∧
      (∃ text, (Token.Kind.number x).json = "\x7b\"NUMBER\":" ++ text ++ "\x7d" ∧
        ReadsBack text x) ∧
      Scan.ofText (Literal.number x).printed =
        [.token ⟨.number x, (Literal.number x).printed, 1⟩, .token (.endOn 1)] ∧
      ('E' ∉ (Value.number x : Value).text.toList → Scan.ofText (Value.number x : Value).text =
        [.token ⟨.number x, (Value.number x : Value).text, 1⟩, .token (.endOn 1)]) := by
  have bits := (NumberView.of_eq_finite finite).1
  refine ⟨?_, (treeText_readsBack finite).readsBack, (listingText_readsBack finite).readsBack,
    ⟨_, rfl, jsonText_readsBack finite⟩, (treeText_readsBack finite).scanned bits, fun plain => ?_⟩
  · exact (valueText_readsBack finite).elim PlainReadsBack.readsBack And.left
  · rcases valueText_readsBack finite with literal | ⟨-, power⟩
    · exact literal.scanned bits
    · exact absurd power plain

/-- The least positive number of all. -/
theorem number_texts_lossless_least :
    NumberView.of (Float.ofBits 1) = .finite false ⟨1, -1074⟩ ∧
      ReadsBack (Value.number (Float.ofBits 1) : Value).text (Float.ofBits 1) ∧
      Scan.ofText (Literal.number (Float.ofBits 1)).printed =
        [.token ⟨.number (Float.ofBits 1), (Literal.number (Float.ofBits 1)).printed, 1⟩,
          .token (.endOn 1)] :=
  have finite : NumberView.of (Float.ofBits 1) = .finite false ⟨1, -1074⟩ := by decide +kernel
  ⟨finite, (number_texts_lossless finite).1, (number_texts_lossless finite).2.2.2.2.1⟩

/-! ## Listings and trees -/

section

variable {x : Float} {m : Magnitude} (finite : NumberView.of x = .finite false m)

include finite

/-- The shortest digits of an integral number need no point. -/
theorem plainText_of_integral {n : ℕ} (integral : m.natural? = some n) :
    '.' ∉ (plainText x).toList := by
  rw [plainText_eq finite, String.toList_ofList]
  intro point
  cases Decimal.allDigits_positional (shortest_integral integral .up) _ point

/-- A listing and a tree show the same text for a number exactly if it is not an integral number
from `2 ^ 63` on. The tree writes every integral number out with a fraction of one zero, and the
listing writes those large ones with no fraction. -/
theorem listing_agrees_with_tree_iff :
    ((Token.Kind.number x).payloadText = (Literal.number x).printed ↔
        ∀ n : ℕ, m.value = n → n < 2 ^ 63) ∧
      ∀ n : ℕ, m.value = n →
        (Literal.number x).printed = String.ofList (Nat.toDigits 10 n ++ ['.', '0']) ∧
          (2 ^ 63 ≤ n → '.' ∉ (Token.Kind.number x).payloadText.toList) := by
  have tree {n : ℕ} (is : m.value = n) :
      (Literal.number x).printed = String.ofList (Nat.toDigits 10 n ++ ['.', '0']) := by
    rw [← integralText_toList, String.ofList_toList]
    exact treeText_of_integral finite (natural?_of_value is)
  have large {n : ℕ} (is : m.value = n) (beyond : 2 ^ 63 ≤ n) :
      '.' ∉ (Token.Kind.number x).payloadText.toList := by
    rw [show (Token.Kind.number x).payloadText = plainText x from
      listingText_of_large finite (natural?_of_value is) beyond]
    exact plainText_of_integral finite (natural?_of_value is)
  refine ⟨⟨fun same n is => ?_, fun small => ?_⟩, fun n is => ⟨tree is, large is⟩⟩
  · by_contra beyond
    refine large is (not_lt.1 beyond) ?_
    rw [same, tree is, String.toList_ofList]
    exact List.mem_append_right _ List.mem_cons_self
  · cases integral : m.natural? with
    | none =>
        exact (listingText_of_fraction finite integral).trans
          (treeText_of_fraction finite integral).symm
    | some n =>
        have below := small n (natural?_value integral).symm
        exact (listingText_of_small finite integral below).trans
          (treeText_of_integral finite integral).symm

end

/-- The least number whose two texts differ. -/
theorem listing_disagrees_at_two_pow_63 :
    NumberView.of (Float.ofBits 0x43e0000000000000) = .finite false ⟨2 ^ 52, 11⟩ ∧
      (Magnitude.mk (2 ^ 52) 11).value = (2 ^ 63 : ℕ) ∧
      (Token.Kind.number (Float.ofBits 0x43e0000000000000)).payloadText ≠
        (Literal.number (Float.ofBits 0x43e0000000000000)).printed ∧
      '.' ∉ (Token.Kind.number (Float.ofBits 0x43e0000000000000)).payloadText.toList :=
  have finite : NumberView.of (Float.ofBits 0x43e0000000000000) = .finite false ⟨2 ^ 52, 11⟩ := by
    decide +kernel
  have value : (Magnitude.mk (2 ^ 52) 11).value = (2 ^ 63 : ℕ) := by
    norm_num [Magnitude.value]
  ⟨finite, value, fun same => lt_irrefl _ ((listing_agrees_with_tree_iff finite).1.1 same _ value),
    ((listing_agrees_with_tree_iff finite).2 _ value).2 le_rfl⟩

end LoxLang
