import LoxLang.Numeral.Denotation
import LoxLang.Proofs.NearestEven
import LoxLang.Proofs.SpacedTokens

/-!
# What laid out digits denote

A decimal is written in several layouts: positional with zeros for padding, with
a point at the end, or with one digit in front of the point and a power of ten.
Whatever the layout, the text denotes a decimal of the same value. It need not
be the same decimal, since padding moves digits into the coefficient.

Texts without a power of ten are singled out (`Plain`): they are also literals
of the language, and as literals they denote the same decimal.
-/

namespace LoxLang

open Numeral

/-- Nothing but digits. -/
abbrev AllDigits (cs : List Char) : Prop := ∀ c ∈ cs, Scan.isDigit c = true

namespace Numeral

theorem areDigits_iff {cs : List Char} : areDigits cs = true ↔ cs ≠ [] ∧ AllDigits cs := by
  simp [areDigits, List.all_eq_true]

theorem areDigits_of {cs : List Char} (nonempty : cs ≠ []) (digits : AllDigits cs) :
    areDigits cs = true := areDigits_iff.2 ⟨nonempty, digits⟩

/-! ## Cutting at a mark -/

variable {mark : Char → Bool} {cs ds : List Char}

theorem cutAt_of_not_mem (free : ∀ c ∈ cs, mark c = false) : cutAt mark cs = (cs, none) := by
  have plain : ∀ c ∈ cs, (!mark c) = true := fun c hc => by rw [free c hc]; rfl
  rw [cutAt, List.takeWhile_eq_self_iff.2 plain, List.dropWhile_eq_nil_iff.2 plain]
  rfl

theorem cutAt_append {c : Char} (free : ∀ c ∈ cs, mark c = false) (is : mark c = true) :
    cutAt mark (cs ++ c :: ds) = (cs, some ds) := by
  have plain : ∀ c ∈ cs, (!mark c) = true := fun c hc => by rw [free c hc]; rfl
  rw [cutAt, List.takeWhile_append_of_pos plain, List.dropWhile_append_of_pos plain,
    List.takeWhile_cons_of_neg (by simp [is]), List.dropWhile_cons_of_neg (by simp [is]),
    List.append_nil]
  rfl

theorem digit_ne {c d : Char} (digit : Scan.isDigit c = true) (other : Scan.isDigit d = false) :
    c ≠ d := by
  rintro rfl
  rw [digit] at other
  cases other

theorem digit_not_point {c : Char} (digit : Scan.isDigit c = true) : (c == '.') = false :=
  beq_false_of_ne (digit_ne digit rfl)

theorem digit_not_power {c : Char} (digit : Scan.isDigit c = true) : marksPower c = false := by
  rw [marksPower, beq_false_of_ne (digit_ne digit rfl), beq_false_of_ne (digit_ne digit rfl)]
  rfl

/-! ## The value of digits -/

theorem digitsValue_append (cs ds : List Char) :
    digitsValue (cs ++ ds) = 10 ^ ds.length * digitsValue cs + digitsValue ds := by
  have split := Nat.ofDigitChars_append (b := 10) (l := cs) (m := ds) 0
  rw [Nat.ofDigitChars_eq_ofDigitChars_zero (l := ds)] at split
  exact split

theorem digitsValue_zeros (n : ℕ) : digitsValue (List.replicate n '0') = 0 :=
  Nat.ofDigitChars_replicate_zero

theorem allDigits_zeros (n : ℕ) : AllDigits (List.replicate n '0') := by
  intro c hc
  obtain rfl := List.eq_of_mem_replicate hc
  rfl

theorem allDigits_append {cs ds : List Char} (h : AllDigits cs) (h' : AllDigits ds) :
    AllDigits (cs ++ ds) := List.forall_mem_append.2 ⟨h, h'⟩

theorem digitsValue_toDigits (n : ℕ) : digitsValue (Nat.toDigits 10 n) = n :=
  Nat.ofDigitChars_ten_toDigits

theorem allDigits_toDigits (n : ℕ) : AllDigits (Nat.toDigits 10 n) := by
  intro c hc
  have digit := Nat.isDigit_of_mem_toDigits (by decide) (by decide) hc
  simpa [Scan.isDigit, Char.isDigit, Char.le_def] using digit

end Numeral

/-! ## Texts without a power of ten -/

/-- The text is digits, perhaps with a point among them, and denotes the decimal. -/
inductive Plain : List Char → Decimal → Prop
  | whole {ds : List Char} (nonempty : ds ≠ []) (digits : AllDigits ds) :
      Plain ds ⟨digitsValue ds, 0⟩
  | fraction {ds fs : List Char} (nonempty : ds ≠ []) (digits : AllDigits ds)
      (nonempty' : fs ≠ []) (digits' : AllDigits fs) :
      Plain (ds ++ '.' :: fs) ⟨digitsValue (ds ++ fs), -(fs.length : ℤ)⟩

namespace Plain

variable {cs : List Char} {d : Decimal}

theorem ofPlain? (h : Plain cs d) : Decimal.ofPlain? cs = some d := by
  cases h with
  | whole nonempty digits =>
      rw [Decimal.ofPlain?, cutAt_of_not_mem fun c hc => digit_not_point (digits c hc)]
      exact if_pos (areDigits_of nonempty digits)
  | fraction nonempty digits nonempty' digits' =>
      rw [Decimal.ofPlain?, cutAt_append (fun c hc => digit_not_point (digits c hc)) rfl]
      exact if_pos (by rw [areDigits_of nonempty digits, areDigits_of nonempty' digits']; rfl)

theorem no_power (h : Plain cs d) : ∀ c ∈ cs, marksPower c = false := by
  cases h with
  | whole _ digits => exact fun c hc => digit_not_power (digits c hc)
  | fraction _ digits _ digits' =>
      refine List.forall_mem_append.2 ⟨fun c hc => digit_not_power (digits c hc), ?_⟩
      exact List.forall_mem_cons.2 ⟨rfl, fun c hc => digit_not_power (digits' c hc)⟩

theorem ofNumeral? (h : Plain cs d) : Decimal.ofNumeral? cs = some d := by
  rw [Decimal.ofNumeral?, cutAt_of_not_mem h.no_power]
  exact h.ofPlain?

/-- A power of ten behind the text shifts the exponent. -/
theorem ofNumeral?_power (h : Plain cs d) {c : Char} (is : marksPower c = true)
    {power : List Char} {e : ℤ} (he : integer? power = some e) :
    Decimal.ofNumeral? (cs ++ c :: power) = some ⟨d.coefficient, d.exponent + e⟩ := by
  rw [Decimal.ofNumeral?, cutAt_append h.no_power is]
  dsimp only
  rw [h.ofPlain?, he]
  rfl

/-- As a literal of the language the text denotes the same decimal. -/
theorem scanned (h : Plain cs d) : Scan.ofText (String.ofList cs) =
    [.token ⟨.number d.toFloat, String.ofList cs, 1⟩, .token (.endOn 1)] := by
  have pattern : Lexicon.Pattern (.token (.number d.toFloat)) cs := by
    cases h with
    | whole nonempty digits =>
        have literal := Lexicon.Pattern.whole nonempty digits
        rw [ofLiteral, List.append_nil] at literal
        exact literal
    | fraction nonempty digits nonempty' digits' =>
        exact .fraction nonempty digits nonempty' digits'
  refine Scan.ofText_token pattern fun mem => ?_
  cases h with
  | whole _ digits => cases digits _ mem
  | fraction _ digits _ digits' =>
      rcases List.mem_append.1 mem with mem | mem
      · cases digits _ mem
      · rcases List.mem_cons.1 mem with is | mem
        · cases is
        · cases digits' _ mem

end Plain

theorem Decimal.value_shift (c : ℕ) (e e' : ℤ) :
    Decimal.value ⟨c, e + e'⟩ = Decimal.value ⟨c, e⟩ * 10 ^ e' := by
  rw [value, value, zpow_add₀ (by norm_num), mul_assoc]

/-- Whole digits with a fraction of one zero. -/
theorem plain_pointZero {ds : List Char} (nonempty : ds ≠ []) (digits : AllDigits ds) :
    ∃ d, Plain (ds ++ ['.', '0']) d ∧ d.value = digitsValue ds := by
  refine ⟨_, .fraction nonempty digits (List.cons_ne_nil _ _) (allDigits_zeros 1), ?_⟩
  rw [digitsValue_append, Decimal.value]
  push_cast
  rw [show digitsValue ['0'] = 0 from rfl]
  norm_num
  ring

namespace Decimal

variable (d : Decimal)

theorem digits_ne_nil : d.digits ≠ [] := Nat.toDigits_ne_nil

theorem allDigits_digits : AllDigits d.digits := allDigits_toDigits _

theorem digitsValue_digits : digitsValue d.digits = d.coefficient := digitsValue_toDigits _

/-! ## Positional notation -/

variable {d}

theorem allDigits_positional (h : 0 ≤ d.exponent) : AllDigits d.positional := by
  rw [positional, if_pos h]
  exact allDigits_append d.allDigits_digits (allDigits_zeros _)

theorem positional_ne_nil : d.positional ≠ [] := by
  rw [positional]
  split
  · exact List.append_ne_nil_of_left_ne_nil d.digits_ne_nil _
  · dsimp only
    split
    · exact List.append_ne_nil_of_right_ne_nil _ (List.cons_ne_nil _ _)
    · exact List.cons_ne_nil _ _

theorem digitsValue_positional (h : 0 ≤ d.exponent) : (digitsValue d.positional : ℚ) = d.value := by
  have whole : (d.exponent.toNat : ℤ) = d.exponent := by omega
  rw [positional, if_pos h, digitsValue_append, digitsValue_zeros, digitsValue_digits,
    List.length_replicate, value, ← whole, zpow_natCast, Int.toNat_natCast]
  push_cast
  ring

/-- With a negative exponent there are digits behind the point, and no padding among them counts. -/
theorem positional_fraction (h : d.exponent < 0) : Plain d.positional d := by
  have exponent : -((-d.exponent).toNat : ℤ) = d.exponent := by omega
  have positive : 0 < (-d.exponent).toNat := by omega
  rw [positional, if_neg (by omega)]
  dsimp only
  generalize (-d.exponent).toNat = places at *
  split
  · next inside =>
      have before : d.digits.take (d.digits.length - places) ≠ [] := by
        rw [← List.length_pos_iff, List.length_take]
        omega
      have behind : d.digits.drop (d.digits.length - places) ≠ [] := by
        rw [← List.length_pos_iff, List.length_drop]
        omega
      have plain := Plain.fraction before
        (fun c hc => d.allDigits_digits c (List.mem_of_mem_take hc)) behind
        fun c hc => d.allDigits_digits c (List.mem_of_mem_drop hc)
      rw [List.take_append_drop, digitsValue_digits, List.length_drop, Nat.sub_sub_self inside.le,
        exponent] at plain
      exact plain
  · next outside =>
      have nonempty : List.replicate (places - d.digits.length) '0' ++ d.digits ≠ [] :=
        List.append_ne_nil_of_right_ne_nil _ d.digits_ne_nil
      have plain := Plain.fraction (List.cons_ne_nil '0' []) (allDigits_zeros 1) nonempty
        (allDigits_append (allDigits_zeros _) d.allDigits_digits)
      have length :
          (List.replicate (places - d.digits.length) '0' ++ d.digits).length = places := by
        rw [List.length_append, List.length_replicate]
        omega
      rw [length, exponent, digitsValue_append, digitsValue_append, digitsValue_zeros,
        digitsValue_digits, show digitsValue ['0'] = 0 from rfl, Nat.mul_zero, Nat.zero_add,
        Nat.mul_zero, Nat.zero_add] at plain
      exact plain

theorem positional_plain (d : Decimal) : ∃ d', Plain d.positional d' ∧ d'.value = d.value := by
  rcases lt_or_ge d.exponent 0 with negative | whole
  · exact ⟨d, positional_fraction negative, rfl⟩
  · refine ⟨_, .whole positional_ne_nil (allDigits_positional whole), ?_⟩
    rw [value, zpow_zero, mul_one, digitsValue_positional whole]

theorem positionalWithPoint_plain (d : Decimal) :
    ∃ d', Plain d.positionalWithPoint d' ∧ d'.value = d.value := by
  rcases lt_or_ge d.exponent 0 with negative | whole
  · rw [positionalWithPoint, if_neg (by omega)]
    exact ⟨d, positional_fraction negative, rfl⟩
  · rw [positionalWithPoint, if_pos whole]
    obtain ⟨d', plain, same⟩ := plain_pointZero positional_ne_nil (allDigits_positional whole)
    exact ⟨d', plain, same.trans (digitsValue_positional whole)⟩

/-! ## Scientific notation -/

/-- One digit in front of the point takes the leading exponent. -/
theorem mantissa_fraction {c : Char} {fs : List Char} (h : d.digits = c :: fs)
    (nonempty : fs ≠ []) : ∃ d', Plain (c :: '.' :: fs) d' ∧ d'.value * 10 ^ d.leadingExponent = d.value := by
  obtain ⟨digit, digits⟩ := List.forall_mem_cons.1 (h ▸ d.allDigits_digits)
  refine ⟨_, .fraction (List.cons_ne_nil c []) (List.forall_mem_singleton.2 digit) nonempty digits,
    ?_⟩
  have same := d.digitsValue_digits
  rw [h] at same
  rw [← value_shift, List.singleton_append, same, leadingExponent, h, List.length_cons,
    Nat.add_sub_cancel, add_comm d.exponent, neg_add_cancel_left]

theorem leadingExponent_single {c : Char} (h : d.digits = [c]) :
    d.leadingExponent = d.exponent := by
  rw [leadingExponent, h]
  exact add_zero _

theorem value_single {c : Char} (h : d.digits = [c]) :
    (digitsValue [c] : ℚ) * 10 ^ d.leadingExponent = d.value := by
  rw [leadingExponent_single h, ← h, digitsValue_digits, value]

end Decimal

namespace Numeral

variable {d : Decimal}

theorem integer?_digits {ds : List Char} (nonempty : ds ≠ []) (digits : AllDigits ds) :
    integer? ds = some (digitsValue ds : ℤ) := by
  unfold integer?
  split
  · cases digits '-' List.mem_cons_self
  · cases digits '+' List.mem_cons_self
  · exact if_pos (areDigits_of nonempty digits)

theorem integer?_exponentText (e : ℤ) : integer? (exponentText e).toList = some e := by
  rw [exponentText, String.toList_append, String.toList_ofList]
  by_cases negative : e < 0
  · have text : (sign (decide (e < 0))).toList = ['-'] := by
      rw [decide_eq_true negative]
      rfl
    rw [text, List.singleton_append, integer?, if_pos (areDigits_of Nat.toDigits_ne_nil
      (allDigits_toDigits _)), digitsValue_toDigits]
    congr
    omega
  · have text : (sign (decide (e < 0))).toList = [] := by
      rw [decide_eq_false negative]
      rfl
    rw [text, List.nil_append, integer?_digits Nat.toDigits_ne_nil (allDigits_toDigits _),
      digitsValue_toDigits]
    congr
    omega

/-- The sign of a positive exponent may be written. -/
theorem integer?_signed (e : ℤ) :
    integer? ((if e < 0 then "" else "+").toList ++ (exponentText e).toList) = some e := by
  by_cases negative : e < 0
  · rw [if_pos negative]
    exact integer?_exponentText e
  · have text : (if e < 0 then "" else "+").toList ++ (exponentText e).toList =
        '+' :: Nat.toDigits 10 e.natAbs := by
      simp [negative, exponentText, sign]
    rw [text]
    refine (if_pos (areDigits_of Nat.toDigits_ne_nil (allDigits_toDigits _))).trans ?_
    rw [digitsValue_toDigits]
    congr
    omega

/-- The text denotes a decimal of the value. -/
def Denotes (cs : List Char) (q : ℚ) : Prop := ∃ d, Decimal.ofNumeral? cs = some d ∧ d.value = q

/-- A power of ten behind a plain text multiplies what it denotes. -/
theorem denotes_power {d' : Decimal} {cs power : List Char} (h : Plain cs d') {c : Char}
    (is : marksPower c = true) {e : ℤ} (he : integer? power = some e) :
    Denotes (cs ++ c :: power) (d'.value * 10 ^ e) :=
  ⟨_, h.ofNumeral?_power is he, Decimal.value_shift _ _ _⟩

theorem scientificValue_denotes (d : Decimal) : Denotes (scientificValue d).toList d.value := by
  have power := integer?_exponentText d.leadingExponent
  rw [scientificValue]
  simp only [String.toList_append, String.toList_ofList]
  obtain ⟨c, fs, hd⟩ := List.exists_cons_of_ne_nil d.digits_ne_nil
  rw [hd]
  cases fs with
  | nil =>
      obtain ⟨d', plain, same⟩ := plain_pointZero (List.cons_ne_nil c [])
        (hd ▸ d.allDigits_digits)
      have denotes := denotes_power plain (c := 'E') rfl power
      rw [same, Decimal.value_single hd] at denotes
      exact denotes
  | cons f fs =>
      obtain ⟨d', plain, same⟩ := Decimal.mantissa_fraction hd (List.cons_ne_nil f fs)
      have denotes := denotes_power plain (c := 'E') rfl power
      rw [same] at denotes
      simpa using denotes

theorem scientificRecord_denotes (d : Decimal) : Denotes (scientificRecord d).toList d.value := by
  have power := integer?_signed d.leadingExponent
  rw [scientificRecord]
  simp only [String.toList_append, String.toList_ofList]
  obtain ⟨c, fs, hd⟩ := List.exists_cons_of_ne_nil d.digits_ne_nil
  rw [hd, List.append_assoc]
  cases fs with
  | nil =>
      have plain := Plain.whole (List.cons_ne_nil c []) (hd ▸ d.allDigits_digits)
      have denotes := denotes_power plain (c := 'e') rfl power
      rw [Decimal.value, zpow_zero, mul_one, Decimal.value_single hd] at denotes
      exact denotes
  | cons f fs =>
      obtain ⟨d', plain, same⟩ := Decimal.mantissa_fraction hd (List.cons_ne_nil f fs)
      have denotes := denotes_power plain (c := 'e') rfl power
      rw [same] at denotes
      simpa using denotes

end Numeral

end LoxLang
