import LoxLang.Proofs.LongestMatch

/-!
# What is cut off in front of a rest

A text is cut off whole if what stands behind it does not extend it. What a
cut looks at there is one character, or two behind a number. A blank extends no
token, and so a token is cut off whole in front of a blank and in front of the
end (`cuts_token`): it is read wherever it stands by itself as it was read
the first time.
-/

namespace LoxLang

open Lexicon

namespace Scan

variable {p : Char → Bool} {text cs : List Char}

/-! ## No more than the text is taken -/

/-- No more than the text is taken from the front. -/
theorem takeWhile_eq_iff : (text ++ cs).takeWhile p = text ↔
    (∀ c ∈ text, p c = true) ∧ ∀ c ∈ cs.head?, p c = false := by
  constructor
  · intro taken
    have all : ∀ c ∈ text, p c = true := by
      rw [← taken]
      exact fun c hc => List.mem_takeWhile_imp hc
    rw [List.takeWhile_append_of_pos all, List.append_right_eq_self] at taken
    refine ⟨all, fun c hc => Bool.eq_false_iff.2 fun hp => ?_⟩
    obtain ⟨cs, rfl⟩ := List.head?_eq_some_iff.1 hc
    rw [List.takeWhile_cons_of_pos hp] at taken
    cases taken
  · rintro ⟨all, stop⟩
    rw [List.takeWhile_append_of_pos all]
    cases cs with
    | nil => exact List.append_nil text
    | cons c cs =>
        rw [List.takeWhile_cons_of_neg (Bool.eq_false_iff.1 (stop c rfl)), List.append_nil]

theorem dropWhile_eq (h : (text ++ cs).takeWhile p = text) : (text ++ cs).dropWhile p = cs := by
  have whole := List.takeWhile_append_dropWhile (p := p) (l := text ++ cs)
  rw [h] at whole
  exact List.append_cancel_left whole

theorem cutComment_eq (h : (text ++ cs).takeWhile (· != '\n') = text) :
    cutComment (text ++ cs) = (⟨text, .skipped⟩, cs) := by
  rw [cutComment, h, dropWhile_eq h]

theorem cutWord_eq (h : (text ++ cs).takeWhile isWordPart = text) :
    cutWord (text ++ cs) = (⟨text, .token (wordKind text)⟩, cs) := by
  rw [cutWord, h, dropWhile_eq h]

/-- Does a fraction follow, behind the digits of a number? -/
def SeesFraction (cs : List Char) : Prop := ∃ d rest, cs = '.' :: d :: rest ∧ isDigit d = true

theorem cutNumber_whole_eq {text cs : List Char} (noFraction : ¬ SeesFraction cs)
    (h : (text ++ cs).takeWhile isDigit = text) : cutNumber (text ++ cs) =
      (⟨text, .token (.number (Numeral.ofLiteral text []))⟩, cs) := by
  have left := dropWhile_eq h
  rw [cutNumber_whole (by rw [left]; exact noFraction), h, left]

theorem cutNumber_fraction_eq {ds fs cs : List Char} (digits : ∀ d ∈ ds, isDigit d = true)
    (nonempty : fs ≠ []) (digits' : ∀ d ∈ fs, isDigit d = true) :
    cutNumber (ds ++ '.' :: fs ++ cs) =
      (⟨ds ++ '.' :: (fs ++ cs).takeWhile isDigit, .token (.number (Numeral.ofLiteral ds
        ((fs ++ cs).takeWhile isDigit)))⟩, (fs ++ cs).dropWhile isDigit) := by
  have front : (ds ++ '.' :: (fs ++ cs)).takeWhile isDigit = ds :=
    takeWhile_eq_iff.2 ⟨digits, fun _ first => by cases first; decide⟩
  have left := dropWhile_eq front
  rw [List.append_assoc, List.cons_append]
  obtain ⟨f, fs, rfl⟩ := List.exists_cons_of_ne_nil nonempty
  have behind : (ds ++ '.' :: (f :: fs ++ cs)).dropWhile isDigit = '.' :: f :: (fs ++ cs) := left
  have cut := cutNumber_fraction (digits' f List.mem_cons_self) behind
  rw [front] at cut
  exact cut

/-- A number without a fraction ends where the digits end, and no fraction follows. -/
theorem whole_of_cutNumber {ds cs : List Char} {content : Content}
    (digits : ∀ d ∈ ds, isDigit d = true) (h : cutNumber (ds ++ cs) = (⟨ds, content⟩, cs)) :
    (ds ++ cs).takeWhile isDigit = ds ∧ ¬ SeesFraction cs := by
  have noFraction : ¬ SeesFraction ((ds ++ cs).dropWhile isDigit) := by
    rintro ⟨d, rest, left, digit⟩
    rw [cutNumber_fraction digit left] at h
    have text := congrArg (·.1.text) h
    dsimp only at text
    have point := digits '.' (text ▸ List.mem_append_right _ List.mem_cons_self)
    exact absurd point (by decide)
  rw [cutNumber_whole noFraction] at h
  have taken := congrArg (·.1.text) h
  have left := congrArg (·.2) h
  dsimp only at taken left
  rw [left] at noFraction
  exact ⟨taken, noFraction⟩

/-! ## The text is the piece -/

/-- The text is what is cut off in front of the rest. -/
def Cuts (text : List Char) (content : Content) (rest : List Char) : Prop :=
  ∀ c cs, text = c :: cs → cut c (cs ++ rest) = (⟨text, content⟩, rest)

theorem Cuts.pieces_eq {content : Content} (h : Cuts text content cs) (nonempty : text ≠ []) :
    pieces (text ++ cs) = ⟨text, content⟩ :: pieces cs := by
  obtain ⟨c, text, rfl⟩ := List.exists_cons_of_ne_nil nonempty
  exact pieces_of_cut (h _ _ rfl)

theorem cuts_cut (c : Char) (cs : List Char) :
    Cuts (cut c cs).1.text (cut c cs).1.content (cut c cs).2 := by
  intro d ds first
  have whole := cut_append c cs
  rw [first, List.cons_append] at whole
  obtain ⟨rfl, rest⟩ := List.cons.inj whole
  rw [rest]

theorem cuts_blank {c : Char} (blank : isBlank c = true) : Cuts [c] .skipped cs := by
  intro _ _ first
  cases first
  exact cut_blank blank cs

theorem cuts_string {body : List Char} (closed : '"' ∉ body) :
    Cuts ('"' :: (body ++ ['"'])) (.token (.string (String.ofList body))) cs := by
  intro _ _ first
  cases first
  rw [List.append_assoc]
  exact cutString_closed closed cs

theorem cuts_word {c : Char} {w : List Char} (start : isWordStart c = true)
    (taken : (c :: w ++ cs).takeWhile isWordPart = c :: w) :
    Cuts (c :: w) (.token (wordKind (c :: w))) cs := by
  intro _ _ first
  cases first
  rw [cut_wordStart start, ← List.cons_append, cutWord_eq taken]

theorem Cuts.word {c : Char} {w : List Char} {content : Content}
    (h : Cuts (c :: w) content cs) (start : isWordStart c = true) :
    (c :: w ++ cs).takeWhile isWordPart = c :: w := by
  have before := h _ _ rfl
  rw [cut_wordStart start] at before
  exact congrArg (·.1.text) before

theorem cuts_whole {ds : List Char} (digits : ∀ d ∈ ds, isDigit d = true)
    (noFraction : ¬ SeesFraction cs) (taken : (ds ++ cs).takeWhile isDigit = ds) :
    Cuts ds (.token (.number (Numeral.ofLiteral ds []))) cs := by
  rintro c ds rfl
  rw [cut_digit (digits c List.mem_cons_self), ← List.cons_append]
  exact cutNumber_whole_eq noFraction taken

/-- A number without a fraction ends where the digits end, and no fraction follows. -/
theorem Cuts.whole {ds : List Char} {content : Content} (h : Cuts ds content cs)
    (nonempty : ds ≠ []) (digits : ∀ d ∈ ds, isDigit d = true) :
    (ds ++ cs).takeWhile isDigit = ds ∧ ¬ SeesFraction cs := by
  obtain ⟨c, ds, rfl⟩ := List.exists_cons_of_ne_nil nonempty
  have before := h _ _ rfl
  rw [cut_digit (digits c List.mem_cons_self), ← List.cons_append] at before
  exact whole_of_cutNumber digits before

theorem cuts_fraction {ds fs : List Char} (nonempty : ds ≠ [])
    (digits : ∀ d ∈ ds, isDigit d = true) (nonempty' : fs ≠ [])
    (digits' : ∀ d ∈ fs, isDigit d = true) (taken : (fs ++ cs).takeWhile isDigit = fs) :
    Cuts (ds ++ '.' :: fs) (.token (.number (Numeral.ofLiteral ds fs))) cs := by
  intro c rest first
  have digit : isDigit c = true := by
    obtain ⟨d, ds, rfl⟩ := List.exists_cons_of_ne_nil nonempty
    cases first
    exact digits c List.mem_cons_self
  rw [cut_digit digit, ← List.cons_append, ← first, cutNumber_fraction_eq digits nonempty' digits',
    taken, dropWhile_eq taken]

theorem Cuts.fraction {ds fs : List Char} {content : Content} (h : Cuts (ds ++ '.' :: fs) content cs)
    (nonempty : ds ≠ []) (digits : ∀ d ∈ ds, isDigit d = true) (nonempty' : fs ≠ [])
    (digits' : ∀ d ∈ fs, isDigit d = true) : (fs ++ cs).takeWhile isDigit = fs := by
  have cut : cutNumber (ds ++ '.' :: fs ++ cs) = (⟨ds ++ '.' :: fs, content⟩, cs) := by
    obtain ⟨c, ds, rfl⟩ := List.exists_cons_of_ne_nil nonempty
    rw [← h _ _ rfl]
    exact (cut_digit (digits c List.mem_cons_self) _).symm
  rw [cutNumber_fraction_eq digits nonempty' digits'] at cut
  exact (List.cons.inj (List.append_cancel_left (congrArg (·.1.text) cut))).2

theorem cuts_single {c : Char} {s : Symbol} (h : single? c = some s) :
    Cuts [c] (.token (.symbol s)) cs ↔ (c = '/' → cs.head? ≠ some '/') ∧
      ((beforeEqual? c).isSome = true → cs.head? ≠ some '=') := by
  constructor
  · intro cuts
    have before := cuts _ _ rfl
    rw [List.nil_append] at before
    constructor
    · rintro rfl head
      obtain ⟨rest, rfl⟩ := List.head?_eq_some_iff.1 head
      rw [cut_comment] at before
      cases congrArg (·.1.content) before
    · intro double head
      obtain ⟨rest, rfl⟩ := List.head?_eq_some_iff.1 head
      obtain ⟨s', hs⟩ := Option.isSome_iff_exists.1 double
      have slash := (single_of_beforeEqual hs).1
      rw [cut_single h fun heq => absurd heq slash, cutOperator_equal hs] at before
      cases congrArg (·.1.text) before
  · rintro ⟨slash, equal⟩ _ _ first
    cases first
    rw [List.nil_append, cut_single h slash, cutOperator_single, h]
    intro s' rest hs heq
    refine equal (by rw [hs]; rfl) ?_
    rw [heq]
    rfl

theorem cuts_double {c : Char} {s : Symbol} (h : beforeEqual? c = some s) :
    Cuts [c, '='] (.token (.symbol s)) cs := by
  intro _ _ first
  cases first
  obtain ⟨slash, s', hs'⟩ := single_of_beforeEqual h
  rw [cut_single hs' fun heq => absurd heq slash, List.singleton_append, cutOperator_equal h]

/-! ## In front of a blank -/

theorem not_isWordPart_of_isBlank {c : Char} (h : isBlank c = true) : isWordPart c = false := by
  rcases isBlank_iff.1 h with rfl | rfl | rfl | rfl <;> rfl

theorem not_isDigit_of_isBlank {c : Char} (h : isBlank c = true) : isDigit c = false := by
  rcases isBlank_iff.1 h with rfl | rfl | rfl | rfl <;> rfl

/-- What fits the pattern of a token is cut off whole if a blank or nothing is behind it. -/
theorem cuts_token {kind : Token.Kind} (fits : Pattern (.token kind) text)
    (ends : ∀ c ∈ cs.head?, isBlank c = true) : Cuts text (.token kind) cs := by
  have noWord : ∀ c ∈ cs.head?, isWordPart c = false :=
    fun c hc => not_isWordPart_of_isBlank (ends c hc)
  have noDigit : ∀ c ∈ cs.head?, isDigit c = false :=
    fun c hc => not_isDigit_of_isBlank (ends c hc)
  have other : ∀ {d : Char}, isBlank d = false → cs.head? ≠ some d := by
    intro d plain head
    rw [ends d head] at plain
    cases plain
  cases fits with
  | punctuator is =>
      rcases punctuator_cases is with ⟨c, spelled, hs⟩ | ⟨c, spelled, hs⟩
      · rw [spelled]
        exact (cuts_single hs).2 ⟨fun _ => other rfl, fun _ => other rfl⟩
      · rw [spelled]
        exact cuts_double hs
  | @keyword s is =>
      obtain ⟨⟨c, w, spelled, start⟩, parts⟩ := keyword_word is
      rw [← wordKind_keyword is]
      rw [spelled] at parts ⊢
      exact cuts_word start (takeWhile_eq_iff.2 ⟨parts, noWord⟩)
  | @identifier c w start parts free =>
      rw [← wordKind_identifier free]
      refine cuts_word start (takeWhile_eq_iff.2 ⟨List.forall_mem_cons.2 ⟨?_, parts⟩, noWord⟩)
      rw [isWordPart, start, Bool.true_or]
  | whole nonempty digits =>
      refine cuts_whole digits ?_ (takeWhile_eq_iff.2 ⟨digits, noDigit⟩)
      rintro ⟨d, rest, rfl, -⟩
      exact other rfl rfl
  | fraction nonempty digits nonempty' digits' =>
      exact cuts_fraction nonempty digits nonempty' digits'
        (takeWhile_eq_iff.2 ⟨digits', noDigit⟩)
  | string closed => exact cuts_string closed

end Scan

end LoxLang
