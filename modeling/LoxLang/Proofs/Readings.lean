import LoxLang.Proofs.Phrases

/-!
# What a parser makes of tokens

A reply without the bound that its type carries, so that replies to different
tokens can be compared, and what it means that a parser recognizes a phrase.

A parser goes through the tokens from left to right and looks at one token
behind what it has consumed. That is said by comparing its readings: if it
leaves `t :: rest`, then it gives the same reading whatever stands in place of
`rest`. And as long as nothing unwinds, what it has consumed is derived from
the phrase. The first error that unwinds is found at a token behind a beginning
of the phrase, and again it does not matter what stands behind that token.
-/

namespace LoxLang

/-- A reply without its bound. -/
inductive Reading (α : Type) where
  | parsed (value : α) (rest : List Token) (reports : List Complaint)
  | refused (rest : List Token) (reports : List Complaint) (reason : Complaint)

/-- The reply without its bound. -/
def Reply.reading {α : Type} {n : Nat} : Reply α n → Reading α
  | .parsed value rest reports _ => .parsed value rest reports
  | .refused rest reports reason _ => .refused rest reports reason

namespace Reading

variable {α β : Type}

/-- What is left. -/
def rest : Reading α → List Token
  | parsed _ rest _ => rest
  | refused rest _ _ => rest

/-- The same reading, where something else is left. -/
def leaving (rest : List Token) : Reading α → Reading α
  | parsed value _ reports => parsed value rest reports
  | refused _ reports reason => refused rest reports reason

/-- All that was noticed, in order. -/
def complaints : Reading α → List Complaint
  | parsed _ _ reports => reports
  | refused _ reports reason => reports ++ [reason]

/-- Complaints made before. -/
def noting (earlier : List Complaint) : Reading α → Reading α
  | parsed value rest reports => parsed value rest (earlier ++ reports)
  | refused rest reports reason => refused rest (earlier ++ reports) reason

/-- A parser followed by another on the rest. -/
def andThen (a : Reading α) (next : α → List Token → Reading β) : Reading β :=
  match a with
  | parsed value rest reports => (next value rest).noting reports
  | refused rest reports reason => refused rest reports reason

/-- A function applied to the value. -/
def map (f : α → β) : Reading α → Reading β
  | parsed value rest reports => parsed (f value) rest reports
  | refused rest reports reason => refused rest reports reason

/-- The first error that unwinds. -/
def unwinding? (a : Reading α) : Option Complaint := a.complaints.find? (·.error.unwinds)

/-! ## Small laws -/

variable {a : Reading α} {next : α → List Token → Reading β} {earlier : List Complaint}
  {c : Complaint}

@[simp] theorem rest_noting : (a.noting earlier).rest = a.rest := by cases a <;> rfl

@[simp] theorem rest_map (f : α → β) : (a.map f).rest = a.rest := by cases a <;> rfl

@[simp] theorem leaving_noting (ts : List Token) :
    (a.noting earlier).leaving ts = (a.leaving ts).noting earlier := by cases a <;> rfl

@[simp] theorem leaving_map (f : α → β) (ts : List Token) :
    (a.map f).leaving ts = (a.leaving ts).map f := by cases a <;> rfl

@[simp] theorem complaints_noting : (a.noting earlier).complaints = earlier ++ a.complaints := by
  cases a <;> simp [noting, complaints]

@[simp] theorem complaints_map (f : α → β) : (a.map f).complaints = a.complaints := by
  cases a <;> rfl

@[simp] theorem unwinding?_map (f : α → β) : (a.map f).unwinding? = a.unwinding? := by
  rw [unwinding?, complaints_map, unwinding?]

theorem unwinding?_noting (mild : ∀ c ∈ earlier, c.error.unwinds = false) :
    (a.noting earlier).unwinding? = a.unwinding? := by
  rw [unwinding?, complaints_noting, List.find?_append, unwinding?,
    List.find?_eq_none.2 fun c hc => by rw [mild c hc]; exact Bool.false_ne_true, Option.none_or]

/-- What unwinds first is not changed by what is read behind it. -/
theorem unwinding?_andThen (h : a.unwinding? = some c) :
    (a.andThen next).unwinding? = some c := by
  cases a with
  | refused => exact h
  | parsed value rest reports =>
      rw [andThen, unwinding?, complaints_noting, List.find?_append]
      rw [show reports.find? (·.error.unwinds) = some c from h, Option.some_or]

theorem unwinding?_eq_none : a.unwinding? = none ↔ ∀ c ∈ a.complaints, c.error.unwinds = false := by
  simp only [unwinding?, List.find?_eq_none, Bool.not_eq_true]

/-- A refusal comes with an error that unwinds, if only as its reason. -/
theorem unwinding?_refused {rest : List Token} {reports : List Complaint} {reason : Complaint}
    (unwinds : reason.error.unwinds = true) :
    (refused rest reports reason : Reading α).unwinding? ≠ none := fun h => by
  have := unwinding?_eq_none.1 h reason (List.mem_append_right _ (List.mem_singleton_self _))
  rw [unwinds] at this
  cases this

theorem unwinding?_refuse {ts : List Token} {reason : Complaint}
    (unwinds : reason.error.unwinds = true) :
    (refused ts [] reason : Reading α).unwinding? = some reason := by
  simp [unwinding?, complaints, unwinds]

end Reading

namespace Reply

variable {α β : Type} {n m : Nat}

@[simp] theorem reading_parsed {v : α} {rest : List Token} {reports : List Complaint}
    (h : rest.length < n) : (parsed v rest reports h).reading = .parsed v rest reports := rfl

@[simp] theorem reading_refused {rest : List Token} {reports : List Complaint} {reason : Complaint}
    (h : rest.length ≤ n) :
    (refused rest reports reason h : Reply α n).reading = .refused rest reports reason := rfl

@[simp] theorem reading_keep (v : α) (ts : List Token) : (keep v ts).reading = .parsed v ts [] :=
  rfl

@[simp] theorem reading_refuse (error : GrammarError) (ts : List Token) :
    (refuse error ts : Reply α ts.length).reading = .refused ts [] ⟨ts.head?, error⟩ := rfl

theorem reading_andThen {r : Reply α n}
    {next : (a : α) → (rest : List Token) → rest.length < n → Reply β (rest.length + 1)}
    {next' : α → List Token → Reading β}
    (same : ∀ a rest h, (next a rest h).reading = next' a rest) :
    (r.andThen next).reading = r.reading.andThen next' := by
  cases r with
  | refused => rfl
  | parsed a rest reports shorter =>
      rw [reading, Reading.andThen, ← same a rest shorter]
      simp only [Reply.andThen]
      cases next a rest shorter <;> rfl

@[simp] theorem reading_map (f : α → β) (r : Reply α n) :
    (r.map f).reading = r.reading.map f := by cases r <;> rfl

@[simp] theorem reading_widen (h : n ≤ m) (r : Reply α n) : (r.widen h).reading = r.reading := by
  cases r <;> rfl

@[simp] theorem reading_noting (earlier : List Complaint) (r : Reply α n) :
    (r.noting earlier).reading = r.reading.noting earlier := by cases r <;> rfl

theorem length_lt_of_reading {r : Reply α n} {v : α} {rest : List Token} {reports : List Complaint}
    (h : r.reading = .parsed v rest reports) : rest.length < n := by
  cases r with
  | refused => cases h
  | parsed _ _ _ shorter =>
      cases h
      exact shorter

end Reply

namespace Grammar

/-! ## Recognizing a phrase -/

variable {α β : Type}

/-- The parser stops in front of the first token at which the tokens read so far are no beginning of
the phrase any more, with the given complaint about that token, whatever follows. -/
def Stuck (p : Phrase) (parser : List Token → Reading α) (ts : List Token) (c : Complaint) : Prop :=
  ∃ front rest, ts = front ++ rest ∧ c.found = rest.head? ∧ p.Viable front ∧
    ∀ t behind, rest = t :: behind → ∀ more, (parser (front ++ t :: more)).unwinding? = some c

/-- The parser recognizes the phrase at the beginning of the tokens, and looks no further than one
token behind. -/
structure Recognizes (p : Phrase) (parser : List Token → Reading α) (ts : List Token) : Prop where
  reads : ∃ front, ts = front ++ (parser ts).rest ∧
    ((parser ts).unwinding? = none → p.Derives front) ∧
    ∀ t behind, (parser ts).rest = t :: behind →
      (∀ c ∈ (parser ts).complaints, c.found.isSome) ∧
      ∀ more, parser (front ++ t :: more) = (parser ts).leaving (t :: more)
  stuck : ∀ c, (parser ts).unwinding? = some c → Stuck p parser ts c
  fails : ∀ rest reports reason, parser ts = .refused rest reports reason →
    reason.error.unwinds = true

variable {p q a b : Phrase} {f g : List Token → Reading α} {t u : Token}
  {ts us front behind : List Token}

theorem Recognizes.imp (h : Recognizes p f ts) (imp : ∀ us, p.Derives us → q.Derives us) :
    Recognizes q f ts where
  reads := by
    obtain ⟨front, split, derives, same⟩ := h.reads
    exact ⟨front, split, imp _ ∘ derives, same⟩
  stuck c hc := by
    obtain ⟨front, rest, split, found, viable, same⟩ := h.stuck c hc
    exact ⟨front, rest, split, found, viable.imp imp, same⟩
  fails := h.fails

/-- What stands behind the first token of a list does not change what stands in front of it. -/
theorem exists_cons (split : front ++ t :: behind = u :: us) (more : List Token) :
    ∃ us, front ++ t :: more = u :: us := by
  cases front with
  | nil =>
      cases split
      exact ⟨more, rfl⟩
  | cons _ front =>
      cases split
      exact ⟨_, rfl⟩

/-- Only what the parsers make of lists with the first token at hand matters. -/
theorem Recognizes.congr (h : Recognizes p g (t :: ts)) (same : ∀ us, f (t :: us) = g (t :: us)) :
    Recognizes p f (t :: ts) := by
  have begins : ∀ {front behind : List Token} {u : Token}, t :: ts = front ++ u :: behind →
      ∀ more, f (front ++ u :: more) = g (front ++ u :: more) := by
    intro front behind u split more
    obtain ⟨us, hus⟩ := exists_cons split.symm more
    rw [hus, same]
  constructor
  · obtain ⟨front, split, derives, local'⟩ := h.reads
    rw [same]
    refine ⟨front, split, derives, fun u behind left => ?_⟩
    obtain ⟨found, local'⟩ := local' u behind left
    exact ⟨found, fun more => (begins (left ▸ split) more).trans (local' more)⟩
  · intro c hc
    rw [same] at hc
    obtain ⟨front, rest, split, found, viable, local'⟩ := h.stuck c hc
    exact ⟨front, rest, split, found, viable, fun u behind left more =>
      (congrArg Reading.unwinding? (begins (left ▸ split) more)).trans (local' u behind left more)⟩
  · rw [same]
    exact h.fails

/-- At the end of the input nothing can stand in place of what is left. -/
theorem Recognizes.congr_nil (h : Recognizes p g []) (same : f [] = g []) : Recognizes p f [] := by
  have ended : ∀ {front : List Token} {rest : List Token}, [] = front ++ rest →
      front = [] ∧ rest = [] :=
    fun split => List.append_eq_nil_iff.1 split.symm
  constructor
  · obtain ⟨front, split, derives, -⟩ := h.reads
    rw [same]
    refine ⟨front, split, derives, fun t behind left => ?_⟩
    rw [(ended split).2] at left
    cases left
  · intro c hc
    rw [same] at hc
    obtain ⟨front, rest, split, found, viable, -⟩ := h.stuck c hc
    refine ⟨front, rest, split, found, viable, fun t behind left => ?_⟩
    rw [(ended split).2] at left
    cases left
  · rw [same]
    exact h.fails

/-- A parser that goes on behind the first token. -/
theorem Recognizes.cons {x : Terminal} (h : Recognizes p g ts) (fits : x.Fits t)
    (same : ∀ us, f (t :: us) = g us) : Recognizes (.seq (.token x) p) f (t :: ts) := by
  constructor
  · obtain ⟨front, split, derives, local'⟩ := h.reads
    rw [same]
    refine ⟨t :: front, congrArg (t :: ·) split, fun clean => .seq (.token fits) (derives clean),
      fun u behind left => ?_⟩
    obtain ⟨found, local'⟩ := local' u behind left
    exact ⟨found, fun more => (same _).trans (local' more)⟩
  · intro c hc
    rw [same] at hc
    obtain ⟨front, rest, split, found, viable, local'⟩ := h.stuck c hc
    exact ⟨t :: front, rest, congrArg (t :: ·) split, found,
      Phrase.Derives.seq_viable (.token fits) viable, fun u behind left more =>
        (congrArg Reading.unwinding? (same _)).trans (local' u behind left more)⟩
  · rw [same]
    exact h.fails

/-- A parser that consumes nothing, and at most reports something. -/
theorem Recognizes.report {v : α} {reports : List Complaint} (none : p.Derives [])
    (mild : ∀ c ∈ reports, c.found.isSome ∧ c.error.unwinds = false)
    (here : f ts = .parsed v ts reports)
    (same : ∀ t behind, ts = t :: behind → ∀ more, f (t :: more) = .parsed v (t :: more) reports) :
    Recognizes p f ts := by
  constructor
  · rw [here]
    exact ⟨[], rfl, fun _ => none, fun t behind left =>
      ⟨fun c hc => (mild c hc).1, same t behind left⟩⟩
  · intro c hc
    have clean : (Reading.parsed v ts reports).unwinding? = Option.none :=
      Reading.unwinding?_eq_none.2 fun c hc => (mild c hc).2
    rw [here, clean] at hc
    cases hc
  · rw [here]
    nofun

/-- A parser that consumes nothing. -/
theorem Recognizes.keep {v : α} (none : p.Derives []) (here : f ts = .parsed v ts [])
    (same : ∀ t behind, ts = t :: behind → ∀ more, f (t :: more) = .parsed v (t :: more) []) :
    Recognizes p f ts := .report none (List.forall_mem_nil _) here same

/-- A parser that consumes nothing of what begins with the first token. -/
theorem Recognizes.keep_cons {v : α} (none : p.Derives [])
    (same : ∀ us, f (t :: us) = .parsed v (t :: us) []) : Recognizes p f (t :: ts) :=
  .keep none (same ts) fun u behind left more => by
    cases left
    exact same more

/-- A parser that refuses the first token. -/
theorem Recognizes.refuse {error : GrammarError} (unwinds : error.unwinds = true)
    (here : f ts = .refused ts [] ⟨ts.head?, error⟩)
    (same : ∀ t behind, ts = t :: behind →
      ∀ more, f (t :: more) = .refused (t :: more) [] ⟨some t, error⟩) : Recognizes p f ts := by
  constructor
  · refine ⟨[], by rw [here]; rfl, fun clean => ?_, fun t behind left => ?_⟩
    · rw [here] at clean
      exact absurd clean (Reading.unwinding?_refused unwinds)
    · rw [here] at left ⊢
      obtain rfl : ts = t :: behind := left
      exact ⟨List.forall_mem_singleton.2 rfl, same t behind rfl⟩
  · intro c hc
    rw [here, Reading.unwinding?_refuse unwinds] at hc
    cases hc
    refine ⟨[], ts, rfl, rfl, p.has, fun t behind left more => ?_⟩
    rw [List.nil_append, same t behind left, Reading.unwinding?_refuse unwinds, left]
    rfl
  · intro _ _ _ h
    rw [here] at h
    cases h
    exact unwinds

/-- A parser that consumes the first token. -/
theorem Recognizes.take {x : Terminal} {v : α} (fits : x.Fits t)
    (same : ∀ us, f (t :: us) = .parsed v us []) : Recognizes (.token x) f (t :: ts) := by
  constructor
  · simp only [same]
    exact ⟨[t], rfl, fun _ => .token fits, fun u behind left => ⟨nofun, fun more => same _⟩⟩
  · intro c hc
    rw [same] at hc
    cases hc
  · rw [same]
    nofun

/-- A parser that refuses what begins with the first token. -/
theorem Recognizes.refuse_cons {error : GrammarError} (unwinds : error.unwinds = true)
    (same : ∀ us, f (t :: us) = .refused (t :: us) [] ⟨some t, error⟩) :
    Recognizes p f (t :: ts) :=
  .refuse unwinds (same ts) fun u behind left more => by
    cases left
    exact same more

theorem Recognizes.of_eq (h : Recognizes p g ts) (same : ∀ us, f us = g us) :
    Recognizes p f ts := by rwa [funext same]

theorem Recognizes.map (h : Recognizes p f ts) (k : α → β) :
    Recognizes p (fun ts => (f ts).map k) ts := by
  constructor
  · obtain ⟨front, split, derives, local'⟩ := h.reads
    refine ⟨front, by rwa [Reading.rest_map], by rwa [Reading.unwinding?_map],
      fun t behind left => ?_⟩
    rw [Reading.rest_map] at left
    obtain ⟨found, local'⟩ := local' t behind left
    exact ⟨by rwa [Reading.complaints_map], fun more => by rw [local', Reading.leaving_map]⟩
  · intro c hc
    rw [Reading.unwinding?_map] at hc
    obtain ⟨front, rest, split, found, viable, local'⟩ := h.stuck c hc
    refine ⟨front, rest, split, found, viable, fun t behind left more => ?_⟩
    rw [Reading.unwinding?_map]
    exact local' t behind left more
  · intro rest reports reason hr
    cases hf : f ts with
    | parsed =>
        rw [hf] at hr
        cases hr
    | refused =>
        rw [hf] at hr
        cases hr
        exact h.fails _ _ _ hf

/-- A parser that goes on with another one behind a part that is read recognizes one phrase behind
another, if it leaves the first error that unwinds in that part as it is. -/
theorem Recognizes.goOn {F next : List Token → Reading β} {v : α} {mid : List Token}
    {reports : List Complaint} (h : Recognizes p f ts) (hf : f ts = .parsed v mid reports)
    (second : Recognizes q next mid)
    (goes : ∀ us rest, f us = .parsed v rest reports → F us = (next rest).noting reports)
    (keeps : ∀ us c, (f us).unwinding? = some c → (F us).unwinding? = some c) :
    Recognizes (.seq p q) F ts := by
  obtain ⟨front, split, derives, local'⟩ := h.reads
  have early : ∀ c, (f ts).unwinding? = some c → Stuck (.seq p q) F ts c := by
    intro c hc
    obtain ⟨front, rest, split, found, viable, local'⟩ := h.stuck c hc
    exact ⟨front, rest, split, found, viable.seq, fun t behind left more =>
      keeps _ c (local' t behind left more)⟩
  have same := goes ts mid hf
  rw [hf] at split local' derives
  obtain rfl : ts = front ++ mid := split
  -- behind the first part, the second one goes on, whatever replaces the tokens behind `t`
  have goes : ∀ {front' behind : List Token} {t : Token}, mid = front' ++ t :: behind →
      ∀ more, F (front ++ front' ++ t :: more) = (next (front' ++ t :: more)).noting reports := by
    rintro front' behind t rfl more
    cases hm : front' ++ t :: behind with
    | nil => simp at hm
    | cons u mid' =>
        obtain ⟨us, hus⟩ := exists_cons hm more
        rw [List.append_assoc, hus]
        exact goes _ _ ((local' u mid' hm).2 us)
  constructor
  · obtain ⟨front', split', derives', local''⟩ := second.reads
    refine ⟨front ++ front', ?_, fun clean => ?_, fun t behind left => ?_⟩
    · rw [same, Reading.rest_noting, List.append_assoc, ← split']
    · rw [same, Reading.unwinding?_eq_none, Reading.complaints_noting,
        List.forall_mem_append] at clean
      exact .seq (derives (Reading.unwinding?_eq_none.2 clean.1))
        (derives' (Reading.unwinding?_eq_none.2 clean.2))
    · rw [same, Reading.rest_noting] at left
      obtain ⟨found', local''⟩ := local'' t behind left
      rw [left] at split'
      rw [same]
      refine ⟨?_, fun more => ?_⟩
      · rw [Reading.complaints_noting]
        cases hm : mid with
        | nil => rw [hm] at split'; simp at split'
        | cons u mid' =>
            rw [← hm]
            exact List.forall_mem_append.2 ⟨(local' u mid' hm).1, found'⟩
      · rw [goes split', local'' more, Reading.leaving_noting]
  · intro c hc
    by_cases mild : ∀ c ∈ reports, c.error.unwinds = false
    · rw [same, Reading.unwinding?_noting mild] at hc
      obtain ⟨front', rest, split', found, viable, local''⟩ := second.stuck c hc
      refine ⟨front ++ front', rest, by rw [split', List.append_assoc], found,
        (derives (Reading.unwinding?_eq_none.2 mild)).seq_viable viable,
        fun t behind left more => ?_⟩
      rw [left] at split'
      rw [goes split', Reading.unwinding?_noting mild]
      exact local'' t behind left more
    · cases first : (f (front ++ mid)).unwinding? with
      | none =>
          rw [hf, Reading.unwinding?_eq_none] at first
          exact absurd first mild
      | some c' =>
          rw [keeps _ c' first] at hc
          cases hc
          exact early c first
  · rw [same]
    intro rest' reports' reason hr
    cases hn : next mid with
    | parsed => rw [hn] at hr; cases hr
    | refused =>
        rw [hn] at hr
        cases hr
        exact second.fails _ _ _ hn

/-- One parser behind another recognizes one phrase behind another. -/
theorem Recognizes.andThen {next : α → List Token → Reading β} (h : Recognizes p f ts)
    (h' : ∀ v mid reports, f ts = .parsed v mid reports → Recognizes q (next v) mid) :
    Recognizes (.seq p q) (fun ts => (f ts).andThen next) ts := by
  cases hf : f ts with
  | parsed v mid reports =>
      exact h.goOn hf (h' v mid reports hf) (fun us rest hus => by rw [hus]; rfl)
        fun us c => Reading.unwinding?_andThen
  | refused rest reports reason =>
      obtain ⟨front, split, derives, local'⟩ := h.reads
      have unwinds := h.fails _ _ _ hf
      have same : (f ts).andThen next = .refused rest reports reason := by rw [hf]; rfl
      rw [hf] at split local'
      constructor
      · refine ⟨front, by rw [same]; exact split, fun clean => ?_, fun t behind left => ?_⟩
        · rw [same] at clean
          exact absurd clean (Reading.unwinding?_refused unwinds)
        · rw [same] at left ⊢
          obtain ⟨found, local'⟩ := local' t behind left
          exact ⟨found, fun more => by rw [local' more]; rfl⟩
      · intro c hc
        rw [same, show Reading.unwinding? (.refused rest reports reason) = (f ts).unwinding? by
          rw [hf]; rfl] at hc
        obtain ⟨front, rest, split, found, viable, local'⟩ := h.stuck c hc
        exact ⟨front, rest, split, found, viable.seq, fun t behind left more =>
          Reading.unwinding?_andThen (local' t behind left more)⟩
      · rw [same]
        rintro _ _ _ ⟨⟩
        exact unwinds

/-- Complaints about the first token that do not unwind change nothing. -/
theorem Recognizes.noting {notes : List Token → List Complaint} (h : Recognizes p f ts)
    (mild : ∀ ts, ∀ c ∈ notes ts, c.found = ts.head? ∧ c.error.unwinds = false)
    (same : ∀ t us us', notes (t :: us) = notes (t :: us')) :
    Recognizes p (fun ts => (f ts).noting (notes ts)) ts := by
  have begins : ∀ {front behind : List Token} {u : Token}, ts = front ++ u :: behind →
      ∀ more, notes (front ++ u :: more) = notes ts := by
    rintro front behind u rfl more
    cases hf : front ++ u :: behind with
    | nil => simp at hf
    | cons t us =>
        obtain ⟨us', hus⟩ := exists_cons hf more
        rw [hus]
        exact same t us' us
  have mild' : ∀ ts, ∀ c ∈ notes ts, c.error.unwinds = false := fun ts c hc => (mild ts c hc).2
  constructor
  · obtain ⟨front, split, derives, local'⟩ := h.reads
    refine ⟨front, by rwa [Reading.rest_noting], by rwa [Reading.unwinding?_noting (mild' ts)],
      fun t behind left => ?_⟩
    rw [Reading.rest_noting] at left
    obtain ⟨found, local'⟩ := local' t behind left
    rw [left] at split
    refine ⟨?_, fun more => ?_⟩
    · rw [Reading.complaints_noting]
      refine List.forall_mem_append.2 ⟨fun c hc => ?_, found⟩
      rw [(mild ts c hc).1, split]
      cases front <;> rfl
    · rw [local', begins split, Reading.leaving_noting]
  · intro c hc
    rw [Reading.unwinding?_noting (mild' ts)] at hc
    obtain ⟨front, rest, split, found, viable, local'⟩ := h.stuck c hc
    refine ⟨front, rest, split, found, viable, fun t behind left more => ?_⟩
    rw [Reading.unwinding?_noting (mild' _)]
    exact local' t behind left more
  · intro rest reports reason hr
    cases hf : f ts with
    | parsed => rw [hf] at hr; cases hr
    | refused =>
        rw [hf] at hr
        cases hr
        exact h.fails _ _ _ hf

/-! ## The same for replies -/

variable {size size' : List Token → Nat}

theorem Recognizes.widen {f : (ts : List Token) → Reply α (size ts)}
    (h : Recognizes p (fun ts => (f ts).reading) ts) (wider : ∀ ts, size ts ≤ size' ts) :
    Recognizes p (fun ts => ((f ts).widen (wider ts)).reading) ts :=
  h.of_eq fun _ => Reply.reading_widen _ _

theorem Recognizes.replyMap {f : (ts : List Token) → Reply α (size ts)} {k : α → β}
    (h : Recognizes p (fun ts => (f ts).reading) ts) :
    Recognizes p (fun ts => ((f ts).map k).reading) ts :=
  (h.map k).of_eq fun _ => Reply.reading_map _ _

theorem Recognizes.bind {f : (ts : List Token) → Reply α (size ts)}
    {next : α → (rest : List Token) → Reply β (rest.length + 1)}
    (h : Recognizes p (fun ts => (f ts).reading) ts)
    (h' : ∀ v mid, mid.length < size ts → Recognizes q (fun rest => (next v rest).reading) mid) :
    Recognizes (.seq p q) (fun ts => ((f ts).andThen fun v rest _ => next v rest).reading) ts :=
  (h.andThen fun v mid _ hm => h' v mid (Reply.length_lt_of_reading hm)).of_eq fun _ =>
    Reply.reading_andThen fun _ _ _ => rfl

/-! ## Single tokens -/

theorem expect_recognizes {s : Symbol} {e : GrammarError} (unwinds : e.unwinds = true)
    (ts : List Token) : Recognizes (.word s) (fun ts => (expect s e ts).reading) ts := by
  cases ts with
  | nil => exact .refuse unwinds rfl nofun
  | cons t rest =>
      by_cases hk : t.isSymbol s = true
      · exact .take (Token.isSymbol_iff.1 hk) fun us => by rw [expect, if_pos hk]; rfl
      · exact .refuse_cons unwinds fun us => by rw [expect, if_neg hk]; rfl

theorem expectName_recognizes {e : GrammarError} (unwinds : e.unwinds = true)
    (ts : List Token) : Recognizes .name (fun ts => (expectName e ts).reading) ts := by
  cases ts with
  | nil => exact .refuse unwinds rfl nofun
  | cons t rest =>
      by_cases hk : t.kind = .identifier
      · exact .take hk fun us => by rw [expectName, hk]; rfl
      · refine .refuse_cons unwinds fun us => ?_
        cases hkind : t.kind with
        | identifier => exact absurd hkind hk
        | _ => simp [expectName, hkind]

end Grammar

end LoxLang
