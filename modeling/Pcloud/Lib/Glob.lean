import Mathlib.Computability.Language

/-!
# Glob patterns

A pattern is a list of tokens: any string, or one letter of a kind. Whether a word is in the language of a pattern can
be decided with one star to go back to, the last one that was met: what an earlier star could still do for the rest of
the word, the last one can do as well.
-/

namespace Glob

variable {α : Type*}

inductive Token (α : Type*)
  | any
  | one (p : α → Bool)

def Token.language : Token α → Language α
  | .any => ⊤
  | .one p => {word | ∃ a, p a = true ∧ word = [a]}

/-- The words of a pattern: a word of each token, one after another. -/
def language (tokens : List (Token α)) : Language α := (tokens.map Token.language).prod

def Token.isAny : Token α → Bool
  | .any => true
  | .one _ => false

variable {tokens : List (Token α)} {word : List α} {a : α} {p : α → Bool}

@[simp]
theorem isAny_any : (Token.any : Token α).isAny = true := rfl

@[simp]
theorem isAny_one : (Token.one p).isAny = false := rfl

/-! ## Words of a pattern -/

theorem mem_language_nil : word ∈ language ([] : List (Token α)) ↔ word = [] := Language.mem_one word

theorem mem_language_any_cons : word ∈ language (.any :: tokens) ↔ ∃ k, word.drop k ∈ language tokens := by
  rw [language, List.map_cons, List.prod_cons, Language.mem_mul]
  constructor
  · rintro ⟨skipped, -, rest, hrest, rfl⟩
    exact ⟨skipped.length, by rwa [List.drop_left]⟩
  · rintro ⟨k, hk⟩
    exact ⟨word.take k, trivial, word.drop k, hk, List.take_append_drop k word⟩

theorem mem_language_any_cons_iff : word ∈ language (.any :: tokens) ↔
    word ∈ language tokens ∨ ∃ a rest, word = a :: rest ∧ rest ∈ language (.any :: tokens) := by
  simp only [mem_language_any_cons]
  constructor
  · rintro ⟨_ | k, hk⟩
    · exact .inl hk
    · rcases word with _ | ⟨a, rest⟩
      · exact .inl hk
      · exact .inr ⟨a, rest, rfl, k, hk⟩
  · rintro (hmem | ⟨a, rest, rfl, k, hk⟩)
    · exact ⟨0, hmem⟩
    · exact ⟨k + 1, hk⟩

theorem mem_language_one_cons :
    word ∈ language (.one p :: tokens) ↔ ∃ a rest, word = a :: rest ∧ p a = true ∧ rest ∈ language tokens := by
  rw [language, List.map_cons, List.prod_cons, Language.mem_mul]
  constructor
  · rintro ⟨_, ⟨a, ha, rfl⟩, rest, hrest, rfl⟩
    exact ⟨a, rest, rfl, ha, hrest⟩
  · rintro ⟨a, rest, rfl, ha, hrest⟩
    exact ⟨[a], ⟨a, ha, rfl⟩, rest, hrest, rfl⟩

theorem cons_mem_language_one_cons :
    a :: word ∈ language (.one p :: tokens) ↔ p a = true ∧ word ∈ language tokens := by
  rw [mem_language_one_cons]
  constructor
  · rintro ⟨_, _, ⟨⟩, ha, hword⟩
    exact ⟨ha, hword⟩
  · rintro ⟨ha, hword⟩
    exact ⟨a, word, rfl, ha, hword⟩

theorem nil_mem_language_iff : [] ∈ language tokens ↔ ∀ token ∈ tokens, token.isAny = true := by
  induction tokens with
  | nil => simp [mem_language_nil]
  | cons token tokens ih =>
    cases token with
    | any => simp [mem_language_any_cons, ih]
    | one p => simp [mem_language_one_cons]

theorem drop_mem_language {ones : List (Token α)} (hones : ∀ token ∈ ones, token.isAny = false)
    (h : word ∈ language (ones ++ tokens)) :
    ones.length ≤ word.length ∧ word.drop ones.length ∈ language tokens := by
  induction ones generalizing word with
  | nil => exact ⟨Nat.zero_le _, h⟩
  | cons token ones ih =>
    obtain ⟨htoken, htokens⟩ := List.forall_mem_cons.mp hones
    cases token with
    | any => cases htoken
    | one p =>
      obtain ⟨a, rest, rfl, -, hrest⟩ := mem_language_one_cons.mp h
      obtain ⟨hle, hdrop⟩ := ih htokens hrest
      exact ⟨Nat.succ_le_succ hle, hdrop⟩

/-! ## A search with one star -/

/-- What is left of the pattern and of the word. `star` is where the last star was met: what is left of the pattern
after it, and of the word from where the next try begins. -/
structure Search (α : Type*) where
  tokens : List (Token α)
  word : List α
  star : Option (List (Token α) × List α)

namespace Search

def advance : Search α → Option (Search α)
  | ⟨.any :: tokens, word, _⟩ => some ⟨tokens, word, some (tokens, word)⟩
  | ⟨.one p :: tokens, a :: word, star⟩ => if p a then some ⟨tokens, word, star⟩ else none
  | _ => none

def backtrack (s : Search α) : Option (Search α) :=
  match s.star with
  | some (tokens, _ :: word) => some ⟨tokens, word, some (tokens, word)⟩
  | _ => none

def next (s : Search α) : Option (Search α) := s.advance.or s.backtrack

/-- The rest can be matched from here, or from a later try after the last star. -/
def Accepts (s : Search α) : Prop :=
  s.word ∈ language s.tokens ∨
    ∃ tokens a word, s.star = some (tokens, a :: word) ∧ word ∈ language (.any :: tokens)

/-- Since the last star only tokens of one letter were met. -/
def Good (s : Search α) : Prop :=
  ∀ tokens word, s.star = some (tokens, word) →
    ∃ ones, tokens = ones ++ s.tokens ∧ (∀ token ∈ ones, token.isAny = false) ∧ s.word = word.drop ones.length ∧
      ones.length ≤ word.length

variable {s s' : Search α}

theorem good_start (tokens : List (Token α)) (word : List α) : Good ⟨tokens, word, none⟩ := fun _ _ h => by cases h

theorem accepts_start : Accepts ⟨tokens, word, none⟩ ↔ word ∈ language tokens := by simp [Accepts]

theorem accepts_end (hgood : s.Good) (hword : s.word = []) :
    s.Accepts ↔ ∀ token ∈ s.tokens, token.isAny = true := by
  rw [← nil_mem_language_iff, Accepts, hword]
  refine or_iff_left ?_
  rintro ⟨tokens, a, word, hstar, hmem⟩
  obtain ⟨ones, rfl, hones, hdrop, -⟩ := hgood tokens (a :: word) hstar
  obtain ⟨k, hk⟩ := mem_language_any_cons.mp hmem
  have hlength := (drop_mem_language hones hk).1
  have hempty := congrArg List.length hdrop
  rw [hword, List.length_drop, List.length_nil, List.length_cons] at hempty
  rw [List.length_drop] at hlength
  omega

/-- What a try after an earlier star could match, the star that is met now can. -/
theorem mem_language_of_earlier (hgood : s.Good) (htokens : s.tokens = .any :: tokens)
    (h : ∃ tokens a word, s.star = some (tokens, a :: word) ∧ word ∈ language (.any :: tokens)) :
    s.word ∈ language s.tokens := by
  obtain ⟨tokens', a, word, hstar, hmem⟩ := h
  obtain ⟨ones, rfl, hones, hdrop, -⟩ := hgood tokens' (a :: word) hstar
  obtain ⟨k, hk⟩ := mem_language_any_cons.mp hmem
  obtain ⟨-, hrest⟩ := drop_mem_language hones hk
  rw [htokens, mem_language_any_cons] at hrest ⊢
  obtain ⟨j, hj⟩ := hrest
  refine ⟨k + 1 + j, ?_⟩
  rw [hdrop, List.drop_drop, show ones.length + (k + 1 + j) = k + (ones.length + j) + 1 by omega, List.drop_succ_cons]
  rwa [List.drop_drop, List.drop_drop] at hj

theorem advance_keeps (hgood : s.Good) (h : s.advance = some s') : s'.Good ∧ (s'.Accepts ↔ s.Accepts) := by
  rcases s with ⟨_ | ⟨_ | p, tokens⟩, word, star⟩
  · cases h
  · cases h
    constructor
    · rintro _ _ ⟨⟩
      exact ⟨[], rfl, by simp, rfl, Nat.zero_le _⟩
    · have hhere : Accepts ⟨.any :: tokens, word, star⟩ ↔ word ∈ language (.any :: tokens) :=
        or_iff_left_of_imp (mem_language_of_earlier hgood rfl)
      rw [hhere, mem_language_any_cons_iff]
      simp [Accepts]
  · rcases word with _ | ⟨a, word⟩
    · cases h
    · obtain ⟨hp, hnext⟩ := Option.ite_some_none_eq_some.mp h
      subst hnext
      constructor
      · intro tokens' word' hstar
        obtain ⟨ones, rfl, hones, hdrop, hle⟩ := hgood tokens' word' hstar
        refine ⟨ones ++ [.one p], by simp, ?_, ?_, ?_⟩
        · intro token htoken
          rcases List.mem_append.mp htoken with htoken | htoken
          · exact hones token htoken
          · rw [List.mem_singleton.mp htoken]
            rfl
        · rw [List.length_append, List.length_singleton, ← List.drop_drop, ← hdrop]
          rfl
        · have hlength := congrArg List.length hdrop
          rw [List.length_drop, List.length_cons] at hlength
          rw [List.length_append, List.length_singleton]
          omega
      · have hhere : a :: word ∈ language (.one p :: tokens) ↔ word ∈ language tokens :=
          cons_mem_language_one_cons.trans (and_iff_right hp)
        exact or_congr_left hhere.symm

theorem not_mem_of_advance_none (hword : s.word ≠ []) (h : s.advance = none) : s.word ∉ language s.tokens := by
  rcases s with ⟨_ | ⟨_ | p, tokens⟩, _ | ⟨a, word⟩, star⟩
  · exact absurd rfl hword
  · exact fun hmem => by cases mem_language_nil.mp hmem
  · cases h
  · cases h
  · exact absurd rfl hword
  · intro hmem
    have hp := (cons_mem_language_one_cons.mp hmem).1
    simp [advance, hp] at h

theorem backtrack_keeps (hword : s.word ≠ []) (hadvance : s.advance = none) (h : s.backtrack = some s') :
    s'.Good ∧ (s'.Accepts ↔ s.Accepts) := by
  have hhere := not_mem_of_advance_none hword hadvance
  rcases s with ⟨tokens, word, _ | ⟨tokens', _ | ⟨a, word'⟩⟩⟩
  · cases h
  · cases h
  · cases h
    constructor
    · rintro _ _ ⟨⟩
      exact ⟨[], rfl, by simp, rfl, Nat.zero_le _⟩
    · rw [Accepts, Accepts, or_iff_right hhere]
      simpa using (@mem_language_any_cons_iff _ _ word').symm

theorem not_accepts_of_next_none (hword : s.word ≠ []) (h : s.next = none) : ¬s.Accepts := by
  obtain ⟨hadvance, hbacktrack⟩ := Option.or_eq_none_iff.mp h
  rintro (hmem | ⟨tokens, a, word, hstar, -⟩)
  · exact not_mem_of_advance_none hword hadvance hmem
  · rw [backtrack, hstar] at hbacktrack
    cases hbacktrack

theorem next_keeps (hgood : s.Good) (hword : s.word ≠ []) (h : s.next = some s') :
    s'.Good ∧ (s'.Accepts ↔ s.Accepts) := by
  rcases Option.or_eq_some_iff.mp h with hadvance | ⟨hadvance, hbacktrack⟩
  · exact advance_keeps hgood hadvance
  · exact backtrack_keeps hword hadvance hbacktrack

/-- What is left to try: after the last star, and of the pattern. -/
def rank (s : Search α) : ℕ × ℕ :=
  ((s.star.map fun star => star.2.length).getD (s.word.length + 1), s.tokens.length)

theorem Good.length_le (hgood : s.Good) {tokens : List (Token α)} {word : List α}
    (hstar : s.star = some (tokens, word)) : s.word.length ≤ word.length := by
  obtain ⟨ones, -, -, hdrop, -⟩ := hgood tokens word hstar
  rw [hdrop, List.length_drop]
  omega

theorem advance_rank (hgood : s.Good) (h : s.advance = some s') : Prod.Lex (· < ·) (· < ·) s'.rank s.rank := by
  rcases s with ⟨_ | ⟨_ | p, tokens⟩, word, _ | ⟨tokens', word'⟩⟩
  · cases h
  · cases h
  · cases h
    exact .left _ _ (Nat.lt_succ_self _)
  · cases h
    rcases (hgood.length_le rfl).lt_or_eq with hlt | heq
    · exact .left _ _ hlt
    · exact Prod.lex_def.mpr (.inr ⟨heq, Nat.lt_succ_self _⟩)
  · rcases word with _ | ⟨a, word⟩
    · cases h
    · obtain ⟨-, rfl⟩ := Option.ite_some_none_eq_some.mp h
      exact .left _ _ (Nat.lt_succ_self _)
  · rcases word with _ | ⟨a, word⟩
    · cases h
    · obtain ⟨-, rfl⟩ := Option.ite_some_none_eq_some.mp h
      exact .right _ (Nat.lt_succ_self _)

theorem backtrack_rank (h : s.backtrack = some s') : Prod.Lex (· < ·) (· < ·) s'.rank s.rank := by
  rcases s with ⟨tokens, word, _ | ⟨tokens', _ | ⟨a, word'⟩⟩⟩
  · cases h
  · cases h
  · cases h
    exact .left _ _ (Nat.lt_succ_self _)

theorem next_rank (hgood : s.Good) (h : s.next = some s') : Prod.Lex (· < ·) (· < ·) s'.rank s.rank := by
  rcases Option.or_eq_some_iff.mp h with hadvance | ⟨-, hbacktrack⟩
  · exact advance_rank hgood hadvance
  · exact backtrack_rank hbacktrack

theorem induction {motive : Search α → Prop}
    (step : ∀ s, s.Good → (∀ s', s.word ≠ [] → s.next = some s' → motive s') → motive s) (hgood : s.Good) :
    motive s := by
  have hwf : WellFounded (Prod.Lex (· < ·) (· < ·) : ℕ × ℕ → ℕ × ℕ → Prop) :=
    WellFounded.prod_lex wellFounded_lt wellFounded_lt
  induction hrank : s.rank using hwf.induction generalizing s with
  | _ rank ih =>
    subst hrank
    exact step s hgood fun s' hword h => ih _ (next_rank hgood h) (next_keeps hgood hword h).1 rfl

end Search

end Glob
