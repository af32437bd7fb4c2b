import Mathlib.Data.List.TakeWhile
import Pcloud.Lib.Glob
import Pcloud.Model.Bytes

/-!
# The matcher of the ignore patterns (`pcloud-backends/src/ignore_patterns.rs`)

Names and patterns are bytes. `*` is any string, `?` any byte, and a class in brackets one byte in it or out of it.
-/

namespace Pcloud.IgnorePatterns

open Glob

def star : UInt8 := 0x2A

def question : UInt8 := 0x3F

def openBracket : UInt8 := 0x5B

def closeBracket : UInt8 := 0x5D

def dash : UInt8 := 0x2D

def bang : UInt8 := 0x21

def caret : UInt8 := 0x5E

/-! ## The source -/

/-- The byte that ends the range which begins at `i`. -/
def rangeEnd (pattern : Bytes) (i : Nat) : Option UInt8 :=
  if pattern[i + 1]? = some dash then pattern[i + 2]?.filter (· ≠ closeBracket) else none

/-- The loop of `try_char_class`. -/
def classLoop (pattern : Bytes) (ch : UInt8) (i : Nat) (found : Bool) : Nat × Bool :=
  if h : i < pattern.length then
    let lo := pattern[i]
    if lo = closeBracket then (i, found)
    else
      match rangeEnd pattern i with
      | some hi =>
        let (a, b) := if lo ≤ hi then (lo, hi) else (hi, lo)
        classLoop pattern ch (i + 3) (found || (decide (a ≤ ch) && decide (ch ≤ b)))
      | none => classLoop pattern ch (i + 1) (found || lo == ch)
  else (i, found)
termination_by pattern.length - i

/-- `try_char_class` from `class_start` on. -/
def tryItems (pattern : Bytes) (negate : Bool) (classStart : Nat) (ch : UInt8) : Option (Bool × Nat) :=
  let (i, found) := classLoop pattern ch classStart false
  if pattern.length ≤ i then none
  else if i = classStart then none
  else some (found ^^ negate, i + 1)

def tryCharClass (pattern : Bytes) (pi : Nat) (ch : UInt8) : Option (Bool × Nat) :=
  let i := pi + 1
  let negate : Bool := pattern[i]? = some bang ∨ pattern[i]? = some caret
  tryItems pattern negate (if negate then i + 1 else i) ch

/-- The variables of the loop of `match_pattern`. -/
structure Scan where
  ni : Nat := 0
  pi : Nat := 0
  starPi : Option Nat := none
  starNi : Nat := 0
deriving DecidableEq, Repr

namespace Scan

variable (pattern : Bytes) (ch : UInt8) (s : Scan)

/-- The turns that end with `continue`, at a byte of the name. -/
def advance : Option Scan :=
  match pattern[s.pi]? with
  | none => none
  | some pc =>
    if pc = star then some { s with starPi := some s.pi, starNi := s.ni, pi := s.pi + 1 }
    else if pc = question then some { s with pi := s.pi + 1, ni := s.ni + 1 }
    else if pc = openBracket then
      match tryCharClass pattern s.pi ch with
      | some (matched, nextPi) => if matched then some { s with pi := nextPi, ni := s.ni + 1 } else none
      | none => if ch = openBracket then some { s with pi := s.pi + 1, ni := s.ni + 1 } else none
    else if pc = ch then some { s with pi := s.pi + 1, ni := s.ni + 1 }
    else none

def backtrack : Option Scan :=
  match s.starPi with
  | some spi => some { s with pi := spi + 1, starNi := s.starNi + 1, ni := s.starNi + 1 }
  | none => none

def turn : Option Scan := (s.advance pattern ch).or s.backtrack

end Scan

/-- Past the stars. -/
def skipStars (pattern : Bytes) (pi : Nat) : Nat := pi + ((pattern.drop pi).takeWhile (· = star)).length

/-- The loop, for so many turns. -/
def matchLoop (name pattern : Bytes) : (turns : Nat) → Scan → Option Bool
  | 0, _ => none
  | turns + 1, s =>
    match name[s.ni]? with
    | some ch =>
      match s.turn pattern ch with
      | some s => matchLoop name pattern turns s
      | none => some false
    | none => some (skipStars pattern s.pi = pattern.length)

def matchPattern (turns : Nat) (name pattern : Bytes) : Option Bool := matchLoop name pattern turns {}

/-! ## What a pattern means -/

/-- A class in brackets. Each item is a range, in either order; a single byte is a range of its own. -/
structure CharClass where
  negated : Bool
  items : List (UInt8 × UInt8)

def InRange (ch : UInt8) (range : UInt8 × UInt8) : Prop :=
  range.1 ≤ ch ∧ ch ≤ range.2 ∨ range.2 ≤ ch ∧ ch ≤ range.1

instance (ch : UInt8) (range : UInt8 × UInt8) : Decidable (InRange ch range) :=
  inferInstanceAs (Decidable (range.1 ≤ ch ∧ ch ≤ range.2 ∨ range.2 ≤ ch ∧ ch ≤ range.1))

def CharClass.contains (cls : CharClass) (ch : UInt8) : Bool :=
  cls.negated ^^ decide (∃ range ∈ cls.items, InRange ch range)

/-- The items between the brackets, from the left. -/
def classItems : Bytes → List (UInt8 × UInt8)
  | lo :: second :: hi :: rest =>
    if second = dash then (lo, hi) :: classItems rest else (lo, lo) :: classItems (second :: hi :: rest)
  | lo :: rest => (lo, lo) :: classItems rest
  | [] => []

/-- The part of a class up to the closing bracket. -/
def inside (body : Bytes) : Bytes := body.takeWhile (· ≠ closeBracket)

/-- The class whose items begin here, and what is after it. A class that has no end, or nothing in it, is none. -/
def readClass (negated : Bool) (body : Bytes) : Option (CharClass × Bytes) :=
  match body.dropWhile (· ≠ closeBracket) with
  | [] => none
  | _ :: after => if inside body = [] then none else some (⟨negated, classItems (inside body)⟩, after)

/-- The sign of a negated class. -/
def isSigned (rest : Bytes) : Bool := rest.head? = some bang ∨ rest.head? = some caret

/-- The class after an opening bracket. -/
def splitClass (rest : Bytes) : Option (CharClass × Bytes) :=
  if isSigned rest then readClass true rest.tail else readClass false rest

theorem length_of_readClass {negated : Bool} {body after : Bytes} {cls : CharClass}
    (h : readClass negated body = some (cls, after)) : after.length < body.length := by
  unfold readClass at h
  split at h
  · cases h
  · next bracket after' hdrop =>
    split at h
    · cases h
    · cases h
      have hle := (List.dropWhile_suffix (l := body) fun c => decide (c ≠ closeBracket)).length_le
      rw [hdrop, List.length_cons] at hle
      exact hle

theorem length_of_splitClass {rest after : Bytes} {cls : CharClass} (h : splitClass rest = some (cls, after)) :
    after.length < rest.length := by
  unfold splitClass at h
  split at h
  · have hlt := length_of_readClass h
    rw [List.length_tail] at hlt
    omega
  · exact length_of_readClass h

/-- The tokens of a pattern. -/
def tokens (pattern : Bytes) : List (Token UInt8) :=
  match pattern with
  | [] => []
  | c :: rest =>
    if c = star then .any :: tokens rest
    else if c = question then .one (fun _ => true) :: tokens rest
    else if c = openBracket then
      match h : splitClass rest with
      | some (cls, after) =>
        have := length_of_splitClass h
        .one cls.contains :: tokens after
      | none => .one (· == openBracket) :: tokens rest
    else .one (c == ·) :: tokens rest
termination_by pattern.length

section

variable {rest after : Bytes} {cls : CharClass}

theorem tokens_nil : tokens [] = [] := by rw [tokens]

theorem tokens_star : tokens (star :: rest) = .any :: tokens rest := by
  rw [tokens, if_pos rfl]

theorem tokens_question : tokens (question :: rest) = .one (fun _ => true) :: tokens rest := by
  rw [tokens, if_neg (by decide), if_pos rfl]

theorem tokens_class (h : splitClass rest = some (cls, after)) :
    tokens (openBracket :: rest) = .one cls.contains :: tokens after := by
  rw [tokens, if_neg (by decide), if_neg (by decide), if_pos rfl]
  split
  · next hclass =>
    rw [h] at hclass
    cases hclass
    rfl
  · next hclass =>
    rw [h] at hclass
    cases hclass

theorem tokens_bracket (h : splitClass rest = none) :
    tokens (openBracket :: rest) = .one (· == openBracket) :: tokens rest := by
  rw [tokens, if_neg (by decide), if_neg (by decide), if_pos rfl]
  split
  · next hclass =>
    rw [h] at hclass
    cases hclass
  · rfl

theorem tokens_literal {c : UInt8} (hstar : c ≠ star) (hquestion : c ≠ question) (hbracket : c ≠ openBracket) :
    tokens (c :: rest) = .one (c == ·) :: tokens rest := by
  rw [tokens, if_neg hstar, if_neg hquestion, if_neg hbracket]

end

/-! ## Classes -/

section

variable {pattern rest : Bytes} {ch : UInt8} {i : Nat}

theorem getElem?_of_drop {c : UInt8} (h : pattern.drop i = c :: rest) : pattern[i]? = some c := by
  rw [← List.head?_drop, h]
  rfl

theorem drop_of_drop {c : UInt8} (h : pattern.drop i = c :: rest) : pattern.drop (i + 1) = rest := by
  rw [← List.tail_drop, h]
  rfl

theorem inside_cons {c : UInt8} (h : c ≠ closeBracket) : inside (c :: rest) = c :: inside rest :=
  List.takeWhile_cons_of_pos (by simpa using h)

theorem inside_closeBracket : inside (closeBracket :: rest) = [] := List.takeWhile_cons_of_neg (by simp)

theorem classItems_range (lo hi : UInt8) (after : Bytes) :
    classItems (lo :: dash :: hi :: after) = (lo, hi) :: classItems after := by rw [classItems, if_pos rfl]

theorem classItems_single (lo : UInt8) {after : Bytes} (h : ∀ hi after', after ≠ dash :: hi :: after') :
    classItems (lo :: after) = (lo, lo) :: classItems after := by
  rcases after with _ | ⟨second, _ | ⟨hi, after⟩⟩
  · rfl
  · rfl
  · have hsecond : second ≠ dash := by
      rintro rfl
      exact h hi after rfl
    rw [classItems, if_neg hsecond]

theorem rangeEnd_cases (h : pattern.drop (i + 1) = rest) :
    (∃ hi after, rangeEnd pattern i = some hi ∧ inside rest = dash :: hi :: inside after ∧ rest = dash :: hi :: after) ∨
      rangeEnd pattern i = none ∧ ∀ hi after, inside rest ≠ dash :: hi :: after := by
  have hfirst : pattern[i + 1]? = rest[0]? := by rw [← h, List.getElem?_drop]
  have hsecond : pattern[i + 2]? = rest[1]? := by rw [← h, List.getElem?_drop]
  rw [rangeEnd, hfirst, hsecond]
  rcases rest with _ | ⟨a, rest⟩
  · exact .inr ⟨rfl, fun hi after h => by cases h⟩
  by_cases ha : a = dash
  · subst ha
    have hdash : inside (dash :: rest) = dash :: inside rest := inside_cons (by decide)
    rw [hdash, if_pos (by rfl)]
    rcases rest with _ | ⟨hi, after⟩
    · exact .inr ⟨rfl, fun hi after h => by cases h⟩
    · by_cases hhi : hi = closeBracket
      · subst hhi
        rw [inside_closeBracket]
        exact .inr ⟨by simp, fun hi after h => by cases h⟩
      · rw [inside_cons hhi]
        exact .inl ⟨hi, after, by simp [hhi], rfl, rfl⟩
  · refine .inr ⟨if_neg (by simpa using ha), fun hi after h => ?_⟩
    by_cases hbracket : a = closeBracket
    · rw [hbracket, inside_closeBracket] at h
      cases h
    · rw [inside_cons hbracket] at h
      exact ha (List.cons.inj h).1

theorem classLoop_nil {found : Bool} (h : pattern.drop i = []) : classLoop pattern ch i found = (i, found) := by
  rw [classLoop, dif_neg (by simpa using h)]

theorem lt_of_drop {c : UInt8} (h : pattern.drop i = c :: rest) : i < pattern.length := by
  have hlength := congrArg List.length h
  rw [List.length_drop, List.length_cons] at hlength
  omega

theorem getElem_of_drop {c : UInt8} (h : pattern.drop i = c :: rest) (hlt : i < pattern.length) : pattern[i] = c :=
  Option.some_inj.mp ((List.getElem?_eq_getElem hlt).symm.trans (getElem?_of_drop h))

theorem inRange_iff {lo hi : UInt8} : InRange ch (lo, hi) ↔
    (if lo ≤ hi then (lo, hi) else (hi, lo)).1 ≤ ch ∧ ch ≤ (if lo ≤ hi then (lo, hi) else (hi, lo)).2 := by
  unfold InRange
  split <;> simp only [UInt8.le_iff_toNat_le] at * <;> omega

theorem inRange_self {lo : UInt8} : InRange ch (lo, lo) ↔ lo = ch := by
  rw [← UInt8.toNat_inj]
  unfold InRange
  simp only [UInt8.le_iff_toNat_le]
  omega

theorem classLoop_closed {found : Bool} (h : pattern.drop i = closeBracket :: rest) :
    classLoop pattern ch i found = (i, found) := by
  rw [classLoop, dif_pos (lt_of_drop h)]
  simp only [getElem_of_drop h, ↓reduceIte]

theorem classLoop_range {lo hi : UInt8} {found : Bool} (h : pattern.drop i = lo :: rest) (hlo : lo ≠ closeBracket)
    (hend : rangeEnd pattern i = some hi) :
    classLoop pattern ch i found = classLoop pattern ch (i + 3) (found || decide (InRange ch (lo, hi))) := by
  rw [classLoop, dif_pos (lt_of_drop h)]
  simp only [getElem_of_drop h, hlo, ↓reduceIte, hend, inRange_iff, Bool.decide_and]

theorem classLoop_single {lo : UInt8} {found : Bool} (h : pattern.drop i = lo :: rest) (hlo : lo ≠ closeBracket)
    (hend : rangeEnd pattern i = none) :
    classLoop pattern ch i found = classLoop pattern ch (i + 1) (found || lo == ch) := by
  rw [classLoop, dif_pos (lt_of_drop h)]
  simp only [getElem_of_drop h, hlo, ↓reduceIte, hend]

theorem classLoop_eq (pattern : Bytes) (ch : UInt8) (i : Nat) (found : Bool) :
    classLoop pattern ch i found =
      (i + (inside (pattern.drop i)).length,
        found || decide (∃ range ∈ classItems (inside (pattern.drop i)), InRange ch range)) := by
  induction hleft : pattern.length - i using Nat.strong_induction_on generalizing i found with
  | _ left ih =>
    rcases hdrop : pattern.drop i with _ | ⟨lo, rest⟩
    · rw [classLoop_nil hdrop]
      simp [inside, classItems]
    · have hlt := lt_of_drop hdrop
      by_cases hlo : lo = closeBracket
      · subst hlo
        rw [classLoop_closed hdrop, inside_closeBracket]
        simp [classItems]
      · rw [inside_cons hlo]
        rcases rangeEnd_cases (drop_of_drop hdrop) with ⟨hi, after, hend, hinside, rfl⟩ | ⟨hend, hinside⟩
        · have hafter : pattern.drop (i + 3) = after := by
            rw [← List.drop_drop (i := 2), drop_of_drop hdrop]
            rfl
          rw [classLoop_range hdrop hlo hend, ih _ (by omega) _ _ rfl, hafter, hinside, classItems_range]
          simp only [List.exists_mem_cons_iff, Bool.decide_or, Bool.or_assoc, List.length_cons, Prod.mk.injEq, and_true]
          omega
        · rw [classLoop_single hdrop hlo hend, ih _ (by omega) _ _ rfl, drop_of_drop hdrop, classItems_single _ hinside]
          simp only [List.exists_mem_cons_iff, inRange_self, Bool.decide_or, Bool.or_assoc, List.length_cons,
            Prod.mk.injEq, beq_eq_decide, and_true]
          omega

theorem tryItems_cases {body : Bytes} (negate : Bool) (h : pattern.drop i = body) (hi : i ≤ pattern.length) :
    readClass negate body = none ∧ tryItems pattern negate i ch = none ∨
      ∃ cls after next, readClass negate body = some (cls, after) ∧
        tryItems pattern negate i ch = some (cls.contains ch, next) ∧ next ≤ pattern.length ∧
        pattern.drop next = after := by
  have hsplit : inside body ++ body.dropWhile (· ≠ closeBracket) = body := List.takeWhile_append_dropWhile
  have hlength := congrArg List.length hsplit
  rw [← h, List.length_drop, List.length_append] at hlength
  simp only [tryItems, classLoop_eq, h, Bool.false_or]
  rcases hdrop : body.dropWhile (· ≠ closeBracket) with _ | ⟨bracket, after⟩
  · rw [h, hdrop, List.length_nil] at hlength
    exact .inl ⟨by rw [readClass, hdrop], if_pos (by omega)⟩
  · rw [h, hdrop, List.length_cons] at hlength
    rw [if_neg (by omega)]
    by_cases hinside : inside body = []
    · refine .inl ⟨?_, if_pos (by rw [hinside]; rfl)⟩
      rw [readClass, hdrop]
      exact if_pos hinside
    · have hne : (inside body).length ≠ 0 := by simpa using hinside
      refine .inr ⟨⟨negate, classItems (inside body)⟩, after, i + (inside body).length + 1, ?_, ?_, by omega, ?_⟩
      · rw [readClass, hdrop]
        exact if_neg hinside
      · rw [if_neg (by omega), CharClass.contains, Bool.xor_comm]
      · rw [Nat.add_assoc, ← List.drop_drop, h]
        nth_rewrite 2 [← hsplit]
        rw [hdrop, ← List.drop_drop, List.drop_left]
        rfl

theorem tryCharClass_cases (h : pattern.drop i = openBracket :: rest) :
    splitClass rest = none ∧ tryCharClass pattern i ch = none ∨
      ∃ cls after next, splitClass rest = some (cls, after) ∧ tryCharClass pattern i ch = some (cls.contains ch, next) ∧
        next ≤ pattern.length ∧ pattern.drop next = after := by
  have hlt := lt_of_drop h
  have hrest := drop_of_drop h
  have hhead : pattern[i + 1]? = rest.head? := by rw [← hrest, List.head?_drop]
  have hsigned : decide (pattern[i + 1]? = some bang ∨ pattern[i + 1]? = some caret) = isSigned rest := by
    rw [hhead, isSigned]
  simp only [tryCharClass, splitClass, hsigned]
  rcases hsign : isSigned rest with _ | _
  · exact tryItems_cases false hrest hlt
  · have hnext : i + 1 < pattern.length := by
      rcases rest with _ | ⟨sign, rest⟩
      · cases hsign
      · exact lt_of_drop hrest
    have htail : pattern.drop (i + 1 + 1) = rest.tail := by rw [← List.tail_drop, hrest]
    exact tryItems_cases true htail hnext

end

/-! ## The loop -/

/-- What a scan has still to do. -/
def Scan.toSearch (name pattern : Bytes) (s : Scan) : Search UInt8 where
  tokens := tokens (pattern.drop s.pi)
  word := name.drop s.ni
  star := s.starPi.map fun spi => (tokens (pattern.drop (spi + 1)), name.drop s.starNi)

section

variable {name pattern : Bytes} {ch : UInt8} {s : Scan}

theorem advance_one {word : Bytes} {p : UInt8 → Bool} {next : Nat} (hword : name.drop s.ni = ch :: word)
    (htokens : tokens (pattern.drop s.pi) = .one p :: tokens (pattern.drop next)) :
    (s.toSearch name pattern).advance =
      (if p ch then some { s with pi := next, ni := s.ni + 1 } else none).map (Scan.toSearch name pattern) := by
  rw [Scan.toSearch, htokens, hword, Search.advance, ← drop_of_drop hword]
  split
  · rfl
  · rfl

theorem toSearch_advance {word : Bytes} (hword : name.drop s.ni = ch :: word) :
    (s.toSearch name pattern).advance = (s.advance pattern ch).map (Scan.toSearch name pattern) := by
  rcases hpattern : pattern.drop s.pi with _ | ⟨pc, rest⟩
  · have hend : pattern[s.pi]? = none := by rw [← List.head?_drop, hpattern, List.head?_nil]
    rw [Scan.toSearch, hpattern, tokens_nil, Scan.advance, hend]
    rfl
  have hrest := drop_of_drop hpattern
  rw [Scan.advance, getElem?_of_drop hpattern]
  dsimp only
  by_cases hstar : pc = star
  · rw [if_pos hstar, Scan.toSearch, hpattern, hstar, tokens_star, ← hrest]
    rfl
  rw [if_neg hstar]
  by_cases hquestion : pc = question
  · have htokens : tokens (pattern.drop s.pi) = .one (fun _ => true) :: tokens (pattern.drop (s.pi + 1)) := by
      rw [hpattern, hquestion, tokens_question, hrest]
    rw [if_pos hquestion, advance_one hword htokens]
    rfl
  rw [if_neg hquestion]
  by_cases hbracket : pc = openBracket
  · rw [if_pos hbracket]
    subst hbracket
    rcases @tryCharClass_cases _ _ ch _ hpattern with ⟨hnone, htry⟩ | ⟨cls, after, next, hclass, htry, -, hafter⟩
    · have htokens : tokens (pattern.drop s.pi) = .one (· == openBracket) :: tokens (pattern.drop (s.pi + 1)) := by
        rw [hpattern, tokens_bracket hnone, hrest]
      rw [htry, advance_one hword htokens]
      simp only [beq_iff_eq]
    · have htokens : tokens (pattern.drop s.pi) = .one cls.contains :: tokens (pattern.drop next) := by
        rw [hpattern, tokens_class hclass, hafter]
      rw [htry, advance_one hword htokens]
  · have htokens : tokens (pattern.drop s.pi) = .one (pc == ·) :: tokens (pattern.drop (s.pi + 1)) := by
      rw [hpattern, tokens_literal hstar hquestion hbracket, hrest]
    rw [if_neg hbracket, advance_one hword htokens]
    simp only [beq_iff_eq]

theorem toSearch_backtrack (hgood : (s.toSearch name pattern).Good) (hword : name.drop s.ni ≠ []) :
    (s.toSearch name pattern).backtrack = s.backtrack.map (Scan.toSearch name pattern) := by
  rcases hstar : s.starPi with _ | spi
  · rw [Scan.backtrack, hstar, Search.backtrack, Scan.toSearch, hstar]
    rfl
  · -- The last star is met at a byte of the name.
    have hlast : (s.toSearch name pattern).star = some (tokens (pattern.drop (spi + 1)), name.drop s.starNi) := by
      rw [Scan.toSearch, hstar]
      rfl
    have hle := hgood.length_le hlast
    rcases hlater : name.drop s.starNi with _ | ⟨later, word⟩
    · rw [hlater, List.length_nil, Nat.le_zero, List.length_eq_zero_iff] at hle
      exact absurd hle hword
    · rw [Scan.backtrack, hstar, Search.backtrack, Scan.toSearch, hstar, Option.map_some, hlater, Option.map_some,
        Scan.toSearch, Option.map_some, drop_of_drop hlater]

theorem toSearch_turn (hgood : (s.toSearch name pattern).Good) {word : Bytes} (hword : name.drop s.ni = ch :: word) :
    (s.toSearch name pattern).next = (s.turn pattern ch).map (Scan.toSearch name pattern) := by
  rw [Search.next, toSearch_advance hword, toSearch_backtrack hgood (by rw [hword]; exact List.cons_ne_nil _ _),
    Scan.turn]
  rcases s.advance pattern ch with _ | s'
  · rfl
  · rfl

/-- The indices do not leave the pattern. -/
structure Scan.Within (pattern : Bytes) (s : Scan) : Prop where
  pi : s.pi ≤ pattern.length
  starPi : ∀ spi, s.starPi = some spi → spi < pattern.length

theorem within_advance {s' : Scan} (hwithin : s.Within pattern) (h : s.advance pattern ch = some s') :
    s'.Within pattern := by
  rcases hpattern : pattern.drop s.pi with _ | ⟨pc, rest⟩
  · have hend : pattern[s.pi]? = none := by rw [← List.head?_drop, hpattern, List.head?_nil]
    rw [Scan.advance, hend] at h
    cases h
  have hlt := lt_of_drop hpattern
  rw [Scan.advance, getElem?_of_drop hpattern] at h
  dsimp only at h
  split at h
  · cases h
    refine ⟨hlt, ?_⟩
    rintro _ ⟨⟩
    exact hlt
  · split at h
    · cases h
      exact ⟨hlt, hwithin.starPi⟩
    · split at h
      · next hbracket =>
        subst hbracket
        rcases @tryCharClass_cases _ _ ch _ hpattern with ⟨-, htry⟩ | ⟨cls, after, next, -, htry, hnext, -⟩
        · rw [htry] at h
          obtain ⟨-, rfl⟩ := Option.ite_some_none_eq_some.mp h
          exact ⟨hlt, hwithin.starPi⟩
        · rw [htry] at h
          obtain ⟨-, rfl⟩ := Option.ite_some_none_eq_some.mp h
          exact ⟨hnext, hwithin.starPi⟩
      · obtain ⟨-, rfl⟩ := Option.ite_some_none_eq_some.mp h
        exact ⟨hlt, hwithin.starPi⟩

theorem within_turn {s' : Scan} (hwithin : s.Within pattern) (h : s.turn pattern ch = some s') :
    s'.Within pattern := by
  rcases Option.or_eq_some_iff.mp h with hadvance | ⟨-, hbacktrack⟩
  · exact within_advance hwithin hadvance
  · rcases hstar : s.starPi with _ | spi
    · rw [Scan.backtrack, hstar] at hbacktrack
      cases hbacktrack
    · rw [Scan.backtrack, hstar] at hbacktrack
      cases hbacktrack
      exact ⟨hwithin.starPi spi hstar, fun _ h => hwithin.starPi _ (hstar.trans h)⟩

theorem tokens_of_ne_star {c : UInt8} (hstar : c ≠ star) (rest : Bytes) :
    ∃ p later, tokens (c :: rest) = .one p :: later := by
  by_cases hquestion : c = question
  · rw [hquestion, tokens_question]
    exact ⟨_, _, rfl⟩
  by_cases hbracket : c = openBracket
  · subst hbracket
    rcases hclass : splitClass rest with _ | ⟨cls, after⟩
    · rw [tokens_bracket hclass]
      exact ⟨_, _, rfl⟩
    · rw [tokens_class hclass]
      exact ⟨_, _, rfl⟩
  · rw [tokens_literal hstar hquestion hbracket]
    exact ⟨_, _, rfl⟩

theorem isAny_tokens_iff (pattern : Bytes) :
    (∀ token ∈ tokens pattern, token.isAny = true) ↔ ∀ c ∈ pattern, c = star := by
  induction pattern with
  | nil => simp [tokens_nil]
  | cons c rest ih =>
    by_cases hstar : c = star
    · simp [hstar, tokens_star, ih]
    · obtain ⟨p, later, htokens⟩ := tokens_of_ne_star hstar rest
      simp [htokens, hstar]

theorem skipStars_iff (hwithin : s.Within pattern) :
    skipStars pattern s.pi = pattern.length ↔ ∀ token ∈ tokens (pattern.drop s.pi), token.isAny = true := by
  have hle := hwithin.pi
  rw [isAny_tokens_iff, skipStars]
  have hlength : s.pi + ((pattern.drop s.pi).takeWhile (· = star)).length = pattern.length ↔
      ((pattern.drop s.pi).takeWhile (· = star)).length = (pattern.drop s.pi).length := by
    rw [List.length_drop]
    omega
  rw [hlength]
  constructor
  · intro h
    have hself := (List.takeWhile_prefix _).eq_of_length h
    simpa using List.takeWhile_eq_self_iff.mp hself
  · intro h
    rw [List.takeWhile_eq_self_iff.mpr (by simpa using h)]

theorem matchLoop_eq (hgood : (s.toSearch name pattern).Good) (hwithin : s.Within pattern) :
    ∃ turns result, (result = true ↔ (s.toSearch name pattern).Accepts) ∧
      ∀ more, turns ≤ more → matchLoop name pattern more s = some result := by
  refine Search.induction (motive := fun search => ∀ s : Scan, s.toSearch name pattern = search → s.Within pattern →
    ∃ turns result, (result = true ↔ search.Accepts) ∧
      ∀ more, turns ≤ more → matchLoop name pattern more s = some result) ?_ hgood s rfl hwithin
  rintro _ hgood ih s rfl hwithin
  rcases hword : name.drop s.ni with _ | ⟨ch, word⟩
  · have hend : name[s.ni]? = none := by rw [← List.head?_drop, hword, List.head?_nil]
    refine ⟨1, decide (skipStars pattern s.pi = pattern.length), ?_, ?_⟩
    · rw [decide_eq_true_iff, Search.accepts_end hgood hword]
      exact skipStars_iff hwithin
    · rintro (_ | more) hmore
      · cases hmore
      · rw [matchLoop, hend]
  · have hne : (s.toSearch name pattern).word ≠ [] := by
      show name.drop s.ni ≠ []
      rw [hword]
      exact List.cons_ne_nil _ _
    have hturn := toSearch_turn hgood hword
    rcases hscan : s.turn pattern ch with _ | s'
    · rw [hscan] at hturn
      refine ⟨1, false, ?_, ?_⟩
      · exact iff_of_false (by decide) (Search.not_accepts_of_next_none hne hturn)
      · rintro (_ | more) hmore
        · cases hmore
        · simp only [matchLoop, getElem?_of_drop hword, hscan]
    · rw [hscan] at hturn
      obtain ⟨-, haccepts⟩ := Search.next_keeps hgood hne hturn
      obtain ⟨turns, result, hresult, hloop⟩ := ih _ hne hturn s' rfl (within_turn hwithin hscan)
      refine ⟨turns + 1, result, hresult.trans haccepts, ?_⟩
      rintro (_ | more) hmore
      · cases hmore
      · simp only [matchLoop, getElem?_of_drop hword, hscan]
        exact hloop more (Nat.le_of_succ_le_succ hmore)

/-- A match ends, and says whether the name is in the language of the pattern. -/
theorem matchPattern_iff (name pattern : Bytes) :
    ∃ turns result, (result = true ↔ name ∈ language (tokens pattern)) ∧
      ∀ more, turns ≤ more → matchPattern more name pattern = some result := by
  have hgood : (Scan.toSearch name pattern {}).Good := Search.good_start _ _
  obtain ⟨turns, result, hresult, hloop⟩ := matchLoop_eq hgood ⟨Nat.zero_le _, fun _ h => by cases h⟩
  exact ⟨turns, result, hresult.trans Search.accepts_start, hloop⟩

end

end Pcloud.IgnorePatterns
