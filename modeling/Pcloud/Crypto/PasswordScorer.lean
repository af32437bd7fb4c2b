import Mathlib.Data.List.TakeWhile
import Pcloud.Lib.Checked
import Pcloud.Model.Bytes

/-!
# The password score (`pcloud-crypto/src/password_scorer.rs`)

Loops that scan a password from either end, each sum, product, index and slice as the machine does it. The dictionary
is generated by the build.
-/

namespace Pcloud.PasswordScorer

open Checked

/-! ## Bytes -/

/-- `PASSWORD_DICT`, an array of `[u8; 8]`. The one that is shipped is not quite sorted, and nothing needs it to be. -/
structure PasswordDict where
  entries : List Bytes
  width : ∀ entry ∈ entries, entry.length = 8
  large : 32 ≤ entries.length
  fits : entries.length * 8 ≤ isizeMax

def mulSat (score num : Nat) : Nat := min (score * num) u64Max

def ascii (text : String) : Bytes := text.toList.map fun c => UInt8.ofNat c.toNat

def isPunct (c : UInt8) : Bool := (ascii "!@#$%^&*()_+[]\x7b\x7d,.<>:;'\"\x60\\/~|").contains c

def isSpace (c : UInt8) : Bool := (ascii " \t\n\r\x0b\x0c").contains c

def isLower (c : UInt8) : Bool := 97 ≤ c && c ≤ 122

def isUpper (c : UInt8) : Bool := 65 ≤ c && c ≤ 90

def isDigit (c : UInt8) : Bool := 48 ≤ c && c ≤ 57

def keyboard : Bytes :=
  ascii "qwertyuiop[]asdfghjkl;'\\zxcvbnm,./QWERTYUIOP\x7b\x7dASDFGHJKL:\"|ZXCVBNM<>?~!@#$%^&*()_+"

def keyboardBuddies (ch1 ch2 : UInt8) : Except Stop Bool :=
  match keyboard.idxOf? ch1 with
  | some idx => do
    let next := keyboard[← add 64 idx 1]?
    let prev ← if idx > 0 then do
        let before ← sub idx 1
        some <$> get keyboard before
      else .ok none
    .ok (next = some ch2 || prev = some ch2)
  | none => .ok false

/-! ## The dictionary -/

/-- The first `len` bytes of an entry without the zeros at their end. -/
def effectiveLen (entry : Bytes) : (len : Nat) → Except Stop Nat
  | 0 => .ok 0
  | len + 1 => do
    if (← get entry len) = 0 then effectiveLen entry len else .ok (len + 1)

/-- `slice::get(..n)`. -/
def getTo (pwd : Bytes) (n : Nat) : Option Bytes := if n ≤ pwd.length then some (pwd.take n) else none

/-- A round of the loop over the longer entries with the same beginning: the length that matched, and where. -/
def extendRound (dict : PasswordDict) (pwd : Bytes) : Nat × Nat → Except Stop (Round (Nat × Nat) Nat)
  | (l, med) => do
    if ¬ (l < 8 ∧ l ≤ pwd.length) then .ok (.done l)
    else do
      let next ← add 64 med 1
      if ¬ next < dict.entries.length then .ok (.done l)
      else do
        let entry ← get dict.entries next
        let stop ← add 64 l 1
        let longer ← slice entry 0 stop
        if getTo pwd stop ≠ some longer then .ok (.done l)
        else do
          let hi2 ← effectiveLen entry (min pwd.length 8)
          let word ← slice entry 0 hi2
          if getTo pwd hi2 ≠ some word then .ok (.done l) else .ok (.cont (hi2, next))

def searchRound (dict : PasswordDict) (pwd : Bytes) (len : Nat) : Nat × Nat → Except Stop (Round (Nat × Nat) Nat)
  | (lo, hi) => do
    if ¬ lo < hi then .ok (.done 0)
    else do
      let med := (← add 64 lo hi) / 2
      let entry ← get dict.entries med
      let l ← effectiveLen entry len
      let head ← slice pwd 0 l
      let word ← slice entry 0 l
      if head < word then .ok (.cont (lo, med))
      else if head = word then do
        let found ← loop (extendRound dict pwd) (dict.entries.length + 1) (l, med)
        .ok (.done found)
      else do
        let lo ← add 64 med 1
        .ok (.cont (lo, hi))

def findInDict (dict : PasswordDict) (pwd : Bytes) : Except Stop Nat :=
  if pwd.length ≤ 3 then .ok 0
  else loop (searchRound dict pwd (min pwd.length 8)) (dict.entries.length + 1) (0, dict.entries.length)

/-! ## The number at the end -/

/-- The longest repetition of what stands before `i`, among those of at most the given length. -/
def repeated (numlen : Nat) (nstr : Bytes) (i : Nat) : (longest : Nat) → Except Stop (Option Nat)
  | 0 => .ok none
  | j + 1 => do
    let stop ← add 64 i (j + 1)
    if stop ≤ numlen then do
      let after ← slice nstr i stop
      let before ← slice nstr (← sub i (j + 1)) i
      if after = before then .ok (some (j + 1)) else repeated numlen nstr i j
    else repeated numlen nstr i j

def trailingRound (numlen : Nat) (nstr : Bytes) : Nat × Nat → Except Stop (Round (Nat × Nat) Nat)
  | (i, score) => do
    if ¬ i < numlen then .ok (.done score)
    else do
      match ← repeated numlen nstr i i with
      | some j => do
        let score := mulSat score 2
        if score = u64Max then .ok (.done score)
        else do
          let i ← add 64 i j
          .ok (.cont (i, score))
      | none => do
        let prev ← get nstr (← sub i 1)
        let cur ← get nstr i
        let score := mulSat score (if cur = prev ∨ cur = prev + 1 ∨ cur = prev - 1 then 2 else 10)
        if score = u64Max then .ok (.done score)
        else do
          let i ← add 64 i 1
          .ok (.cont (i, score))

def trailingNumScore (num numlen : Nat) (nstr : Bytes) : Except Stop Nat := do
  if numlen = 1 then .ok (if num ≤ 1 then 2 else 5)
  else if numlen = 2 then
    if num = 11 then .ok 2
    else if num = 69 ∨ num % 10 = num / 10 ∨ num % 10 + 1 = num / 10 then .ok 4
    else .ok 8
  else if numlen = 4 ∧ 1900 ≤ num ∧ num ≤ 2030 then .ok 10
  else do
    let first ← get nstr 0
    let score := if first = 49 then 1 else if first = 48 then 2 else 8
    loop (trailingRound numlen nstr) (numlen + 1) (1, score)

/-! ## The rest of the password -/

/-- The kinds of characters that were seen. -/
structure Kinds where
  low : Bool := false
  up : Bool := false
  num : Bool := false
  punct : Bool := false
  space : Bool := false
  other : Bool := false

namespace Kinds

def see (kinds : Kinds) (c : UInt8) : Kinds :=
  if isLower c then { kinds with low := true }
  else if isUpper c then { kinds with up := true }
  else if isDigit c then { kinds with num := true }
  else if isPunct c then { kinds with punct := true }
  else if isSpace c then { kinds with space := true }
  else { kinds with other := true }

def alphabet (kinds : Kinds) : Nat :=
  (if kinds.low then 26 else 0) + (if kinds.up then 26 else 0) + (if kinds.num then 10 else 0) +
    (if kinds.punct then 20 else 0) + (if kinds.space then 2 else 0) + (if kinds.other then 10 else 0)

end Kinds

/-- The variables of `score_variants`. -/
structure Variants where
  off : Nat := 0
  score : Nat := 1
  kinds : Kinds := {}
  numchars : Nat := 0

/-- The longest repetition of what stands before `off`, in the password or without regard to case, and its factor. -/
def repeatedVariant (password lpassword : Bytes) (off r : Nat) : (longest : Nat) → Except Stop (Option (Nat × Nat))
  | 0 => .ok none
  | j + 1 => do
    if j + 1 ≤ r then do
      let stop ← add 64 off (j + 1)
      let start ← sub off (j + 1)
      if (← slice password off stop) = (← slice password start off) then do
        let factor ← add 64 1 (j + 1)
        .ok (some (j + 1, factor))
      else if (← slice lpassword off stop) = (← slice lpassword start off) then do
        let factor ← add 64 2 (j + 1)
        .ok (some (j + 1, factor))
      else repeatedVariant password lpassword off r j
    else repeatedVariant password lpassword off r j

/-- The probe of one form of the password: a word of the dictionary is skipped. -/
def probe (dict : PasswordDict) (divisor : Nat) (text : Bytes) (v : Variants) (stop : Nat) :
    Except Stop (Option Variants) := do
  let d ← findInDict dict (← slice text v.off stop)
  if d > 0 then do
    let factor ← mul 64 (dict.entries.length / divisor) d
    let off ← add 64 v.off d
    .ok (some { v with score := mulSat v.score factor, off })
  else .ok none

/-- A character by itself: a factor of its own, or one more character of the alphabet. -/
def scoreChar (password lpassword : Bytes) (v : Variants) (cur : UInt8) : Except Stop Variants := do
  if v.off = 0 then
    if cur = 97 ∨ cur = 113 ∨ cur = 49 then .ok { v with score := mulSat v.score 2 }
    else if cur = 122 then .ok { v with score := mulSat v.score 4 }
    else do
      let numchars ← add 64 v.numchars 1
      .ok { v with numchars }
  else do
    let before ← sub v.off 1
    let pch ← get password before
    if pch + 1 = cur ∨ pch - 1 = cur then .ok { v with score := mulSat v.score 2 }
    else if ← keyboardBuddies pch cur then .ok { v with score := mulSat v.score 2 }
    else if ← keyboardBuddies (← get lpassword before) (← get lpassword v.off) then
      .ok { v with score := mulSat v.score 4 }
    else do
      let numchars ← add 64 v.numchars 1
      .ok { v with numchars }

def variantsRound (dict : PasswordDict) (password lpassword npassword : Bytes) (v : Variants) :
    Except Stop (Round Variants Variants) := do
  if ¬ v.off < password.length then .ok (.done v)
  else do
    let r ← sub password.length v.off
    let stop ← add 64 v.off r
    match ← probe dict 32 password v stop with
    | some v => .ok (.cont v)
    | none => do
      match ← probe dict 16 lpassword v stop with
      | some v => .ok (.cont v)
      | none => do
        match ← probe dict 8 npassword v stop with
        | some v => .ok (.cont v)
        | none => do
          let cur ← get password v.off
          let v := { v with kinds := v.kinds.see cur }
          -- At the first character there is nothing to repeat.
          match ← repeatedVariant password lpassword v.off r v.off with
          | some (j, factor) => do
            let off ← add 64 v.off j
            .ok (.cont { v with score := mulSat v.score factor, off })
          | none => do
            let v ← scoreChar password lpassword v cur
            let off ← add 64 v.off 1
            .ok (.cont { v with off })

/-- The factor of the characters that are left. -/
def scoreAlphabet (n : Nat) : (numchars score : Nat) → Nat
  | 0, score => score
  | numchars + 1, score => if mulSat score n = u64Max then u64Max else scoreAlphabet n numchars (mulSat score n)

def scoreVariants (dict : PasswordDict) (password lpassword npassword : Bytes) : Except Stop Nat := do
  let v ← loop (variantsRound dict password lpassword npassword) (password.length + 1) {}
  .ok (scoreAlphabet v.kinds.alphabet v.numchars v.score)

def sqrtRound (n : Nat) : Nat × Nat × Nat → Except Stop (Round (Nat × Nat × Nat) Nat)
  | (h, l, m) => do
    if ¬ h > (← add 64 l 1) then .ok (.done m)
    else do
      let m := (← add 64 h l) / 2
      let m2 := mulSat m m
      if m2 > n then .ok (.cont (m, l, m))
      else if m2 < n then .ok (.cont (h, m, m))
      else .ok (.done m)

def uintSqrt (n : Nat) : Except Stop Nat :=
  if n = 1 then .ok 1 else loop (sqrtRound n) (n + 1) (n / 2, 1, 1)

def toLower (c : UInt8) : UInt8 := if isUpper c then c + 32 else c

def foldLeet (lc : UInt8) : UInt8 :=
  if lc = 48 then 111
  else if lc = 49 then 105
  else if lc = 51 then 101
  else if lc = 52 then 97
  else if lc = 53 then 115
  else if lc = 55 then 116
  else if lc = 36 then 115
  else if lc = 64 then 97
  else if lc = 33 then 108
  else lc

def buildVariants (password : Bytes) : Bytes × Bytes :=
  let lpwd := password.map toLower
  (lpwd, lpwd.map foldLeet)

/-! ## The whole password -/

/-- A loop from the end of the password: what is left of it, and what the characters `p` made of the rest. -/
def scanBack {σ : Type} (password : Bytes) (p : UInt8 → Bool) (accept : σ → UInt8 → Except Stop σ) :
    (plen : Nat) → σ → Except Stop (Nat × σ)
  | 0, s => .ok (0, s)
  | plen + 1, s => do
    let c ← get password plen
    if p c then scanBack password p accept plen (← accept s c) else .ok (plen + 1, s)

def scoreBang (score : Nat) (_ : UInt8) : Except Stop Nat := .ok (mulSat score 2)

def scoreOne : Nat × Nat → UInt8 → Except Stop (Nat × Nat)
  | (score, nlen), _ => do
    let nlen ← add 64 nlen 1
    .ok (mulSat score 2, nlen)

/-- The comparison is with the `ch` that the original leaves at zero. -/
def scorePunct (score : Nat) (c : UInt8) : Except Stop Nat := .ok (mulSat score (if c = 0 then 2 else 10))

def scoreDigit : Nat × Nat → UInt8 → Except Stop (Nat × Nat)
  | (num, nlen), c => do
    let shifted ← mul 64 num 10
    let digit ← sub c.toNat 48
    let num ← add 64 shifted digit
    let nlen ← add 64 nlen 1
    .ok (num, nlen)

def halveRound : Nat × Nat → Except Stop (Round (Nat × Nat) Nat)
  | (score, nlen) => do
    if ¬ nlen ≥ 2 then .ok (.done score)
    else do
      let root ← uintSqrt score
      .ok (.cont (root, nlen / 2))

/-- The number of `nlen` digits that starts at `plen`, and the punctuation before it. -/
def scoreDigits (password : Bytes) (plen num nlen score : Nat) : Except Stop (Nat × Nat) :=
  if nlen > 0 then do
    let nstr ← slice password plen (← add 64 plen nlen)
    let score := mulSat score (← trailingNumScore num nlen nstr)
    scanBack password isPunct scorePunct plen score
  else .ok (plen, score)

def scoreHead (dict : PasswordDict) (password : Bytes) (plen score : Nat) : Except Stop Nat :=
  if plen = 0 then .ok score
  else do
    let head ← slice password 0 plen
    let (lpwd, ldpwd) := buildVariants head
    .ok (mulSat score (← scoreVariants dict head lpwd ldpwd))

/-- `ppassword_score` from the number on. -/
def scoreNumber (dict : PasswordDict) (password : Bytes) (plen score : Nat) : Except Stop Nat := do
  let (plen, num, nlen) ← scanBack password isDigit scoreDigit plen (0, 0)
  let (plen, score) ← scoreDigits password plen num nlen score
  scoreHead dict password plen score

def ppasswordScore (dict : PasswordDict) (password : Bytes) : Except Stop Nat := do
  let (plen, score) ← scanBack password (· = 33) scoreBang password.length 1
  let (plen, score, nlen) ← scanBack password (· = 49) scoreOne plen (score, 0)
  let score ← loop halveRound (nlen + 1) (score, nlen)
  let (plen, score) ← scanBack password isPunct scorePunct plen score
  scoreNumber dict password plen score

/-! ## Scores -/

theorem one_le_mulSat {score num : Nat} (h : 1 ≤ score) (h' : 1 ≤ num) : 1 ≤ mulSat score num :=
  Nat.le_min.mpr ⟨Nat.mul_pos h h', by decide⟩

theorem mulSat_le (score num : Nat) : mulSat score num ≤ u64Max := Nat.min_le_right _ _

theorem one_le_scoreAlphabet {n numchars score : Nat} (hscore : 1 ≤ score) (hn : 0 < numchars → 1 ≤ n) :
    1 ≤ scoreAlphabet n numchars score := by
  induction numchars generalizing score with
  | zero => exact hscore
  | succ numchars ih =>
    rw [scoreAlphabet]
    split
    · decide
    · exact ih (one_le_mulSat hscore (hn (Nat.succ_pos _))) fun _ => hn (Nat.succ_pos _)

/-- The variables `h`, `l` and `m` of the search for a root. -/
structure SqrtRange (s : Nat × Nat × Nat) : Prop where
  high : s.1 < 2 ^ 63
  low : 1 ≤ s.2.1 ∧ s.2.1 < 2 ^ 63
  mid : 1 ≤ s.2.2 ∧ s.2.2 < 2 ^ 63

theorem ends_uintSqrt {n : Nat} (hn : n ≤ u64Max) : Ends (fun m => 1 ≤ m ∧ m ≤ u64Max) (uintSqrt n) := by
  unfold u64Max at *
  rw [uintSqrt]
  split
  · exact .ok ⟨Nat.le_refl 1, by decide⟩
  · have hhalf : n / 2 < 2 ^ 63 := by omega
    have hone : 1 ≤ 1 ∧ 1 < 2 ^ 63 := by decide
    refine ends_loop SqrtRange (fun s => s.1 - s.2.1) ?_ ⟨hhalf, hone, hone⟩ (by dsimp only; omega)
    rintro ⟨h, l, m⟩ ⟨hh, ⟨hl, hl'⟩, hm, hm'⟩
    dsimp only at hh hl hl' hm hm'
    refine (Ends.add (by omega)).bind ?_
    rintro _ rfl
    split
    · exact .ok ⟨hm, by omega⟩
    · refine (Ends.add (by omega)).bind ?_
      rintro _ rfl
      have hmid : l < (h + l) / 2 ∧ (h + l) / 2 < h := by omega
      dsimp only
      split
      · exact .ok ⟨⟨by dsimp only; omega, ⟨hl, hl'⟩, by dsimp only; omega⟩, by dsimp only; omega⟩
      · split
        · exact .ok ⟨⟨hh, by dsimp only; omega, by dsimp only; omega⟩, by dsimp only; omega⟩
        · exact .ok ⟨by omega, by omega⟩

/-! ## Words of the dictionary -/

theorem ends_effectiveLen {entry : Bytes} {len : Nat} (h : len ≤ entry.length) :
    Ends (· ≤ len) (effectiveLen entry len) := by
  induction len with
  | zero => exact .ok (Nat.le_refl 0)
  | succ len ih =>
    refine (Ends.get h).bind fun c _ => ?_
    split
    · exact (ih (Nat.le_of_succ_le h)).mono fun l hl => Nat.le_succ_of_le hl
    · exact .ok (Nat.le_refl _)

section Dictionary

variable (dict : PasswordDict) {pwd : Bytes}

theorem PasswordDict.length_lt : dict.entries.length < 2 ^ 60 := by
  have := dict.fits
  unfold isizeMax at this
  omega

theorem ends_extendRound {s : Nat × Nat} (hl : s.1 ≤ min pwd.length 8) (hmed : s.2 < dict.entries.length) :
    Ends (Round.Holds (fun next => (next.1 ≤ min pwd.length 8 ∧ next.2 < dict.entries.length) ∧
      dict.entries.length - next.2 < dict.entries.length - s.2) (· ≤ min pwd.length 8)) (extendRound dict pwd s) := by
  obtain ⟨l, med⟩ := s
  have hdict := dict.length_lt
  dsimp only at hl hmed
  rw [extendRound]
  split
  · exact .ok hl
  rename_i hshort
  rw [not_not] at hshort
  refine (Ends.add (by omega)).bind ?_
  rintro _ rfl
  split
  · exact .ok hl
  rename_i hnext
  rw [not_not] at hnext
  refine (Ends.get hnext).bind fun entry hentry => ?_
  have hwidth := dict.width entry hentry
  refine (Ends.add (by omega)).bind ?_
  rintro _ rfl
  refine (Ends.slice (Nat.zero_le _) (by omega)).bind fun longer _ => ?_
  split
  · exact .ok hl
  refine (ends_effectiveLen (by omega)).bind fun hi2 hhi2 => ?_
  refine (Ends.slice (Nat.zero_le _) (by omega)).bind fun word _ => ?_
  split
  · exact .ok hl
  · exact .ok ⟨⟨by dsimp only; omega, hnext⟩, by dsimp only; omega⟩

theorem ends_searchRound {s : Nat × Nat} (hlo : s.1 ≤ s.2) (hhi : s.2 ≤ dict.entries.length) :
    Ends (Round.Holds (fun next => (next.1 ≤ next.2 ∧ next.2 ≤ dict.entries.length) ∧ next.2 - next.1 < s.2 - s.1)
      (· ≤ min pwd.length 8)) (searchRound dict pwd (min pwd.length 8) s) := by
  obtain ⟨lo, hi⟩ := s
  have hdict := dict.length_lt
  dsimp only at hlo hhi
  rw [searchRound]
  split
  · exact .ok (Nat.zero_le _)
  rename_i hlt
  rw [not_not] at hlt
  refine (Ends.add (by omega)).bind ?_
  rintro _ rfl
  have hmed : lo ≤ (lo + hi) / 2 ∧ (lo + hi) / 2 < hi := by omega
  refine (Ends.get (by omega)).bind fun entry hentry => ?_
  have hwidth := dict.width entry hentry
  refine (ends_effectiveLen (by omega)).bind fun l hl => ?_
  refine (Ends.slice (Nat.zero_le _) (by omega)).bind fun head _ => ?_
  refine (Ends.slice (Nat.zero_le _) (by omega)).bind fun word _ => ?_
  split
  · exact .ok ⟨⟨hmed.1, by dsimp only; omega⟩, by dsimp only; omega⟩
  split
  · have hextend : Ends (· ≤ min pwd.length 8)
        (loop (extendRound dict pwd) (dict.entries.length + 1) (l, (lo + hi) / 2)) :=
      ends_loop (fun s => s.1 ≤ min pwd.length 8 ∧ s.2 < dict.entries.length) (fun s => dict.entries.length - s.2)
        (fun s hs => ends_extendRound dict hs.1 hs.2) ⟨by dsimp only; omega, by dsimp only; omega⟩
        (by dsimp only; omega)
    exact hextend.bind fun found hfound => .ok hfound
  · refine (Ends.add (by omega)).bind ?_
    rintro _ rfl
    exact .ok ⟨⟨by dsimp only; omega, hhi⟩, by dsimp only; omega⟩

theorem ends_findInDict : Ends (· ≤ min pwd.length 8) (findInDict dict pwd) := by
  rw [findInDict]
  split
  · exact .ok (Nat.zero_le _)
  · exact ends_loop (fun s => s.1 ≤ s.2 ∧ s.2 ≤ dict.entries.length) (fun s => s.2 - s.1)
      (fun s hs => ends_searchRound dict hs.1 hs.2) ⟨Nat.zero_le _, Nat.le_refl _⟩ (by dsimp only; omega)

end Dictionary

/-! ## The digits at the end -/

section Digits

variable {nstr : Bytes} (hfits : nstr.length ≤ isizeMax)
include hfits

theorem ends_repeated {i j : Nat} (hj : j ≤ i) (hi : i ≤ nstr.length) :
    Ends (fun found => ∀ n, found = some n → 0 < n ∧ i + n ≤ nstr.length) (repeated nstr.length nstr i j) := by
  unfold isizeMax at hfits
  induction j with
  | zero => exact .ok fun n hn => by cases hn
  | succ j ih =>
    rw [repeated]
    refine (Ends.add (by omega)).bind ?_
    rintro _ rfl
    split
    · rename_i hroom
      refine (Ends.slice (by omega) hroom).bind fun after _ => ?_
      refine (Ends.sub hj).bind ?_
      rintro _ rfl
      refine (Ends.slice (Nat.sub_le _ _) hi).bind fun before _ => ?_
      split
      · refine .ok fun n hn => ?_
        cases hn
        exact ⟨Nat.succ_pos j, hroom⟩
      · exact ih (Nat.le_of_succ_le hj)
    · exact ih (Nat.le_of_succ_le hj)

theorem ends_trailingRound {s : Nat × Nat} (hi : 1 ≤ s.1 ∧ s.1 ≤ nstr.length) (hscore : 1 ≤ s.2) :
    Ends (Round.Holds (fun next => ((1 ≤ next.1 ∧ next.1 ≤ nstr.length) ∧ 1 ≤ next.2) ∧
      nstr.length - next.1 < nstr.length - s.1) (1 ≤ ·)) (trailingRound nstr.length nstr s) := by
  obtain ⟨i, score⟩ := s
  dsimp only at hi hscore
  have hlt64 : nstr.length < 2 ^ 63 := by
    unfold isizeMax at hfits
    omega
  rw [trailingRound]
  split
  · exact .ok hscore
  rename_i hlt
  rw [not_not] at hlt
  refine (ends_repeated hfits (Nat.le_refl i) hi.2).bind fun found hfound => ?_
  cases found with
  | some j =>
    obtain ⟨hj, hroom⟩ := hfound j rfl
    have htwice := one_le_mulSat hscore (by decide : 1 ≤ 2)
    dsimp only
    split
    · exact .ok htwice
    · refine (Ends.add (by omega)).bind ?_
      rintro _ rfl
      exact .ok ⟨⟨⟨by dsimp only; omega, hroom⟩, htwice⟩, by dsimp only; omega⟩
  | none =>
    dsimp only
    refine (Ends.sub hi.1).bind ?_
    rintro _ rfl
    refine (Ends.get (by omega)).bind fun prev _ => ?_
    refine (Ends.get hlt).bind fun cur _ => ?_
    generalize hfactor : (if cur = prev ∨ cur = prev + 1 ∨ cur = prev - 1 then 2 else 10) = factor
    have hone : 1 ≤ factor := by
      rw [← hfactor]
      split <;> decide
    have hscored := one_le_mulSat hscore hone
    split
    · exact .ok hscored
    · refine (Ends.add (by omega)).bind ?_
      rintro _ rfl
      exact .ok ⟨⟨⟨by dsimp only; omega, hlt⟩, hscored⟩, by dsimp only; omega⟩

theorem ends_trailingNumScore (num : Nat) (hpos : 0 < nstr.length) :
    Ends (1 ≤ ·) (trailingNumScore num nstr.length nstr) := by
  rw [trailingNumScore]
  split
  · refine .ok ?_
    split <;> decide
  split
  · split
    · exact .ok (by decide)
    split
    · exact .ok (by decide)
    · exact .ok (by decide)
  split
  · exact .ok (by decide)
  refine (Ends.get hpos).bind fun first _ => ?_
  refine ends_loop (fun s => (1 ≤ s.1 ∧ s.1 ≤ nstr.length) ∧ 1 ≤ s.2) (fun s => nstr.length - s.1)
    (fun s hs => ends_trailingRound hfits hs.1 hs.2) ⟨⟨Nat.le_refl 1, hpos⟩, ?_⟩ (by dsimp only; omega)
  dsimp only
  split
  · decide
  · split <;> decide

end Digits

/-! ## Characters -/

theorem ends_keyboardBuddies (ch1 ch2 : UInt8) : Ends (fun _ => True) (keyboardBuddies ch1 ch2) := by
  rw [keyboardBuddies]
  cases hidx : keyboard.idxOf? ch1 with
  | none => exact .ok trivial
  | some idx =>
    have hlt : idx < keyboard.length := (List.idxOf?_eq_some_iff.mp hidx).1
    have hlen : keyboard.length < 2 ^ 8 := by decide
    dsimp only
    refine (Ends.add (by omega)).bind fun up _ => ?_
    split
    · refine (Ends.sub (by omega)).bind ?_
      rintro _ rfl
      rw [get_of_lt (by omega)]
      exact .ok trivial
    · exact .ok trivial

theorem Kinds.one_le_alphabet_see (kinds : Kinds) (c : UInt8) : 1 ≤ (kinds.see c).alphabet := by
  unfold see
  split_ifs <;> simp only [alphabet, if_true] <;> omega

/-! ## The variants -/

/-- What holds of the variables between two rounds. -/
structure Variants.Sound (plen : Nat) (v : Variants) : Prop where
  off_le : v.off ≤ plen
  score_pos : 1 ≤ v.score
  numchars_le : v.numchars ≤ v.off
  seen : 0 < v.numchars → 1 ≤ v.kinds.alphabet

section Variants

variable {dict : PasswordDict} {password lpassword text : Bytes} {v : Variants}

theorem Variants.Sound.repeated {plen j factor : Nat} (hv : v.Sound plen) (hroom : v.off + j ≤ plen)
    (hfactor : 1 ≤ factor) (cur : UInt8) :
    Variants.Sound plen { v with kinds := v.kinds.see cur, score := mulSat v.score factor, off := v.off + j } where
  off_le := hroom
  score_pos := one_le_mulSat hv.score_pos hfactor
  numchars_le := Nat.le_trans hv.numchars_le (Nat.le_add_right _ _)
  seen _ := v.kinds.one_le_alphabet_see cur

theorem Variants.Sound.scored {plen : Nat} {v' : Variants} {cur : UInt8} (hv : v.Sound plen) (hoff : v.off < plen)
    (hsame : v'.off = v.off) (hscore : 1 ≤ v'.score) (hkinds : v'.kinds = v.kinds.see cur)
    (hnum : v'.numchars ≤ v.numchars + 1) : Variants.Sound plen { v' with off := v'.off + 1 } where
  off_le := by
    rw [hsame]
    exact hoff
  score_pos := hscore
  numchars_le := by
    rw [hsame]
    exact Nat.le_trans hnum (Nat.succ_le_succ hv.numchars_le)
  seen _ := by
    rw [hkinds]
    exact v.kinds.one_le_alphabet_see cur

theorem ends_repeatedVariant (hlen : lpassword.length = password.length) (hfits : password.length ≤ isizeMax)
    {off j : Nat} (hoff : off ≤ password.length) (hj : j ≤ off) :
    Ends (fun found => ∀ p, found = some p → 0 < p.1 ∧ off + p.1 ≤ password.length ∧ 1 ≤ p.2)
      (repeatedVariant password lpassword off (password.length - off) j) := by
  unfold isizeMax at hfits
  induction j with
  | zero => exact .ok fun p hp => by cases hp
  | succ j ih =>
    have hrest := ih (Nat.le_of_succ_le hj)
    rw [repeatedVariant]
    split
    · rename_i hroom
      have hstop : off + (j + 1) ≤ password.length := by omega
      have hfound (n : Nat) : ∀ p, some (j + 1, n + (j + 1)) = some p →
          0 < p.1 ∧ off + p.1 ≤ password.length ∧ 1 ≤ p.2 := by
        rintro p hp
        cases hp
        exact ⟨Nat.succ_pos j, hstop, by dsimp only; omega⟩
      refine (Ends.add (by omega)).bind ?_
      rintro _ rfl
      refine (Ends.sub hj).bind ?_
      rintro _ rfl
      refine (Ends.slice (Nat.le_add_right _ _) hstop).bind fun after _ => ?_
      refine (Ends.slice (Nat.sub_le _ _) hoff).bind fun before _ => ?_
      split
      · refine (Ends.add (by omega)).bind ?_
        rintro _ rfl
        exact .ok (hfound 1)
      refine (Ends.slice (Nat.le_add_right _ _) (hlen ▸ hstop)).bind fun lafter _ => ?_
      refine (Ends.slice (Nat.sub_le _ _) (hlen ▸ hoff)).bind fun lbefore _ => ?_
      split
      · refine (Ends.add (by omega)).bind ?_
        rintro _ rfl
        exact .ok (hfound 2)
      · exact hrest
    · exact hrest

theorem ends_probe {divisor : Nat} (hdivisor : 8 ≤ divisor ∧ divisor ≤ 32) (hfits : text.length ≤ isizeMax)
    (hv : v.Sound text.length) : Ends (fun found => ∀ v', found = some v' → v'.Sound text.length ∧ v.off < v'.off)
      (probe dict divisor text v text.length) := by
  obtain ⟨hoff, hscore, hnum, hseen⟩ := hv
  have hlen : text.length < 2 ^ 63 := by
    unfold isizeMax at hfits
    omega
  have hdict := dict.large
  have hsmall := dict.length_lt
  rw [probe]
  refine (Ends.slice hoff (Nat.le_refl _)).bind fun rest hrest => ?_
  refine (ends_findInDict dict).bind fun d hd => ?_
  split
  · rename_i hpos
    have hfactor : dict.entries.length / divisor * d < 2 ^ 64 := by
      have hle := Nat.mul_le_mul (Nat.div_le_self dict.entries.length divisor) (Nat.le_trans hd (Nat.min_le_right _ _))
      omega
    have hone : 1 ≤ dict.entries.length / divisor * d :=
      Nat.mul_pos (Nat.div_pos (Nat.le_trans hdivisor.2 hdict) (by omega)) hpos
    refine (Ends.mul hfactor).bind ?_
    rintro _ rfl
    refine (Ends.add (by omega)).bind ?_
    rintro _ rfl
    refine .ok fun v' hv' => ?_
    cases hv'
    refine ⟨⟨?_, one_le_mulSat hscore hone, ?_, hseen⟩, ?_⟩
    · dsimp only
      omega
    · dsimp only
      omega
    · dsimp only
      omega
  · exact .ok fun v' hv' => by cases hv'

theorem ends_scoreChar (hlen : lpassword.length = password.length) (hfits : password.length ≤ isizeMax)
    (hoff : v.off < password.length) (hscore : 1 ≤ v.score) (hnum : v.numchars ≤ v.off) (cur : UInt8) :
    Ends (fun v' => v'.off = v.off ∧ 1 ≤ v'.score ∧ v'.kinds = v.kinds ∧ v'.numchars ≤ v.numchars + 1)
      (scoreChar password lpassword v cur) := by
  unfold isizeMax at hfits
  have hscored (n : Nat) (hn : 1 ≤ n) : Ends (fun v' : Variants => v'.off = v.off ∧ 1 ≤ v'.score ∧ v'.kinds = v.kinds ∧
      v'.numchars ≤ v.numchars + 1) (.ok { v with score := mulSat v.score n }) :=
    .ok ⟨rfl, one_le_mulSat hscore hn, rfl, Nat.le_succ _⟩
  have hcounted : Ends (fun v' : Variants => v'.off = v.off ∧ 1 ≤ v'.score ∧ v'.kinds = v.kinds ∧
      v'.numchars ≤ v.numchars + 1) (do
        let numchars ← add 64 v.numchars 1
        .ok { v with numchars }) := by
    refine (Ends.add (by omega)).bind ?_
    rintro _ rfl
    exact .ok ⟨rfl, hscore, rfl, Nat.le_refl _⟩
  rw [scoreChar]
  split
  · split
    · exact hscored 2 (by decide)
    split
    · exact hscored 4 (by decide)
    · exact hcounted
  refine (Ends.sub (by omega)).bind ?_
  rintro _ rfl
  refine (Ends.get (by omega)).bind fun pch _ => ?_
  split
  · exact hscored 2 (by decide)
  refine (ends_keyboardBuddies pch cur).bind fun buddies _ => ?_
  split
  · exact hscored 2 (by decide)
  refine (Ends.get (by omega)).bind fun lbefore _ => ?_
  refine (Ends.get (by omega)).bind fun lcur _ => ?_
  refine (ends_keyboardBuddies lbefore lcur).bind fun buddies _ => ?_
  split
  · exact hscored 4 (by decide)
  · exact hcounted

theorem ends_variantsRound {npassword : Bytes} (hlen : lpassword.length = password.length)
    (hlen' : npassword.length = password.length) (hfits : password.length ≤ isizeMax) (hv : v.Sound password.length) :
    Ends (Round.Holds (fun next => next.Sound password.length ∧ password.length - next.off < password.length - v.off)
      (Variants.Sound password.length)) (variantsRound dict password lpassword npassword v) := by
  have hsmall : password.length < 2 ^ 63 := by
    unfold isizeMax at hfits
    omega
  rw [variantsRound]
  split
  · exact .ok hv
  rename_i hoff
  rw [not_not] at hoff
  have hskip {v' : Variants} (h : v'.Sound password.length ∧ v.off < v'.off) : Ends (Round.Holds (fun next =>
      next.Sound password.length ∧ password.length - next.off < password.length - v.off)
      (Variants.Sound password.length)) (.ok (.cont v')) :=
    .ok ⟨h.1, by have := h.2; omega⟩
  refine (Ends.sub hv.off_le).bind ?_
  rintro _ rfl
  refine (Ends.add (by omega)).bind ?_
  rintro _ rfl
  rw [Nat.add_sub_cancel' hv.off_le]
  refine (ends_probe (by decide) hfits hv).bind fun found hfound => ?_
  cases found with
  | some v' => exact hskip (hfound v' rfl)
  | none =>
  refine Ends.bind (hlen ▸ ends_probe (by decide) (hlen ▸ hfits) (hlen ▸ hv)) fun found hfound => ?_
  cases found with
  | some v' => exact hskip (hfound v' rfl)
  | none =>
  refine Ends.bind (hlen' ▸ ends_probe (by decide) (hlen' ▸ hfits) (hlen' ▸ hv)) fun found hfound => ?_
  cases found with
  | some v' => exact hskip (hfound v' rfl)
  | none =>
  refine (Ends.get hoff).bind fun cur _ => ?_
  refine (ends_repeatedVariant hlen hfits (Nat.le_of_lt hoff) (Nat.le_refl _)).bind fun found hfound => ?_
  cases found with
  | some p =>
    obtain ⟨hpos, hroom, hfactor⟩ := hfound p rfl
    refine (Ends.add (by dsimp only; omega)).bind ?_
    rintro _ rfl
    refine hskip ⟨hv.repeated hroom hfactor cur, ?_⟩
    dsimp only
    omega
  | none =>
    have hseen := ends_scoreChar (v := { v with kinds := v.kinds.see cur }) hlen hfits hoff hv.score_pos
      hv.numchars_le cur
    refine hseen.bind ?_
    rintro v' ⟨hsame, hscore, hkinds, hnum⟩
    dsimp only at hsame hkinds hnum
    refine (Ends.add (by omega)).bind ?_
    rintro _ rfl
    refine hskip ⟨hv.scored hoff hsame hscore hkinds hnum, ?_⟩
    dsimp only
    omega

theorem ends_scoreVariants {npassword : Bytes} (hlen : lpassword.length = password.length)
    (hlen' : npassword.length = password.length) (hfits : password.length ≤ isizeMax) :
    Ends (1 ≤ ·) (scoreVariants dict password lpassword npassword) := by
  have hstart : Variants.Sound password.length {} :=
    ⟨Nat.zero_le _, Nat.le_refl 1, Nat.le_refl 0, fun h => absurd h (Nat.lt_irrefl 0)⟩
  have hloop : Ends (Variants.Sound password.length)
      (loop (variantsRound dict password lpassword npassword) (password.length + 1) {}) :=
    ends_loop (Variants.Sound password.length) (fun v => password.length - v.off)
      (fun v hv => ends_variantsRound hlen hlen' hfits hv) hstart (by dsimp only; omega)
  exact hloop.bind fun v hv => .ok (one_le_scoreAlphabet hv.score_pos hv.seen)

end Variants

/-! ## The loops from the end -/

section ScanBack

variable {σ : Type} (password : Bytes) (p : UInt8 → Bool) (accept : σ → UInt8 → Except Stop σ)

theorem take_succ_reverse {plen : Nat} {c : UInt8} (h : password[plen]? = some c) :
    (password.take (plen + 1)).reverse = c :: (password.take plen).reverse := by
  rw [List.take_add_one, h, List.reverse_append]
  rfl

theorem scanBack_eq {plen : Nat} (hplen : plen ≤ password.length) (s : σ) :
    scanBack password p accept plen s = (do
      let s ← ((password.take plen).reverse.takeWhile p).foldlM accept s
      .ok (((password.take plen).reverse.dropWhile p).length, s)) := by
  induction plen generalizing s with
  | zero => simp [scanBack, pure, Except.pure]
  | succ plen ih =>
    have hc : password[plen]? = some (password.get ⟨plen, hplen⟩) := List.getElem?_eq_getElem hplen
    rw [scanBack, take_succ_reverse password hc, get_of_getElem? hc, ok_bind]
    by_cases hp : p (password.get ⟨plen, hplen⟩) = true
    · rw [if_pos hp, List.takeWhile_cons_of_pos hp, List.dropWhile_cons_of_pos hp, List.foldlM_cons]
      cases accept s (password.get ⟨plen, hplen⟩) with
      | error stop => rfl
      | ok s => exact ih (Nat.le_of_succ_le hplen) s
    · rw [if_neg hp, List.takeWhile_cons_of_neg hp, List.dropWhile_cons_of_neg hp]
      simp [Nat.min_eq_left (Nat.le_of_succ_le hplen), pure, Except.pure]

theorem ends_scanBack {post : σ → Prop} {plen : Nat} (hplen : plen ≤ password.length) {s : σ}
    (hfold : Ends post (((password.take plen).reverse.takeWhile p).foldlM accept s)) :
    Ends (fun r => r.1 ≤ plen ∧ (password.take r.1).reverse = (password.take plen).reverse.dropWhile p ∧ post r.2)
      (scanBack password p accept plen s) := by
  rw [scanBack_eq password p accept hplen]
  refine hfold.bind fun s hs => .ok ?_
  have hsuffix : (password.take plen).reverse.dropWhile p <:+ (password.take plen).reverse := List.dropWhile_suffix p
  have hle : ((password.take plen).reverse.dropWhile p).length ≤ plen := by
    have := hsuffix.length_le
    simp at this
    omega
  have hprefix : ((password.take plen).reverse.dropWhile p).reverse <+: password.take plen := by
    simpa using List.reverse_prefix.mpr hsuffix
  refine ⟨hle, ?_, hs⟩
  have htake := List.prefix_iff_eq_take.mp hprefix
  rw [List.length_reverse, List.take_take, Nat.min_eq_left hle] at htake
  rw [← htake, List.reverse_reverse]

end ScanBack

/-! ## The number -/

/-- The value that the loop over the digits reads, the last digit first. -/
def digitsValue (num : Nat) (run : Bytes) : Nat := run.foldl (fun num c => num * 10 + (c.toNat - 48)) num

theorem le_digitsValue (num : Nat) (run : Bytes) : num ≤ digitsValue num run := by
  induction run generalizing num with
  | nil => exact Nat.le_refl num
  | cons c run ih =>
    have hnext := ih (num * 10 + (c.toNat - 48))
    rw [digitsValue, List.foldl_cons]
    exact Nat.le_trans (by omega) hnext

theorem isDigit_le {c : UInt8} (h : isDigit c = true) : 48 ≤ c.toNat := by
  have hboth := Bool.and_eq_true_iff.mp h
  exact UInt8.le_iff_toNat_le.mp (decide_eq_true_iff.mp hboth.1)

section Fold

variable {run : Bytes} (hrun : ∀ c ∈ run, isDigit c = true) {num nlen : Nat} (hroom : nlen + run.length < 2 ^ 64)
include hrun hroom

theorem foldlM_scoreDigit_of_lt (h : digitsValue num run < 2 ^ 64) :
    run.foldlM scoreDigit (num, nlen) = .ok (digitsValue num run, nlen + run.length) := by
  induction run generalizing num nlen with
  | nil => rfl
  | cons c run ih =>
    rw [List.length_cons] at hroom
    have hdigit := isDigit_le (hrun c List.mem_cons_self)
    have hle := le_digitsValue (num * 10 + (c.toNat - 48)) run
    have hfits : num * 10 + (c.toNat - 48) < 2 ^ 64 := Nat.lt_of_le_of_lt hle h
    rw [List.foldlM_cons, scoreDigit, mul_of_lt (by omega), ok_bind, sub_of_le hdigit, ok_bind, add_of_lt hfits,
      ok_bind, add_of_lt (by omega), ok_bind, ok_bind, ih (fun d hd => hrun d (List.mem_cons_of_mem c hd)) (by omega) h,
      List.length_cons, Nat.add_right_comm, Nat.add_assoc]
    rfl

theorem foldlM_scoreDigit_of_le (hnum : num < 2 ^ 64) (h : 2 ^ 64 ≤ digitsValue num run) :
    run.foldlM scoreDigit (num, nlen) = .error .overflow := by
  induction run generalizing num nlen with
  | nil => exact absurd hnum (Nat.not_lt.mpr h)
  | cons c run ih =>
    rw [List.length_cons] at hroom
    have hdigit := isDigit_le (hrun c List.mem_cons_self)
    rw [List.foldlM_cons, scoreDigit]
    by_cases hshift : num * 10 < 2 ^ 64
    · rw [mul_of_lt hshift, ok_bind, sub_of_le hdigit, ok_bind]
      by_cases hsum : num * 10 + (c.toNat - 48) < 2 ^ 64
      · rw [add_of_lt hsum, ok_bind, add_of_lt (by omega), ok_bind, ok_bind]
        exact ih (fun d hd => hrun d (List.mem_cons_of_mem c hd)) (by omega) hsum h
      · rw [add, word_of_le (Nat.not_lt.mp hsum)]
        rfl
    · rw [mul, word_of_le (Nat.not_lt.mp hshift)]
      rfl

end Fold

/-! ## The whole score -/

variable (dict : PasswordDict)

theorem ends_scorePunct {score : Nat} (c : UInt8) (h : 1 ≤ score) : Ends (1 ≤ ·) (scorePunct score c) := by
  refine .ok (one_le_mulSat h ?_)
  split <;> decide

theorem ends_scanPuncts (password : Bytes) {plen : Nat} (hplen : plen ≤ password.length) {score : Nat} (h : 1 ≤ score) :
    Ends (fun r => r.1 ≤ plen ∧ (password.take r.1).reverse = (password.take plen).reverse.dropWhile isPunct ∧
      1 ≤ r.2) (scanBack password isPunct scorePunct plen score) :=
  ends_scanBack password isPunct scorePunct hplen (Ends.foldlM h fun _ c _ hs => ends_scorePunct c hs)

theorem ends_scoreDigits {password : Bytes} (hfits : password.length ≤ isizeMax) {plen nlen : Nat}
    (hroom : plen + nlen ≤ password.length) (num : Nat) {score : Nat} (hscore : 1 ≤ score) :
    Ends (fun r => r.1 ≤ plen ∧ 1 ≤ r.2) (scoreDigits password plen num nlen score) := by
  have hlen : password.length < 2 ^ 63 := by
    unfold isizeMax at hfits
    omega
  rw [scoreDigits]
  split
  · rename_i hpos
    refine (Ends.add (by omega)).bind ?_
    rintro _ rfl
    refine (Ends.slice (Nat.le_add_right _ _) hroom).bind fun nstr hnstr => ?_
    rw [Nat.add_sub_cancel_left] at hnstr
    subst hnstr
    refine (ends_trailingNumScore (by omega) num hpos).bind fun n hn => ?_
    exact (ends_scanPuncts password (by omega) (one_le_mulSat hscore hn)).mono fun r hr => ⟨hr.1, hr.2.2⟩
  · exact .ok ⟨Nat.le_refl _, hscore⟩

theorem ends_scoreHead {password : Bytes} (hfits : password.length ≤ isizeMax) {plen : Nat}
    (hplen : plen ≤ password.length) {score : Nat} (hscore : 1 ≤ score) :
    Ends (1 ≤ ·) (scoreHead dict password plen score) := by
  rw [scoreHead]
  split
  · exact .ok hscore
  · refine (Ends.slice (Nat.zero_le _) hplen).bind fun head hhead => ?_
    have hlower : (buildVariants head).1.length = head.length := List.length_map _
    have hfold : (buildVariants head).2.length = head.length := (List.length_map _).trans hlower
    exact (ends_scoreVariants hlower hfold (by omega)).bind fun n hn => .ok (one_le_mulSat hscore hn)

/-- The digits that the number is read from. -/
def trailingDigits (text : Bytes) : Bytes := text.reverse.takeWhile isDigit

theorem isDigit_of_mem_trailingDigits (text : Bytes) : ∀ c ∈ trailingDigits text, isDigit c = true :=
  fun _ hc => List.mem_takeWhile_imp hc

theorem length_dropWhile_add (text : Bytes) :
    (text.reverse.dropWhile isDigit).length + (trailingDigits text).length = text.length := by
  have hsplit : text.reverse.takeWhile isDigit ++ text.reverse.dropWhile isDigit = text.reverse :=
    List.takeWhile_append_dropWhile
  have hlen := congrArg List.length hsplit
  rw [List.length_append, List.length_reverse] at hlen
  rw [trailingDigits, Nat.add_comm, hlen]

section Number

variable {password : Bytes} (hfits : password.length ≤ isizeMax) {plen : Nat} (hplen : plen ≤ password.length)
include hfits hplen

theorem length_trailingDigits_lt : 0 + (trailingDigits (password.take plen)).length < 2 ^ 64 := by
  have hlen := length_dropWhile_add (password.take plen)
  unfold isizeMax at hfits
  rw [List.length_take] at hlen
  omega

theorem scoreNumber_of_le (score : Nat) (h : 2 ^ 64 ≤ digitsValue 0 (trailingDigits (password.take plen))) :
    scoreNumber dict password plen score = .error .overflow := by
  have hfold := foldlM_scoreDigit_of_le (isDigit_of_mem_trailingDigits (password.take plen))
    (length_trailingDigits_lt hfits hplen) (by decide) h
  rw [trailingDigits] at hfold
  rw [scoreNumber, scanBack_eq password isDigit scoreDigit hplen, hfold]
  rfl

theorem ends_scoreNumber {score : Nat} (hscore : 1 ≤ score)
    (h : digitsValue 0 (trailingDigits (password.take plen)) < 2 ^ 64) :
    Ends (1 ≤ ·) (scoreNumber dict password plen score) := by
  have hfold := foldlM_scoreDigit_of_lt (isDigit_of_mem_trailingDigits (password.take plen))
    (length_trailingDigits_lt hfits hplen) h
  have hlen := length_dropWhile_add (password.take plen)
  rw [List.length_take, Nat.min_eq_left hplen] at hlen
  rw [trailingDigits] at hfold hlen
  rw [scoreNumber, scanBack_eq password isDigit scoreDigit hplen, hfold, ok_bind, ok_bind, Nat.zero_add]
  refine (ends_scoreDigits hfits (by omega) _ hscore).bind ?_
  rintro ⟨plen', score'⟩ ⟨hplen', hscore'⟩
  dsimp only at hplen' hscore'
  exact ends_scoreHead dict hfits (by omega) hscore'

end Number

/-! ## All of it -/

theorem ends_halve {nlen score : Nat} (hscore : 1 ≤ score ∧ score ≤ u64Max) :
    Ends (1 ≤ ·) (loop halveRound (nlen + 1) (score, nlen)) := by
  refine ends_loop (fun s => 1 ≤ s.1 ∧ s.1 ≤ u64Max) (fun s => s.2) ?_ hscore (Nat.lt_succ_self nlen)
  rintro ⟨score, nlen⟩ ⟨hpos, hmax⟩
  rw [halveRound]
  split
  · exact .ok hpos
  · rename_i htwo
    rw [not_not] at htwo
    refine (ends_uintSqrt hmax).bind fun root hroot => .ok ⟨hroot, ?_⟩
    dsimp only
    omega

theorem ends_foldlM_scoreOne {run : Bytes} {score nlen : Nat} (hscore : 1 ≤ score ∧ score ≤ u64Max)
    (hroom : nlen + run.length < 2 ^ 64) :
    Ends (fun r => 1 ≤ r.1 ∧ r.1 ≤ u64Max) (run.foldlM scoreOne (score, nlen)) := by
  induction run generalizing score nlen with
  | nil => exact .ok hscore
  | cons c run ih =>
    rw [List.length_cons] at hroom
    rw [List.foldlM_cons, scoreOne, add_of_lt (by omega), ok_bind]
    exact ih ⟨one_le_mulSat hscore.1 (by decide), mulSat_le _ _⟩ (by omega)

/-- The password without the exclamation marks, the ones and the punctuation that it ends with. -/
def beforePunctuation (password : Bytes) : Bytes :=
  (((password.reverse.dropWhile (· = 33)).dropWhile (· = 49)).dropWhile isPunct).reverse

theorem ppasswordScore_eq {password : Bytes} (hfits : password.length ≤ isizeMax) : ∃ plen score,
    plen ≤ password.length ∧ password.take plen = beforePunctuation password ∧ 1 ≤ score ∧
      ppasswordScore dict password = scoreNumber dict password plen score := by
  have hbangs : Ends (fun score => 1 ≤ score ∧ score ≤ u64Max)
      (((password.take password.length).reverse.takeWhile (· = 33)).foldlM scoreBang 1) :=
    Ends.foldlM ⟨Nat.le_refl 1, by decide⟩ fun score c _ hs => .ok ⟨one_le_mulSat hs.1 (by decide), mulSat_le _ _⟩
  obtain ⟨⟨plen, score⟩, hscan, hplen, htake, hscore⟩ :=
    ends_scanBack password (fun c => decide (c = 33)) scoreBang (Nat.le_refl _) hbangs
  dsimp only at hplen htake hscore
  have hones : Ends (fun r : Nat × Nat => 1 ≤ r.1 ∧ r.1 ≤ u64Max)
      (((password.take plen).reverse.takeWhile (· = 49)).foldlM scoreOne (score, 0)) := by
    refine ends_foldlM_scoreOne hscore ?_
    have hle := (List.takeWhile_prefix (l := (password.take plen).reverse) fun c => decide (c = 49)).length_le
    unfold isizeMax at hfits
    simp only [List.length_reverse, List.length_take] at hle
    omega
  obtain ⟨⟨plen', score', nlen⟩, hscan', hplen', htake', hscore'⟩ :=
    ends_scanBack password (fun c => decide (c = 49)) scoreOne hplen hones
  dsimp only at hplen' htake' hscore'
  have hhalved : Ends (1 ≤ ·) (loop halveRound (nlen + 1) (score', nlen)) := ends_halve hscore'
  obtain ⟨root, hhalve, hroot⟩ := hhalved
  obtain ⟨⟨plen'', score''⟩, hscan'', hplen'', htake'', hscore''⟩ :=
    ends_scanPuncts password (Nat.le_trans hplen' hplen) hroot
  dsimp only at hplen'' htake'' hscore''
  refine ⟨plen'', score'', by omega, ?_, hscore'', ?_⟩
  · rw [beforePunctuation, ← List.reverse_inj, List.reverse_reverse, htake'', htake', htake, List.take_length]
  · simp only [ppasswordScore, hscan, hscan', hhalve, hscan'', ok_bind]

theorem ppasswordScore_of_lt {password : Bytes} (hfits : password.length ≤ isizeMax)
    (h : digitsValue 0 (trailingDigits (beforePunctuation password)) < 2 ^ 64) :
    Ends (1 ≤ ·) (ppasswordScore dict password) := by
  obtain ⟨plen, score, hplen, htake, hscore, heq⟩ := ppasswordScore_eq dict hfits
  rw [heq]
  exact ends_scoreNumber dict hfits hplen hscore (htake ▸ h)

theorem ppasswordScore_of_le {password : Bytes} (hfits : password.length ≤ isizeMax)
    (h : 2 ^ 64 ≤ digitsValue 0 (trailingDigits (beforePunctuation password))) :
    ppasswordScore dict password = .error .overflow := by
  obtain ⟨plen, score, hplen, htake, -, heq⟩ := ppasswordScore_eq dict hfits
  rw [heq]
  exact scoreNumber_of_le dict hfits hplen score (htake ▸ h)

theorem length_of_mem_replicate : ∀ entry ∈ List.replicate 32 (ascii "password"), entry.length = 8 := by
  intro entry hentry
  rw [List.eq_of_mem_replicate hentry]
  decide

/-- A dictionary of one word over and over. -/
def plainDict : PasswordDict where
  entries := List.replicate 32 (ascii "password")
  width := length_of_mem_replicate
  large := Nat.le_refl 32
  fits := Nat.le_of_ble_eq_true rfl

theorem twenties_stop : ¬ ∃ score, ppasswordScore plainDict (List.replicate 20 50) = .ok score ∧ 1 ≤ score := by
  rintro ⟨score, hok, -⟩
  have hvalue : 2 ^ 64 ≤ digitsValue 0 (trailingDigits (beforePunctuation (List.replicate 20 50))) := by decide +kernel
  rw [ppasswordScore_of_le plainDict (by decide) hvalue] at hok
  cases hok

/-- The score is computed, and is not zero, just where the digits at the end are a number of 64 bits from right to
left. -/
theorem ppasswordScore_total_iff (password : Buffer) :
    (∃ score, ppasswordScore dict password.bytes = .ok score ∧ 1 ≤ score) ↔
      digitsValue 0 (trailingDigits (beforePunctuation password.bytes)) < 2 ^ 64 := by
  constructor
  · rintro ⟨score, hok, -⟩
    by_contra hlarge
    rw [ppasswordScore_of_le dict password.fits (Nat.not_lt.mp hlarge)] at hok
    cases hok
  · exact ppasswordScore_of_lt dict password.fits

end Pcloud.PasswordScorer
