import Pcloud.Crypto.Password

/-!
# Guessing the password

Three calls compare a password with the stored profile. `start` consults the lockout counters
before and updates them after. Both forms of `change_password` do neither.
-/

namespace Pcloud.CryptoShell

open BlockChain

variable {PrivKey : Type} (suite : CryptoSuite PrivKey)

/-- Whether a call gets as far as comparing a password, and then whether the password is right. -/
def evaluation (s : CryptoShell PrivKey) (turn : Turn PrivKey) : Option Bool :=
  match turn.call with
  | .start password expected =>
    if (s.startGuard turn.host password expected).isNone then some (s.startAccepts suite password) else none
  | .changePassword _ _ oldPassword newPassword _ =>
    if (s.changeGuard oldPassword newPassword).isNone then some (s.changeAccepts suite oldPassword) else none
  | .changePasswordWithContext _ oldPassword newPassword _ =>
    if s.effectiveBackend = .pclsyncCompat ∧ oldPassword ≠ newPassword ∧ s.pclsyncCompat.isSome then
      some (s.changeAccepts suite oldPassword)
    else none
  | _ => none

/-- A shell, the wrong passwords compared since the last right one, and the time of the last of
them. -/
structure Guesses (PrivKey : Type) where
  shell : CryptoShell PrivKey
  wrong : Nat
  lastAt : Nat

def guess (t : Guesses PrivKey) (turn : Turn PrivKey) : Guesses PrivKey :=
  let shell := t.shell.step suite turn
  match t.shell.evaluation suite turn with
  | none => { t with shell := shell }
  | some true => { shell := shell, wrong := 0, lastAt := t.lastAt }
  | some false => { shell := shell, wrong := t.wrong + 1, lastAt := turn.host.unixSecs }

/-- The calls of an attack. -/
def Call.isAttack : Call PrivKey → Bool
  | .start .. | .changePassword .. | .changePasswordWithContext .. | .stop | .saveRestore .. => true
  | _ => false

/-- A password that is compared comes the backoff after the last wrong one. -/
def InTime (t : Guesses PrivKey) (turn : Turn PrivKey) : Prop :=
  (t.shell.evaluation suite turn).isSome = true → 0 < t.wrong →
    t.lastAt + lockoutBackoffSecs t.wrong ≤ turn.host.unixSecs

/-- A rotation compares only the right password, and not while the counters lock out. A start that
counts a second wrong password in a row is not at the time zero that stands for no failure. -/
def Accounted (s : CryptoShell PrivKey) (turn : Turn PrivKey) : Prop :=
  match turn.call with
  | .start .. => s.evaluation suite turn = some false → s.consecutiveFailures = 0 ∨ 0 < turn.host.unixSecs
  | _ => ∀ right, s.evaluation suite turn = some right → right = true ∧ s.lockedOut turn.host = false

/-! ## What is compared shows in the answer -/

section answers

variable {suite} {host : Host} {s : CryptoShell PrivKey} {password newPassword : String}

theorem start_wrong_iff (expected : Option CryptoBackend) :
    (s.startInner suite host password expected).1 = .error .wrongPassword ↔
      s.evaluation suite ⟨host, .start password expected⟩ = some false := by
  rw [startInner_eq]
  unfold evaluation
  dsimp only
  cases hcase : s.startGuard host password expected with
  | some e => simpa using (startGuard_answers hcase).1
  | none => cases s.startAccepts suite password <;> simp

theorem reencoded_wrong_iff (hbackend : s.effectiveBackend = .pclsyncCompat) (newSalt : Block 64) (flags : UInt64) :
    (s.changePasswordPclsyncCompatReencoded suite newSalt password newPassword flags).1 = .error .wrongPassword ↔
      password ≠ newPassword ∧ s.pclsyncCompat.isSome = true ∧ s.changeAccepts suite password = false := by
  unfold changePasswordPclsyncCompatReencoded changeAccepts compatUnlock
  rw [hbackend]
  by_cases hsame : password = newPassword
  · simp [hsame]
  · cases s.pclsyncCompat with
    | none => simp [hsame]
    | some profile =>
      simp only [hsame, if_false, Option.bind_some]
      cases unlockProfile suite (suite.nfc password) profile with
      | error e => simp [hsame, Except.toOption]
      | ok state =>
        simp only [Except.toOption]
        split
        · simp
        · split <;> simp

theorem changePassword_wrong_iff (newSalt : Block 16) (newCompatSalt : Block 64) (flags : UInt64) :
    (s.changePassword suite host newSalt newCompatSalt password newPassword flags).1 = .error .wrongPassword ↔
      s.evaluation suite ⟨host, .changePassword newSalt newCompatSalt password newPassword flags⟩ = some false := by
  have hne := @changeGuard_ne_wrong _ s password newPassword
  unfold evaluation
  dsimp only
  cases hguard : s.changeGuard password newPassword with
  | some e =>
    rw [hguard] at hne
    rw [s.changePassword_refused suite host hguard]
    simpa using hne
  | none =>
    simp only [Option.isNone_none, if_true, Option.some.injEq]
    cases hbackend : s.effectiveBackend with
    | enhanced =>
      rw [s.changePassword_enhanced suite host hguard hbackend]
      split
      · simp [changePasswordUnlocked_ne_wrong, *]
      · simp [*]
    | pclsyncCompat =>
      obtain ⟨-, -, -, hdiffers, hprofile⟩ := changeGuard_eq_none hguard
      rw [s.changePassword_compat suite host hguard hbackend, reencoded_wrong_iff hbackend]
      have hsome : s.pclsyncCompat.isSome = true := by
        rw [Option.isSome_iff_ne_none]
        exact fun hnone => hprofile ⟨hbackend, hnone⟩
      simp [hdiffers, hsome]

theorem withContext_wrong_iff (newSalt : Block 64) (flags : UInt32) :
    (s.changePasswordWithContext suite newSalt password newPassword flags).1 = .error .wrongPassword ↔
      s.evaluation suite ⟨host, .changePasswordWithContext newSalt password newPassword flags⟩ = some false := by
  unfold changePasswordWithContext evaluation
  cases hbackend : s.effectiveBackend with
  | enhanced => simp
  | pclsyncCompat =>
    have hwrong := @reencoded_wrong_iff _ suite s password newPassword hbackend newSalt flags.toUInt64
    simp only [ne_eq, not_true_eq_false, if_false, true_and]
    rcases s.reencoded_cases suite password newPassword newSalt flags.toUInt64 with
      ⟨e, hfail, -⟩ | ⟨profile, state, privDer, -, -, -, key, hok⟩
    · rw [hfail] at hwrong ⊢
      simp only [Except.error.injEq] at hwrong ⊢
      refine hwrong.trans ?_
      split <;> simp_all
    · rw [hok] at hwrong ⊢
      simp only [reduceCtorEq, false_iff] at hwrong ⊢
      split <;> simp_all

end answers

/-! ## The counters -/

section counters

variable {suite} {s : CryptoShell PrivKey}

theorem lockoutBackoffSecs_mono {k n : Nat} (h : k ≤ n) : lockoutBackoffSecs k ≤ lockoutBackoffSecs n := by
  unfold lockoutBackoffSecs
  split
  · exact Nat.zero_le _
  · have hn : ¬ n ≤ 1 := by omega
    simp only [hn, if_false]
    have hpow : 2 ^ min k 40 ≤ 2 ^ min n 40 := Nat.pow_le_pow_right (by decide) (by omega)
    omega

theorem not_lockedOut {host : Host} (h : s.lockedOut host = false) :
    s.consecutiveFailures < maxConsecutiveFailures ∧
      (0 < lockoutBackoffSecs s.consecutiveFailures → 0 < s.lastFailAt →
        s.lastFailAt + lockoutBackoffSecs s.consecutiveFailures ≤ host.unixSecs) := by
  unfold lockedOut at h
  simp only [Bool.or_eq_false_iff, Bool.and_eq_false_iff, decide_eq_false_iff_not] at h
  omega

theorem startGuard_lockedOut {host : Host} {password : String} {expected : Option CryptoBackend}
    (h : s.startGuard host password expected = none) : s.lockedOut host = false := by
  by_contra hlocked
  unfold startGuard at h
  simp only [Bool.not_eq_false] at hlocked
  simp only [hlocked, if_true] at h
  repeat' split at h
  all_goals cases h

/-- The counters of one shell are those of the other. -/
def SameCounters (s s' : CryptoShell PrivKey) : Prop :=
  s'.consecutiveFailures = s.consecutiveFailures ∧ s'.lastFailAt = s.lastFailAt

theorem sameCounters_openedWith (password : String) : SameCounters s (s.openedWith suite password) := by
  unfold openedWith
  split
  · exact ⟨rfl, rfl⟩
  · exact ⟨rfl, rfl⟩

theorem sameCounters_changePassword (host : Host) (newSalt : Block 16) (newCompatSalt : Block 64)
    (password newPassword : String) (flags : UInt64) :
    SameCounters s (s.changePassword suite host newSalt newCompatSalt password newPassword flags).2 := by
  have hopened := @sameCounters_openedWith _ suite s password
  rcases s.changePassword_snd suite host password newPassword newSalt newCompatSalt flags with
    hsame | ⟨-, profile, hcompat⟩ | ⟨-, hopen | ⟨staged, -, hrotated⟩⟩
  · rw [hsame]
    exact ⟨rfl, rfl⟩
  · rw [hcompat]
    exact ⟨rfl, rfl⟩
  · rw [hopen]
    exact hopened
  · rw [hrotated]
    exact hopened

theorem sameCounters_withContext (newSalt : Block 64) (password newPassword : String) (flags : UInt32) :
    SameCounters s (s.changePasswordWithContext suite newSalt password newPassword flags).2 := by
  rcases s.changePasswordWithContext_snd suite password newPassword newSalt flags with hsame | ⟨profile, hcompat⟩
  · rw [hsame]
    exact ⟨rfl, rfl⟩
  · rw [hcompat]
    exact ⟨rfl, rfl⟩

end counters

/-! ## Attacks -/

section attacks

variable {suite}

/-- The counters of the shell are ahead of the wrong passwords. -/
structure GuessInv (t : Guesses PrivKey) : Prop where
  counted : t.wrong ≤ t.shell.consecutiveFailures
  bounded : t.wrong ≤ maxConsecutiveFailures
  stamped : 0 < t.wrong → t.shell.lastFailAt = t.lastAt
  dated : 2 ≤ t.wrong → 0 < t.shell.lastFailAt

theorem GuessInv.inTime {t : Guesses PrivKey} (hinv : GuessInv t) {host : Host} (hlock : t.shell.lockedOut host = false)
    (htime : t.lastAt ≤ host.unixSecs) :
    t.wrong < maxConsecutiveFailures ∧ (0 < t.wrong → t.lastAt + lockoutBackoffSecs t.wrong ≤ host.unixSecs) := by
  obtain ⟨hcap, hbackoff⟩ := not_lockedOut hlock
  have hmono := lockoutBackoffSecs_mono hinv.counted
  refine ⟨lt_of_le_of_lt hinv.counted hcap, ?_⟩
  intro hpos
  have hstamp := hinv.stamped hpos
  by_cases hone : t.wrong = 1
  · have hnone : lockoutBackoffSecs t.wrong = 0 := by rw [hone]; rfl
    omega
  · have hdate := hinv.dated (by omega)
    by_cases hzero : lockoutBackoffSecs t.wrong = 0
    · omega
    · have hlater := hbackoff (by omega) hdate
      omega

theorem GuessInv.keep {t : Guesses PrivKey} {turn : Turn PrivKey} (hinv : GuessInv t)
    (hsame : SameCounters t.shell (t.shell.step suite turn))
    (hright : t.shell.evaluation suite turn ≠ some false) : GuessInv (guess suite t turn) := by
  obtain ⟨hcount, hlast⟩ := hsame
  unfold guess
  cases hcase : t.shell.evaluation suite turn with
  | none =>
    constructor
    · exact hcount ▸ hinv.counted
    · exact hinv.bounded
    · exact hlast ▸ hinv.stamped
    · exact hlast ▸ hinv.dated
  | some right =>
    cases right with
    | false => exact absurd hcase hright
    | true => constructor <;> simp

theorem guess_start {t : Guesses PrivKey} {host : Host} {password : String} {expected : Option CryptoBackend}
    (hinv : GuessInv t) (hok : t.shell.Accounted suite ⟨host, .start password expected⟩)
    (htime : t.lastAt ≤ host.unixSecs) :
    InTime suite t ⟨host, .start password expected⟩ ∧ GuessInv (guess suite t ⟨host, .start password expected⟩) := by
  have hstep : t.shell.step suite ⟨host, .start password expected⟩ = (t.shell.startInner suite host password expected).2 :=
    rfl
  unfold InTime guess
  rw [hstep, startInner_eq]
  unfold Accounted at hok
  unfold evaluation at hok ⊢
  dsimp only at hok ⊢
  cases hguard : t.shell.startGuard host password expected with
  | some e =>
    simp only [Option.isNone_some, Bool.false_eq_true, if_false, Option.isSome_none, false_implies, true_and]
    exact ⟨hinv.counted, hinv.bounded, hinv.stamped, hinv.dated⟩
  | none =>
    obtain ⟨hbelow, hlater⟩ := hinv.inTime (startGuard_lockedOut hguard) htime
    rw [hguard] at hok
    simp only [Option.isNone_none, if_true, Option.isSome_some, true_implies, Option.some.injEq] at hok ⊢
    refine ⟨hlater, ?_⟩
    cases hright : t.shell.startAccepts suite password with
    | true => constructor <;> simp
    | false =>
      have hzero := hok hright
      have hcounted := hinv.counted
      constructor
      · exact Nat.succ_le_succ hcounted
      · exact hbelow
      · exact fun _ => rfl
      · intro htwo
        show 0 < host.unixSecs
        dsimp only at htwo
        omega

theorem guess_step {t : Guesses PrivKey} {turn : Turn PrivKey} (hinv : GuessInv t)
    (hcall : Call.isAttack turn.call = true) (hok : t.shell.Accounted suite turn)
    (htime : t.lastAt ≤ turn.host.unixSecs) : InTime suite t turn ∧ GuessInv (guess suite t turn) := by
  -- A rotation compares behind the guard as well, and finds the password right.
  have hrotate : (∀ right, t.shell.evaluation suite turn = some right →
      right = true ∧ t.shell.lockedOut turn.host = false) →
      SameCounters t.shell (t.shell.step suite turn) → InTime suite t turn ∧ GuessInv (guess suite t turn) := by
    intro hright hsame
    constructor
    · intro hsome
      obtain ⟨right, hcase⟩ := Option.isSome_iff_exists.mp hsome
      exact (hinv.inTime (hright right hcase).2 htime).2
    · apply hinv.keep hsame
      intro hcase
      cases (hright false hcase).1
  obtain ⟨host, call⟩ := turn
  cases call with
  | start password expected => exact guess_start hinv hok htime
  | changePassword newSalt newCompatSalt oldPassword newPassword flags =>
    exact hrotate hok (sameCounters_changePassword host newSalt newCompatSalt oldPassword newPassword flags)
  | changePasswordWithContext newSalt oldPassword newPassword flags =>
    exact hrotate hok (sameCounters_withContext newSalt oldPassword newPassword flags)
  | stop => exact hrotate hok ⟨rfl, rfl⟩
  | saveRestore newProcess => exact hrotate hok ⟨rfl, rfl⟩
  | _ => cases hcall

theorem guess_lastAt (t : Guesses PrivKey) (turn : Turn PrivKey) :
    (guess suite t turn).lastAt = t.lastAt ∨ (guess suite t turn).lastAt = turn.host.unixSecs := by
  unfold guess
  split
  · exact .inl rfl
  · exact .inl rfl
  · exact .inr rfl

variable (suite) in
theorem attack_bounded {turns : List (Turn PrivKey)} {t : Guesses PrivKey} (hinv : GuessInv t)
    (hcalls : ∀ turn ∈ turns, Call.isAttack turn.call = true)
    (htimes : turns.Pairwise fun turn later => turn.host.unixSecs ≤ later.host.unixSecs)
    (hlast : ∀ turn ∈ turns, t.lastAt ≤ turn.host.unixSecs)
    (hok : Runs.AllSteps (guess suite) (fun t turn => t.shell.Accounted suite turn) t turns) :
    Runs.AllStates (guess suite) (fun t => t.wrong ≤ maxConsecutiveFailures) t turns ∧
      Runs.AllSteps (guess suite) (InTime suite) t turns := by
  induction turns generalizing t with
  | nil => exact ⟨hinv.bounded, trivial⟩
  | cons turn turns ih =>
    rw [List.forall_mem_cons] at hcalls hlast
    rw [List.pairwise_cons] at htimes
    obtain ⟨hhead, hrest⟩ := hok
    obtain ⟨htime, hnext⟩ := guess_step hinv hcalls.1 hhead hlast.1
    have hlast' : ∀ later ∈ turns, (guess suite t turn).lastAt ≤ later.host.unixSecs := by
      intro later hmem
      rcases guess_lastAt t turn with hsame | hnow
      · rw [hsame]
        exact hlast.2 later hmem
      · rw [hnow]
        exact htimes.1 later hmem
    obtain ⟨hstates, hsteps⟩ := ih hnext hcalls.2 htimes.2 hlast' hrest
    exact ⟨⟨hinv.bounded, hstates⟩, htime, hsteps⟩

end attacks

/-- On any shell, however its counters stand. -/
theorem lockout_bounds_guessing (s₀ : CryptoShell PrivKey) (turns : List (Turn PrivKey))
    (hcalls : ∀ turn ∈ turns, Call.isAttack turn.call = true)
    (htimes : turns.Pairwise fun turn later => turn.host.unixSecs ≤ later.host.unixSecs)
    (hok : Runs.AllSteps (guess suite) (fun t turn => t.shell.Accounted suite turn) ⟨s₀, 0, 0⟩ turns) :
    Runs.AllStates (guess suite) (fun t => t.wrong ≤ maxConsecutiveFailures) ⟨s₀, 0, 0⟩ turns ∧
      Runs.AllSteps (guess suite) (InTime suite) ⟨s₀, 0, 0⟩ turns := by
  apply attack_bounded suite _ hcalls htimes (fun _ _ => Nat.zero_le _) hok
  constructor <;> simp

/-- Eleven rotations within a second, each with a wrong old password. -/
def guessByRotation : List (Turn Bytes) :=
  (List.range 11).map fun i =>
    ⟨⟨1, i, nullKms⟩, .changePassword (Block.ofBytes 16 []) (Block.ofBytes 64 []) "x" "y" 0⟩

theorem rotation_guesses_freely :
    plainProfile.isSetup = true ∧ (∀ turn ∈ guessByRotation, Call.isAttack turn.call = true) ∧
      (guessByRotation.Pairwise fun turn later => turn.host.unixSecs ≤ later.host.unixSecs) ∧
      maxConsecutiveFailures < (Runs.run (guess echoSuite) ⟨plainProfile, 0, 0⟩ guessByRotation).wrong ∧
      ¬ Runs.AllSteps (guess echoSuite) (InTime echoSuite) ⟨plainProfile, 0, 0⟩ guessByRotation := by
  refine ⟨by decide, by decide, by decide, by decide +kernel, ?_⟩
  rintro ⟨-, -, hthird, -⟩
  exact absurd (hthird (by decide) (by decide)) (by decide)

/-- Two wrong starts, a right one after the backoff, and a rotation. -/
def patientTurns : List (Turn Bytes) :=
  [⟨⟨1, 0, nullKms⟩, .start "x" none⟩, ⟨⟨1, 0, nullKms⟩, .start "y" none⟩,
    ⟨⟨5, 4 * nanosPerSec, nullKms⟩, .start "a" none⟩,
    ⟨⟨6, 5 * nanosPerSec, nullKms⟩, .changePassword (Block.ofBytes 16 []) (Block.ofBytes 64 []) "a" "b" 0⟩]

theorem lockout_bounds_guessing_patient :
    Runs.AllStates (guess echoSuite) (fun t => t.wrong ≤ maxConsecutiveFailures) ⟨plainProfile, 0, 0⟩ patientTurns ∧
      Runs.AllSteps (guess echoSuite) (InTime echoSuite) ⟨plainProfile, 0, 0⟩ patientTurns := by
  apply lockout_bounds_guessing echoSuite plainProfile patientTurns (by decide) (by decide)
  refine ⟨?_, ?_, ?_, ?_, trivial⟩
  · exact fun _ => .inl rfl
  · exact fun _ => .inr (by decide)
  · exact fun _ => .inr (by decide)
  · intro right hright
    have hcase : evaluation echoSuite
        (Runs.run (guess echoSuite) ⟨plainProfile, 0, 0⟩ (patientTurns.take 3)).shell
        (patientTurns.get ⟨3, by decide⟩) = some true := by decide
    rw [Option.some.inj (hright.symm.trans hcase)]
    exact ⟨rfl, by decide⟩

end Pcloud.CryptoShell
