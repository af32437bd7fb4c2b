import Pcloud.Crypto.Rotation

/-!
# The nonce budget

`sectors_sealed` is to count the sectors sealed under one secret. A rotation of the password clears
it, also where the data key of KMS mode stays. Entering KMS mode does not clear it. A seal that does
not get at the secret keeps the slot that it reserved.
-/

namespace Pcloud.CryptoShell

open BlockChain

variable {PrivKey : Type} (suite : CryptoSuite PrivKey)

/-- A shell, and the sectors that were sealed under the secret that its file keys now come from. -/
structure Account (PrivKey : Type) where
  shell : CryptoShell PrivKey
  sealedUnder : Nat

/-- Whether the success of a call gives the file keys another secret. In KMS mode that is the data
key, whatever becomes of the password. -/
def newSecret (s : CryptoShell PrivKey) : Call PrivKey → Bool
  | .setupWithBackend _ _ _ backend => backend == .enhanced && s.mode == .raw
  | .enableKmsMode .. => true
  | .changePasswordUnlocked .. => s.mode == .raw
  | .changePassword .. => s.effectiveBackend == .enhanced && s.mode == .raw
  | _ => false

def sealedAfter (s : CryptoShell PrivKey) (call : Call PrivKey) (ok : Bool) (sealed : Nat) : Nat :=
  if !ok then sealed
  else
    match call with
    | .sealSector .. => sealed + 1
    | call => if s.newSecret call then 0 else sealed

def account (t : Account PrivKey) (turn : Turn PrivKey) : Account PrivKey where
  shell := t.shell.step suite turn
  sealedUnder := t.shell.sealedAfter turn.call (t.shell.succeeds suite turn) t.sealedUnder

/-- The calls that the budget is about. -/
def Call.isBudgeted : Call PrivKey → Bool
  | .setupWithBackend .. | .start .. | .stop | .saveRestore .. | .enableKmsMode .. | .changePasswordUnlocked ..
  | .changePassword .. | .sealSector .. => true
  | _ => false

def Tally (t : Account PrivKey) : Prop :=
  t.shell.sectorsSealed = t.sealedUnder ∧ t.sealedUnder ≤ nonceBudgetCap

def FailureKeeps (t : Account PrivKey) (turn : Turn PrivKey) : Prop :=
  t.shell.succeeds suite turn = false → (t.shell.step suite turn).sectorsSealed = t.shell.sectorsSealed

/-! ## What each call needs to succeed -/

def setsUp (s : CryptoShell PrivKey) (password : String) : Bool :=
  s.policyIsSafe && !password.isEmpty && !s.isSetup

def entersKms (s : CryptoShell PrivKey) (host : Host) (dek : Block 32) (keyId : String) (context : Option String) :
    Bool :=
  s.policyIsSafe && host.kms.name != "null" && (host.kms.encryptDek keyId dek.1 context).isOk

def rotates (s : CryptoShell PrivKey) (host : Host) (newPassword : String) : Bool :=
  s.policyIsSafe && !newPassword.isEmpty && s.keys.activeKeyMaterial.isSome && (s.stagedMode host).isOk

def rotatesFrom (s : CryptoShell PrivKey) (host : Host) (oldPassword newPassword : String) : Bool :=
  (s.changeGuard oldPassword newPassword).isNone && s.changeAccepts suite oldPassword &&
    (s.openedWith suite oldPassword).rotates host newPassword

/-- No seal reserves a slot and then fails to get at the secret. A secret comes new to a counter that
stands at zero, and a data key that a rotation keeps has sealed nothing yet. -/
def Budgeted (s : CryptoShell PrivKey) (turn : Turn PrivKey) : Prop :=
  match turn.call with
  | .setupWithBackend _ password _ backend =>
    backend = .enhanced → s.mode = .raw → s.setsUp password = true → s.sectorsSealed = 0
  | .enableKmsMode dek keyId context => s.entersKms turn.host dek keyId context = true → s.sectorsSealed = 0
  | .changePasswordUnlocked _ newPassword _ =>
    s.mode ≠ .raw → s.rotates turn.host newPassword = true → s.sectorsSealed = 0
  | .changePassword _ _ oldPassword newPassword _ =>
    s.effectiveBackend = .enhanced → s.mode ≠ .raw → s.rotatesFrom suite turn.host oldPassword newPassword = true →
      s.sectorsSealed = 0
  | .sealSector .. =>
    s.effectiveBackend = .enhanced → s.sectorsSealed < nonceBudgetCap → (s.sectorSecret turn.host).isOk = true
  | _ => True

section calls

variable {suite} {host : Host} {s : CryptoShell PrivKey}

theorem setup_isOk (seed : ProfileSeed PrivKey) (password : String) (hint : Option String) :
    (s.setupWithBackend suite seed password hint .enhanced).1.isOk = s.setsUp password := by
  show (setupEnhanced suite password hint s).1.isOk = _
  unfold setupEnhanced setsUp
  cases s.policyIsSafe <;> cases password.isEmpty <;> cases s.isSetup <;> rfl

theorem setup_sectorsSealed (seed : ProfileSeed PrivKey) (password : String) (hint : Option String)
    (backend : CryptoBackend) :
    (s.setupWithBackend suite seed password hint backend).2.sectorsSealed = s.sectorsSealed := by
  rcases setupWithBackend_cases suite seed password hint backend s with
    ⟨e, hfail⟩ | ⟨-, -, -, ⟨-, hok⟩ | ⟨-, profile, -, hok⟩⟩
  · rw [hfail]
  · rw [hok]
    rfl
  · rw [hok]
    rfl

theorem start_sectorsSealed (password : String) (expected : Option CryptoBackend) :
    (s.startInner suite host password expected).2.sectorsSealed = s.sectorsSealed := by
  rw [startInner_eq]
  split
  · rfl
  · split
    · unfold startedWith
      split <;> rfl
    · rfl

theorem enableKmsMode_isOk (dek : Block 32) (keyId : String) (context : Option String) :
    (s.enableKmsMode host dek keyId context).1.isOk = s.entersKms host dek keyId context := by
  unfold enableKmsMode entersKms
  by_cases hpolicy : s.policyIsSafe = true
  · by_cases hnull : host.kms.name = "null"
    · simp [hpolicy, hnull]
    · cases host.kms.encryptDek keyId dek.1 context <;> simp [hpolicy, hnull]
  · simp [hpolicy]

theorem enableKmsMode_sectorsSealed (dek : Block 32) (keyId : String) (context : Option String) :
    (s.enableKmsMode host dek keyId context).2.sectorsSealed = s.sectorsSealed := by
  rcases s.enableKmsMode_snd host dek keyId context with hsame | ⟨wrapped, -, hmode⟩
  · rw [hsame]
  · rw [hmode]

theorem changePasswordUnlocked_counter (newSalt : Block 16) (newPassword : String) (flags : UInt64) :
    (s.changePasswordUnlocked suite host newSalt newPassword flags).1.isOk = s.rotates host newPassword ∧
      (s.changePasswordUnlocked suite host newSalt newPassword flags).2.sectorsSealed =
        if s.rotates host newPassword then 0 else s.sectorsSealed := by
  unfold rotates
  rcases s.changePasswordUnlocked_cases suite host newPassword newSalt flags with
    ⟨e, hfail, hwhy⟩ | ⟨staged, hkey, hnew, hstaged, key, hok⟩
  · have hnot : (s.policyIsSafe && !newPassword.isEmpty && s.keys.activeKeyMaterial.isSome &&
        (s.stagedMode host).isOk) = false := by
      rcases hwhy with hrisk | hnew | hnone | hstaged
      · simp [hrisk]
      · simp [hnew]
      · simp [hnone]
      · simp [hstaged]
    rw [hfail, hnot]
    exact ⟨rfl, rfl⟩
  · have hpolicy : s.policyIsSafe = true := by
      by_contra hsafe
      have hrisk : s.policyIsSafe = false := by simpa using hsafe
      simp [changePasswordUnlocked, hrisk] at hok
    rw [hok]
    simp [hpolicy, hkey, hnew, hstaged, commitRotation]

theorem changePassword_counter (hbackend : s.effectiveBackend = .enhanced) (newSalt : Block 16)
    (newCompatSalt : Block 64) (oldPassword newPassword : String) (flags : UInt64) :
    (s.changePassword suite host newSalt newCompatSalt oldPassword newPassword flags).1.isOk =
        s.rotatesFrom suite host oldPassword newPassword ∧
      (s.changePassword suite host newSalt newCompatSalt oldPassword newPassword flags).2.sectorsSealed =
        if s.rotatesFrom suite host oldPassword newPassword then 0 else s.sectorsSealed := by
  unfold rotatesFrom
  cases hguard : s.changeGuard oldPassword newPassword with
  | some e =>
    rw [s.changePassword_refused suite host hguard]
    exact ⟨rfl, rfl⟩
  | none =>
    rw [s.changePassword_enhanced suite host hguard hbackend]
    cases hright : s.changeAccepts suite oldPassword with
    | false => exact ⟨rfl, rfl⟩
    | true =>
      have hopened : (s.openedWith suite oldPassword).sectorsSealed = s.sectorsSealed := by
        unfold openedWith
        split <;> rfl
      have hcounter := @changePasswordUnlocked_counter _ suite host (s.openedWith suite oldPassword) newSalt newPassword
        flags
      simpa [hopened] using hcounter

theorem changePassword_compat_counter (hbackend : s.effectiveBackend = .pclsyncCompat) (newSalt : Block 16)
    (newCompatSalt : Block 64) (oldPassword newPassword : String) (flags : UInt64) :
    (s.changePassword suite host newSalt newCompatSalt oldPassword newPassword flags).2.sectorsSealed =
      s.sectorsSealed := by
  rcases s.changePassword_snd suite host oldPassword newPassword newSalt newCompatSalt flags with
    hsame | ⟨-, profile, hcompat⟩ | ⟨henhanced, -⟩
  · rw [hsame]
  · rw [hcompat]
  · rw [hbackend] at henhanced
    cases henhanced

end calls

/-! ## The account of a run -/

section account

variable {suite} {host : Host} {t : Account PrivKey}

variable (suite t) in
theorem tally_account (turn : Turn PrivKey) {ok : Bool} {n : Nat}
    (hok : (t.shell.exec suite turn.host turn.call).1.isOk = ok)
    (hn : (t.shell.exec suite turn.host turn.call).2.sectorsSealed = n) :
    Tally (account suite t turn) ↔
      n = t.shell.sealedAfter turn.call ok t.sealedUnder ∧
        t.shell.sealedAfter turn.call ok t.sealedUnder ≤ nonceBudgetCap := by
  subst hok hn
  exact Iff.rfl

theorem account_seal (htally : Tally t) (nonce : Option (Block 12)) (fileSeed : Bytes) (index : UInt32)
    (plaintext : Bytes) :
    Tally (account suite t ⟨host, .sealSector nonce fileSeed index plaintext⟩) ↔
      t.shell.Budgeted suite ⟨host, .sealSector nonce fileSeed index plaintext⟩ := by
  obtain ⟨heq, hcap⟩ := htally
  -- What the seal comes to decides the rest.
  have houtcome {answer : Except CryptoError Bytes} {s' : CryptoShell PrivKey}
      (h : t.shell.sealSector suite host nonce fileSeed index plaintext = (answer, s')) :
      Tally (account suite t ⟨host, .sealSector nonce fileSeed index plaintext⟩) ↔
        s'.sectorsSealed = (if !answer.isOk then t.sealedUnder else t.sealedUnder + 1) ∧
          (if !answer.isOk then t.sealedUnder else t.sealedUnder + 1) ≤ nonceBudgetCap := by
    refine tally_account suite t ⟨host, .sealSector nonce fileSeed index plaintext⟩ ?_ ?_
    · exact (isOk_reply _ _).trans (congrArg (·.1.isOk) h)
    · exact congrArg (·.2.sectorsSealed) h
  unfold Budgeted
  cases hbackend : t.shell.effectiveBackend with
  | pclsyncCompat =>
    obtain ⟨e, hfail⟩ : ∃ e, t.shell.sealSector suite host nonce fileSeed index plaintext = (.error e, t.shell) := by
      unfold sealSector
      simp only [hbackend, if_true]
      split
      · exact ⟨_, rfl⟩
      · exact ⟨_, rfl⟩
    rw [houtcome hfail]
    simp [heq, hcap]
  | enhanced =>
    rcases t.shell.sealSector_cases suite host hbackend nonce fileSeed index plaintext with
      ⟨hfull, hseal⟩ | ⟨hroom, ⟨e, hsecret, hseal⟩ | ⟨secret, hsecret, ⟨frame, -, hseal⟩ | ⟨e, hseal⟩⟩⟩
    · have hnone : ¬ t.sealedUnder < nonceBudgetCap := by omega
      rw [houtcome hseal]
      simp [hnone, heq, hcap]
    · -- The slot stays reserved.
      have hleft : t.sealedUnder < nonceBudgetCap := by omega
      rw [houtcome hseal]
      simp [hleft, hsecret, heq]
    · have hnext : t.sealedUnder + 1 ≤ nonceBudgetCap := by omega
      rw [houtcome hseal]
      simp [hsecret, heq, hnext]
    · rw [houtcome hseal]
      simp [hsecret, heq, hcap]

theorem account_step {turn : Turn PrivKey} (hcall : Call.isBudgeted turn.call = true) (htally : Tally t) :
    Tally (account suite t turn) ↔ t.shell.Budgeted suite turn := by
  obtain ⟨host, call⟩ := turn
  obtain ⟨heq, hcap⟩ := htally
  cases call with
  | sealSector nonce fileSeed index plaintext => exact account_seal ⟨heq, hcap⟩ nonce fileSeed index plaintext
  | setupWithBackend seed password hint backend =>
    rw [tally_account suite t ⟨host, .setupWithBackend seed password hint backend⟩ (isOk_reply _ _)
      (setup_sectorsSealed seed password hint backend)]
    unfold sealedAfter newSecret Budgeted
    dsimp only
    cases backend with
    | pclsyncCompat => simp [heq, hcap]
    | enhanced =>
      rw [setup_isOk]
      cases t.shell.setsUp password <;> cases t.shell.mode <;> simp [heq, hcap]
  | enableKmsMode dek keyId context =>
    rw [tally_account suite t ⟨host, .enableKmsMode dek keyId context⟩
      ((isOk_reply _ _).trans (enableKmsMode_isOk dek keyId context)) (enableKmsMode_sectorsSealed dek keyId context)]
    unfold sealedAfter newSecret Budgeted
    dsimp only
    cases t.shell.entersKms host dek keyId context <;> simp [heq, hcap]
  | changePasswordUnlocked newSalt newPassword flags =>
    obtain ⟨hok, hcounter⟩ := @changePasswordUnlocked_counter _ suite host t.shell newSalt newPassword flags
    rw [tally_account suite t ⟨host, .changePasswordUnlocked newSalt newPassword flags⟩ ((isOk_reply _ _).trans hok)
      hcounter]
    unfold sealedAfter newSecret Budgeted
    dsimp only
    cases t.shell.rotates host newPassword <;> cases t.shell.mode <;> simp [heq, hcap, @eq_comm Nat 0]
  | changePassword newSalt newCompatSalt oldPassword newPassword flags =>
    cases hbackend : t.shell.effectiveBackend with
    | pclsyncCompat =>
      rw [tally_account suite t ⟨host, .changePassword newSalt newCompatSalt oldPassword newPassword flags⟩
        (isOk_reply _ _) (changePassword_compat_counter hbackend newSalt newCompatSalt oldPassword newPassword flags)]
      unfold sealedAfter newSecret Budgeted
      simp [hbackend, heq, hcap]
    | enhanced =>
      obtain ⟨hok, hcounter⟩ := @changePassword_counter _ suite host t.shell hbackend newSalt newCompatSalt oldPassword
        newPassword flags
      rw [tally_account suite t ⟨host, .changePassword newSalt newCompatSalt oldPassword newPassword flags⟩
        ((isOk_reply _ _).trans hok) hcounter]
      unfold sealedAfter newSecret Budgeted
      dsimp only
      rw [hbackend]
      cases t.shell.rotatesFrom suite host oldPassword newPassword <;> cases t.shell.mode <;>
        simp [heq, hcap, @eq_comm Nat 0]
  | start password expected =>
    rw [tally_account suite t ⟨host, .start password expected⟩ (isOk_reply _ _)
      (start_sectorsSealed password expected)]
    unfold sealedAfter newSecret Budgeted
    simp [heq, hcap]
  | stop =>
    rw [tally_account suite t ⟨host, .stop⟩ rfl rfl]
    unfold sealedAfter newSecret Budgeted
    simp [exec, stop, heq, hcap]
  | saveRestore newProcess =>
    rw [tally_account suite t ⟨host, .saveRestore newProcess⟩ rfl rfl]
    unfold sealedAfter newSecret Budgeted
    simp [exec, saveRestore, heq, hcap]
  | _ => cases hcall

theorem failureKeeps_of_tally {turn : Turn PrivKey} (h : Tally t) (hnext : Tally (account suite t turn)) :
    FailureKeeps suite t turn := by
  intro hfail
  have hcount := hnext.1
  unfold account sealedAfter at hcount
  rw [hfail] at hcount
  exact hcount.trans h.1.symm

end account

theorem nonce_budget_iff {t : Account PrivKey} (htally : Tally t) {turns : List (Turn PrivKey)}
    (hcalls : ∀ turn ∈ turns, Call.isBudgeted turn.call = true) :
    (Runs.AllStates (account suite) Tally t turns ∧ Runs.AllSteps (account suite) (FailureKeeps suite) t turns) ↔
      Runs.AllSteps (account suite) (fun t turn => t.shell.Budgeted suite turn) t turns := by
  have hiff : Runs.AllStates (account suite) Tally t turns ↔
      Runs.AllSteps (account suite) (fun t turn => t.shell.Budgeted suite turn) t turns :=
    Runs.allStates_iff_allSteps_of_invariant (I := fun _ => True) hcalls (fun _ _ _ _ => trivial)
      (fun t turn hcall _ h => account_step hcall h) trivial htally
  rw [← hiff]
  constructor
  · exact And.left
  · intro hstates
    exact ⟨hstates, hstates.allSteps fun t turn h hnext => failureKeeps_of_tally h hnext⟩

/-- A sector is sealed under a data key. -/
def sealInKms : List (Turn Bytes) :=
  [⟨⟨1, 0, echoKms⟩, .enableKmsMode (Block.ofBytes 32 []) "cmk" none⟩, ⟨⟨1, 0, echoKms⟩, .start "a" none⟩,
    ⟨⟨1, 0, echoKms⟩, .sealSector (some (Block.ofBytes 12 [])) [] 0 [1]⟩]

/-- A seal that fails takes a slot, and a rotation forgets what was sealed under the data key that it
keeps. -/
theorem budget_not_per_key :
    let locked := account echoSuite ⟨plainProfile, 0⟩
      ⟨⟨1, 0, nullKms⟩, .sealSector (some (Block.ofBytes 12 [])) [] 0 [1]⟩
    let rotated := Runs.run (account echoSuite) ⟨plainProfile, 0⟩
      (sealInKms ++ [⟨⟨1, 0, echoKms⟩, .changePassword (Block.ofBytes 16 []) (Block.ofBytes 64 []) "a" "b" 0⟩])
    locked.shell.sectorsSealed = 1 ∧ locked.sealedUnder = 0 ∧
      rotated.shell.sectorsSealed = 0 ∧ rotated.sealedUnder = 1 := by
  decide +kernel

theorem nonce_budget_iff_kms :
    (Runs.AllStates (account echoSuite) Tally ⟨plainProfile, 0⟩ sealInKms ∧
        Runs.AllSteps (account echoSuite) (FailureKeeps echoSuite) ⟨plainProfile, 0⟩ sealInKms) ↔
      Runs.AllSteps (account echoSuite) (fun t turn => t.shell.Budgeted echoSuite turn) ⟨plainProfile, 0⟩ sealInKms :=
  @nonce_budget_iff _ echoSuite ⟨plainProfile, 0⟩ ⟨rfl, by decide⟩ sealInKms (by decide)

end Pcloud.CryptoShell
