import Pcloud.Crypto.Outcomes

/-!
# The last password set

Setup and both unlock paths normalise the password. The Enhanced rotation does not, and neither
does the check of the old password. So a password is accepted by everything just where its
spelling makes no difference.
-/

namespace Pcloud.CryptoShell

open BlockChain

variable {PrivKey : Type} (suite : CryptoSuite PrivKey)

/-- The last password that was set, after a call that succeeded or not. -/
def passwordAfter (last : Option String) (call : Call PrivKey) (ok : Bool) : Option String :=
  if !ok then last
  else
    match call with
    | .setupWithBackend _ password _ _ => some password
    | .changePasswordUnlocked _ newPassword _ => some newPassword
    | .changePassword _ _ _ newPassword _ => some newPassword
    | .changePasswordWithContext _ _ newPassword _ => some newPassword
    | .reset => none
    | _ => last

/-- A shell and the last password that was set on it. -/
structure Tracked (PrivKey : Type) where
  shell : CryptoShell PrivKey
  lastPassword : Option String

def track (t : Tracked PrivKey) (turn : Turn PrivKey) : Tracked PrivKey where
  shell := t.shell.step suite turn
  lastPassword := passwordAfter t.lastPassword turn.call (t.shell.succeeds suite turn)

/-- The fingerprint that an Enhanced shell stores for a password as it is typed. -/
def typedFingerprint (s : CryptoShell PrivKey) (typed : String) : Block 32 :=
  fingerprintFor suite (s.keys.deriveKeyMaterial suite typed)

/-! ## What a shell knows of its password -/

def EnhancedPassword (password : String) (s : CryptoShell PrivKey) : Prop :=
  s.backend = some .enhanced ∧
    ∃ typed, (typed = password ∨ typed = suite.nfc password) ∧
      s.keys.setupFingerprint = some (s.typedFingerprint suite typed)

def CompatPassword (password : String) (s : CryptoShell PrivKey) : Prop :=
  s.backend = some .pclsyncCompat ∧ s.keys.activeKeyMaterial = none ∧
    (s.compatUnlock suite (suite.nfc password)).isSome = true

def PasswordInv (t : Tracked PrivKey) : Prop :=
  match t.lastPassword with
  | none => t.shell.isSetup = false ∧ t.shell.keys.activeKeyMaterial = none
  | some password =>
    t.shell.policyIsSafe = true ∧
      (EnhancedPassword suite password t.shell ∨ CompatPassword suite password t.shell)

/-- The profile stays, and no key becomes resident. -/
structure KeepsProfile (s s' : CryptoShell PrivKey) : Prop where
  backend : s'.backend = s.backend
  salt : s'.keys.derivationSalt = s.keys.derivationSalt
  fingerprint : s'.keys.setupFingerprint = s.keys.setupFingerprint
  compat : s'.pclsyncCompat = s.pclsyncCompat
  policy : s'.persistMasterKey = s.persistMasterKey
  key : s'.keys.activeKeyMaterial = s.keys.activeKeyMaterial ∨ s'.keys.activeKeyMaterial = none

section keeps

variable {suite} {host : Host} {s s' : CryptoShell PrivKey}

theorem KeepsProfile.same (s : CryptoShell PrivKey) : KeepsProfile s s := ⟨rfl, rfl, rfl, rfl, rfl, .inl rfl⟩

variable (host s) in
theorem keepsProfile_afterUse : KeepsProfile s (s.afterUse host) := by
  unfold afterUse
  split
  · exact ⟨rfl, rfl, rfl, rfl, rfl, .inr rfl⟩
  · exact ⟨rfl, rfl, rfl, rfl, rfl, .inl rfl⟩

theorem Touched.keepsProfile (h : Touched host s s') : KeepsProfile s s' := by
  cases h with
  | same => exact .same s
  | used => exact keepsProfile_afterUse host s
  | reserved =>
    have h := keepsProfile_afterUse host s
    exact ⟨h.backend, h.salt, h.fingerprint, h.compat, h.policy, h.key⟩
  | registered => exact ⟨rfl, rfl, rfl, rfl, rfl, .inl rfl⟩
  | cached => exact ⟨rfl, rfl, rfl, rfl, rfl, .inl rfl⟩

/-- A call that sets no password, erases none and does not unlock. -/
def Call.keepsProfile : Call PrivKey → Bool
  | .setupWithBackend .. | .start .. | .reset | .changePasswordUnlocked .. | .changePassword ..
  | .changePasswordWithContext .. => false
  | _ => true

theorem keepsProfile_step {turn : Turn PrivKey} (h : Call.keepsProfile turn.call = true) :
    KeepsProfile s (s.step suite turn) := by
  obtain ⟨host, call⟩ := turn
  cases call with
  | setupWithBackend | start | reset | changePasswordUnlocked | changePassword | changePasswordWithContext => cases h
  | stop => exact ⟨rfl, rfl, rfl, rfl, rfl, .inr rfl⟩
  | saveRestore newProcess => exact ⟨rfl, rfl, rfl, rfl, rfl, .inr rfl⟩
  | enableKmsMode dek keyId context =>
    show KeepsProfile s (s.enableKmsMode host dek keyId context).2
    rcases s.enableKmsMode_snd host dek keyId context with hsame | ⟨wrapped, -, hmode⟩
    · rw [hsame]
      exact .same s
    · rw [hmode]
      exact ⟨rfl, rfl, rfl, rfl, rfl, .inl rfl⟩
  | _ => exact Touched.keepsProfile (s.touched_step suite rfl)

end keeps

/-! ## Every call keeps what is known -/

section inv

variable {suite} {s s' : CryptoShell PrivKey} {password : String}

theorem EnhancedPassword.of_keeps (h : EnhancedPassword suite password s) (hkeep : KeepsProfile s s') :
    EnhancedPassword suite password s' := by
  obtain ⟨hbackend, typed, htyped, hprint⟩ := h
  refine ⟨hkeep.backend.trans hbackend, typed, htyped, ?_⟩
  rw [hkeep.fingerprint, hprint]
  simp only [typedFingerprint, KeyManager.deriveKeyMaterial, hkeep.salt]

theorem CompatPassword.of_keeps (h : CompatPassword suite password s) (hkeep : KeepsProfile s s') :
    CompatPassword suite password s' := by
  obtain ⟨hbackend, hkey, hunlock⟩ := h
  refine ⟨hkeep.backend.trans hbackend, ?_, ?_⟩
  · rcases hkeep.key with hsame | hnone
    · exact hsame.trans hkey
    · exact hnone
  · rwa [compatUnlock, hkeep.compat]

theorem PasswordInv.of_keeps {last : Option String} (h : PasswordInv suite ⟨s, last⟩) (hkeep : KeepsProfile s s') :
    PasswordInv suite ⟨s', last⟩ := by
  cases last with
  | none =>
    obtain ⟨hsetup, hkey⟩ := h
    constructor
    · show s'.isSetup = false
      rwa [isSetup, hkeep.fingerprint, hkeep.compat]
    · rcases hkeep.key with hsame | hnone
      · exact hsame.trans hkey
      · exact hnone
  | some password =>
    obtain ⟨hpolicy, henhanced | hcompat⟩ := h
    · exact ⟨by rwa [policyIsSafe, hkeep.policy], .inl (henhanced.of_keeps hkeep)⟩
    · exact ⟨by rwa [policyIsSafe, hkeep.policy], .inr (hcompat.of_keeps hkeep)⟩

theorem EnhancedPassword.effective (h : EnhancedPassword suite password s) : s.effectiveBackend = .enhanced := by
  simp [effectiveBackend, h.1]

theorem CompatPassword.effective (h : CompatPassword suite password s) : s.effectiveBackend = .pclsyncCompat := by
  simp [effectiveBackend, h.1]

theorem PasswordInv.isSetup (h : PasswordInv suite ⟨s, some password⟩) : s.isSetup = true := by
  obtain ⟨-, ⟨-, typed, -, hprint⟩ | ⟨-, -, hunlock⟩⟩ := h
  · simp [CryptoShell.isSetup, show s.keys.setupFingerprint = _ from hprint]
  · have hsome : s.pclsyncCompat.isSome = true := by
      cases hprofile : s.pclsyncCompat with
      | none => simp [compatUnlock, hprofile] at hunlock
      | some profile => rfl
    simp [CryptoShell.isSetup, hsome]

/-! ### Calls that change what is known -/

variable {host : Host} {last : Option String}

theorem passwordInv_setup (h : PasswordInv suite ⟨s, last⟩) (seed : ProfileSeed PrivKey) (password : String)
    (hint : Option String) (backend : CryptoBackend) :
    PasswordInv suite ⟨(s.setupWithBackend suite seed password hint backend).2,
      if (s.setupWithBackend suite seed password hint backend).1.isOk then some password else last⟩ := by
  rcases setupWithBackend_cases suite seed password hint backend s with
    ⟨e, hfail⟩ | ⟨hpolicy, -, hsetup, ⟨-, hok⟩ | ⟨-, profile, hprofile, hok⟩⟩
  · rw [hfail]
    exact h
  · rw [hok]
    exact ⟨hpolicy, .inl ⟨rfl, suite.nfc password, .inr rfl, rfl⟩⟩
  · rw [hok]
    obtain ⟨privKey, -, hunlock⟩ := unlockProfile_generateProfile hprofile
    refine ⟨hpolicy, .inr ⟨rfl, ?_, ?_⟩⟩
    · cases last with
      | none => exact h.2
      | some earlier =>
        rw [h.isSetup] at hsetup
        cases hsetup
    · simp [compatUnlock, installCompat, hunlock, Except.toOption]

theorem passwordInv_start (h : PasswordInv suite ⟨s, last⟩) (password : String) (expected : Option CryptoBackend) :
    PasswordInv suite ⟨(s.startInner suite host password expected).2, last⟩ := by
  rw [startInner_eq]
  cases hguard : s.startGuard host password expected with
  | some e => exact h
  | none =>
    have hfail : PasswordInv suite ⟨s.recordFailure host, last⟩ := h.of_keeps ⟨rfl, rfl, rfl, rfl, rfl, .inl rfl⟩
    cases last with
    | none =>
      have hsetup : s.isSetup = false := h.1
      unfold startGuard at hguard
      rw [hsetup] at hguard
      split at hguard
      · cases hguard
      · split at hguard
        · cases hguard
        · cases hguard
    | some known =>
      dsimp only
      split
      · obtain ⟨hpolicy, henhanced | hcompat⟩ := h
        · have hstarted := henhanced.effective
          unfold startedWith
          rw [hstarted]
          exact ⟨hpolicy, .inl ⟨rfl, henhanced.2⟩⟩
        · have hstarted := hcompat.effective
          unfold startedWith
          rw [hstarted]
          exact ⟨hpolicy, .inr ⟨rfl, hcompat.2.1, hcompat.2.2⟩⟩
      · exact hfail

theorem passwordInv_rotate (hbackend : s.backend = some .enhanced) (hpolicy : s.policyIsSafe = true)
    (newSalt : Block 16) (newPassword : String) (flags : UInt64) (staged : Option CryptoMode) :
    PasswordInv suite ⟨s.commitRotation suite host newSalt
      (deriveKeyMaterialWithSalt suite newPassword newSalt.1) flags staged, some newPassword⟩ :=
  ⟨hpolicy, .inl ⟨hbackend, newPassword, .inl rfl, rfl⟩⟩

theorem passwordInv_changePasswordUnlocked (h : PasswordInv suite ⟨s, last⟩) (newSalt : Block 16)
    (newPassword : String) (flags : UInt64) :
    PasswordInv suite ⟨(s.changePasswordUnlocked suite host newSalt newPassword flags).2,
      if (s.changePasswordUnlocked suite host newSalt newPassword flags).1.isOk then some newPassword else last⟩ := by
  rcases s.changePasswordUnlocked_cases suite host newPassword newSalt flags with
    ⟨e, hfail, -⟩ | ⟨staged, hkey, -, -, key, hok⟩
  · rw [hfail]
    exact h
  · rw [hok]
    cases last with
    | none =>
      have hnone : s.keys.activeKeyMaterial = none := h.2
      simp [hnone] at hkey
    | some known =>
      obtain ⟨hpolicy, henhanced | ⟨-, hnone, -⟩⟩ := h
      · exact passwordInv_rotate henhanced.1 hpolicy newSalt newPassword flags staged
      · rw [show s.keys.activeKeyMaterial = none from hnone] at hkey
        cases hkey

theorem passwordInv_reencoded (h : PasswordInv suite ⟨s, last⟩) (hbackend : s.effectiveBackend = .pclsyncCompat)
    (newSalt : Block 64) (oldPassword newPassword : String) (flags : UInt64) :
    PasswordInv suite ⟨(s.changePasswordPclsyncCompatReencoded suite newSalt oldPassword newPassword flags).2,
      if (s.changePasswordPclsyncCompatReencoded suite newSalt oldPassword newPassword flags).1.isOk then
        some newPassword else last⟩ := by
  rcases s.reencoded_cases suite oldPassword newPassword newSalt flags with
    ⟨e, hfail, -⟩ | ⟨profile, state, privDer, hprofile, -, hder, key, hok⟩
  · rw [hfail]
    exact h
  · rw [hok]
    cases last with
    | none =>
      have hsetup : s.isSetup = false := h.1
      simp [isSetup, hprofile] at hsetup
    | some known =>
      obtain ⟨hpolicy, henhanced | ⟨hcompat, hkey, -⟩⟩ := h
      · have heff : s.effectiveBackend = .enhanced := henhanced.effective
        rw [heff] at hbackend
        cases hbackend
      · have hunlock := @unlockProfile_wrapped _ suite (rewrappedProfile suite newSalt newPassword flags privDer profile)
          (suite.nfc newPassword) _ newSalt state.privKey privDer hder rfl rfl
        exact ⟨hpolicy, .inr ⟨hcompat, hkey, by simp [compatUnlock, hunlock, Except.toOption]⟩⟩

theorem passwordInv_openedWith (h : PasswordInv suite ⟨s, last⟩) (hsetup : s.isSetup = true)
    (hbackend : s.effectiveBackend = .enhanced) (oldPassword : String) :
    PasswordInv suite ⟨s.openedWith suite oldPassword, last⟩ := by
  cases last with
  | none =>
    have hnone : s.isSetup = false := h.1
    rw [hnone] at hsetup
    cases hsetup
  | some known =>
    unfold openedWith
    split
    · exact h
    · obtain ⟨hpolicy, henhanced | hcompat⟩ := h
      · exact ⟨hpolicy, .inl ⟨henhanced.1, henhanced.2⟩⟩
      · have heff : s.effectiveBackend = .pclsyncCompat := hcompat.effective
        rw [heff] at hbackend
        cases hbackend

theorem passwordInv_changePassword (h : PasswordInv suite ⟨s, last⟩) (newSalt : Block 16) (newCompatSalt : Block 64)
    (oldPassword newPassword : String) (flags : UInt64) :
    PasswordInv suite ⟨(s.changePassword suite host newSalt newCompatSalt oldPassword newPassword flags).2,
      if (s.changePassword suite host newSalt newCompatSalt oldPassword newPassword flags).1.isOk then
        some newPassword else last⟩ := by
  cases hguard : s.changeGuard oldPassword newPassword with
  | some e =>
    rw [s.changePassword_refused suite host hguard]
    exact h
  | none =>
    cases hbackend : s.effectiveBackend with
    | pclsyncCompat =>
      rw [s.changePassword_compat suite host hguard hbackend]
      exact passwordInv_reencoded h hbackend newCompatSalt oldPassword newPassword flags
    | enhanced =>
      rw [s.changePassword_enhanced suite host hguard hbackend]
      split
      · have hsetup := (changeGuard_eq_none hguard).2.2.1
        exact passwordInv_changePasswordUnlocked (passwordInv_openedWith h hsetup hbackend oldPassword) newSalt
          newPassword flags
      · exact h

theorem passwordInv_withContext (h : PasswordInv suite ⟨s, last⟩) (newSalt : Block 64)
    (oldPassword newPassword : String) (flags : UInt32) :
    PasswordInv suite ⟨(s.changePasswordWithContext suite newSalt oldPassword newPassword flags).2,
      if (s.changePasswordWithContext suite newSalt oldPassword newPassword flags).1.isOk then some newPassword
      else last⟩ := by
  cases hbackend : s.effectiveBackend with
  | pclsyncCompat =>
    obtain ⟨hstate, hok⟩ := s.changePasswordWithContext_eq suite oldPassword newPassword newSalt flags hbackend
    rw [hstate, hok]
    exact passwordInv_reencoded h hbackend newSalt oldPassword newPassword flags.toUInt64
  | enhanced =>
    have hrefused : s.changePasswordWithContext suite newSalt oldPassword newPassword flags =
        (.error (.backendMismatch .enhanced .pclsyncCompat), s) := by
      simp [changePasswordWithContext, hbackend]
    rw [hrefused]
    exact h

theorem passwordAfter_keeps {call : Call PrivKey} (h : Call.keepsProfile call = true) (ok : Bool) :
    passwordAfter last call ok = last := by
  cases call with
  | setupWithBackend | start | reset | changePasswordUnlocked | changePassword | changePasswordWithContext => cases h
  | _ => cases ok <;> rfl

theorem passwordAfter_set {call : Call PrivKey} {ok : Bool} (h : passwordAfter none call true = some password) :
    passwordAfter last call ok = if ok then some password else last := by
  cases ok with
  | false => rfl
  | true => cases call <;> simp_all [passwordAfter]

theorem passwordInv_track (t : Tracked PrivKey) (turn : Turn PrivKey) (h : PasswordInv suite t) :
    PasswordInv suite (track suite t turn) := by
  obtain ⟨s, last⟩ := t
  by_cases hkeep : Call.keepsProfile turn.call = true
  · unfold track
    rw [passwordAfter_keeps hkeep]
    exact h.of_keeps (keepsProfile_step hkeep)
  · obtain ⟨host, call⟩ := turn
    unfold track succeeds step
    cases call with
    | setupWithBackend seed password hint backend =>
      rw [passwordAfter_set rfl]
      simp only [exec, isOk_reply]
      exact passwordInv_setup h seed password hint backend
    | start password expected =>
      have hlast : ∀ ok, passwordAfter last (.start password expected : Call PrivKey) ok = last := by
        intro ok
        cases ok <;> rfl
      rw [hlast]
      exact passwordInv_start h password expected
    | reset => exact ⟨rfl, rfl⟩
    | changePasswordUnlocked newSalt newPassword flags =>
      rw [passwordAfter_set rfl]
      simp only [exec, isOk_reply]
      exact passwordInv_changePasswordUnlocked h newSalt newPassword flags
    | changePassword newSalt newCompatSalt oldPassword newPassword flags =>
      rw [passwordAfter_set rfl]
      simp only [exec, isOk_reply]
      exact passwordInv_changePassword h newSalt newCompatSalt oldPassword newPassword flags
    | changePasswordWithContext newSalt oldPassword newPassword flags =>
      rw [passwordAfter_set rfl]
      simp only [exec, isOk_reply]
      exact passwordInv_withContext h newSalt oldPassword newPassword flags
    | _ => simp [Call.keepsProfile] at hkeep

end inv

/-! ## What accepts the password -/

section accepts

variable {suite} {host : Host} {s : CryptoShell PrivKey} {password newPassword : String} {newSalt : Block 16}
  {newCompatSalt : Block 64} {flags : UInt64}

theorem changeGuard_ne_wrong : s.changeGuard password newPassword ≠ some .wrongPassword := by
  unfold changeGuard
  repeat' split
  all_goals simp

theorem changePasswordUnlocked_ne_wrong :
    (s.changePasswordUnlocked suite host newSalt newPassword flags).1 ≠ .error .wrongPassword := by
  intro h
  simpa using changePasswordUnlocked_answers suite host h

theorem startGuard_stop {stopHost : Host} (hpolicy : s.policyIsSafe = true) (hpassword : password ≠ "")
    (hsetup : s.isSetup = true) (hlock : s.lockedOut host = false)
    (hprofile : s.effectiveBackend = .pclsyncCompat → s.pclsyncCompat.isNone = false) :
    (s.stop stopHost).startGuard host password none = none := by
  have hsafe' : (s.stop stopHost).policyIsSafe = true := hpolicy
  have hsetup' : (s.stop stopHost).isSetup = true := hsetup
  have hlock' : (s.stop stopHost).lockedOut host = false := hlock
  have hstarted' : (s.stop stopHost).isStarted = false := by simp [isStarted, stop]
  have hstate' : (s.stop stopHost).pclsyncCompatState = none := rfl
  have heff' : (s.stop stopHost).effectiveBackend = s.effectiveBackend := rfl
  have hprofile' : (s.stop stopHost).pclsyncCompat = s.pclsyncCompat := rfl
  unfold startGuard
  cases hbackend : s.effectiveBackend with
  | enhanced => simp [hsafe', hpassword, hsetup', heff', hbackend, hstarted', hlock']
  | pclsyncCompat =>
    have hsome := hprofile hbackend
    rw [← hprofile'] at hsome
    simp only [hsafe', hpassword, hsetup', heff', hbackend, hstate', hlock', hsome, Bool.not_true, Bool.false_eq_true,
      if_false, String.isEmpty_iff, Option.filter_none, Option.isSome_none]

theorem matchesSetup_iff {keys : KeyManager} {stored key : Block 32} (h : keys.setupFingerprint = some stored) :
    keys.matchesSetup suite key = true ↔ fingerprintFor suite key = stored := by
  unfold KeyManager.matchesSetup
  rw [h]
  exact beq_iff_eq

theorem enhanced_accepts_iff {typed : String} (hbackend : s.backend = some .enhanced)
    (hprint : s.keys.setupFingerprint = some (s.typedFingerprint suite typed)) (stopHost : Host) :
    ((s.stop stopHost).startAccepts suite password = true ↔
        s.typedFingerprint suite (suite.nfc password) = s.typedFingerprint suite typed) ∧
      (s.changeAccepts suite password = true ↔ s.typedFingerprint suite password = s.typedFingerprint suite typed) := by
  have heff : s.effectiveBackend = .enhanced := by simp [effectiveBackend, hbackend]
  have heff' : (s.stop stopHost).effectiveBackend = .enhanced := heff
  have hprint' : (s.stop stopHost).keys.setupFingerprint = some (s.typedFingerprint suite typed) := hprint
  unfold startAccepts changeAccepts
  rw [heff, heff']
  exact ⟨matchesSetup_iff hprint', matchesSetup_iff hprint⟩

theorem start_after_stop_iff {stopHost : Host} (hguard : (s.stop stopHost).startGuard host password none = none) :
    ((s.stop stopHost).startInner suite host password none).1 = .ok () ↔
      (s.stop stopHost).startAccepts suite password = true := by
  rw [startInner_eq, hguard]
  dsimp only
  split
  · simp [*]
  · simp [*]

end accepts

/-- Another password, for a rotation to it. -/
def otherPassword (password : String) : String := if password = "a" then "b" else "a"

section works

variable {suite} {s : CryptoShell PrivKey} {password : String}

theorem changeGuard_other (hpolicy : s.policyIsSafe = true) (hsetup : s.isSetup = true) (hp : password ≠ "")
    (hbackend : s.effectiveBackend = .enhanced) : s.changeGuard password (otherPassword password) = none := by
  unfold otherPassword changeGuard
  by_cases ha : password = "a"
  · simp [ha, hpolicy, hsetup, hbackend]
  · simp [ha, hp, hpolicy, hsetup, hbackend]

theorem enhanced_never_wrong_iff (hpolicy : s.policyIsSafe = true) (hsetup : s.isSetup = true) (hp : password ≠ "")
    (hbackend : s.effectiveBackend = .enhanced) :
    (∀ host newSalt newCompatSalt newPassword flags,
        (s.changePassword suite host newSalt newCompatSalt password newPassword flags).1 ≠ .error .wrongPassword) ↔
      s.changeAccepts suite password = true := by
  constructor
  · intro hnever
    by_contra haccepts
    have hguard := changeGuard_other hpolicy hsetup hp hbackend
    apply hnever ⟨0, 0, nullKms⟩ (Block.ofBytes 16 []) (Block.ofBytes 64 []) (otherPassword password) 0
    rw [s.changePassword_enhanced suite _ hguard hbackend, if_neg haccepts]
  · intro haccepts host newSalt newCompatSalt newPassword flags
    cases hguard : s.changeGuard password newPassword with
    | some e =>
      rw [s.changePassword_refused suite host hguard]
      intro heq
      rw [Except.error.inj heq] at hguard
      exact changeGuard_ne_wrong hguard
    | none =>
      rw [s.changePassword_enhanced suite host hguard hbackend, if_pos haccepts]
      exact changePasswordUnlocked_ne_wrong

theorem compat_never_wrong (hbackend : s.effectiveBackend = .pclsyncCompat)
    (hunlock : (s.compatUnlock suite (suite.nfc password)).isSome = true) (host : Host) (newSalt : Block 16)
    (newCompatSalt : Block 64) (newPassword : String) (flags : UInt64) :
    (s.changePassword suite host newSalt newCompatSalt password newPassword flags).1 ≠ .error .wrongPassword := by
  cases hguard : s.changeGuard password newPassword with
  | some e =>
    rw [s.changePassword_refused suite host hguard]
    intro heq
    rw [Except.error.inj heq] at hguard
    exact changeGuard_ne_wrong hguard
  | none =>
    rw [s.changePassword_compat suite host hguard hbackend]
    rcases s.reencoded_cases suite password newPassword newCompatSalt flags with
      ⟨e, hfail, hwrong⟩ | ⟨profile, state, privDer, -, -, -, key, hok⟩
    · rw [hfail]
      intro heq
      rw [hwrong (Except.error.inj heq)] at hunlock
      cases hunlock
    · rw [hok]
      simp

end works

theorem password_works_iff {s₀ : CryptoShell PrivKey} (hsetup : s₀.isSetup = false)
    (hkey : s₀.keys.activeKeyMaterial = none) (turns : List (Turn PrivKey)) (stopHost startHost : Host)
    {password : String} (hp : password ≠ "") :
    let t := Runs.run (track suite) ⟨s₀, none⟩ turns
    t.lastPassword = some password → t.shell.lockedOut startHost = false →
      ((((t.shell.stop stopHost).startInner suite startHost password none).1 = .ok () ∧
          ∀ host newSalt newCompatSalt newPassword flags,
            (t.shell.changePassword suite host newSalt newCompatSalt password newPassword flags).1 ≠
              .error .wrongPassword) ↔
        (t.shell.effectiveBackend = .enhanced →
          t.shell.typedFingerprint suite (suite.nfc password) = t.shell.typedFingerprint suite password)) := by
  intro t hlast hlock
  have hinv : PasswordInv suite t := Runs.run_invariant (I := PasswordInv suite) ⟨hsetup, hkey⟩ passwordInv_track
  obtain ⟨s, last⟩ := t
  cases hlast
  have hisSetup : s.isSetup = true := hinv.isSetup
  obtain ⟨hpolicy, henhanced | hcompat⟩ := hinv
  · have heff : s.effectiveBackend = .enhanced := henhanced.effective
    obtain ⟨hbackend, typed, htyped, hprint⟩ := henhanced
    have hguard := @startGuard_stop _ startHost s password stopHost hpolicy hp hisSetup hlock
      (by rw [heff]; simp)
    obtain ⟨hstart, hchange⟩ := @enhanced_accepts_iff _ suite s password typed hbackend hprint stopHost
    dsimp only
    rw [start_after_stop_iff hguard, enhanced_never_wrong_iff hpolicy hisSetup hp heff, hstart, hchange]
    simp only [heff, true_implies]
    rcases htyped with rfl | rfl
    · simp
    · simp [eq_comm]
  · have heff : s.effectiveBackend = .pclsyncCompat := hcompat.effective
    obtain ⟨-, -, hunlock⟩ := hcompat
    have hprofile : s.pclsyncCompat.isNone = false := by
      cases hnone : s.pclsyncCompat with
      | none => simp [compatUnlock, show s.pclsyncCompat = none from hnone] at hunlock
      | some profile => rfl
    have hguard := @startGuard_stop _ startHost s password stopHost hpolicy hp hisSetup hlock (fun _ => hprofile)
    have haccepts : (s.stop stopHost).startAccepts suite password = true := by
      have heff' : (s.stop stopHost).effectiveBackend = .pclsyncCompat := heff
      unfold startAccepts
      rw [heff']
      exact hunlock
    dsimp only
    simp only [heff, reduceCtorEq, false_implies, iff_true]
    exact ⟨(start_after_stop_iff hguard).mpr haccepts, compat_never_wrong heff hunlock⟩

/-- A profile whose password was last changed to `e` with a combining acute accent. -/
def decomposedTurns : List (Turn Bytes) :=
  [⟨⟨1, 0, nullKms⟩, .setupWithBackend ⟨none, .error ""⟩ "a" none .enhanced⟩,
    ⟨⟨2, nanosPerSec, nullKms⟩, .start "a" none⟩,
    ⟨⟨3, 2 * nanosPerSec, nullKms⟩, .changePassword (Block.ofBytes 16 [7]) (Block.ofBytes 64 []) "a" "e\u0301" 0⟩]

theorem decomposed_password_locks_out :
    let t := Runs.run (track echoSuite) ⟨fresh (Block.ofBytes 16 []), none⟩ decomposedTurns
    let host : Host := ⟨4, 3 * nanosPerSec, nullKms⟩
    (∀ text, echoSuite.nfc (echoSuite.nfc text) = echoSuite.nfc text) ∧
      t.lastPassword = some "e\u0301" ∧ t.shell.lockedOut host = false ∧
      ((t.shell.stop host).startInner echoSuite host "e\u0301" none).1 = .error .wrongPassword := by
  refine ⟨?_, ?_⟩
  · intro text
    by_cases htext : text = "e\u0301"
    · rw [htext]
      decide
    · simp [echoSuite, htext]
  · decide +kernel

theorem password_works_iff_plain :
    let t := Runs.run (track echoSuite) ⟨fresh (Block.ofBytes 16 []), none⟩
      [⟨⟨1, 0, nullKms⟩, .setupWithBackend ⟨none, .error ""⟩ "a" none .enhanced⟩]
    let host : Host := ⟨4, 3 * nanosPerSec, nullKms⟩
    (((t.shell.stop host).startInner echoSuite host "a" none).1 = .ok () ∧
        ∀ host newSalt newCompatSalt newPassword flags,
          (t.shell.changePassword echoSuite host newSalt newCompatSalt "a" newPassword flags).1 ≠
            .error .wrongPassword) ↔
      (t.shell.effectiveBackend = .enhanced →
        t.shell.typedFingerprint echoSuite (echoSuite.nfc "a") = t.shell.typedFingerprint echoSuite "a") :=
  password_works_iff echoSuite rfl rfl
    [⟨⟨1, 0, nullKms⟩, .setupWithBackend ⟨none, .error ""⟩ "a" none .enhanced⟩]
    ⟨4, 3 * nanosPerSec, nullKms⟩ ⟨4, 3 * nanosPerSec, nullKms⟩ (by decide) (by decide) (by decide)

end Pcloud.CryptoShell
