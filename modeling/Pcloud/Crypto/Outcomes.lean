import Pcloud.Crypto.Calls

/-!
# What the operations come to

Each operation of the shell in closed form: the checks that decide it, pulled out of the order in
which the source makes them, and the shell after it as a function of the shell before.
-/

namespace Pcloud.CryptoShell

open BlockChain

variable {PrivKey : Type} (suite : CryptoSuite PrivKey)

/-! ## Setup -/

section setup

variable (seed : ProfileSeed PrivKey) (password : String) (hint : Option String)

def installEnhanced (s : CryptoShell PrivKey) : CryptoShell PrivKey :=
  { s with
    keys := { s.keys with
      setupFingerprint := some (fingerprintFor suite (s.keys.deriveKeyMaterial suite (suite.nfc password))) }
    hint := hint
    unlockState := .locked
    backend := some .enhanced }

def installCompat (profile : PclsyncCompatProfile) (s : CryptoShell PrivKey) : CryptoShell PrivKey :=
  { s with
    pclsyncCompat := some profile
    hint := hint
    unlockState := .locked
    backend := some .pclsyncCompat }

theorem setupWithBackend_cases (backend : CryptoBackend) (s : CryptoShell PrivKey) :
    (∃ e, s.setupWithBackend suite seed password hint backend = (.error e, s)) ∨
      s.policyIsSafe = true ∧ password ≠ "" ∧ s.isSetup = false ∧
        (backend = .enhanced ∧ s.setupWithBackend suite seed password hint backend =
            (.ok (), s.installEnhanced suite password hint) ∨
          backend = .pclsyncCompat ∧ ∃ profile, generateProfile suite seed (suite.nfc password) = .ok profile ∧
            s.setupWithBackend suite seed password hint backend = (.ok (), s.installCompat hint profile)) := by
  unfold setupWithBackend setupEnhanced setupPclsyncCompat
  by_cases hpolicy : s.policyIsSafe = true
  · by_cases hempty : password = ""
    · cases backend <;> exact .inl ⟨.emptyPassword, by simp [hpolicy, hempty]⟩
    · by_cases hsetup : s.isSetup = true
      · cases backend <;> exact .inl ⟨.alreadySetup, by simp [hpolicy, hempty, hsetup]⟩
      · cases backend with
        | enhanced =>
          refine .inr ⟨hpolicy, hempty, by simpa using hsetup, .inl ⟨rfl, ?_⟩⟩
          simp [hpolicy, hempty, hsetup, installEnhanced]
        | pclsyncCompat =>
          cases hprofile : generateProfile suite seed (suite.nfc password) with
          | error e => exact .inl ⟨.pclsyncCompat, by simp [hpolicy, hempty, hsetup]⟩
          | ok profile =>
            refine .inr ⟨hpolicy, hempty, by simpa using hsetup, .inr ⟨rfl, profile, rfl, ?_⟩⟩
            simp [hpolicy, hempty, hsetup, installCompat]
  · cases backend <;> exact .inl ⟨.unsafePolicy, by simp [hpolicy]⟩

end setup

/-! ## Unlocking -/

section start

variable (host : Host) (password : String) (expected : Option CryptoBackend) (s : CryptoShell PrivKey)

/-- The answer of a start that does not look at the password. -/
def startGuard : Option CryptoError :=
  if !s.policyIsSafe then some .unsafePolicy
  else if password.isEmpty then some .emptyPassword
  else if !s.isSetup then some .notSetup
  else
    match expected.filter (· ≠ s.effectiveBackend) with
    | some provided => some (.backendMismatch s.effectiveBackend provided)
    | none =>
      match s.effectiveBackend with
      | .enhanced =>
        if s.isStarted then some .alreadyStarted
        else if s.lockedOut host then some .bruteForceLockedOut
        else none
      | .pclsyncCompat =>
        if s.pclsyncCompat.isNone then some .notSetup
        else if s.pclsyncCompatState.isSome then some .alreadyStarted
        else if s.lockedOut host then some .bruteForceLockedOut
        else none

variable {host password expected s} in
theorem startGuard_answers {e : CryptoError} (h : s.startGuard host password expected = some e) :
    e ≠ .wrongPassword ∧ e ≠ .masterKeyExpired := by
  unfold startGuard at h
  repeat' split at h
  all_goals
    cases h
    try simp

/-- The state that a password unlocks in the compat profile. -/
def compatUnlock (normalized : String) : Option (PclsyncCompatState PrivKey) :=
  s.pclsyncCompat.bind fun profile => (unlockProfile suite normalized profile).toOption

def startAccepts : Bool :=
  match s.effectiveBackend with
  | .enhanced => s.keys.matchesSetup suite (s.keys.deriveKeyMaterial suite (suite.nfc password))
  | .pclsyncCompat => (s.compatUnlock suite (suite.nfc password)).isSome

def startedWith : CryptoShell PrivKey :=
  match s.effectiveBackend with
  | .enhanced =>
    { s.recordUnlock with
      keys := { s.keys with activeKeyMaterial := some (s.keys.deriveKeyMaterial suite (suite.nfc password)) }
      backend := some .enhanced }
  | .pclsyncCompat =>
    { s.recordUnlock with
      pclsyncCompatState := s.compatUnlock suite (suite.nfc password)
      backend := some .pclsyncCompat }

variable {s} in
theorem backend_of_effective {b : CryptoBackend} (h : s.effectiveBackend = b) (hsome : s.backend ≠ none) :
    s.backend = some b := by
  unfold effectiveBackend at h
  cases hb : s.backend with
  | none => exact absurd hb hsome
  | some stored =>
    rw [hb] at h
    exact congrArg some h

variable {s} in
theorem stamp_eq {b : CryptoBackend} (h : s.effectiveBackend = b) {s' : CryptoShell PrivKey}
    (hsame : s'.backend = s.backend) :
    (if (Except.ok () : Except CryptoError Unit).isOk && s.backend.isNone then
        ((Except.ok () : Except CryptoError Unit), { s' with backend := some b }) else (.ok (), s')) =
      (.ok (), { s' with backend := some b }) := by
  cases hnone : s.backend with
  | none => rfl
  | some stored =>
    have hs' : s'.backend = some b := hsame.trans (backend_of_effective h (by simp [hnone]))
    rw [← hs']
    rfl

section paths

variable {password s} (hpolicy : s.policyIsSafe = true) (hpassword : password.isEmpty = false)
include hpolicy hpassword

theorem startEnhanced_eq (hsetup : s.isSetup = true) :
    s.startEnhanced suite host password =
      if s.isStarted then (.error .alreadyStarted, s)
      else if s.lockedOut host then (.error .bruteForceLockedOut, s)
      else if s.keys.matchesSetup suite (s.keys.deriveKeyMaterial suite (suite.nfc password)) then
        (.ok (), { s.recordUnlock with
          keys := { s.keys with
            activeKeyMaterial := some (s.keys.deriveKeyMaterial suite (suite.nfc password)) } })
      else (.error .wrongPassword, s.recordFailure host) := by
  unfold startEnhanced
  simp only [hpolicy, hpassword, hsetup, Bool.not_true, Bool.false_eq_true, if_false]
  cases s.keys.matchesSetup suite (s.keys.deriveKeyMaterial suite (suite.nfc password)) <;> rfl

theorem startPclsyncCompat_eq :
    s.startPclsyncCompat suite host password =
      if s.pclsyncCompat.isNone then (.error .notSetup, s)
      else if s.pclsyncCompatState.isSome then (.error .alreadyStarted, s)
      else if s.lockedOut host then (.error .bruteForceLockedOut, s)
      else if (s.compatUnlock suite (suite.nfc password)).isSome then
        (.ok (), { s.recordUnlock with pclsyncCompatState := s.compatUnlock suite (suite.nfc password) })
      else (.error .wrongPassword, s.recordFailure host) := by
  unfold startPclsyncCompat compatUnlock
  simp only [hpolicy, hpassword, Bool.not_true, Bool.false_eq_true, if_false]
  cases s.pclsyncCompat with
  | none => rfl
  | some profile =>
    simp only [Option.isNone_some, Bool.false_eq_true, if_false, Option.bind_some]
    cases unlockProfile suite (suite.nfc password) profile <;> rfl

end paths

theorem startInner_eq :
    s.startInner suite host password expected =
      match s.startGuard host password expected with
      | some e => (.error e, s)
      | none =>
        if s.startAccepts suite password then (.ok (), s.startedWith suite password)
        else (.error .wrongPassword, s.recordFailure host) := by
  unfold startInner startGuard
  by_cases hpolicy : s.policyIsSafe = true
  · by_cases hempty : password.isEmpty = true
    · simp [hpolicy, hempty]
    · by_cases hsetup : s.isSetup = true
      · have hpassword : password.isEmpty = false := by simpa using hempty
        simp only [hpolicy, hpassword, hsetup, Bool.not_true, Bool.false_eq_true, if_false]
        cases expected.filter (· ≠ s.effectiveBackend) with
        | some provided => rfl
        | none =>
          cases hbackend : s.effectiveBackend with
          | enhanced =>
            simp only [startEnhanced_eq suite host hpolicy hpassword hsetup, startAccepts, startedWith, hbackend]
            by_cases hstarted : s.isStarted = true
            · simp [hstarted]
            · by_cases hlocked : s.lockedOut host = true
              · simp [hstarted, hlocked]
              · simp only [hstarted, hlocked, Bool.false_eq_true, if_false]
                split
                · exact stamp_eq hbackend rfl
                · simp
          | pclsyncCompat =>
            simp only [startPclsyncCompat_eq suite host hpolicy hpassword, startAccepts, startedWith, hbackend]
            by_cases hnone : s.pclsyncCompat.isNone = true
            · simp [hnone]
            · by_cases hstate : s.pclsyncCompatState.isSome = true
              · simp [hnone, hstate]
              · by_cases hlocked : s.lockedOut host = true
                · simp [hnone, hstate, hlocked]
                · simp only [hnone, hstate, hlocked, Bool.false_eq_true, if_false]
                  split
                  · exact stamp_eq hbackend rfl
                  · simp
      · simp [hpolicy, hempty, hsetup]
  · simp [hpolicy]

end start

/-! ## Using the key -/

section use

variable (host : Host) (s : CryptoShell PrivKey)

/-- The secret that the file keys are derived from, or why a call does not get at it. -/
def sectorSecret : Except CryptoError Bytes :=
  if s.keys.isStale host.instant then .error .masterKeyExpired
  else
    match s.keys.activeKeyMaterial, s.mode with
    | none, _ => .error .locked
    | some key, .raw => .ok key.1
    | some _, .kms keyId wrapped context =>
      match (unwrapCached host.kms host.instant s.dekCache keyId wrapped context).1 with
      | .error _ => .error .kms
      | .ok dek => if dek.length ≠ kmsDekLen then .error .kmsDekLen else .ok dek

def cacheAfterUse : DekCache :=
  match s.keys.activeKeyMaterial, s.mode with
  | some _, .kms keyId wrapped context => (unwrapCached host.kms host.instant s.dekCache keyId wrapped context).2
  | _, _ => s.dekCache

/-- A stale key is evicted. Otherwise the use is noted, also where there is no key. -/
def afterUse : CryptoShell PrivKey :=
  if s.keys.isStale host.instant then
    { s with
      keys := { s.keys with activeKeyMaterial := none, lastAuthenticatedAt := none }
      unlockState := .locked }
  else
    { s with
      keys := { s.keys with lastAuthenticatedAt := some host.instant }
      dekCache := s.cacheAfterUse host }

theorem isStale_iff (keys : KeyManager) (now : Nat) :
    keys.isStale now = true ↔
      keys.cacheTtlSecs ≠ 0 ∧ ∃ last, keys.lastAuthenticatedAt = some last ∧
        keys.cacheTtlSecs ≤ (now - last) / nanosPerSec := by
  unfold KeyManager.isStale
  by_cases httl : keys.cacheTtlSecs = 0
  · simp [httl]
  · cases hlast : keys.lastAuthenticatedAt with
    | none => simp [httl]
    | some last => simp [httl]

theorem sectorSecret_raw {s : CryptoShell PrivKey} {key : Block 32} (hfresh : s.keys.isStale host.instant = false)
    (hkey : s.keys.activeKeyMaterial = some key) (hmode : s.mode = .raw) : s.sectorSecret host = .ok key.1 := by
  simp [sectorSecret, hfresh, hkey, hmode]

theorem afterUse_fresh {s : CryptoShell PrivKey} (h : s.keys.isStale host.instant = false) :
    s.afterUse host =
      { s with
        keys := { s.keys with lastAuthenticatedAt := some host.instant }
        dekCache := s.cacheAfterUse host } := if_neg (by simp [h])

theorem deriveSectorFileKey_eq (fileSeed : Bytes) :
    s.deriveSectorFileKey suite host fileSeed =
      ((s.sectorSecret host).map (deriveFileKey suite · fileSeed), s.afterUse host) := by
  unfold deriveSectorFileKey requireActiveKey KeyManager.checkAndEvictIfStale sectorSecret afterUse cacheAfterUse
    KeyManager.touch
  by_cases hstale : s.keys.isStale host.instant = true
  · simp [hstale, Except.map]
  · cases hkey : s.keys.activeKeyMaterial with
    | none => simp [hstale, hkey, Except.map]
    | some key =>
      cases hmode : s.mode with
      | raw => simp [hstale, hkey, Except.map]
      | kms keyId wrapped context =>
        simp only [hstale, hkey, Bool.false_eq_true, if_false, unwrapActiveDek]
        cases (unwrapCached host.kms host.instant s.dekCache keyId wrapped context).1 with
        | error e => rfl
        | ok dek =>
          by_cases hlen : dek.length = kmsDekLen
          · simp [hlen, Except.map]
          · simp [hlen, Except.map]

@[simp]
theorem afterUse_sectorsSealed : (s.afterUse host).sectorsSealed = s.sectorsSealed := by
  unfold afterUse
  split <;> rfl

@[simp]
theorem afterUse_mode : (s.afterUse host).mode = s.mode := by
  unfold afterUse
  split <;> rfl

@[simp]
theorem afterUse_backend : (s.afterUse host).backend = s.backend := by
  unfold afterUse
  split <;> rfl

@[simp]
theorem afterUse_salt : (s.afterUse host).keys.derivationSalt = s.keys.derivationSalt := by
  unfold afterUse
  split <;> rfl

@[simp]
theorem afterUse_fingerprint : (s.afterUse host).keys.setupFingerprint = s.keys.setupFingerprint := by
  unfold afterUse
  split <;> rfl

@[simp]
theorem afterUse_ttl : (s.afterUse host).keys.cacheTtlSecs = s.keys.cacheTtlSecs := by
  unfold afterUse
  split <;> rfl

@[simp]
theorem afterUse_compat : (s.afterUse host).pclsyncCompat = s.pclsyncCompat := by
  unfold afterUse
  split <;> rfl

theorem afterUse_reserved (n : Nat) :
    ({ s with sectorsSealed := n } : CryptoShell PrivKey).afterUse host =
      { s.afterUse host with sectorsSealed := n } := by
  unfold afterUse
  split <;> simp_all [cacheAfterUse]

variable {s} (hbackend : s.effectiveBackend = .enhanced)
include hbackend

theorem sealSector_eq (nonce : Option (Block 12)) (fileSeed : Bytes) (index : UInt32) (plaintext : Bytes) :
    s.sealSector suite host nonce fileSeed index plaintext =
      if s.sectorsSealed ≥ nonceBudgetCap then (.error .nonceBudgetExhausted, s)
      else
        match s.sectorSecret host with
        | .error e => (.error e, { s.afterUse host with sectorsSealed := s.sectorsSealed + 1 })
        | .ok secret =>
          match sealFrame suite nonce (deriveFileKey suite secret fileSeed) index plaintext s.sectorSizeBytes with
          | .ok frame => (.ok frame, { s.afterUse host with sectorsSealed := s.sectorsSealed + 1 })
          | .error e => (.error (.content e), s.afterUse host) := by
  unfold sealSector
  simp only [hbackend, reduceCtorEq, if_false, deriveSectorFileKey_eq, afterUse_reserved]
  by_cases hcap : s.sectorsSealed ≥ nonceBudgetCap
  · simp only [hcap, if_true]
  · simp only [hcap, if_false]
    have hsecret : ({ s with sectorsSealed := s.sectorsSealed + 1 } : CryptoShell PrivKey).sectorSecret host =
      s.sectorSecret host := rfl
    rw [hsecret]
    cases s.sectorSecret host with
    | error e => rfl
    | ok secret =>
      have hsize : (s.afterUse host).sectorSizeBytes = s.sectorSizeBytes := by
        unfold afterUse
        split <;> rfl
      simp only [Except.map, hsize]
      cases sealFrame suite nonce (deriveFileKey suite secret fileSeed) index plaintext s.sectorSizeBytes with
      | ok frame => rfl
      | error e =>
        have hback : s.sectorsSealed + 1 - 1 = (s.afterUse host).sectorsSealed := by simp
        simp only [hback, ← hsize]

theorem sealSector_cases (nonce : Option (Block 12)) (fileSeed : Bytes) (index : UInt32) (plaintext : Bytes) :
    (nonceBudgetCap ≤ s.sectorsSealed ∧
        s.sealSector suite host nonce fileSeed index plaintext = (.error .nonceBudgetExhausted, s)) ∨
      s.sectorsSealed < nonceBudgetCap ∧
        ((∃ e, s.sectorSecret host = .error e ∧
            s.sealSector suite host nonce fileSeed index plaintext =
              (.error e, { s.afterUse host with sectorsSealed := s.sectorsSealed + 1 })) ∨
          ∃ secret, s.sectorSecret host = .ok secret ∧
            ((∃ frame, sealFrame suite nonce (deriveFileKey suite secret fileSeed) index plaintext s.sectorSizeBytes =
                  .ok frame ∧
                s.sealSector suite host nonce fileSeed index plaintext =
                  (.ok frame, { s.afterUse host with sectorsSealed := s.sectorsSealed + 1 })) ∨
              ∃ e, s.sealSector suite host nonce fileSeed index plaintext = (.error (.content e), s.afterUse host))) := by
  rw [sealSector_eq suite host hbackend]
  by_cases hcap : s.sectorsSealed ≥ nonceBudgetCap
  · exact .inl ⟨hcap, if_pos hcap⟩
  · refine .inr ⟨Nat.not_le.mp hcap, ?_⟩
    rw [if_neg hcap]
    cases s.sectorSecret host with
    | error e => exact .inl ⟨e, rfl, rfl⟩
    | ok secret =>
      refine .inr ⟨secret, rfl, ?_⟩
      dsimp only
      cases sealFrame suite nonce (deriveFileKey suite secret fileSeed) index plaintext s.sectorSizeBytes with
      | ok frame => exact .inl ⟨frame, rfl, rfl⟩
      | error e => exact .inr ⟨e, rfl⟩

theorem openSector_eq (fileSeed : Bytes) (index : UInt32) (frame : Bytes) :
    s.openSector suite host fileSeed index frame =
      (match s.sectorSecret host with
        | .error e => .error e
        | .ok secret =>
          match openFrame suite (deriveFileKey suite secret fileSeed) index frame with
          | .ok plaintext => .ok plaintext
          | .error e => .error (.content e), s.afterUse host) := by
  unfold openSector
  rw [deriveSectorFileKey_eq]
  simp only [hbackend, reduceCtorEq, if_false]
  cases s.sectorSecret host with
  | error e => rfl
  | ok secret =>
    simp only [Except.map]
    cases openFrame suite (deriveFileKey suite secret fileSeed) index frame with
    | error e => rfl
    | ok plaintext => rfl

theorem openSector_ok {fileSeed secret frame plaintext : Bytes} {index : UInt32}
    (hsecret : s.sectorSecret host = .ok secret)
    (hopen : openFrame suite (deriveFileKey suite secret fileSeed) index frame = .ok plaintext) :
    (s.openSector suite host fileSeed index frame).1 = .ok plaintext := by
  rw [openSector_eq suite host hbackend]
  simp only [hsecret, hopen]

end use

/-! ## Rotating -/

section rotate

variable (host : Host) (oldPassword newPassword : String) (s : CryptoShell PrivKey)

/-- The answer of a password change that does not look at the old password. -/
def changeGuard : Option CryptoError :=
  if !s.policyIsSafe then some .unsafePolicy
  else if oldPassword.isEmpty || newPassword.isEmpty then some .emptyPassword
  else if !s.isSetup then some .notSetup
  else if oldPassword = newPassword then some .passwordUnchanged
  else if s.effectiveBackend = .pclsyncCompat ∧ s.pclsyncCompat = none then some .notSetup
  else none

def changeAccepts : Bool :=
  match s.effectiveBackend with
  | .enhanced => s.keys.matchesSetup suite (s.keys.deriveKeyMaterial suite oldPassword)
  | .pclsyncCompat => (s.compatUnlock suite (suite.nfc oldPassword)).isSome

/-- The old password has been found right, and the shell is unlocked with it. -/
def openedWith : CryptoShell PrivKey :=
  if s.isStarted then s
  else
    { s with
      keys := { s.keys with activeKeyMaterial := some (s.keys.deriveKeyMaterial suite oldPassword) }
      unlockState := .unlocked }

variable {oldPassword newPassword s} {newSalt : Block 16} {newCompatSalt : Block 64} {flags : UInt64}

theorem changePassword_refused {e : CryptoError} (h : s.changeGuard oldPassword newPassword = some e) :
    s.changePassword suite host newSalt newCompatSalt oldPassword newPassword flags = (.error e, s) := by
  unfold changeGuard at h
  unfold changePassword changePasswordPclsyncCompatReencoded
  by_cases hpolicy : s.policyIsSafe = true
  · by_cases hempty : (oldPassword.isEmpty || newPassword.isEmpty) = true
    · simp_all
    · by_cases hsetup : s.isSetup = true
      · by_cases hsame : oldPassword = newPassword
        · simp_all
        · by_cases hnone : s.effectiveBackend = .pclsyncCompat ∧ s.pclsyncCompat = none
          · simp_all
          · simp [hpolicy, hempty, hsetup, hsame, hnone] at h
      · simp_all
  · simp_all

theorem changeGuard_eq_none (h : s.changeGuard oldPassword newPassword = none) :
    s.policyIsSafe = true ∧ (oldPassword.isEmpty || newPassword.isEmpty) = false ∧ s.isSetup = true ∧
      oldPassword ≠ newPassword ∧ ¬ (s.effectiveBackend = .pclsyncCompat ∧ s.pclsyncCompat = none) := by
  unfold changeGuard at h
  by_cases hpolicy : s.policyIsSafe = true
  · by_cases hempty : (oldPassword.isEmpty || newPassword.isEmpty) = true
    · simp [hpolicy, hempty] at h
    · by_cases hsetup : s.isSetup = true
      · by_cases hsame : oldPassword = newPassword
        · simp_all
        · by_cases hnone : s.effectiveBackend = .pclsyncCompat ∧ s.pclsyncCompat = none
          · simp [hpolicy, hempty, hsetup, hsame, hnone] at h
          · exact ⟨hpolicy, by simpa using hempty, hsetup, hsame, hnone⟩
      · simp_all
  · simp [hpolicy] at h

theorem changePassword_enhanced (h : s.changeGuard oldPassword newPassword = none)
    (hbackend : s.effectiveBackend = .enhanced) :
    s.changePassword suite host newSalt newCompatSalt oldPassword newPassword flags =
      if s.changeAccepts suite oldPassword then
        (s.openedWith suite oldPassword).changePasswordUnlocked suite host newSalt newPassword flags
      else (.error .wrongPassword, s) := by
  obtain ⟨hpolicy, hempty, hsetup, hsame, -⟩ := changeGuard_eq_none h
  unfold changePassword changeAccepts openedWith
  simp only [hpolicy, hempty, hsetup, hsame, hbackend, Bool.not_true, Bool.false_eq_true, if_false, reduceCtorEq]
  by_cases hright : s.keys.matchesSetup suite (s.keys.deriveKeyMaterial suite oldPassword) = true
  · by_cases hstarted : s.isStarted = true
    · simp [hright, hstarted]
    · simp [hright, hstarted]
  · simp [hright]

theorem changePassword_compat (h : s.changeGuard oldPassword newPassword = none)
    (hbackend : s.effectiveBackend = .pclsyncCompat) :
    s.changePassword suite host newSalt newCompatSalt oldPassword newPassword flags =
      s.changePasswordPclsyncCompatReencoded suite newCompatSalt oldPassword newPassword flags := by
  obtain ⟨hpolicy, hempty, hsetup, -, -⟩ := changeGuard_eq_none h
  unfold changePassword
  simp only [hpolicy, hempty, hsetup, hbackend, Bool.not_true, Bool.false_eq_true, if_false, if_true]

/-- The profile with the private key wrapped again. -/
def rewrappedProfile (newSalt : Block 64) (newPassword : String) (flags : UInt64) (privDer : Bytes)
    (profile : PclsyncCompatProfile) : PclsyncCompatProfile :=
  let newKek := deriveKek suite (suite.nfc newPassword) newSalt
  { profile with
    privKeyVer1Blob := buildPrivBlob flags.toUInt32 newSalt
      (aes256CtrPclsyncXor suite.toPrimitives newKek.key newKek.iv 0 privDer)
    pubFingerprint := pubFingerprint suite newKek.key profile.pubKeyVer1Blob
    flags := flags.toUInt32 }

variable (oldPassword newPassword s) in
theorem reencoded_cases (newSalt : Block 64) (flags : UInt64) :
    (∃ e, s.changePasswordPclsyncCompatReencoded suite newSalt oldPassword newPassword flags = (.error e, s) ∧
        (e = .wrongPassword → s.compatUnlock suite (suite.nfc oldPassword) = none)) ∨
      ∃ profile state privDer, s.pclsyncCompat = some profile ∧
        unlockProfile suite (suite.nfc oldPassword) profile = .ok state ∧
        suite.privToDer state.privKey = .ok privDer ∧
        ∃ key, s.changePasswordPclsyncCompatReencoded suite newSalt oldPassword newPassword flags =
          (.ok key, { s with
            pclsyncCompat := some (rewrappedProfile suite newSalt newPassword flags privDer profile) }) := by
  unfold changePasswordPclsyncCompatReencoded
  by_cases hsame : oldPassword = newPassword
  · exact .inl ⟨.passwordUnchanged, by simp [hsame], by simp⟩
  · cases hprofile : s.pclsyncCompat with
    | none => exact .inl ⟨.notSetup, by simp [hsame], by simp⟩
    | some profile =>
      cases hunlock : unlockProfile suite (suite.nfc oldPassword) profile with
      | error e =>
        refine .inl ⟨.wrongPassword, by simp [hsame, hunlock], ?_⟩
        simp [compatUnlock, hprofile, hunlock, Except.toOption]
      | ok state =>
        cases hparse : parsePrivBlob profile.privKeyVer1Blob with
        | error e => exact .inl ⟨.pclsyncCompat, by simp [hsame, hunlock, hparse], by simp⟩
        | ok parts =>
          cases hder : suite.privToDer state.privKey with
          | error e => exact .inl ⟨.pclsyncCompat, by simp [hsame, hunlock, hparse, hder], by simp⟩
          | ok privDer =>
            refine .inr ⟨profile, state, privDer, rfl, hunlock, hder, ?_⟩
            simp only [hsame, if_false, hunlock, hparse, hder]
            exact ⟨_, rfl⟩

variable (oldPassword newPassword s) in
theorem changePasswordWithContext_eq (newSalt : Block 64) (flags : UInt32) (hbackend : s.effectiveBackend = .pclsyncCompat) :
    (s.changePasswordWithContext suite newSalt oldPassword newPassword flags).2 =
        (s.changePasswordPclsyncCompatReencoded suite newSalt oldPassword newPassword flags.toUInt64).2 ∧
      (s.changePasswordWithContext suite newSalt oldPassword newPassword flags).1.isOk =
        (s.changePasswordPclsyncCompatReencoded suite newSalt oldPassword newPassword flags.toUInt64).1.isOk := by
  unfold changePasswordWithContext
  simp only [hbackend, ne_eq, not_true_eq_false, if_false]
  rcases reencoded_cases suite oldPassword newPassword s newSalt flags.toUInt64 with
    ⟨e, hfail, -⟩ | ⟨profile, state, privDer, -, -, -, key, hok⟩
  · rw [hfail]
    exact ⟨rfl, rfl⟩
  · rw [hok]
    exact ⟨rfl, rfl⟩

theorem stagedMode_answers {e : CryptoError} (h : s.stagedMode host = .error e) : e = .kms ∨ e = .kmsDekLen := by
  unfold stagedMode rewrapSingleKmsBlob at h
  cases hmode : s.mode with
  | raw => simp [hmode] at h
  | kms keyId wrapped context =>
    simp only [hmode] at h
    cases hdecrypt : host.kms.decryptDek keyId wrapped context with
    | error e' =>
      simp only [hdecrypt, Except.error.injEq] at h
      exact .inl h.symm
    | ok dek =>
      by_cases hlen : dek.length = kmsDekLen
      · cases hwrap : host.kms.encryptDek keyId dek context with
        | error e' =>
          simp only [hdecrypt, hlen, hwrap, ne_eq, not_true_eq_false, if_false, Except.error.injEq] at h
          exact .inl h.symm
        | ok newWrapped => simp [hdecrypt, hlen, hwrap] at h
      · simp only [hdecrypt, hlen, ne_eq, not_false_eq_true, if_true, Except.error.injEq] at h
        exact .inr h.symm

theorem changePasswordUnlocked_answers {e : CryptoError}
    (h : (s.changePasswordUnlocked suite host newSalt newPassword flags).1 = .error e) :
    e = .unsafePolicy ∨ e = .emptyPassword ∨ e = .locked ∨ e = .kms ∨ e = .kmsDekLen := by
  unfold changePasswordUnlocked at h
  split at h
  · simp_all
  · split at h
    · simp_all
    · split at h
      · simp_all
      · dsimp only at h
        split at h
        · rename_i e' hstaged
          obtain rfl := Except.error.inj h
          exact .inr (.inr (.inr (stagedMode_answers host hstaged)))
        · cases h

variable (newPassword s newSalt flags) in
theorem changePasswordUnlocked_cases :
    (∃ e, s.changePasswordUnlocked suite host newSalt newPassword flags = (.error e, s) ∧
        (s.policyIsSafe = false ∨ newPassword = "" ∨ s.keys.activeKeyMaterial = none ∨
          s.stagedMode host = .error e)) ∨
      ∃ staged, s.keys.activeKeyMaterial.isSome = true ∧ newPassword ≠ "" ∧ s.stagedMode host = .ok staged ∧
        ∃ key, s.changePasswordUnlocked suite host newSalt newPassword flags =
          (.ok key, s.commitRotation suite host newSalt
            (deriveKeyMaterialWithSalt suite newPassword newSalt.1) flags staged) := by
  unfold changePasswordUnlocked
  by_cases hpolicy : s.policyIsSafe = true
  · by_cases hempty : newPassword = ""
    · exact .inl ⟨.emptyPassword, by simp [hpolicy, hempty], by simp [hempty]⟩
    · cases hkey : s.keys.activeKeyMaterial with
      | none => exact .inl ⟨.locked, by simp [hpolicy, hempty], by simp⟩
      | some currentKey =>
        cases hstaged : s.stagedMode host with
        | error e => exact .inl ⟨e, by simp [hpolicy, hempty], by simp⟩
        | ok staged =>
          refine .inr ⟨staged, rfl, hempty, rfl, ?_⟩
          have hsome : newPassword.isEmpty = false := by simpa using hempty
          simp only [hpolicy, hsome, Bool.not_true, Bool.false_eq_true, if_false]
          exact ⟨_, rfl⟩
  · exact .inl ⟨.unsafePolicy, by simp [hpolicy], by simp [hpolicy]⟩

theorem openedWith_stagedMode : (s.openedWith suite oldPassword).stagedMode host = s.stagedMode host := by
  cases hstarted : s.isStarted <;> simp [openedWith, hstarted, stagedMode]

variable (oldPassword newPassword s newSalt newCompatSalt flags) in
theorem changePassword_snd :
    (s.changePassword suite host newSalt newCompatSalt oldPassword newPassword flags).2 = s ∨
      s.effectiveBackend = .pclsyncCompat ∧
        (∃ profile, (s.changePassword suite host newSalt newCompatSalt oldPassword newPassword flags).2 =
          { s with pclsyncCompat := some profile }) ∨
      s.effectiveBackend = .enhanced ∧
        ((s.changePassword suite host newSalt newCompatSalt oldPassword newPassword flags).2 =
            s.openedWith suite oldPassword ∨
          ∃ staged, s.stagedMode host = .ok staged ∧
            (s.changePassword suite host newSalt newCompatSalt oldPassword newPassword flags).2 =
              (s.openedWith suite oldPassword).commitRotation suite host newSalt
                (deriveKeyMaterialWithSalt suite newPassword newSalt.1) flags staged) := by
  cases hguard : s.changeGuard oldPassword newPassword with
  | some e =>
    left
    rw [changePassword_refused suite host hguard]
  | none =>
    cases hbackend : s.effectiveBackend with
    | pclsyncCompat =>
      rw [changePassword_compat suite host hguard hbackend]
      rcases s.reencoded_cases suite oldPassword newPassword newCompatSalt flags with
        ⟨e, hfail, -⟩ | ⟨profile, state, privDer, -, -, -, key, hok⟩
      · left
        rw [hfail]
      · rw [hok]
        exact .inr (.inl ⟨rfl, _, rfl⟩)
    | enhanced =>
      rw [changePassword_enhanced suite host hguard hbackend]
      split
      · refine .inr (.inr ⟨rfl, ?_⟩)
        rcases (s.openedWith suite oldPassword).changePasswordUnlocked_cases suite host newPassword newSalt flags with
          ⟨e, hfail, -⟩ | ⟨staged, -, -, hstaged, key, hok⟩
        · left
          rw [hfail]
        · rw [openedWith_stagedMode] at hstaged
          rw [hok]
          exact .inr ⟨staged, hstaged, rfl⟩
      · exact .inl rfl

variable (oldPassword newPassword s) in
theorem changePasswordWithContext_snd (newSalt : Block 64) (flags : UInt32) :
    (s.changePasswordWithContext suite newSalt oldPassword newPassword flags).2 = s ∨
      ∃ profile, (s.changePasswordWithContext suite newSalt oldPassword newPassword flags).2 =
        { s with pclsyncCompat := some profile } := by
  cases hbackend : s.effectiveBackend with
  | pclsyncCompat =>
    rw [(s.changePasswordWithContext_eq suite oldPassword newPassword newSalt flags hbackend).1]
    rcases s.reencoded_cases suite oldPassword newPassword newSalt flags.toUInt64 with
      ⟨e, hfail, -⟩ | ⟨profile, state, privDer, -, -, -, key, hok⟩
    · left
      rw [hfail]
    · rw [hok]
      exact .inr ⟨_, rfl⟩
  | enhanced =>
    left
    unfold changePasswordWithContext
    simp [hbackend]

end rotate

/-! ## What the other calls touch -/

section touches

variable (host : Host) (s : CryptoShell PrivKey)

theorem enableKmsMode_snd (dek : Block 32) (keyId : String) (context : Option String) :
    (s.enableKmsMode host dek keyId context).2 = s ∨
      ∃ wrapped, host.kms.encryptDek keyId dek.1 context = .ok wrapped ∧
        (s.enableKmsMode host dek keyId context).2 = { s with mode := .kms keyId wrapped context } := by
  unfold enableKmsMode
  split
  · exact .inl rfl
  · split
    · exact .inl rfl
    · cases hwrap : host.kms.encryptDek keyId dek.1 context with
      | error e => exact .inl rfl
      | ok wrapped => exact .inr ⟨wrapped, rfl, rfl⟩

theorem sealSector_snd (nonce : Option (Block 12)) (fileSeed : Bytes) (index : UInt32) (plaintext : Bytes) :
    (s.sealSector suite host nonce fileSeed index plaintext).2 = s ∨
      s.effectiveBackend = .enhanced ∧
        ((s.sealSector suite host nonce fileSeed index plaintext).2 = s.afterUse host ∨
          (s.sealSector suite host nonce fileSeed index plaintext).2 =
            { s.afterUse host with sectorsSealed := s.sectorsSealed + 1 }) := by
  cases hbackend : s.effectiveBackend with
  | pclsyncCompat =>
    left
    unfold sealSector
    simp only [hbackend, if_true]
    split <;> rfl
  | enhanced =>
    rw [sealSector_eq suite host hbackend]
    split
    · exact .inl rfl
    · right
      refine ⟨rfl, ?_⟩
      split
      · exact .inr rfl
      · split
        · exact .inr rfl
        · exact .inl rfl

theorem openSector_snd (fileSeed : Bytes) (index : UInt32) (frame : Bytes) :
    (s.openSector suite host fileSeed index frame).2 = s ∨
      s.effectiveBackend = .enhanced ∧ (s.openSector suite host fileSeed index frame).2 = s.afterUse host := by
  cases hbackend : s.effectiveBackend with
  | pclsyncCompat =>
    left
    unfold openSector
    simp only [hbackend, if_true]
    split <;> rfl
  | enhanced =>
    rw [openSector_eq suite host hbackend]
    exact .inr ⟨rfl, rfl⟩

theorem sealSectorWithContext_snd (nonce : Option (Block 12)) (rnd : Except String (Block 16)) (fileSeed : Bytes)
    (index : UInt64) (plaintext : Bytes) (fileId : Option UInt64) :
    (s.sealSectorWithContext suite host nonce rnd fileSeed index plaintext fileId).2 = s ∨
      (s.sealSectorWithContext suite host nonce rnd fileSeed index plaintext fileId).2 =
        (s.sealSector suite host nonce fileSeed index.toUInt32 plaintext).2 := by
  unfold sealSectorWithContext
  split
  · left
    split
    · rfl
    · split
      · rfl
      · split <;> rfl
  · split
    · exact .inl rfl
    · right
      split <;> simp_all

theorem openSectorWithContext_snd (fileSeed : Bytes) (index : UInt64) (ciphertext : Bytes) (authTag : Option Tag)
    (fileId : Option UInt64) :
    (s.openSectorWithContext suite host fileSeed index ciphertext authTag fileId).2 = s ∨
      (s.openSectorWithContext suite host fileSeed index ciphertext authTag fileId).2 =
        (s.openSector suite host fileSeed index.toUInt32 ciphertext).2 := by
  unfold openSectorWithContext
  split
  · left
    split
    · rfl
    · split
      · rfl
      · split
        · rfl
        · split <;> rfl
  · split
    · exact .inl rfl
    · exact .inr rfl

theorem registerFolder_snd (parentFolderId : Option UInt64) (name : String) (localFolderId : Option UInt64) :
    ∃ folders next, (s.registerFolder parentFolderId name localFolderId).2 =
      { s with folders := folders, nextLocalFolderId := next } := by
  unfold registerFolder
  split
  · split
    · exact ⟨s.folders, s.nextLocalFolderId, rfl⟩
    · exact ⟨_, s.nextLocalFolderId, rfl⟩
  · exact ⟨_, _, rfl⟩

theorem mkdirPclsyncCompat_snd (symKey : Option SymKeyVer1) (parentFolderId : Option UInt64) (name : String)
    (localFolderId : Option UInt64) :
    ∃ folders next, (s.mkdirPclsyncCompat suite symKey parentFolderId name localFolderId).2 =
      { s with folders := folders, nextLocalFolderId := next } := by
  unfold mkdirPclsyncCompat
  have hsame : ∃ folders next, s = { s with folders := folders, nextLocalFolderId := next } := ⟨_, _, rfl⟩
  split
  · exact hsame
  · split
    · exact hsame
    · split
      · exact hsame
      · split
        · exact hsame
        · split
          · exact hsame
          · split
            · exact hsame
            · split
              · rename_i hres
                have hsnd := congrArg Prod.snd hres
                dsimp only at hsnd
                rw [← hsnd]
                exact s.registerFolder_snd _ _ localFolderId
              · rename_i hres
                have hsnd := congrArg Prod.snd hres
                dsimp only at hsnd
                rw [← hsnd]
                exact s.registerFolder_snd _ _ localFolderId

theorem mkdir_snd (symKey : Option SymKeyVer1) (parentFolderId : Option UInt64) (name : String)
    (localFolderId : Option UInt64) :
    ∃ folders next, (s.mkdir suite symKey parentFolderId name localFolderId).2 =
      { s with folders := folders, nextLocalFolderId := next } := by
  unfold mkdir
  split
  · obtain ⟨folders, next, hcompat⟩ := s.mkdirPclsyncCompat_snd suite symKey parentFolderId name localFolderId
    refine ⟨folders, next, ?_⟩
    rw [← hcompat]
    split <;> simp_all
  · split
    · exact ⟨s.folders, s.nextLocalFolderId, rfl⟩
    · split
      · exact ⟨s.folders, s.nextLocalFolderId, rfl⟩
      · exact s.registerFolder_snd parentFolderId _ localFolderId

theorem mkdirWithContext_snd (symKey : Option SymKeyVer1) (parentFolderId : Option UInt64) (name : String)
    (localFolderId : Option UInt64) :
    ∃ folders next, (s.mkdirWithContext suite symKey parentFolderId name localFolderId).2 =
      { s with folders := folders, nextLocalFolderId := next } := by
  unfold mkdirWithContext
  split
  · exact s.mkdirPclsyncCompat_snd suite symKey parentFolderId name localFolderId
  · obtain ⟨folders, next, hmkdir⟩ := s.mkdir_snd suite symKey parentFolderId name localFolderId
    refine ⟨folders, next, ?_⟩
    rw [← hmkdir]
    split <;> simp_all

theorem withCompatState_snd
    (change : PclsyncCompatState PrivKey → Except CryptoError (PclsyncCompatState PrivKey)) :
    (s.withCompatState change).2 = s ∨
      s.effectiveBackend = .pclsyncCompat ∧ s.pclsyncCompatState.isSome = true ∧
        ∃ state, (s.withCompatState change).2 = { s with pclsyncCompatState := some state } := by
  unfold withCompatState
  cases hbackend : s.effectiveBackend with
  | enhanced => exact .inl rfl
  | pclsyncCompat =>
    cases hstate : s.pclsyncCompatState with
    | none => exact .inl rfl
    | some state =>
      simp only [ne_eq, not_true_eq_false, if_false]
      cases change state with
      | error e => exact .inl rfl
      | ok state' => exact .inr ⟨trivial, rfl, state', rfl⟩

/-- A call that works with the key, the folders or the key caches. -/
def Call.works : Call PrivKey → Bool
  | .sealSector .. | .openSector .. | .sealSectorWithContext .. | .openSectorWithContext .. | .mkdir ..
  | .mkdirWithContext .. | .cacheFolderKey .. | .cacheFileKey .. | .unwrapAndCacheFolderKey ..
  | .unwrapAndCacheFileKey .. => true
  | _ => false

/-- What such a call makes of a shell. -/
inductive Touched : CryptoShell PrivKey → Prop
  | same : Touched s
  | used (hbackend : s.effectiveBackend = .enhanced) : Touched (s.afterUse host)
  | reserved (hbackend : s.effectiveBackend = .enhanced) :
    Touched { s.afterUse host with sectorsSealed := s.sectorsSealed + 1 }
  | registered (folders : UInt64 → Option CryptoFolderEntry) (next : UInt64) :
    Touched { s with folders := folders, nextLocalFolderId := next }
  | cached (state : PclsyncCompatState PrivKey) (hbackend : s.effectiveBackend = .pclsyncCompat)
    (hstate : s.pclsyncCompatState.isSome = true) : Touched { s with pclsyncCompatState := some state }

theorem touched_sealSector (nonce : Option (Block 12)) (fileSeed : Bytes) (index : UInt32) (plaintext : Bytes) :
    Touched host s (s.sealSector suite host nonce fileSeed index plaintext).2 := by
  rcases s.sealSector_snd suite host nonce fileSeed index plaintext with hsame | ⟨hbackend, huse | huse⟩
  · rw [hsame]
    exact .same
  · rw [huse]
    exact .used hbackend
  · rw [huse]
    exact .reserved hbackend

theorem touched_openSector (fileSeed : Bytes) (index : UInt32) (frame : Bytes) :
    Touched host s (s.openSector suite host fileSeed index frame).2 := by
  rcases s.openSector_snd suite host fileSeed index frame with hsame | ⟨hbackend, huse⟩
  · rw [hsame]
    exact .same
  · rw [huse]
    exact .used hbackend

theorem touched_withCompatState
    (change : PclsyncCompatState PrivKey → Except CryptoError (PclsyncCompatState PrivKey)) :
    Touched host s (s.withCompatState change).2 := by
  rcases s.withCompatState_snd change with hsame | ⟨hbackend, hstate, state, hcached⟩
  · rw [hsame]
    exact .same
  · rw [hcached]
    exact .cached state hbackend hstate

theorem touched_step {turn : Turn PrivKey} (h : Call.works turn.call = true) :
    Touched turn.host s (s.step suite turn) := by
  obtain ⟨host, call⟩ := turn
  cases call with
  | sealSector nonce fileSeed index plaintext => exact touched_sealSector suite host s nonce fileSeed index plaintext
  | openSector fileSeed index frame => exact touched_openSector suite host s fileSeed index frame
  | sealSectorWithContext nonce rnd fileSeed index plaintext fileId =>
    show Touched host s (s.sealSectorWithContext suite host nonce rnd fileSeed index plaintext fileId).2
    rcases s.sealSectorWithContext_snd suite host nonce rnd fileSeed index plaintext fileId with hsame | hseal
    · rw [hsame]
      exact .same
    · rw [hseal]
      exact touched_sealSector suite host s nonce fileSeed _ plaintext
  | openSectorWithContext fileSeed index ciphertext authTag fileId =>
    show Touched host s (s.openSectorWithContext suite host fileSeed index ciphertext authTag fileId).2
    rcases s.openSectorWithContext_snd suite host fileSeed index ciphertext authTag fileId with hsame | hopen
    · rw [hsame]
      exact .same
    · rw [hopen]
      exact touched_openSector suite host s fileSeed _ ciphertext
  | mkdir symKey parentFolderId name localFolderId =>
    show Touched host s (s.mkdir suite symKey parentFolderId name localFolderId).2
    obtain ⟨folders, next, hmkdir⟩ := s.mkdir_snd suite symKey parentFolderId name localFolderId
    rw [hmkdir]
    exact .registered folders next
  | mkdirWithContext symKey parentFolderId name localFolderId =>
    show Touched host s (s.mkdirWithContext suite symKey parentFolderId name localFolderId).2
    obtain ⟨folders, next, hmkdir⟩ := s.mkdirWithContext_snd suite symKey parentFolderId name localFolderId
    rw [hmkdir]
    exact .registered folders next
  | cacheFolderKey folderId sym => exact touched_withCompatState host s _
  | cacheFileKey fileId sym => exact touched_withCompatState host s _
  | unwrapAndCacheFolderKey folderId wrapped => exact touched_withCompatState host s _
  | unwrapAndCacheFileKey fileId wrapped => exact touched_withCompatState host s _
  | _ => cases h

end touches

end Pcloud.CryptoShell
