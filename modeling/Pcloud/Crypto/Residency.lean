import Pcloud.Crypto.Outcomes

/-!
# Which key is resident when

Every call leaves a shell in which only the backend of the profile holds a key, no key is held
unless the state says `Unlocked`, and the key that is held is the one of the fingerprint.
-/

namespace Pcloud.CryptoShell

open BlockChain

variable {PrivKey : Type} (suite : CryptoSuite PrivKey)

structure Residency (s : CryptoShell PrivKey) : Prop where
  gate : s.unlockState ≠ .unlocked → s.keys.activeKeyMaterial = none ∧ s.pclsyncCompatState = none
  enhanced : s.effectiveBackend = .enhanced → s.pclsyncCompat = none ∧ s.pclsyncCompatState = none
  compat : s.effectiveBackend = .pclsyncCompat →
    s.keys.setupFingerprint = none ∧ s.keys.activeKeyMaterial = none
  profile : s.pclsyncCompatState.isSome = true → s.pclsyncCompat.isSome = true
  matching : ∀ key, s.keys.activeKeyMaterial = some key → s.keys.matchesSetup suite key = true

theorem matchesSetup_own (keys : KeyManager) (key : Block 32)
    (h : keys.setupFingerprint = some (fingerprintFor suite key)) : keys.matchesSetup suite key = true := by
  simp [KeyManager.matchesSetup, h]

variable {suite} {s : CryptoShell PrivKey} {host : Host}

theorem residency_fresh (salt : Block 16) : Residency suite (fresh salt : CryptoShell PrivKey) := by
  constructor <;> simp [fresh, effectiveBackend]

theorem Residency.isSetup_of_key (h : Residency suite s) (hkey : s.keys.activeKeyMaterial.isSome = true) :
    s.isSetup = true := by
  obtain ⟨key, hkey⟩ := Option.isSome_iff_exists.mp hkey
  have hmatch := h.matching key hkey
  unfold KeyManager.matchesSetup at hmatch
  unfold isSetup
  cases hprint : s.keys.setupFingerprint with
  | none => simp [hprint] at hmatch
  | some print => rfl

/-! ## Calls that lose the keys -/

theorem Residency.dropKeys (h : Residency suite s) {s' : CryptoShell PrivKey}
    (hkey : s'.keys.activeKeyMaterial = none) (hstate : s'.pclsyncCompatState = none)
    (hbackend : s'.backend = s.backend) (hprint : s'.keys.setupFingerprint = s.keys.setupFingerprint)
    (hprofile : s'.pclsyncCompat = s.pclsyncCompat) : Residency suite s' := by
  have heff : s'.effectiveBackend = s.effectiveBackend := by
    simp only [effectiveBackend, hbackend, hprint]
  constructor
  · intro _
    exact ⟨hkey, hstate⟩
  · intro henhanced
    rw [heff] at henhanced
    exact ⟨hprofile.trans (h.enhanced henhanced).1, hstate⟩
  · intro hcompat
    rw [heff] at hcompat
    exact ⟨hprint.trans (h.compat hcompat).1, hkey⟩
  · simp [hstate]
  · simp [hkey]

theorem residency_reset : Residency suite (s.reset host) := by
  constructor <;> simp [reset, stop, effectiveBackend]

/-! ## Calls that take the keys along -/

theorem Residency.congr (h : Residency suite s) {s' : CryptoShell PrivKey} (hunlock : s'.unlockState = s.unlockState)
    (hkey : s'.keys.activeKeyMaterial = s.keys.activeKeyMaterial)
    (hprint : s'.keys.setupFingerprint = s.keys.setupFingerprint) (hbackend : s'.backend = s.backend)
    (hprofile : s'.pclsyncCompat = s.pclsyncCompat) (hstate : s'.pclsyncCompatState = s.pclsyncCompatState) :
    Residency suite s' := by
  have heff : s'.effectiveBackend = s.effectiveBackend := by
    simp only [effectiveBackend, hbackend, hprint]
  obtain ⟨hgate, henhanced, hcompat, hsome, hmatch⟩ := h
  constructor
  · rwa [hunlock, hkey, hstate]
  · rwa [heff, hprofile, hstate]
  · rwa [heff, hprint, hkey]
  · rwa [hstate, hprofile]
  · intro key hsome'
    rw [hkey] at hsome'
    have hmatches := hmatch key hsome'
    unfold KeyManager.matchesSetup at hmatches ⊢
    rwa [hprint]

theorem residency_afterUse (h : Residency suite s) (hbackend : s.effectiveBackend = .enhanced) :
    Residency suite (s.afterUse host) := by
  by_cases hstale : s.keys.isStale host.instant = true
  · have hstate := (h.enhanced hbackend).2
    apply h.dropKeys <;> simp [afterUse, hstale, hstate]
  · have hfresh : s.keys.isStale host.instant = false := by simpa using hstale
    rw [afterUse_fresh host hfresh]
    exact h.congr rfl rfl rfl rfl rfl rfl

theorem Touched.residency {s' : CryptoShell PrivKey} (htouched : Touched host s s') (h : Residency suite s) :
    Residency suite s' := by
  cases htouched with
  | same => exact h
  | used hbackend => exact residency_afterUse h hbackend
  | reserved hbackend => exact (residency_afterUse h hbackend).congr rfl rfl rfl rfl rfl rfl
  | registered folders next => exact h.congr rfl rfl rfl rfl rfl rfl
  | cached state hbackend hstate =>
    obtain ⟨held, hheld⟩ := Option.isSome_iff_exists.mp hstate
    constructor
    · intro hlocked
      have hnone := (h.gate hlocked).2
      rw [hheld] at hnone
      cases hnone
    · intro henhanced
      have heff : s.effectiveBackend = .enhanced := henhanced
      rw [hbackend] at heff
      cases heff
    · exact h.compat
    · intro _
      exact h.profile hstate
    · exact h.matching

/-! ## Calls that set up, unlock and rotate -/

theorem residency_setup (h : Residency suite s) (seed : ProfileSeed PrivKey) (password : String)
    (hint : Option String) (backend : CryptoBackend) :
    Residency suite (s.setupWithBackend suite seed password hint backend).2 := by
  rcases setupWithBackend_cases suite seed password hint backend s with
    ⟨e, hfail⟩ | ⟨-, -, hsetup, ⟨-, hok⟩ | ⟨-, profile, -, hok⟩⟩
  · rw [hfail]
    exact h
  all_goals
    -- A shell without a profile holds no key.
    have hkey : s.keys.activeKeyMaterial = none := by
      cases hsome : s.keys.activeKeyMaterial with
      | none => rfl
      | some key => simp [h.isSetup_of_key (by simp [hsome])] at hsetup
    simp only [isSetup, Bool.or_eq_false_iff, Option.isSome_eq_false_iff, Option.isNone_iff_eq_none] at hsetup
    have hstate : s.pclsyncCompatState = none := by
      cases hsome : s.pclsyncCompatState with
      | none => rfl
      | some state => simpa [hsetup.2] using h.profile (by simp [hsome])
    rw [hok]
    constructor <;>
      simp [installEnhanced, installCompat, effectiveBackend, hkey, hstate, hsetup]

theorem Residency.no_keys_of_not_started (h : Residency suite s) (hstarted : s.isStarted = false) :
    s.keys.activeKeyMaterial = none ∧ s.pclsyncCompatState = none := by
  by_cases hunlocked : s.unlockState = .unlocked
  · simpa [isStarted, hunlocked] using hstarted
  · exact h.gate hunlocked

theorem no_keys_of_startGuard (h : Residency suite s) {password : String} {expected : Option CryptoBackend}
    (hguard : s.startGuard host password expected = none) :
    s.keys.activeKeyMaterial = none ∧ s.pclsyncCompatState = none := by
  cases hbackend : s.effectiveBackend with
  | enhanced =>
    apply h.no_keys_of_not_started
    unfold startGuard at hguard
    rw [hbackend] at hguard
    repeat' split at hguard
    all_goals simp_all
  | pclsyncCompat =>
    refine ⟨(h.compat hbackend).2, ?_⟩
    unfold startGuard at hguard
    rw [hbackend] at hguard
    repeat' split at hguard
    all_goals simp_all

theorem residency_start (h : Residency suite s) (password : String) (expected : Option CryptoBackend) :
    Residency suite (s.startInner suite host password expected).2 := by
  rw [startInner_eq]
  cases hguard : s.startGuard host password expected with
  | some e => exact h
  | none =>
    obtain ⟨hkey, hstate⟩ := no_keys_of_startGuard h hguard
    dsimp only
    split
    · rename_i haccepts
      unfold startAccepts at haccepts
      unfold startedWith
      cases hbackend : s.effectiveBackend with
      | enhanced =>
        rw [hbackend] at haccepts
        obtain ⟨hprofile, -⟩ := h.enhanced hbackend
        constructor <;> simp [recordUnlock, effectiveBackend, hprofile, hstate]
        exact haccepts
      | pclsyncCompat =>
        rw [hbackend] at haccepts
        obtain ⟨hprint, -⟩ := h.compat hbackend
        constructor <;> simp [recordUnlock, effectiveBackend, hprint, hkey]
        intro hunlock
        cases hprofile : s.pclsyncCompat with
        | none => simp [compatUnlock, hprofile] at hunlock
        | some profile => rfl
    · exact h.dropKeys hkey hstate rfl rfl rfl

theorem residency_rotate (h : Residency suite s) (hkey : s.keys.activeKeyMaterial.isSome = true)
    (newSalt : Block 16) (newKey : Block 32) (flags : UInt64) (staged : Option CryptoMode) :
    Residency suite (s.commitRotation suite host newSalt newKey flags staged) := by
  obtain ⟨key, hsome⟩ := Option.isSome_iff_exists.mp hkey
  -- Only an Enhanced profile holds such a key.
  have hbackend : s.effectiveBackend = .enhanced := by
    cases hcompat : s.effectiveBackend with
    | enhanced => rfl
    | pclsyncCompat => simp [(h.compat hcompat).2] at hsome
  obtain ⟨hprofile, hstate⟩ := h.enhanced hbackend
  have heff : (s.commitRotation suite host newSalt newKey flags staged).effectiveBackend = .enhanced := by
    unfold effectiveBackend at hbackend ⊢
    cases hstamp : s.backend with
    | none => simp [commitRotation, hstamp]
    | some b =>
      rw [hstamp] at hbackend
      simpa [commitRotation, hstamp] using hbackend
  constructor
  · intro hlocked
    have hnone := (h.gate hlocked).1
    rw [hsome] at hnone
    cases hnone
  · intro _
    exact ⟨hprofile, hstate⟩
  · rw [heff]
    simp
  · intro hstate'
    simp [commitRotation, hstate] at hstate'
  · intro resident hresident
    obtain rfl := Option.some.inj hresident
    exact matchesSetup_own suite _ _ rfl

theorem residency_changePasswordUnlocked (h : Residency suite s) (newSalt : Block 16) (newPassword : String)
    (flags : UInt64) : Residency suite (s.changePasswordUnlocked suite host newSalt newPassword flags).2 := by
  rcases s.changePasswordUnlocked_cases suite host newPassword newSalt flags with
    ⟨e, hfail, -⟩ | ⟨staged, hkey, -, -, key, hok⟩
  · rw [hfail]
    exact h
  · rw [hok]
    exact residency_rotate h hkey newSalt _ flags staged

theorem residency_openedWith (h : Residency suite s) (hbackend : s.effectiveBackend = .enhanced)
    {oldPassword : String} (hright : s.changeAccepts suite oldPassword = true) :
    Residency suite (s.openedWith suite oldPassword) := by
  unfold changeAccepts at hright
  rw [hbackend] at hright
  unfold openedWith
  split
  · exact h
  · obtain ⟨hprofile, hstate⟩ := h.enhanced hbackend
    constructor
    · simp
    · intro _
      exact ⟨hprofile, hstate⟩
    · intro hcompat
      have heff : s.effectiveBackend = .pclsyncCompat := hcompat
      rw [hbackend] at heff
      cases heff
    · simp [hstate]
    · intro key hkey
      obtain rfl := Option.some.inj hkey
      exact hright

theorem residency_rewrapped (h : Residency suite s) (hsome : s.pclsyncCompat.isSome = true)
    (profile : PclsyncCompatProfile) : Residency suite { s with pclsyncCompat := some profile } := by
  constructor
  · exact h.gate
  · intro henhanced
    have hnone := (h.enhanced henhanced).1
    simp [hnone] at hsome
  · exact h.compat
  · simp
  · exact h.matching

theorem residency_reencoded (h : Residency suite s) (newSalt : Block 64) (oldPassword newPassword : String)
    (flags : UInt64) :
    Residency suite (s.changePasswordPclsyncCompatReencoded suite newSalt oldPassword newPassword flags).2 := by
  rcases s.reencoded_cases suite oldPassword newPassword newSalt flags with
    ⟨e, hfail, -⟩ | ⟨profile, state, privDer, hprofile, -, -, key, hok⟩
  · rw [hfail]
    exact h
  · rw [hok]
    exact residency_rewrapped h (by simp [hprofile]) _

theorem residency_changePassword (h : Residency suite s) (newSalt : Block 16) (newCompatSalt : Block 64)
    (oldPassword newPassword : String) (flags : UInt64) :
    Residency suite (s.changePassword suite host newSalt newCompatSalt oldPassword newPassword flags).2 := by
  cases hguard : s.changeGuard oldPassword newPassword with
  | some e =>
    rw [changePassword_refused suite host hguard]
    exact h
  | none =>
    cases hbackend : s.effectiveBackend with
    | pclsyncCompat =>
      rw [changePassword_compat suite host hguard hbackend]
      exact residency_reencoded h newCompatSalt oldPassword newPassword flags
    | enhanced =>
      rw [changePassword_enhanced suite host hguard hbackend]
      split
      · rename_i hright
        exact residency_changePasswordUnlocked (residency_openedWith h hbackend hright) newSalt newPassword flags
      · exact h

theorem residency_changePasswordWithContext (h : Residency suite s) (newSalt : Block 64)
    (oldPassword newPassword : String) (flags : UInt32) :
    Residency suite (s.changePasswordWithContext suite newSalt oldPassword newPassword flags).2 := by
  cases hbackend : s.effectiveBackend with
  | pclsyncCompat =>
    rw [(s.changePasswordWithContext_eq suite oldPassword newPassword newSalt flags hbackend).1]
    exact residency_reencoded h newSalt oldPassword newPassword flags.toUInt64
  | enhanced =>
    unfold changePasswordWithContext
    simpa [hbackend] using h

/-! ## Runs -/

theorem residency_step (h : Residency suite s) (turn : Turn PrivKey) : Residency suite (s.step suite turn) := by
  obtain ⟨host, call⟩ := turn
  cases call with
  | setupWithBackend seed password hint backend => exact residency_setup h seed password hint backend
  | start password expected => exact residency_start h password expected
  | stop => exact h.dropKeys rfl rfl rfl rfl rfl
  | reset => exact residency_reset
  | saveRestore newProcess => exact h.dropKeys rfl rfl rfl rfl rfl
  | enableKmsMode dek keyId context =>
    show Residency suite (s.enableKmsMode host dek keyId context).2
    rcases s.enableKmsMode_snd host dek keyId context with hsame | ⟨wrapped, -, hmode⟩
    · rw [hsame]
      exact h
    · rw [hmode]
      exact h.congr rfl rfl rfl rfl rfl rfl
  | changePasswordUnlocked newSalt newPassword flags =>
    exact residency_changePasswordUnlocked h newSalt newPassword flags
  | changePassword newSalt newCompatSalt oldPassword newPassword flags =>
    exact residency_changePassword h newSalt newCompatSalt oldPassword newPassword flags
  | changePasswordWithContext newSalt oldPassword newPassword flags =>
    exact residency_changePasswordWithContext h newSalt oldPassword newPassword flags
  | _ => exact (s.touched_step suite rfl).residency h

/-! ## No key, no work -/

section refused

variable (host) in
theorem sectorSecret_no_key (hkey : s.keys.activeKeyMaterial = none) : ∃ e, s.sectorSecret host = .error e := by
  unfold sectorSecret
  split
  · exact ⟨_, rfl⟩
  · rw [hkey]
    exact ⟨_, rfl⟩

theorem withCompatState_no_key (hstate : s.pclsyncCompatState = none)
    (change : PclsyncCompatState PrivKey → Except CryptoError (PclsyncCompatState PrivKey)) :
    (s.withCompatState change).1.isOk = false := by
  unfold withCompatState
  dsimp only
  split
  · rfl
  · rw [hstate]
    rfl

variable (hkey : s.keys.activeKeyMaterial = none) (hstate : s.pclsyncCompatState = none)
include hkey hstate

theorem sealSector_no_key (nonce : Option (Block 12)) (fileSeed : Bytes) (index : UInt32) (plaintext : Bytes) :
    (s.sealSector suite host nonce fileSeed index plaintext).1.isOk = false := by
  cases hbackend : s.effectiveBackend with
  | enhanced =>
    obtain ⟨e, he⟩ := sectorSecret_no_key host hkey
    rw [sealSector_eq suite host hbackend, he]
    split <;> rfl
  | pclsyncCompat =>
    unfold sealSector
    simp [hbackend, hstate]

theorem openSector_no_key (fileSeed : Bytes) (index : UInt32) (frame : Bytes) :
    (s.openSector suite host fileSeed index frame).1.isOk = false := by
  cases hbackend : s.effectiveBackend with
  | enhanced =>
    obtain ⟨e, he⟩ := sectorSecret_no_key host hkey
    rw [openSector_eq suite host hbackend, he]
    rfl
  | pclsyncCompat =>
    unfold openSector
    simp [hbackend, hstate]

theorem sealSectorWithContext_no_key (nonce : Option (Block 12)) (rnd : Except String (Block 16)) (fileSeed : Bytes)
    (index : UInt64) (plaintext : Bytes) (fileId : Option UInt64) :
    (s.sealSectorWithContext suite host nonce rnd fileSeed index plaintext fileId).1.isOk = false := by
  unfold sealSectorWithContext
  split
  · cases fileId with
    | none => rfl
    | some fileId => simp [compatFileKey, hstate]
  · split
    · rfl
    · have hseal : (s.sealSector suite host nonce fileSeed index.toUInt32 plaintext).1.isOk = false :=
        sealSector_no_key hkey hstate nonce fileSeed _ plaintext
      split
      · rfl
      · rename_i hok
        rw [hok] at hseal
        cases hseal

theorem openSectorWithContext_no_key (fileSeed : Bytes) (index : UInt64) (ciphertext : Bytes) (authTag : Option Tag)
    (fileId : Option UInt64) :
    (s.openSectorWithContext suite host fileSeed index ciphertext authTag fileId).1.isOk = false := by
  unfold openSectorWithContext
  split
  · cases fileId with
    | none => rfl
    | some fileId => cases authTag <;> simp [compatFileKey, hstate]
  · split
    · rfl
    · exact openSector_no_key hkey hstate fileSeed _ ciphertext

theorem mkdir_no_key (symKey : Option SymKeyVer1) (parentFolderId : Option UInt64) (name : String)
    (localFolderId : Option UInt64) : (s.mkdir suite symKey parentFolderId name localFolderId).1.isOk = false := by
  unfold mkdir mkdirPclsyncCompat
  split <;> simp [hkey, hstate]

theorem mkdirWithContext_no_key (symKey : Option SymKeyVer1) (parentFolderId : Option UInt64) (name : String)
    (localFolderId : Option UInt64) :
    (s.mkdirWithContext suite symKey parentFolderId name localFolderId).1.isOk = false := by
  unfold mkdirWithContext
  split
  · simp [mkdirPclsyncCompat, hstate]
  · have hmkdir : (s.mkdir suite symKey parentFolderId name localFolderId).1.isOk = false :=
      mkdir_no_key hkey hstate symKey parentFolderId name localFolderId
    split
    · rfl
    · rename_i hok
      rw [hok] at hmkdir
      cases hmkdir

theorem works_no_key {turn : Turn PrivKey} (hworks : Call.works turn.call = true) : s.succeeds suite turn = false := by
  obtain ⟨host, call⟩ := turn
  unfold succeeds
  cases call with
  | sealSector nonce fileSeed index plaintext =>
    simpa [exec] using sealSector_no_key hkey hstate nonce fileSeed index plaintext
  | openSector fileSeed index frame => simpa [exec] using openSector_no_key hkey hstate fileSeed index frame
  | sealSectorWithContext nonce rnd fileSeed index plaintext fileId =>
    simpa [exec] using sealSectorWithContext_no_key hkey hstate nonce rnd fileSeed index plaintext fileId
  | openSectorWithContext fileSeed index ciphertext authTag fileId =>
    simpa [exec] using openSectorWithContext_no_key hkey hstate fileSeed index ciphertext authTag fileId
  | mkdir symKey parentFolderId name localFolderId =>
    simpa [exec] using mkdir_no_key hkey hstate symKey parentFolderId name localFolderId
  | mkdirWithContext symKey parentFolderId name localFolderId =>
    simpa [exec] using mkdirWithContext_no_key hkey hstate symKey parentFolderId name localFolderId
  | cacheFolderKey folderId sym => simpa [exec, cacheFolderKey] using withCompatState_no_key hstate _
  | cacheFileKey folderId sym => simpa [exec, cacheFileKey] using withCompatState_no_key hstate _
  | unwrapAndCacheFolderKey folderId wrapped =>
    simpa [exec, unwrapAndCacheFolderKey] using withCompatState_no_key hstate _
  | unwrapAndCacheFileKey fileId wrapped =>
    simpa [exec, unwrapAndCacheFileKey] using withCompatState_no_key hstate _
  | _ => cases hworks

end refused

theorem locked_means_no_key (salt : Block 16) (turns : List (Turn PrivKey)) :
    let s := Runs.run (step suite) (fresh salt) turns
    (s.unlockState ≠ .unlocked →
        s.keys.activeKeyMaterial = none ∧ s.pclsyncCompatState = none ∧
          ∀ turn : Turn PrivKey, Call.works turn.call = true → s.succeeds suite turn = false) ∧
      (s.keys.activeKeyMaterial.isSome = true ∨ s.pclsyncCompatState.isSome = true → s.isSetup = true) ∧
      ∀ key, s.keys.activeKeyMaterial = some key → s.keys.matchesSetup suite key = true := by
  intro s
  have h : Residency suite s := Runs.run_invariant (residency_fresh salt) fun s turn h => residency_step h turn
  refine ⟨?_, ?_, h.matching⟩
  · intro hlocked
    obtain ⟨hkey, hstate⟩ := h.gate hlocked
    exact ⟨hkey, hstate, fun turn hworks => works_no_key hkey hstate hworks⟩
  · rintro (hkey | hstate)
    · exact h.isSetup_of_key hkey
    · simp [isSetup, h.profile hstate]

end Pcloud.CryptoShell
