import Pcloud.Crypto.Outcomes

/-!
# Starting over after a reset

`reset` erases a profile field by field. The lockout counters, the nonce budget and the time of
the last use are not among the fields, so the next profile inherits them.
-/

namespace Pcloud.CryptoShell

open BlockChain

variable {PrivKey : Type} (suite : CryptoSuite PrivKey)

/-- A sector that fits is sealed and opens again, on a host that does not move on in between. A
compat shell is given the key of the file first. -/
def SectorsWork (host : Host) (s : CryptoShell PrivKey) : Prop :=
  match s.effectiveBackend with
  | .enhanced =>
    ∀ (nonce : Block 12) (fileSeed : Bytes) (index : UInt32) (plaintext : Bytes),
      plaintext.length ≤ s.sectorSizeBytes → plaintext.length ≤ 2 ^ 36 →
        let sealing := s.sealSector suite host (some nonce) fileSeed index plaintext
        ∃ frame, sealing.1 = .ok frame ∧
          (sealing.2.openSector suite host fileSeed index frame).1 = .ok plaintext
  | .pclsyncCompat =>
    ∀ (rnd : Block 16) (fileId : UInt64) (sym : SymKeyVer1) (index : UInt64) (plaintext : Bytes),
      plaintext ≠ [] → plaintext.length ≤ sectorSize →
        let sealing := (s.cacheFileKey fileId sym).2.sealSectorWithContext suite host none (.ok rnd) [] index
          plaintext (some fileId)
        ∃ frame, sealing.1 = .ok frame ∧
          (sealing.2.openSectorWithContext suite host [] index frame.ciphertext frame.authTag (some fileId)).1 =
            .ok plaintext

section sectors

variable {suite} {host : Host} {s : CryptoShell PrivKey}

theorem isStale_touched {keys : KeyManager} (now : Nat) (h : keys.lastAuthenticatedAt = some now) :
    keys.isStale now = false := by
  by_contra hstale
  obtain ⟨httl, last, hlast, hle⟩ := (isStale_iff keys now).mp (by simpa using hstale)
  obtain rfl : now = last := by simpa [h] using hlast
  rw [Nat.sub_self, Nat.zero_div] at hle
  omega

theorem sectorsWork_raw_iff {key : Block 32} (hbackend : s.backend = some .enhanced)
    (hkey : s.keys.activeKeyMaterial = some key) (hmode : s.mode = .raw) :
    s.SectorsWork suite host ↔ s.keys.isStale host.instant = false ∧ s.sectorsSealed < nonceBudgetCap := by
  have heff : s.effectiveBackend = .enhanced := by simp [effectiveBackend, hbackend]
  unfold SectorsWork
  simp only [heff]
  constructor
  · intro hwork
    obtain ⟨frame, hseal, -⟩ := hwork (Block.ofBytes 12 []) [] 0 [] (Nat.zero_le _) (Nat.zero_le _)
    rw [sealSector_eq suite host heff] at hseal
    by_cases hcap : s.sectorsSealed ≥ nonceBudgetCap
    · simp [hcap] at hseal
    · refine ⟨?_, Nat.not_le.mp hcap⟩
      by_contra hstale
      have hexpired : s.sectorSecret host = .error .masterKeyExpired := if_pos (by simpa using hstale)
      simp [hcap, hexpired] at hseal
  · rintro ⟨hfresh, hcap⟩ nonce fileSeed index plaintext hsize hmax
    have hsecret := sectorSecret_raw host hfresh hkey hmode
    obtain ⟨frame, hframe⟩ := @sealFrame_isOk _ suite nonce (deriveFileKey suite key.1 fileSeed) index _ _ hsize hmax
    rw [sealSector_eq suite host heff]
    simp only [Nat.not_le.mpr hcap, if_false, hsecret, hframe, afterUse_fresh host hfresh]
    refine ⟨frame, rfl, openSector_ok suite host ?_ ?_ (openFrame_sealFrame hframe).1⟩
    · simpa [effectiveBackend] using heff
    · exact sectorSecret_raw host (isStale_touched host.instant rfl) hkey hmode

theorem sectorsWork_compat {state : PclsyncCompatState PrivKey} (hbackend : s.backend = some .pclsyncCompat)
    (hstate : s.pclsyncCompatState = some state) : s.SectorsWork suite host := by
  have heff : s.effectiveBackend = .pclsyncCompat := by simp [effectiveBackend, hbackend]
  unfold SectorsWork
  simp only [heff]
  intro rnd fileId sym index plaintext hne hlen
  have hcache : (s.cacheFileKey fileId sym).2 =
      { s with pclsyncCompatState := some (insertFileKey fileId sym state) } := by
    simp [cacheFileKey, withCompatState, heff, hstate]
  have heff' : ({ s with pclsyncCompatState := some (insertFileKey fileId sym state) } :
      CryptoShell PrivKey).effectiveBackend = .pclsyncCompat := by
    simpa [effectiveBackend] using heff
  have hkeys : ({ s with pclsyncCompatState := some (insertFileKey fileId sym state) } :
      CryptoShell PrivKey).compatFileKey fileId = .ok { aesKey := sym.aesKey, hmacKey := sym.hmacKey.1 } := by
    simp [compatFileKey, insertFileKey]
  obtain ⟨sealed, hseal⟩ : ∃ sealed, Pcloud.sealSector suite.toPrimitives (.ok rnd)
      { aesKey := sym.aesKey, hmacKey := sym.hmacKey.1 } index plaintext = .ok sealed := by
    simp [Pcloud.sealSector, sealSectorWithRnd, hne, Nat.not_lt.mpr hlen]
  have hopen := openSector_sealSector _ _ _ hseal
  rw [hcache]
  simp only [sealSectorWithContext, openSectorWithContext, heff', hkeys, hseal, if_true]
  refine ⟨⟨sealed.ciphertext, some sealed.authTag⟩, rfl, ?_⟩
  simp only [hopen]

end sectors

section setup

variable {s : CryptoShell PrivKey} {password : String} {hint : Option String} (host : Host)

theorem start_installEnhanced (hpolicy : s.policyIsSafe = true) (hpassword : password ≠ "") :
    (s.installEnhanced suite password hint).startInner suite host password none =
      if s.lockedOut host then (.error .bruteForceLockedOut, s.installEnhanced suite password hint)
      else (.ok (), (s.installEnhanced suite password hint).startedWith suite password) := by
  have hguard : (s.installEnhanced suite password hint).startGuard host password none =
      if s.lockedOut host then some .bruteForceLockedOut else none := by
    have hsafe : (s.installEnhanced suite password hint).policyIsSafe = true := hpolicy
    have hsetup : (s.installEnhanced suite password hint).isSetup = true := rfl
    have heff : (s.installEnhanced suite password hint).effectiveBackend = .enhanced := rfl
    have hstarted : (s.installEnhanced suite password hint).isStarted = false := rfl
    have hlock : (s.installEnhanced suite password hint).lockedOut host = s.lockedOut host := rfl
    simp [startGuard, hsafe, hpassword, hsetup, heff, hstarted, hlock]
  have haccepts : (s.installEnhanced suite password hint).startAccepts suite password = true := by
    simp [startAccepts, effectiveBackend, installEnhanced, KeyManager.matchesSetup, KeyManager.deriveKeyMaterial]
  rw [startInner_eq, hguard, haccepts]
  by_cases hlocked : s.lockedOut host = true
  · simp [hlocked]
  · simp [hlocked]

variable (hint) in
theorem start_installCompat {seed : ProfileSeed PrivKey} {profile : PclsyncCompatProfile}
    (hpolicy : s.policyIsSafe = true) (hpassword : password ≠ "") (hstate : s.pclsyncCompatState = none)
    (hprofile : generateProfile suite seed (suite.nfc password) = .ok profile) :
    (s.installCompat hint profile).startInner suite host password none =
        (if s.lockedOut host then (.error .bruteForceLockedOut, s.installCompat hint profile)
        else (.ok (), (s.installCompat hint profile).startedWith suite password)) ∧
      ((s.installCompat hint profile).startedWith suite password).pclsyncCompatState.isSome = true := by
  obtain ⟨privKey, -, hunlock⟩ := unlockProfile_generateProfile hprofile
  have hguard : (s.installCompat hint profile).startGuard host password none =
      if s.lockedOut host then some .bruteForceLockedOut else none := by
    have hsafe : (s.installCompat hint profile).policyIsSafe = true := hpolicy
    have hsetup : (s.installCompat hint profile).isSetup = true := by simp [isSetup, installCompat]
    have heff : (s.installCompat hint profile).effectiveBackend = .pclsyncCompat := rfl
    have hsome : (s.installCompat hint profile).pclsyncCompat = some profile := rfl
    have hnone : (s.installCompat hint profile).pclsyncCompatState = none := hstate
    have hlock : (s.installCompat hint profile).lockedOut host = s.lockedOut host := rfl
    simp [startGuard, hsafe, hpassword, hsetup, heff, hsome, hnone, hlock]
  have hcompat : (s.installCompat hint profile).compatUnlock suite (suite.nfc password) =
      some { privKey := privKey, folderKeys := fun _ => none, fileKeys := fun _ => none } := by
    simp [compatUnlock, installCompat, hunlock, Except.toOption]
  have haccepts : (s.installCompat hint profile).startAccepts suite password = true := by
    have heff : (s.installCompat hint profile).effectiveBackend = .pclsyncCompat := rfl
    simp [startAccepts, heff, hcompat]
  constructor
  · rw [startInner_eq, hguard, haccepts]
    by_cases hlocked : s.lockedOut host = true
    · simp [hlocked]
    · simp [hlocked]
  · have heff : (s.installCompat hint profile).effectiveBackend = .pclsyncCompat := rfl
    simp [startedWith, heff, hcompat]

end setup

theorem reset_starts_over_iff {s s' : CryptoShell PrivKey} (resetHost startHost useHost : Host)
    (seed : ProfileSeed PrivKey) (password : String) (hint : Option String) (backend : CryptoBackend)
    (hsetup : (s.reset resetHost).setupWithBackend suite seed password hint backend = (.ok (), s')) :
    ((s'.startInner suite startHost password none).1 = .ok () ∧
        (s'.startInner suite startHost password none).2.SectorsWork suite useHost) ↔
      s.lockedOut startHost = false ∧
        (backend = .enhanced → s.keys.isStale useHost.instant = false ∧ s.sectorsSealed < nonceBudgetCap) := by
  have hlock : (s.reset resetHost).lockedOut startHost = s.lockedOut startHost := rfl
  rcases setupWithBackend_cases suite seed password hint backend (s.reset resetHost) with
    ⟨e, hfail⟩ | ⟨hpolicy, hpassword, -, ⟨rfl, hok⟩ | ⟨rfl, profile, hprofile, hok⟩⟩
  · rw [hfail] at hsetup
    cases hsetup
  · rw [hok] at hsetup
    cases hsetup
    rw [start_installEnhanced suite startHost hpolicy hpassword, hlock]
    by_cases hlocked : s.lockedOut startHost = true
    · simp [hlocked]
    · simp only [hlocked, Bool.false_eq_true, if_false, true_and, true_implies]
      exact sectorsWork_raw_iff rfl rfl rfl
  · rw [hok] at hsetup
    cases hsetup
    obtain ⟨hstart, hstate⟩ := start_installCompat suite hint startHost hpolicy hpassword rfl hprofile
    rw [hstart, hlock]
    by_cases hlocked : s.lockedOut startHost = true
    · simp [hlocked]
    · simp only [hlocked, Bool.false_eq_true, if_false, true_and, reduceCtorEq, false_implies, and_true, iff_true]
      obtain ⟨state, hstate⟩ := Option.isSome_iff_exists.mp hstate
      exact sectorsWork_compat rfl hstate

/-- A profile that ten wrong passwords have locked. -/
def guessedShell : CryptoShell Bytes :=
  Runs.run (step echoSuite) (fresh (Block.ofBytes 16 []))
    (⟨⟨1, 0, nullKms⟩, .setupWithBackend ⟨none, .error ""⟩ "a" none .enhanced⟩ ::
      (List.range 10).map fun i => ⟨⟨2000 * (i + 1), 2000 * (i + 1) * nanosPerSec, nullKms⟩, .start "x" none⟩)

theorem reset_keeps_lockout :
    let host : Host := ⟨1000000, 1000000 * nanosPerSec, nullKms⟩
    let setup := (guessedShell.reset host).setupWithBackend echoSuite ⟨none, .error ""⟩ "b" none .enhanced
    setup.1 = .ok () ∧ (setup.2.startInner echoSuite host "b" none).1 = .error .bruteForceLockedOut := by
  decide +kernel

theorem reset_starts_over_iff_fresh :
    let host : Host := ⟨1, 0, nullKms⟩
    let s : CryptoShell Bytes := fresh (Block.ofBytes 16 [])
    let setup := (s.reset host).setupWithBackend echoSuite ⟨none, .error ""⟩ "b" none .enhanced
    setup.1 = .ok () ∧
      (((setup.2.startInner echoSuite host "b" none).1 = .ok () ∧
          (setup.2.startInner echoSuite host "b" none).2.SectorsWork echoSuite host) ↔
        s.lockedOut host = false ∧
          (CryptoBackend.enhanced = .enhanced →
            s.keys.isStale host.instant = false ∧ s.sectorsSealed < nonceBudgetCap)) :=
  ⟨rfl, reset_starts_over_iff echoSuite ⟨1, 0, nullKms⟩ ⟨1, 0, nullKms⟩ ⟨1, 0, nullKms⟩ ⟨none, .error ""⟩ "b" none
    .enhanced rfl⟩

end Pcloud.CryptoShell
