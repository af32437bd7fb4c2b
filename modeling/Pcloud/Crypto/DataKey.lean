import Pcloud.Crypto.Outcomes

/-!
# The wrapped data key

Behind a KMS that decrypts what it encrypted, the blob that a shell in KMS mode holds always wraps
some data key, and so does everything in the cache. Every call keeps this.
-/

namespace Pcloud.CryptoShell

open BlockChain

variable {PrivKey : Type} (suite : CryptoSuite PrivKey) (wraps : Wrappings)

/-- The data key that is in use was wrapped by the KMS, and so was everything that is cached. -/
def KmsInv (s : CryptoShell PrivKey) : Prop :=
  CacheSound wraps s.dekCache ∧
    ∀ keyId wrapped context, s.mode = .kms keyId wrapped context → ∃ dek, wraps keyId wrapped context dek

section kms

variable {suite wraps} {host : Host} {s s' : CryptoShell PrivKey}

theorem cacheSound_evictActive (h : CacheSound wraps s.dekCache) : CacheSound wraps (s.evictActive host) := by
  unfold evictActive
  split
  · exact h
  · exact cacheSound_evict h _

theorem stagedMode_kms (hkms : host.kms.Sound wraps) {keyId : String} {wrapped dek : Bytes} {context : Option String}
    (hmode : s.mode = .kms keyId wrapped context) (hdek : wraps keyId wrapped context dek) {staged : Option CryptoMode}
    (h : s.stagedMode host = .ok staged) :
    ∃ newWrapped, staged = some (.kms keyId newWrapped context) ∧ wraps keyId newWrapped context dek := by
  unfold stagedMode rewrapSingleKmsBlob at h
  simp only [hmode, hkms.decrypts hdek] at h
  by_cases hlen : dek.length = kmsDekLen
  · cases hwrap : host.kms.encryptDek keyId dek context with
    | error e => simp [hlen, hwrap] at h
    | ok newWrapped =>
      simp only [hlen, hwrap, ne_eq, not_true_eq_false, if_false, Except.ok.injEq] at h
      exact ⟨newWrapped, h.symm, hkms.encrypted hwrap⟩
  · simp [hlen] at h

theorem stagedMode_raw (hmode : s.mode = .raw) : s.stagedMode host = .ok none := by
  unfold stagedMode
  rw [hmode]

theorem KmsInv.of_same (h : KmsInv wraps s) (hmode : s'.mode = s.mode) (hcache : s'.dekCache = s.dekCache) :
    KmsInv wraps s' := by
  unfold KmsInv
  rw [hmode, hcache]
  exact h

theorem kmsInv_commitRotation (hkms : host.kms.Sound wraps) (h : KmsInv wraps s) (newSalt : Block 16)
    (newKey : Block 32) (flags : UInt64) {staged : Option CryptoMode} (hstaged : s.stagedMode host = .ok staged) :
    KmsInv wraps (s.commitRotation suite host newSalt newKey flags staged) := by
  obtain ⟨hcache, hmode⟩ := h
  cases hcase : s.mode with
  | raw =>
    obtain rfl : none = staged := Except.ok.inj ((stagedMode_raw hcase).symm.trans hstaged)
    exact KmsInv.of_same ⟨hcache, hmode⟩ rfl rfl
  | kms keyId wrapped context =>
    obtain ⟨dek, hdek⟩ := hmode keyId wrapped context hcase
    obtain ⟨newWrapped, rfl, hnew⟩ := stagedMode_kms hkms hcase hdek hstaged
    refine ⟨cacheSound_evictActive hcache, ?_⟩
    rintro _ _ _ hsome
    obtain ⟨rfl, rfl, rfl⟩ := CryptoMode.kms.inj hsome
    exact ⟨dek, hnew⟩

theorem kmsInv_changePasswordUnlocked (hkms : host.kms.Sound wraps) (h : KmsInv wraps s) (newSalt : Block 16)
    (newPassword : String) (flags : UInt64) :
    KmsInv wraps (s.changePasswordUnlocked suite host newSalt newPassword flags).2 := by
  rcases s.changePasswordUnlocked_cases suite host newPassword newSalt flags with
    ⟨e, hfail, -⟩ | ⟨staged, -, -, hstaged, key, hok⟩
  · rw [hfail]
    exact h
  · rw [hok]
    exact kmsInv_commitRotation hkms h newSalt _ flags hstaged

theorem openedWith_kms (password : String) :
    (s.openedWith suite password).mode = s.mode ∧ (s.openedWith suite password).dekCache = s.dekCache ∧
      (s.openedWith suite password).effectiveBackend = s.effectiveBackend := by
  unfold openedWith
  split
  · exact ⟨rfl, rfl, rfl⟩
  · exact ⟨rfl, rfl, rfl⟩

theorem kmsInv_afterUse (hkms : host.kms.Sound wraps) (h : KmsInv wraps s) : KmsInv wraps (s.afterUse host) := by
  obtain ⟨hcache, hmode⟩ := h
  unfold afterUse
  split
  · exact KmsInv.of_same ⟨hcache, hmode⟩ rfl rfl
  · refine ⟨?_, hmode⟩
    unfold cacheAfterUse
    dsimp only
    split
    · rename_i keyId wrapped context hkey hcase
      obtain ⟨dek, hdek⟩ := hmode keyId wrapped context hcase
      exact (unwrapCached_sound hkms hcache hdek host.instant).2
    · exact hcache

theorem Touched.kmsInv (hkms : host.kms.Sound wraps) (h : KmsInv wraps s) (htouched : Touched host s s') :
    KmsInv wraps s' := by
  cases htouched with
  | same => exact h
  | used => exact kmsInv_afterUse hkms h
  | reserved => exact (kmsInv_afterUse hkms h).of_same rfl rfl
  | registered => exact h.of_same rfl rfl
  | cached => exact h.of_same rfl rfl

theorem kmsInv_changePassword (hkms : host.kms.Sound wraps) (h : KmsInv wraps s) (newSalt : Block 16)
    (newCompatSalt : Block 64) (oldPassword newPassword : String) (flags : UInt64) :
    KmsInv wraps (s.changePassword suite host newSalt newCompatSalt oldPassword newPassword flags).2 := by
  obtain ⟨hmode, hcache, -⟩ := @openedWith_kms _ suite s oldPassword
  have hopened := h.of_same hmode hcache
  rcases s.changePassword_snd suite host oldPassword newPassword newSalt newCompatSalt flags with
    hsame | ⟨-, profile, hcompat⟩ | ⟨-, hopen | ⟨staged, hstaged, hrotated⟩⟩
  · rw [hsame]
    exact h
  · rw [hcompat]
    exact h.of_same rfl rfl
  · rw [hopen]
    exact hopened
  · rw [hrotated]
    rw [← openedWith_stagedMode suite host] at hstaged
    exact kmsInv_commitRotation hkms hopened newSalt _ flags hstaged

theorem kmsInv_step {turn : Turn PrivKey} (hkms : turn.host.kms.Sound wraps) (h : KmsInv wraps s) :
    KmsInv wraps (s.step suite turn) := by
  obtain ⟨host, call⟩ := turn
  unfold step
  cases call with
  | setupWithBackend seed password hint backend =>
    show KmsInv wraps (s.setupWithBackend suite seed password hint backend).2
    rcases setupWithBackend_cases suite seed password hint backend s with
      ⟨e, hfail⟩ | ⟨-, -, -, ⟨-, hok⟩ | ⟨-, profile, -, hok⟩⟩
    · rw [hfail]
      exact h
    · rw [hok]
      exact h.of_same rfl rfl
    · rw [hok]
      exact h.of_same rfl rfl
  | start password expected =>
    show KmsInv wraps (s.startInner suite host password expected).2
    rw [startInner_eq]
    split
    · exact h
    · split
      · unfold startedWith
        split
        · exact h.of_same rfl rfl
        · exact h.of_same rfl rfl
      · exact h.of_same rfl rfl
  | stop => exact ⟨cacheSound_evictActive h.1, h.2⟩
  | reset =>
    refine ⟨cacheSound_evictActive h.1, ?_⟩
    rintro _ _ _ hmode
    cases hmode
  | saveRestore newProcess =>
    refine ⟨?_, h.2⟩
    cases newProcess with
    | false => exact h.1
    | true => exact fun key entry hentry => nomatch hentry
  | enableKmsMode dek keyId context =>
    show KmsInv wraps (s.enableKmsMode host dek keyId context).2
    rcases s.enableKmsMode_snd host dek keyId context with hsame | ⟨wrapped, hwrap, hmode⟩
    · rw [hsame]
      exact h
    · rw [hmode]
      refine ⟨h.1, ?_⟩
      rintro _ _ _ hsome
      obtain ⟨rfl, rfl, rfl⟩ := CryptoMode.kms.inj hsome
      exact ⟨dek.1, hkms.encrypted hwrap⟩
  | changePasswordUnlocked newSalt newPassword flags =>
    exact kmsInv_changePasswordUnlocked hkms h newSalt newPassword flags
  | changePassword newSalt newCompatSalt oldPassword newPassword flags =>
    exact kmsInv_changePassword hkms h newSalt newCompatSalt oldPassword newPassword flags
  | changePasswordWithContext newSalt oldPassword newPassword flags =>
    show KmsInv wraps (s.changePasswordWithContext suite newSalt oldPassword newPassword flags).2
    rcases s.changePasswordWithContext_snd suite oldPassword newPassword newSalt flags with
      hsame | ⟨profile, hcompat⟩
    · rw [hsame]
      exact h
    · rw [hcompat]
      exact h.of_same rfl rfl
  | _ => exact Touched.kmsInv hkms h (s.touched_step suite rfl)

end kms

end Pcloud.CryptoShell
