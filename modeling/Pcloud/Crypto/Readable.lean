import Pcloud.Crypto.DataKey

/-!
# Sealed sectors stay readable

The key of a file is derived again at every use, from the master key or from the unwrapped data key.
Whatever a session does in between, that secret is the one the sector was sealed under, as long as
the shell holds a key and the key has not expired.
-/

namespace Pcloud.CryptoShell

open BlockChain

variable {PrivKey : Type} (suite : CryptoSuite PrivKey) (wraps : Wrappings)

/-- `secret` is what the file keys come from: in Raw mode the key that is resident, if one is. -/
def FileSecret (key : Block 32) (secret : Bytes) (s : CryptoShell PrivKey) : Prop :=
  s.effectiveBackend = .enhanced ∧ CacheSound wraps s.dekCache ∧
    match s.mode with
    | .raw => secret = key.1 ∧ ∀ resident, s.keys.activeKeyMaterial = some resident → resident = key
    | .kms keyId wrapped context => secret.length = kmsDekLen ∧ wraps keyId wrapped context secret

/-- What may come between a seal and an open. The password of a start is right when it gives the
key that `sealer` holds. A rotation is for KMS mode, where it keeps the data key. -/
def Admissible (sealer s : CryptoShell PrivKey) (turn : Turn PrivKey) : Prop :=
  match turn.call with
  | .stop | .saveRestore .. | .sealSector .. | .openSector .. => True
  | .start password _ =>
    s.mode = .raw → sealer.keys.activeKeyMaterial = some (s.keys.deriveKeyMaterial suite (suite.nfc password))
  | .changePassword .. | .changePasswordUnlocked .. => s.mode ≠ .raw
  | _ => False

section secret

variable {suite wraps} {host : Host} {s s' : CryptoShell PrivKey} {key : Block 32} {secret : Bytes}

theorem fileSecret_of_use (hkms : host.kms.Sound wraps) (h : KmsInv wraps s) (hbackend : s.effectiveBackend = .enhanced)
    (hsecret : s.sectorSecret host = .ok secret) :
    ∃ key, s.keys.activeKeyMaterial = some key ∧ FileSecret wraps key secret s := by
  obtain ⟨hcache, hwrapped⟩ := h
  unfold sectorSecret at hsecret
  cases hstale : s.keys.isStale host.instant with
  | true => simp [hstale] at hsecret
  | false =>
    cases hkey : s.keys.activeKeyMaterial with
    | none => simp [hstale, hkey] at hsecret
    | some key =>
      refine ⟨key, rfl, hbackend, hcache, ?_⟩
      cases hmode : s.mode with
      | raw =>
        simp only [hstale, hkey, hmode, Bool.false_eq_true, if_false, Except.ok.injEq] at hsecret
        refine ⟨hsecret.symm, ?_⟩
        intro resident hresident
        exact Option.some.inj (hresident.symm.trans hkey)
      | kms keyId wrapped context =>
        obtain ⟨dek, hdek⟩ := hwrapped keyId wrapped context hmode
        simp only [hstale, hkey, hmode, Bool.false_eq_true, if_false,
          (unwrapCached_sound hkms hcache hdek host.instant).1] at hsecret
        by_cases hlen : dek.length = kmsDekLen
        · simp only [hlen, ne_eq, not_true_eq_false, if_false, Except.ok.injEq] at hsecret
          subst hsecret
          exact ⟨hlen, hdek⟩
        · simp [hlen] at hsecret

theorem FileSecret.use (h : FileSecret wraps key secret s) (hkms : host.kms.Sound wraps)
    (hfresh : s.keys.isStale host.instant = false) (hkey : s.keys.activeKeyMaterial.isSome = true) :
    s.sectorSecret host = .ok secret := by
  obtain ⟨-, hcache, hmode⟩ := h
  obtain ⟨resident, hresident⟩ := Option.isSome_iff_exists.mp hkey
  unfold sectorSecret
  cases hcase : s.mode with
  | raw =>
    rw [hcase] at hmode
    obtain ⟨hsecret, hsame⟩ := hmode
    simp [hfresh, hresident, hsecret, hsame resident hresident]
  | kms keyId wrapped context =>
    rw [hcase] at hmode
    obtain ⟨hlen, hdek⟩ := hmode
    simp [hfresh, hresident, (unwrapCached_sound hkms hcache hdek host.instant).1, hlen]

theorem FileSecret.unique (h : FileSecret wraps key secret s) (hkms : host.kms.Sound wraps) {other : Bytes}
    (hother : s.sectorSecret host = .ok other) : other = secret := by
  have hfresh : s.keys.isStale host.instant = false := by
    by_contra hstale
    have hexpired : s.sectorSecret host = .error .masterKeyExpired := if_pos (by simpa using hstale)
    rw [hexpired] at hother
    cases hother
  have hkey : s.keys.activeKeyMaterial.isSome = true := by
    cases hnone : s.keys.activeKeyMaterial with
    | none => simp [sectorSecret, hfresh, hnone] at hother
    | some resident => rfl
  exact Except.ok.inj (hother.symm.trans (h.use hkms hfresh hkey))

theorem FileSecret.of_same (h : FileSecret wraps key secret s) (hbackend : s'.effectiveBackend = s.effectiveBackend)
    (hcache : CacheSound wraps s'.dekCache) (hmode : s'.mode = s.mode)
    (hkey : s'.keys.activeKeyMaterial = s.keys.activeKeyMaterial ∨ s'.keys.activeKeyMaterial = none) :
    FileSecret wraps key secret s' := by
  obtain ⟨hs, -, hsecret⟩ := h
  refine ⟨hbackend.trans hs, hcache, ?_⟩
  rw [hmode]
  cases hcase : s.mode with
  | raw =>
    rw [hcase] at hsecret
    refine ⟨hsecret.1, ?_⟩
    intro resident hresident
    rcases hkey with hsame | hnone
    · exact hsecret.2 resident (hsame.symm.trans hresident)
    · rw [hnone] at hresident
      cases hresident
  | kms keyId wrapped context =>
    rw [hcase] at hsecret
    exact hsecret

theorem FileSecret.of_kms (h : FileSecret wraps key secret s) (hraw : s.mode ≠ .raw)
    (hbackend : s'.effectiveBackend = s.effectiveBackend) (hcache : CacheSound wraps s'.dekCache)
    (hmode : s'.mode = s.mode) : FileSecret wraps key secret s' := by
  obtain ⟨hs, -, hsecret⟩ := h
  refine ⟨hbackend.trans hs, hcache, ?_⟩
  rw [hmode]
  cases hcase : s.mode with
  | raw => exact absurd hcase hraw
  | kms keyId wrapped context =>
    rw [hcase] at hsecret
    exact hsecret

theorem FileSecret.kmsInv (h : FileSecret wraps key secret s) : KmsInv wraps s := by
  obtain ⟨-, hcache, hsecret⟩ := h
  refine ⟨hcache, ?_⟩
  intro keyId wrapped context hmode
  rw [hmode] at hsecret
  exact ⟨secret, hsecret.2⟩

theorem fileSecret_afterUse (hkms : host.kms.Sound wraps) (h : FileSecret wraps key secret s) :
    FileSecret wraps key secret (s.afterUse host) := by
  have hbackend : (s.afterUse host).effectiveBackend = s.effectiveBackend := by
    unfold effectiveBackend
    rw [afterUse_backend, afterUse_fingerprint]
  refine h.of_same hbackend (kmsInv_afterUse hkms h.kmsInv).1 (s.afterUse_mode host) ?_
  unfold afterUse
  split
  · exact .inr rfl
  · exact .inl rfl

theorem fileSecret_touched (hkms : host.kms.Sound wraps) (h : FileSecret wraps key secret s)
    (htouched : Touched host s s') : FileSecret wraps key secret s' := by
  cases htouched with
  | same => exact h
  | used => exact fileSecret_afterUse hkms h
  | reserved => exact fileSecret_afterUse hkms h
  | registered => exact h
  | cached => exact h

theorem fileSecret_commitRotation (hkms : host.kms.Sound wraps) (h : FileSecret wraps key secret s)
    (hraw : s.mode ≠ .raw) (newSalt : Block 16) (newKey : Block 32) (flags : UInt64) {staged : Option CryptoMode}
    (hstaged : s.stagedMode host = .ok staged) :
    FileSecret wraps key secret (s.commitRotation suite host newSalt newKey flags staged) := by
  obtain ⟨hbackend, hcache, hsecret⟩ := h
  cases hcase : s.mode with
  | raw => exact absurd hcase hraw
  | kms keyId wrapped context =>
    rw [hcase] at hsecret
    obtain ⟨newWrapped, rfl, hnew⟩ := stagedMode_kms hkms hcase hsecret.2 hstaged
    refine ⟨?_, cacheSound_evictActive hcache, hsecret.1, hnew⟩
    -- The rotation leaves the backend, and there is a fingerprint to infer it from.
    unfold effectiveBackend at hbackend ⊢
    cases hstamp : s.backend with
    | some stored =>
      rw [hstamp] at hbackend
      simpa [commitRotation, hstamp] using hbackend
    | none => simp [commitRotation, hstamp]

theorem fileSecret_step {sealer : CryptoShell PrivKey} {turn : Turn PrivKey}
    (hsealer : sealer.keys.activeKeyMaterial = some key) (hkms : turn.host.kms.Sound wraps)
    (h : FileSecret wraps key secret s) (hok : Admissible suite sealer s turn) :
    FileSecret wraps key secret (s.step suite turn) := by
  obtain ⟨host, call⟩ := turn
  unfold step
  cases call with
  | stop => exact h.of_same rfl (cacheSound_evictActive h.2.1) rfl (.inr rfl)
  | saveRestore newProcess =>
    refine h.of_same rfl ?_ rfl (.inr rfl)
    cases newProcess with
    | false => exact h.2.1
    | true => exact fun key entry hentry => nomatch hentry
  | sealSector | openSector => exact fileSecret_touched hkms h (s.touched_step suite rfl)
  | start password expected =>
    show FileSecret wraps key secret (s.startInner suite host password expected).2
    rw [startInner_eq]
    split
    · exact h
    · split
      · obtain ⟨hbackend, hcache, hsecret⟩ := h
        unfold startedWith
        rw [hbackend]
        refine ⟨rfl, hcache, ?_⟩
        cases hcase : s.mode with
        | raw =>
          rw [hcase] at hsecret
          simp only [recordUnlock, hcase]
          refine ⟨hsecret.1, ?_⟩
          intro resident hresident
          have hright := hok hcase
          rw [hsealer] at hright
          exact (Option.some.inj hresident).symm.trans (Option.some.inj hright).symm
        | kms keyId wrapped context =>
          rw [hcase] at hsecret
          simp only [recordUnlock, hcase]
          exact hsecret
      · exact h.of_same rfl h.2.1 rfl (.inl rfl)
  | changePasswordUnlocked newSalt newPassword flags =>
    show FileSecret wraps key secret (s.changePasswordUnlocked suite host newSalt newPassword flags).2
    rcases s.changePasswordUnlocked_cases suite host newPassword newSalt flags with
      ⟨e, hfail, -⟩ | ⟨staged, -, -, hstaged, newKey, hdone⟩
    · rw [hfail]
      exact h
    · rw [hdone]
      exact fileSecret_commitRotation hkms h hok newSalt _ flags hstaged
  | changePassword newSalt newCompatSalt oldPassword newPassword flags =>
    show FileSecret wraps key secret
      (s.changePassword suite host newSalt newCompatSalt oldPassword newPassword flags).2
    obtain ⟨hmode, hcache, hbackend⟩ := @openedWith_kms _ suite s oldPassword
    have hopened := h.of_kms hok hbackend (hcache ▸ h.2.1) hmode
    rcases s.changePassword_snd suite host oldPassword newPassword newSalt newCompatSalt flags with
      hsame | ⟨hcompat, -⟩ | ⟨-, hopen | ⟨staged, hstaged, hrotated⟩⟩
    · rw [hsame]
      exact h
    · rw [h.1] at hcompat
      cases hcompat
    · rw [hopen]
      exact hopened
    · rw [hrotated]
      rw [← openedWith_stagedMode suite host] at hstaged
      exact fileSecret_commitRotation hkms hopened (hmode ▸ hok) newSalt _ flags hstaged
  | _ => cases hok

theorem FileSecret.open (h : FileSecret wraps key secret s) (hkms : host.kms.Sound wraps) {fileSeed frame : Bytes}
    {index : UInt32} {plaintext : Bytes}
    (hopen : openFrame suite (deriveFileKey suite secret fileSeed) index frame = .ok plaintext) :
    (s.keys.isStale host.instant = false → s.keys.activeKeyMaterial.isSome = true →
        (s.openSector suite host fileSeed index frame).1 = .ok plaintext) ∧
      ∀ opened, (s.openSector suite host fileSeed index frame).1 = .ok opened → opened = plaintext := by
  constructor
  · intro hfresh hkey
    exact openSector_ok suite host h.1 (h.use hkms hfresh hkey) hopen
  · intro opened hopened
    rw [openSector_eq suite host h.1] at hopened
    cases hcase : s.sectorSecret host with
    | error e => simp [hcase] at hopened
    | ok other =>
      obtain rfl := h.unique hkms hcase
      simp only [hcase, hopen, Except.ok.injEq] at hopened
      exact hopened.symm

theorem openSector_error (hbackend : s.effectiveBackend = .enhanced) {fileSeed frame : Bytes} {index : UInt32}
    {e : ContentCryptoError} (hopen : ∀ fileKey, openFrame suite fileKey index frame = .error e) :
    ∃ e, (s.openSector suite host fileSeed index frame).1 = .error e := by
  rw [openSector_eq suite host hbackend]
  cases s.sectorSecret host with
  | error e => exact ⟨e, rfl⟩
  | ok secret =>
    simp only [hopen]
    exact ⟨_, rfl⟩

theorem fileSecret_of_seal (hkms : host.kms.Sound wraps) (h : KmsInv wraps s) {nonce : Option (Block 12)}
    {fileSeed plaintext frame : Bytes} {index : UInt32}
    (hseal : s.sealSector suite host nonce fileSeed index plaintext = (.ok frame, s')) :
    ∃ key secret, s.keys.activeKeyMaterial = some key ∧ FileSecret wraps key secret s' ∧
      sealFrame suite nonce (deriveFileKey suite secret fileSeed) index plaintext s.sectorSizeBytes = .ok frame := by
  cases hbackend : s.effectiveBackend with
  | pclsyncCompat =>
    unfold sealSector at hseal
    simp only [hbackend, if_true] at hseal
    split at hseal <;> simp at hseal
  | enhanced =>
    rcases s.sealSector_cases suite host hbackend nonce fileSeed index plaintext with
      ⟨-, hfail⟩ | ⟨-, ⟨e, -, hfail⟩ | ⟨secret, hsecret, ⟨frame', hframe, hdone⟩ | ⟨e, hfail⟩⟩⟩
    · simp [hfail] at hseal
    · simp [hfail] at hseal
    · obtain ⟨key, hkey, hfile⟩ := fileSecret_of_use hkms h hbackend hsecret
      rw [hdone] at hseal
      obtain ⟨hanswer, rfl⟩ := Prod.mk.inj hseal
      obtain rfl := Except.ok.inj hanswer
      exact ⟨key, secret, hkey, fileSecret_afterUse hkms hfile, hframe⟩
    · simp [hfail] at hseal

end secret

variable {wraps} {s₀ : CryptoShell PrivKey} {before history : List (Turn PrivKey)} {sealHost openHost : Host}
  {nonce : Option (Block 12)} {fileSeed plaintext frame : Bytes} {index : UInt32} {sealed : CryptoShell PrivKey}

theorem sealed_sector_readable (hmode : s₀.mode = .raw) (hcache : CacheSound wraps s₀.dekCache)
    (hbefore : ∀ turn ∈ before, turn.host.kms.Sound wraps) (hsealHost : sealHost.kms.Sound wraps)
    (hseal : (Runs.run (step suite) s₀ before).sealSector suite sealHost nonce fileSeed index plaintext =
      (.ok frame, sealed))
    (hhistory : ∀ turn ∈ history, turn.host.kms.Sound wraps)
    (hok : Runs.AllSteps (step suite) (Admissible suite (Runs.run (step suite) s₀ before)) sealed history)
    (hopenHost : openHost.kms.Sound wraps) :
    let s := Runs.run (step suite) sealed history
    (s.keys.isStale openHost.instant = false → s.keys.activeKeyMaterial.isSome = true →
        (s.openSector suite openHost fileSeed index frame).1 = .ok plaintext) ∧
      (∀ opened, (s.openSector suite openHost fileSeed index frame).1 = .ok opened → opened = plaintext) ∧
      ∀ other ≠ index, ∃ e, (s.openSector suite openHost fileSeed other frame).1 = .error e := by
  have hinv : KmsInv wraps (Runs.run (step suite) s₀ before) := by
    refine (Runs.allSteps_of_calls hbefore).invariant (I := KmsInv wraps) ⟨hcache, ?_⟩ ?_
    · intro keyId wrapped context hkms
      rw [hmode] at hkms
      cases hkms
    · intro s turn h hkms
      exact kmsInv_step hkms h
  obtain ⟨key, secret, hkey, hsealed, hframe⟩ := fileSecret_of_seal hsealHost hinv hseal
  have hfile : FileSecret wraps key secret (Runs.run (step suite) sealed history) := by
    refine ((Runs.allSteps_of_calls hhistory).and hok).invariant (I := FileSecret wraps key secret) hsealed ?_
    rintro s turn h ⟨hkms, hadmissible⟩
    exact fileSecret_step hkey hkms h hadmissible
  obtain ⟨hopen, hother⟩ := openFrame_sealFrame hframe
  obtain ⟨hreads, honly⟩ := hfile.open hopenHost hopen
  refine ⟨hreads, honly, ?_⟩
  intro other hne
  exact openSector_error hfile.1 (hother · other hne)

/-- A sector that nobody read for longer than the TTL is not read at once. -/
theorem sealed_sector_expires :
    let s := plainProfile.step echoSuite ⟨⟨1, 0, nullKms⟩, .start "a" none⟩
    let sealing := s.sealSector echoSuite ⟨1, 0, nullKms⟩ (some (Block.ofBytes 12 [])) [] 0 [1]
    ∃ frame, sealing.1 = .ok frame ∧
      (sealing.2.openSector echoSuite ⟨302, 301 * nanosPerSec, nullKms⟩ [] 0 frame).1 = .error .masterKeyExpired :=
  ⟨_, rfl, by decide⟩

/-- A profile in KMS mode, unlocked. -/
def kmsTurns : List (Turn Bytes) :=
  [⟨⟨1, 0, echoKms⟩, .enableKmsMode (Block.ofBytes 32 []) "cmk" none⟩, ⟨⟨1, 0, echoKms⟩, .start "a" none⟩]

/-- A sector that is sealed on it. -/
def kmsSeal : Except CryptoError Bytes × CryptoShell Bytes :=
  (Runs.run (step echoSuite) plainProfile kmsTurns).sealSector echoSuite ⟨1, 0, echoKms⟩
    (some (Block.ofBytes 12 [])) [] 0 [1]

/-- A rotation and a restart. -/
def rotateAndRestart : List (Turn Bytes) :=
  [⟨⟨2, 0, echoKms⟩, .changePassword (Block.ofBytes 16 [7]) (Block.ofBytes 64 []) "a" "b" 0⟩,
    ⟨⟨2, 0, echoKms⟩, .saveRestore true⟩, ⟨⟨3, 0, echoKms⟩, .start "b" none⟩]

theorem echoKms_sound : echoKms.Sound fun _ wrapped _ dek => wrapped = dek where
  encrypted h := (Except.ok.inj h).symm
  decrypts h := congrArg Except.ok h

theorem sealed_sector_readable_restart :
    ∃ frame, kmsSeal.1 = .ok frame ∧
      let s := Runs.run (step echoSuite) kmsSeal.2 rotateAndRestart
      (s.keys.isStale 0 = false → s.keys.activeKeyMaterial.isSome = true →
          (s.openSector echoSuite ⟨3, 0, echoKms⟩ [] 0 frame).1 = .ok [1]) ∧
        (∀ opened, (s.openSector echoSuite ⟨3, 0, echoKms⟩ [] 0 frame).1 = .ok opened → opened = [1]) ∧
        ∀ other ≠ 0, ∃ e, (s.openSector echoSuite ⟨3, 0, echoKms⟩ [] other frame).1 = .error e := by
  cases hframe : kmsSeal.1 with
  | error e =>
    have hok : kmsSeal.1.isOk = true := by decide
    rw [hframe] at hok
    cases hok
  | ok frame =>
    have hkms : ∀ turn ∈ kmsTurns, turn.host.kms.Sound fun _ wrapped _ dek => wrapped = dek := by
      simp [kmsTurns, echoKms_sound]
    have hkms' : ∀ turn ∈ rotateAndRestart, turn.host.kms.Sound fun _ wrapped _ dek => wrapped = dek := by
      simp [rotateAndRestart, echoKms_sound]
    refine ⟨frame, rfl, ?_⟩
    refine @sealed_sector_readable _ echoSuite _ plainProfile kmsTurns rotateAndRestart ⟨1, 0, echoKms⟩
      ⟨3, 0, echoKms⟩ (some (Block.ofBytes 12 [])) [] [1] frame 0 kmsSeal.2 rfl (fun _ _ h => nomatch h) hkms
      echoKms_sound (Prod.ext hframe rfl) hkms' ⟨?_, trivial, ?_, trivial⟩ echoKms_sound
    · intro hraw
      exact absurd hraw (by decide)
    · intro hraw
      exact absurd hraw (by decide)

end Pcloud.CryptoShell
