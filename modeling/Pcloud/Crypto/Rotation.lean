import Pcloud.Crypto.Outcomes

/-!
# A rotation that fails

`change_password_unlocked` stages everything before it changes anything. `change_password` on a
locked shell unlocks it first, and a KMS that then fails leaves it unlocked.
-/

namespace Pcloud

open BlockChain

/-- The part of a shell that a rotation replaces. -/
structure RotationState where
  unlockState : UnlockState
  activeKeyMaterial : Option (Block 32)
  derivationSalt : Bytes
  setupFingerprint : Option (Block 32)
  privateFlags : UInt64
  mode : CryptoMode
  pclsyncCompat : Option PclsyncCompatProfile
deriving DecidableEq

namespace CryptoShell

variable {PrivKey : Type} (suite : CryptoSuite PrivKey) (host : Host)

def rotationState (s : CryptoShell PrivKey) : RotationState where
  unlockState := s.unlockState
  activeKeyMaterial := s.keys.activeKeyMaterial
  derivationSalt := s.keys.derivationSalt
  setupFingerprint := s.keys.setupFingerprint
  privateFlags := s.keys.privateFlags
  mode := s.mode
  pclsyncCompat := s.pclsyncCompat

/-- The old password is right for an Enhanced shell that is not started, and the KMS will not wrap
its key again. -/
def UnlocksThenFails (oldPassword newPassword : String) (s : CryptoShell PrivKey) : Prop :=
  s.changeGuard oldPassword newPassword = none ∧ s.effectiveBackend = .enhanced ∧
    s.changeAccepts suite oldPassword = true ∧ s.isStarted = false ∧ ∃ e, s.stagedMode host = .error e

section parts

variable {suite host} {s : CryptoShell PrivKey} {oldPassword newPassword : String} {newSalt : Block 16}
  {newCompatSalt : Block 64} {flags : UInt64} {e : CryptoError}

theorem changePasswordUnlocked_error
    (h : (s.changePasswordUnlocked suite host newSalt newPassword flags).1 = .error e) :
    (s.changePasswordUnlocked suite host newSalt newPassword flags).2 = s := by
  rcases s.changePasswordUnlocked_cases suite host newPassword newSalt flags with
    ⟨e', hfail, -⟩ | ⟨staged, -, -, -, key, hok⟩
  · rw [hfail]
  · rw [hok] at h
    cases h

theorem reencoded_error {newSalt : Block 64}
    (h : (s.changePasswordPclsyncCompatReencoded suite newSalt oldPassword newPassword flags).1 = .error e) :
    (s.changePasswordPclsyncCompatReencoded suite newSalt oldPassword newPassword flags).2 = s := by
  rcases s.reencoded_cases suite oldPassword newPassword newSalt flags with
    ⟨e', hfail, -⟩ | ⟨profile, state, privDer, -, -, -, key, hok⟩
  · rw [hfail]
  · rw [hok] at h
    cases h

theorem openedWith_changes (h : s.isStarted = false) :
    (s.openedWith suite oldPassword).rotationState ≠ s.rotationState := by
  intro hsame
  unfold openedWith at hsame
  simp only [h, Bool.false_eq_true, if_false, rotationState, RotationState.mk.injEq] at hsame
  obtain ⟨hstate, hkey, -⟩ := hsame
  simp [isStarted, ← hstate, ← hkey] at h

variable (suite host newSalt flags) in
theorem openedWith_rotates (hguard : s.changeGuard oldPassword newPassword = none) (hstarted : s.isStarted = false) :
    (∃ e, (s.openedWith suite oldPassword).changePasswordUnlocked suite host newSalt newPassword flags =
        (.error e, s.openedWith suite oldPassword) ∧ s.stagedMode host = .error e) ∨
      (∃ staged, s.stagedMode host = .ok staged) ∧
        ∃ key s', (s.openedWith suite oldPassword).changePasswordUnlocked suite host newSalt newPassword flags =
          (.ok key, s') := by
  obtain ⟨hpolicy, hempty, -⟩ := changeGuard_eq_none hguard
  have hsafe : (s.openedWith suite oldPassword).policyIsSafe = true := by
    unfold openedWith
    split <;> exact hpolicy
  have hkey : (s.openedWith suite oldPassword).keys.activeKeyMaterial ≠ none := by
    simp [openedWith, hstarted]
  rcases (s.openedWith suite oldPassword).changePasswordUnlocked_cases suite host newPassword newSalt flags with
    ⟨e, hfail, hwhy⟩ | ⟨staged, -, -, hstaged, key, hok⟩
  · rcases hwhy with hrisk | hnew | hnone | hstaged
    · rw [hsafe] at hrisk
      cases hrisk
    · simp [hnew] at hempty
    · exact absurd hnone hkey
    · rw [openedWith_stagedMode] at hstaged
      exact .inl ⟨e, hfail, hstaged⟩
  · rw [openedWith_stagedMode] at hstaged
    exact .inr ⟨⟨staged, hstaged⟩, key, _, hok⟩

end parts

theorem rotation_all_or_nothing_iff (newSalt : Block 16) (newCompatSalt : Block 64)
    (oldPassword newPassword : String) (flags : UInt64) (s : CryptoShell PrivKey) :
    ((∀ e, (s.changePassword suite host newSalt newCompatSalt oldPassword newPassword flags).1 = .error e →
        (s.changePassword suite host newSalt newCompatSalt oldPassword newPassword flags).2.rotationState =
          s.rotationState) ↔
      ¬ s.UnlocksThenFails suite host oldPassword newPassword) ∧
    ∀ e, (s.changePasswordUnlocked suite host newSalt newPassword flags).1 = .error e →
      (s.changePasswordUnlocked suite host newSalt newPassword flags).2.rotationState = s.rotationState := by
  refine ⟨?_, fun e h => by rw [changePasswordUnlocked_error h]⟩
  unfold UnlocksThenFails
  cases hguard : s.changeGuard oldPassword newPassword with
  | some e => simp [s.changePassword_refused suite host hguard]
  | none =>
    cases hbackend : s.effectiveBackend with
    | pclsyncCompat =>
      rw [s.changePassword_compat suite host hguard hbackend]
      simp only [reduceCtorEq, false_and, and_false, not_false_eq_true, iff_true]
      intro e h
      rw [reencoded_error h]
    | enhanced =>
      rw [s.changePassword_enhanced suite host hguard hbackend]
      by_cases hright : s.changeAccepts suite oldPassword = true
      · simp only [hright, if_true, true_and]
        by_cases hstarted : s.isStarted = true
        · have hopened : s.openedWith suite oldPassword = s := by simp [openedWith, hstarted]
          rw [hopened, hstarted]
          simp only [Bool.true_eq_false, false_and, not_false_eq_true, iff_true]
          intro e h
          rw [changePasswordUnlocked_error h]
        · have hstopped : s.isStarted = false := by simpa using hstarted
          rcases openedWith_rotates suite host newSalt flags hguard hstopped with
            ⟨e, hfail, hstaged⟩ | ⟨⟨staged, hstaged⟩, key, s', hok⟩
          · simp [hfail, hstaged, hstopped, openedWith_changes hstopped]
          · simp [hok, hstaged]
      · simp [hright]

/-- A locked shell whose data key the KMS wrapped once. -/
def wrappedShell : CryptoShell Bytes :=
  Runs.run (step echoSuite) (fresh (Block.ofBytes 16 []))
    [⟨⟨1, 0, echoKms⟩, .setupWithBackend ⟨none, .error ""⟩ "pw" none .enhanced⟩,
      ⟨⟨1, 0, echoKms⟩, .enableKmsMode (Block.ofBytes 32 []) "cmk" none⟩]

theorem failed_rotation_unlocks :
    let op := wrappedShell.changePassword echoSuite ⟨2, 0, nullKms⟩ (Block.ofBytes 16 []) (Block.ofBytes 64 []) "pw"
      "next" 0
    op.1 = .error .kms ∧ wrappedShell.rotationState.unlockState = .locked ∧ op.2.rotationState.unlockState = .unlocked ∧
      op.2.rotationState.activeKeyMaterial ≠ wrappedShell.rotationState.activeKeyMaterial := by
  decide +kernel

end CryptoShell

end Pcloud
