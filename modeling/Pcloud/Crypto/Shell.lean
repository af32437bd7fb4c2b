import Pcloud.Crypto.CompatProfile
import Pcloud.Crypto.Content
import Pcloud.Crypto.Filename
import Pcloud.Crypto.Kms
import Pcloud.Crypto.Sector

/-!
# The crypto shell

`CryptoShell` of `pcloud-crypto`, with its key manager. Every operation gives an answer and the
shell after it, also where the answer is an error. The two clocks and the KMS are read from a
`Host` once a call, and what the OS source of randomness answered is an argument.
-/

namespace Pcloud

open BlockChain

inductive CryptoBackend
  | enhanced
  | pclsyncCompat
deriving DecidableEq, Repr

inductive UnlockState
  | notSetup
  | locked
  | unlocking
  | unlocked
deriving DecidableEq, Repr

inductive CryptoMode
  | raw
  | kms (keyId : String) (wrappedDek : Bytes) (context : Option String)
deriving DecidableEq

inductive CryptoError
  | emptyPassword
  | alreadySetup
  | notSetup
  | locked
  | alreadyStarted
  | wrongPassword
  | invalidName
  | folderExists
  | unsafePolicy
  | passwordUnchanged
  | content (error : ContentCryptoError)
  | metadata (error : MetadataCryptoError)
  | kms
  | noKmsProvider
  | kmsDekLen
  | bruteForceLockedOut
  | backendMismatch (expected provided : CryptoBackend)
  | missingFileId
  | missingFolderId
  | fileKeyNotCached (fileId : UInt64)
  | folderKeyNotCached (folderId : UInt64)
  | pclsyncCompat
  | nonceBudgetExhausted
  | emptySector
  | masterKeyExpired
deriving DecidableEq, Repr

/-- What a call finds outside the shell. -/
structure Host where
  unixSecs : Nat
  /-- Nanoseconds on the monotonic clock. -/
  instant : Nat
  kms : KmsProvider

/-! ## The key manager -/

structure KeyManager where
  cacheTtlSecs : Nat
  derivationSalt : Bytes
  setupFingerprint : Option (Block 32)
  privateFlags : UInt64
  activeKeyMaterial : Option (Block 32)
  lastAuthenticatedAt : Option Nat
deriving DecidableEq

section keys

variable {PrivKey : Type} (suite : CryptoSuite PrivKey)

def deriveKeyMaterialWithSalt (password : String) (salt : Bytes) : Block 32 := suite.argon2 (utf8 password) salt

def fingerprintFor (key : Block 32) : Block 32 := suite.hmacSha256 key.1 (utf8 "pcloud-crypto/fingerprint/v1")

def KeyManager.deriveKeyMaterial (keys : KeyManager) (password : String) : Block 32 :=
  deriveKeyMaterialWithSalt suite password keys.derivationSalt

def KeyManager.matchesSetup (keys : KeyManager) (key : Block 32) : Bool :=
  match keys.setupFingerprint with
  | none => false
  | some stored => fingerprintFor suite key == stored

end keys

/-- The last use of the key is a TTL or more ago. -/
def KeyManager.isStale (keys : KeyManager) (now : Nat) : Bool :=
  if keys.cacheTtlSecs = 0 then false
  else
    match keys.lastAuthenticatedAt with
    | none => false
    | some last => (now - last) / nanosPerSec ≥ keys.cacheTtlSecs

def KeyManager.checkAndEvictIfStale (keys : KeyManager) (now : Nat) : Bool × KeyManager :=
  if keys.isStale now then (true, { keys with activeKeyMaterial := none, lastAuthenticatedAt := none })
  else (false, keys)

def KeyManager.touch (keys : KeyManager) (now : Nat) : KeyManager := { keys with lastAuthenticatedAt := some now }

/-! ## The shell -/

structure CryptoFolderEntry where
  folderId : UInt64
  parentFolderId : Option UInt64
  encryptedName : String
deriving DecidableEq

structure CryptoShell (PrivKey : Type) where
  keys : KeyManager
  sectorSizeBytes : Nat
  persistMasterKey : Bool
  unlockState : UnlockState
  folders : UInt64 → Option CryptoFolderEntry
  nextLocalFolderId : UInt64
  hint : Option String
  mode : CryptoMode
  sectorsSealed : Nat
  consecutiveFailures : Nat
  lastFailAt : Nat
  backend : Option CryptoBackend
  pclsyncCompat : Option PclsyncCompatProfile
  pclsyncCompatState : Option (PclsyncCompatState PrivKey)
  lockoutMonotonicFloor : Option Nat
  /-- The cache of unwrapped data keys, which the shell shares with its process. -/
  dekCache : DekCache

structure ReencodedPrivateKey where
  privateKeyHex : String
  signatureHex : String
deriving DecidableEq

structure ChangePasswordResult where
  newPrivKeyVer1Blob : Bytes
  newPubFingerprint : Block 32
  flags : UInt32
deriving DecidableEq

structure CreatedCryptoFolder where
  entry : CryptoFolderEntry
  symKey : Option SymKeyVer1
deriving DecidableEq

structure SealedSectorFrame where
  ciphertext : Bytes
  authTag : Option Tag
deriving DecidableEq

def kmsDekLen : Nat := 32

def nonceBudgetSafetyMargin : Nat := 64

/-- `u32::MAX - NONCE_BUDGET_SAFETY_MARGIN`. -/
def nonceBudgetCap : Nat := 2 ^ 32 - 1 - nonceBudgetSafetyMargin

def maxConsecutiveFailures : Nat := 10

def maxLockoutBackoffSecs : Nat := 30 * 60

def lockoutBackoffSecs (failures : Nat) : Nat :=
  if failures ≤ 1 then 0 else min (2 ^ min failures 40) maxLockoutBackoffSecs

namespace CryptoShell

variable {PrivKey : Type}

/-- A shell as it is first made, with the salt that the OS source gave it. -/
def fresh (salt : Block 16) : CryptoShell PrivKey where
  keys :=
    { cacheTtlSecs := 300
      derivationSalt := salt.1
      setupFingerprint := none
      privateFlags := 0
      activeKeyMaterial := none
      lastAuthenticatedAt := none }
  sectorSizeBytes := 4096
  persistMasterKey := false
  unlockState := .notSetup
  folders _ := none
  nextLocalFolderId := 1
  hint := none
  mode := .raw
  sectorsSealed := 0
  consecutiveFailures := 0
  lastFailAt := 0
  backend := none
  pclsyncCompat := none
  pclsyncCompatState := none
  lockoutMonotonicFloor := none
  dekCache _ := none

def policyIsSafe (s : CryptoShell PrivKey) : Bool := !s.persistMasterKey

def isSetup (s : CryptoShell PrivKey) : Bool := s.keys.setupFingerprint.isSome || s.pclsyncCompat.isSome

def isStarted (s : CryptoShell PrivKey) : Bool :=
  s.unlockState == .unlocked && (s.keys.activeKeyMaterial.isSome || s.pclsyncCompatState.isSome)

def effectiveBackend (s : CryptoShell PrivKey) : CryptoBackend :=
  match s.backend with
  | some b => b
  | none => if s.keys.setupFingerprint.isSome then .enhanced else .pclsyncCompat

/-! ### Setup -/

section setup

variable (suite : CryptoSuite PrivKey)

def setupEnhanced (password : String) (hint : Option String) (s : CryptoShell PrivKey) :
    Except CryptoError Unit × CryptoShell PrivKey :=
  if !s.policyIsSafe then (.error .unsafePolicy, s)
  else if password.isEmpty then (.error .emptyPassword, s)
  else if s.isSetup then (.error .alreadySetup, s)
  else
    let derived := s.keys.deriveKeyMaterial suite (suite.nfc password)
    (.ok (), { s with
      keys := { s.keys with setupFingerprint := some (fingerprintFor suite derived) }
      hint := hint
      unlockState := .locked
      backend := some .enhanced })

def setupPclsyncCompat (seed : ProfileSeed PrivKey) (password : String) (hint : Option String)
    (s : CryptoShell PrivKey) : Except CryptoError Unit × CryptoShell PrivKey :=
  if !s.policyIsSafe then (.error .unsafePolicy, s)
  else if password.isEmpty then (.error .emptyPassword, s)
  else if s.isSetup then (.error .alreadySetup, s)
  else
    match generateProfile suite seed (suite.nfc password) with
    | .error _ => (.error .pclsyncCompat, s)
    | .ok profile =>
      (.ok (), { s with
        pclsyncCompat := some profile
        hint := hint
        unlockState := .locked
        backend := some .pclsyncCompat })

def setupWithBackend (seed : ProfileSeed PrivKey) (password : String) (hint : Option String)
    (backend : CryptoBackend) (s : CryptoShell PrivKey) : Except CryptoError Unit × CryptoShell PrivKey :=
  match backend with
  | .enhanced => setupEnhanced suite password hint s
  | .pclsyncCompat => setupPclsyncCompat suite seed password hint s

end setup

/-! ### Unlocking -/

/-- The brute-force guard that both unlock paths begin with: the hard cap, then the backoff on the
persisted wall-clock time and on the monotonic floor. -/
def lockedOut (host : Host) (s : CryptoShell PrivKey) : Bool :=
  s.consecutiveFailures ≥ maxConsecutiveFailures ||
    (lockoutBackoffSecs s.consecutiveFailures > 0 &&
      ((s.lastFailAt > 0 && host.unixSecs - s.lastFailAt < lockoutBackoffSecs s.consecutiveFailures) ||
        s.lockoutMonotonicFloor.any fun floor => host.instant < floor))

def recordFailure (host : Host) (s : CryptoShell PrivKey) : CryptoShell PrivKey :=
  let newBackoff := lockoutBackoffSecs (s.consecutiveFailures + 1)
  { s with
    unlockState := .locked
    consecutiveFailures := s.consecutiveFailures + 1
    lastFailAt := host.unixSecs
    lockoutMonotonicFloor :=
      if newBackoff > 0 then some (host.instant + newBackoff * nanosPerSec) else s.lockoutMonotonicFloor }

def recordUnlock (s : CryptoShell PrivKey) : CryptoShell PrivKey :=
  { s with
    unlockState := .unlocked
    consecutiveFailures := 0
    lastFailAt := 0
    lockoutMonotonicFloor := none }

section start

variable (suite : CryptoSuite PrivKey) (host : Host)

def startEnhanced (password : String) (s : CryptoShell PrivKey) : Except CryptoError Unit × CryptoShell PrivKey :=
  if !s.policyIsSafe then (.error .unsafePolicy, s)
  else if password.isEmpty then (.error .emptyPassword, s)
  else if !s.isSetup then (.error .notSetup, s)
  else if s.isStarted then (.error .alreadyStarted, s)
  else if s.lockedOut host then (.error .bruteForceLockedOut, s)
  else
    let derived := s.keys.deriveKeyMaterial suite (suite.nfc password)
    if !s.keys.matchesSetup suite derived then (.error .wrongPassword, s.recordFailure host)
    else (.ok (), { s.recordUnlock with keys := { s.keys with activeKeyMaterial := some derived } })

def startPclsyncCompat (password : String) (s : CryptoShell PrivKey) :
    Except CryptoError Unit × CryptoShell PrivKey :=
  if !s.policyIsSafe then (.error .unsafePolicy, s)
  else if password.isEmpty then (.error .emptyPassword, s)
  else
    match s.pclsyncCompat with
    | none => (.error .notSetup, s)
    | some profile =>
      if s.pclsyncCompatState.isSome then (.error .alreadyStarted, s)
      else if s.lockedOut host then (.error .bruteForceLockedOut, s)
      else
        match unlockProfile suite (suite.nfc password) profile with
        | .ok state => (.ok (), { s.recordUnlock with pclsyncCompatState := some state })
        | .error _ => (.error .wrongPassword, s.recordFailure host)

/-- `start` where `expected` is none, `start_with_backend` otherwise. -/
def startInner (password : String) (expected : Option CryptoBackend) (s : CryptoShell PrivKey) :
    Except CryptoError Unit × CryptoShell PrivKey :=
  if !s.policyIsSafe then (.error .unsafePolicy, s)
  else if password.isEmpty then (.error .emptyPassword, s)
  else if !s.isSetup then (.error .notSetup, s)
  else
    let effective := s.effectiveBackend
    match expected.filter (· ≠ effective) with
    | some provided => (.error (.backendMismatch effective provided), s)
    | none =>
      let outcome :=
        match effective with
        | .enhanced => startEnhanced suite host password s
        | .pclsyncCompat => startPclsyncCompat suite host password s
      -- The inferred backend of an old profile is stamped on it.
      if outcome.1.isOk && s.backend.isNone then (outcome.1, { outcome.2 with backend := some effective })
      else outcome

end start

/-! ### Locking -/

/-- The cache without the entry of the wrapped key that the shell holds. -/
def evictActive (host : Host) (s : CryptoShell PrivKey) : DekCache :=
  match s.mode with
  | .raw => s.dekCache
  | .kms keyId wrapped context => evictCachedDek s.dekCache ⟨host.kms.name, keyId, wrapped, context⟩

def stop (host : Host) (s : CryptoShell PrivKey) : CryptoShell PrivKey :=
  { s with
    keys := { s.keys with activeKeyMaterial := none }
    pclsyncCompatState := none
    dekCache := s.evictActive host
    unlockState := if s.isSetup then .locked else .notSetup }

def reset (host : Host) (s : CryptoShell PrivKey) : CryptoShell PrivKey :=
  let s := s.stop host
  { s with
    keys := { s.keys with setupFingerprint := none }
    folders := fun _ => none
    nextLocalFolderId := 1
    hint := none
    mode := .raw
    unlockState := .notSetup
    backend := none
    pclsyncCompat := none
    pclsyncCompatState := none }

/-- A save and a load: the fields that serde skips are gone. The cache is gone with the process. -/
def saveRestore (newProcess : Bool) (s : CryptoShell PrivKey) : CryptoShell PrivKey :=
  { s with
    keys := { s.keys with activeKeyMaterial := none, lastAuthenticatedAt := none }
    pclsyncCompatState := none
    lockoutMonotonicFloor := none
    dekCache := if newProcess then fun _ => none else s.dekCache }

end CryptoShell

end Pcloud
