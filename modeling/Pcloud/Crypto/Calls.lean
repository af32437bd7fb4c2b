import Pcloud.Crypto.Operations
import Pcloud.Lib.Runs

/-!
# Runs of the crypto shell

A turn is a call and the host it is made on. `lock` and `unlock` of the source are `stop`, and
`setup` and `start` in a row, so they are not calls of their own.
-/

namespace Pcloud

open BlockChain

inductive Call (PrivKey : Type)
  | setupWithBackend (seed : ProfileSeed PrivKey) (password : String) (hint : Option String)
      (backend : CryptoBackend)
  | start (password : String) (expected : Option CryptoBackend)
  | stop
  | reset
  | saveRestore (newProcess : Bool)
  | enableKmsMode (dek : Block 32) (keyId : String) (context : Option String)
  | changePasswordUnlocked (newSalt : Block 16) (newPassword : String) (flags : UInt64)
  | changePassword (newSalt : Block 16) (newCompatSalt : Block 64) (oldPassword newPassword : String)
      (flags : UInt64)
  | changePasswordWithContext (newSalt : Block 64) (oldPassword newPassword : String) (flags : UInt32)
  | sealSector (nonce : Option (Block 12)) (fileSeed : Bytes) (sectorIndex : UInt32) (plaintext : Bytes)
  | openSector (fileSeed : Bytes) (sectorIndex : UInt32) (frame : Bytes)
  | sealSectorWithContext (nonce : Option (Block 12)) (rnd : Except String (Block 16)) (fileSeed : Bytes)
      (sectorIndex : UInt64) (plaintext : Bytes) (fileId : Option UInt64)
  | openSectorWithContext (fileSeed : Bytes) (sectorIndex : UInt64) (ciphertext : Bytes) (authTag : Option Tag)
      (fileId : Option UInt64)
  | mkdir (symKey : Option SymKeyVer1) (parentFolderId : Option UInt64) (name : String)
      (localFolderId : Option UInt64)
  | mkdirWithContext (symKey : Option SymKeyVer1) (parentFolderId : Option UInt64) (name : String)
      (localFolderId : Option UInt64)
  | cacheFolderKey (folderId : UInt64) (sym : SymKeyVer1)
  | cacheFileKey (fileId : UInt64) (sym : SymKeyVer1)
  | unwrapAndCacheFolderKey (folderId : UInt64) (wrapped : Bytes)
  | unwrapAndCacheFileKey (fileId : UInt64) (wrapped : Bytes)

inductive Answer
  | done
  | reencoded (key : ReencodedPrivateKey)
  | changed (result : ChangePasswordResult)
  | bytes (data : Bytes)
  | sealed (frame : SealedSectorFrame)
  | entry (folder : CryptoFolderEntry)
  | created (folder : CreatedCryptoFolder)
deriving DecidableEq

structure Turn (PrivKey : Type) where
  host : Host
  call : Call PrivKey

@[simp]
theorem isOk_ok {ε α : Type} (a : α) : (Except.ok a : Except ε α).isOk = true := rfl

@[simp]
theorem isOk_error {ε α : Type} (e : ε) : (Except.error e : Except ε α).isOk = false := rfl

namespace CryptoShell

variable {PrivKey : Type} (suite : CryptoSuite PrivKey)

/-- The outcome of an operation, with its answer as one of the answers of all of them. -/
def reply {α : Type} (wrap : α → Answer) (outcome : Except CryptoError α × CryptoShell PrivKey) :
    Except CryptoError Answer × CryptoShell PrivKey :=
  (outcome.1.map wrap, outcome.2)

@[simp]
theorem isOk_reply {α : Type} (wrap : α → Answer) (outcome : Except CryptoError α × CryptoShell PrivKey) :
    (reply wrap outcome).1.isOk = outcome.1.isOk := by
  obtain ⟨answer, s⟩ := outcome
  cases answer <;> rfl

def exec (host : Host) (s : CryptoShell PrivKey) : Call PrivKey → Except CryptoError Answer × CryptoShell PrivKey
  | .setupWithBackend seed password hint backend =>
    reply (fun _ => .done) (s.setupWithBackend suite seed password hint backend)
  | .start password expected => reply (fun _ => .done) (s.startInner suite host password expected)
  | .stop => (.ok .done, s.stop host)
  | .reset => (.ok .done, s.reset host)
  | .saveRestore newProcess => (.ok .done, s.saveRestore newProcess)
  | .enableKmsMode dek keyId context => reply (fun _ => .done) (s.enableKmsMode host dek keyId context)
  | .changePasswordUnlocked newSalt newPassword flags =>
    reply .reencoded (s.changePasswordUnlocked suite host newSalt newPassword flags)
  | .changePassword newSalt newCompatSalt oldPassword newPassword flags =>
    reply .reencoded (s.changePassword suite host newSalt newCompatSalt oldPassword newPassword flags)
  | .changePasswordWithContext newSalt oldPassword newPassword flags =>
    reply .changed (s.changePasswordWithContext suite newSalt oldPassword newPassword flags)
  | .sealSector nonce fileSeed sectorIndex plaintext =>
    reply .bytes (s.sealSector suite host nonce fileSeed sectorIndex plaintext)
  | .openSector fileSeed sectorIndex frame => reply .bytes (s.openSector suite host fileSeed sectorIndex frame)
  | .sealSectorWithContext nonce rnd fileSeed sectorIndex plaintext fileId =>
    reply .sealed (s.sealSectorWithContext suite host nonce rnd fileSeed sectorIndex plaintext fileId)
  | .openSectorWithContext fileSeed sectorIndex ciphertext authTag fileId =>
    reply .bytes (s.openSectorWithContext suite host fileSeed sectorIndex ciphertext authTag fileId)
  | .mkdir symKey parentFolderId name localFolderId =>
    reply .entry (s.mkdir suite symKey parentFolderId name localFolderId)
  | .mkdirWithContext symKey parentFolderId name localFolderId =>
    reply .created (s.mkdirWithContext suite symKey parentFolderId name localFolderId)
  | .cacheFolderKey folderId sym => reply (fun _ => .done) (s.cacheFolderKey folderId sym)
  | .cacheFileKey fileId sym => reply (fun _ => .done) (s.cacheFileKey fileId sym)
  | .unwrapAndCacheFolderKey folderId wrapped =>
    reply (fun _ => .done) (s.unwrapAndCacheFolderKey suite folderId wrapped)
  | .unwrapAndCacheFileKey fileId wrapped =>
    reply (fun _ => .done) (s.unwrapAndCacheFileKey suite fileId wrapped)

def step (s : CryptoShell PrivKey) (turn : Turn PrivKey) : CryptoShell PrivKey := (s.exec suite turn.host turn.call).2

def succeeds (s : CryptoShell PrivKey) (turn : Turn PrivKey) : Bool := (s.exec suite turn.host turn.call).1.isOk

/-- A locked Enhanced profile of the password `a`, to run the model on. -/
def plainProfile : CryptoShell Bytes :=
  ((fresh (Block.ofBytes 16 [])).setupWithBackend echoSuite ⟨none, .error ""⟩ "a" none .enhanced).2

end CryptoShell

end Pcloud
