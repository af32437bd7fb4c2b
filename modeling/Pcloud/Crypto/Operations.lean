import Pcloud.Crypto.Shell

/-!
# What an unlocked shell does

Rotating the password, KMS mode, sectors, folders and the caches of symmetric keys.
-/

namespace Pcloud.CryptoShell

open BlockChain

variable {PrivKey : Type} (suite : CryptoSuite PrivKey) (host : Host)

/-! ## KMS mode -/

def enableKmsMode (dek : Block 32) (keyId : String) (context : Option String) (s : CryptoShell PrivKey) :
    Except CryptoError Unit × CryptoShell PrivKey :=
  if !s.policyIsSafe then (.error .unsafePolicy, s)
  else if host.kms.name = "null" then (.error .noKmsProvider, s)
  else
    match host.kms.encryptDek keyId dek.1 context with
    | .error _ => (.error .kms, s)
    | .ok wrapped => (.ok (), { s with mode := .kms keyId wrapped context })

def unwrapActiveDek (s : CryptoShell PrivKey) : Except CryptoError Bytes × CryptoShell PrivKey :=
  match s.mode with
  | .raw => (.error .kms, s)
  | .kms keyId wrapped context =>
    let (answer, cache) := unwrapCached host.kms host.instant s.dekCache keyId wrapped context
    let s := { s with dekCache := cache }
    match answer with
    | .error _ => (.error .kms, s)
    | .ok dek => if dek.length ≠ kmsDekLen then (.error .kmsDekLen, s) else (.ok dek, s)

/-! ## Rotating the password -/

def rewrapSingleKmsBlob (kms : KmsProvider) (keyId : String) (wrapped : Bytes) (context : Option String) :
    Except CryptoError CryptoMode :=
  match kms.decryptDek keyId wrapped context with
  | .error _ => .error .kms
  | .ok plaintext =>
    if plaintext.length ≠ kmsDekLen then .error .kmsDekLen
    else
      match kms.encryptDek keyId plaintext context with
      | .error _ => .error .kms
      | .ok newWrapped => .ok (.kms keyId newWrapped context)

/-- The wrapped key that a rotation will commit. There is none in Raw mode. -/
def stagedMode (s : CryptoShell PrivKey) : Except CryptoError (Option CryptoMode) :=
  match s.mode with
  | .raw => .ok none
  | .kms keyId wrapped context =>
    match rewrapSingleKmsBlob host.kms keyId wrapped context with
    | .error e => .error e
    | .ok mode => .ok (some mode)

def commitRotation (newSalt : Block 16) (newKey : Block 32) (flags : UInt64) (staged : Option CryptoMode)
    (s : CryptoShell PrivKey) : CryptoShell PrivKey :=
  { s with
    keys := { s.keys with
      derivationSalt := newSalt.1
      setupFingerprint := some (fingerprintFor suite newKey)
      privateFlags := flags
      activeKeyMaterial := some newKey }
    dekCache := if staged.isSome then s.evictActive host else s.dekCache
    mode := staged.getD s.mode
    sectorsSealed := 0 }

def changePasswordUnlocked (newSalt : Block 16) (newPassword : String) (flags : UInt64)
    (s : CryptoShell PrivKey) : Except CryptoError ReencodedPrivateKey × CryptoShell PrivKey :=
  if !s.policyIsSafe then (.error .unsafePolicy, s)
  else if newPassword.isEmpty then (.error .emptyPassword, s)
  else
    match s.keys.activeKeyMaterial with
    | none => (.error .locked, s)
    | some currentKey =>
      let newKey := deriveKeyMaterialWithSalt suite newPassword newSalt.1
      let blob := "pcrypto/v1/" ++ hexEncode newSalt.1 ++ "/" ++ hexEncode (fingerprintFor suite newKey).1 ++ "/" ++
        hexEncode (toLeBytes flags)
      let signature := suite.hmacSha256 currentKey.1 (utf8 blob)
      match s.stagedMode host with
      | .error e => (.error e, s)
      | .ok staged =>
        (.ok { privateKeyHex := blob, signatureHex := hexEncode signature.1 },
          s.commitRotation suite host newSalt newKey flags staged)

/-- The PclsyncCompat rotation: the private key is wrapped again for the new password. -/
def changePasswordPclsyncCompatReencoded (newSalt : Block 64) (oldPassword newPassword : String) (flags : UInt64)
    (s : CryptoShell PrivKey) : Except CryptoError ReencodedPrivateKey × CryptoShell PrivKey :=
  if oldPassword = newPassword then (.error .passwordUnchanged, s)
  else
    match s.pclsyncCompat with
    | none => (.error .notSetup, s)
    | some profile =>
      match unlockProfile suite (suite.nfc oldPassword) profile with
      | .error _ => (.error .wrongPassword, s)
      | .ok state =>
        match parsePrivBlob profile.privKeyVer1Blob with
        | .error _ => (.error .pclsyncCompat, s)
        | .ok (_, oldSalt, _) =>
          let oldKek := deriveKek suite (suite.nfc oldPassword) oldSalt
          let newKek := deriveKek suite (suite.nfc newPassword) newSalt
          match suite.privToDer state.privKey with
          | .error _ => (.error .pclsyncCompat, s)
          | .ok privDer =>
            let wrapped := aes256CtrPclsyncXor suite.toPrimitives newKek.key newKek.iv 0 privDer
            let newPrivBlob := buildPrivBlob flags.toUInt32 newSalt wrapped
            let newPrivHex := hexEncode newPrivBlob
            let signature := suite.hmacSha256 oldKek.key.1 (utf8 newPrivHex)
            (.ok { privateKeyHex := newPrivHex, signatureHex := hexEncode signature.1 },
              { s with
                pclsyncCompat := some { profile with
                  privKeyVer1Blob := newPrivBlob
                  pubFingerprint := pubFingerprint suite newKek.key profile.pubKeyVer1Blob
                  flags := flags.toUInt32 } })

/-- Both salts are arguments. Only the one of the shell's backend is drawn. -/
def changePassword (newSalt : Block 16) (newCompatSalt : Block 64) (oldPassword newPassword : String)
    (flags : UInt64) (s : CryptoShell PrivKey) : Except CryptoError ReencodedPrivateKey × CryptoShell PrivKey :=
  if !s.policyIsSafe then (.error .unsafePolicy, s)
  else if oldPassword.isEmpty || newPassword.isEmpty then (.error .emptyPassword, s)
  else if !s.isSetup then (.error .notSetup, s)
  else if s.effectiveBackend = .pclsyncCompat then
    changePasswordPclsyncCompatReencoded suite newCompatSalt oldPassword newPassword flags s
  else if oldPassword = newPassword then (.error .passwordUnchanged, s)
  else
    let derivedOld := s.keys.deriveKeyMaterial suite oldPassword
    if !s.keys.matchesSetup suite derivedOld then (.error .wrongPassword, s)
    else
      let s :=
        if !s.isStarted then
          { s with keys := { s.keys with activeKeyMaterial := some derivedOld }, unlockState := .unlocked }
        else s
      changePasswordUnlocked suite host newSalt newPassword flags s

def changePasswordWithContext (newSalt : Block 64) (oldPassword newPassword : String) (flags : UInt32)
    (s : CryptoShell PrivKey) : Except CryptoError ChangePasswordResult × CryptoShell PrivKey :=
  let effective := s.effectiveBackend
  if effective ≠ .pclsyncCompat then (.error (.backendMismatch effective .pclsyncCompat), s)
  else
    let (res, s) := changePasswordPclsyncCompatReencoded suite newSalt oldPassword newPassword flags.toUInt64 s
    match res with
    | .error e => (.error e, s)
    | .ok _ =>
      match s.pclsyncCompat with
      | none => (.error .pclsyncCompat, s)
      | some p =>
        (.ok { newPrivKeyVer1Blob := p.privKeyVer1Blob, newPubFingerprint := p.pubFingerprint, flags := p.flags }, s)

/-! ## Sectors -/

def requireActiveKey (s : CryptoShell PrivKey) : Except CryptoError (Block 32) × CryptoShell PrivKey :=
  match s.keys.checkAndEvictIfStale host.instant with
  | (true, keys) => (.error .masterKeyExpired, { s with keys := keys, unlockState := .locked })
  | (false, keys) =>
    let s := { s with keys := keys.touch host.instant }
    match s.keys.activeKeyMaterial with
    | none => (.error .locked, s)
    | some key => (.ok key, s)

def deriveSectorFileKey (fileSeed : Bytes) (s : CryptoShell PrivKey) :
    Except CryptoError (Block 32) × CryptoShell PrivKey :=
  match s.requireActiveKey host with
  | (.error e, s) => (.error e, s)
  | (.ok master, s) =>
    match s.mode with
    | .raw => (.ok (deriveFileKey suite master.1 fileSeed), s)
    | .kms .. =>
      match s.unwrapActiveDek host with
      | (.error e, s) => (.error e, s)
      | (.ok dek, s) => (.ok (deriveFileKey suite dek fileSeed), s)

def sealSector (nonce : Option (Block 12)) (fileSeed : Bytes) (sectorIndex : UInt32) (plaintext : Bytes)
    (s : CryptoShell PrivKey) : Except CryptoError Bytes × CryptoShell PrivKey :=
  if s.effectiveBackend = .pclsyncCompat then
    if s.pclsyncCompatState.isNone then (.error .locked, s) else (.error .missingFileId, s)
  else if s.sectorsSealed ≥ nonceBudgetCap then (.error .nonceBudgetExhausted, s)
  else
    -- A slot of the budget is reserved before the work.
    let s := { s with sectorsSealed := s.sectorsSealed + 1 }
    match s.deriveSectorFileKey suite host fileSeed with
    | (.error e, s) => (.error e, s)
    | (.ok fileKey, s) =>
      match sealFrame suite nonce fileKey sectorIndex plaintext s.sectorSizeBytes with
      | .ok frame => (.ok frame, s)
      | .error e => (.error (.content e), { s with sectorsSealed := s.sectorsSealed - 1 })

def openSector (fileSeed : Bytes) (sectorIndex : UInt32) (frame : Bytes) (s : CryptoShell PrivKey) :
    Except CryptoError Bytes × CryptoShell PrivKey :=
  if s.effectiveBackend = .pclsyncCompat then
    if s.pclsyncCompatState.isNone then (.error .locked, s) else (.error .missingFileId, s)
  else
    match s.deriveSectorFileKey suite host fileSeed with
    | (.error e, s) => (.error e, s)
    | (.ok fileKey, s) =>
      match openFrame suite fileKey sectorIndex frame with
      | .ok plaintext => (.ok plaintext, s)
      | .error e => (.error (.content e), s)

/-- The key of a file, as both sector operations of PclsyncCompat look it up. -/
def compatFileKey (fileId : UInt64) (s : CryptoShell PrivKey) : Except CryptoError SectorKeys :=
  match s.pclsyncCompatState with
  | none => .error .locked
  | some state =>
    match state.fileKeys fileId with
    | none => .error (.fileKeyNotCached fileId)
    | some sym => .ok { aesKey := sym.aesKey, hmacKey := sym.hmacKey.1 }

def sealSectorWithContext (nonce : Option (Block 12)) (rnd : Except String (Block 16)) (fileSeed : Bytes)
    (sectorIndex : UInt64) (plaintext : Bytes) (fileId : Option UInt64) (s : CryptoShell PrivKey) :
    Except CryptoError SealedSectorFrame × CryptoShell PrivKey :=
  if s.effectiveBackend = .pclsyncCompat then
    match fileId with
    | none => (.error .missingFileId, s)
    | some fileId =>
      match s.compatFileKey fileId with
      | .error e => (.error e, s)
      | .ok keys =>
        match Pcloud.sealSector suite.toPrimitives rnd keys sectorIndex plaintext with
        | .error .emptySector => (.error .emptySector, s)
        | .error _ => (.error .pclsyncCompat, s)
        | .ok sealed => (.ok { ciphertext := sealed.ciphertext, authTag := some sealed.authTag }, s)
  else if sectorIndex.toNat ≥ 2 ^ 32 then (.error (.content .sectorIndexMismatch), s)
  else
    match s.sealSector suite host nonce fileSeed sectorIndex.toUInt32 plaintext with
    | (.error e, s) => (.error e, s)
    | (.ok frame, s) => (.ok { ciphertext := frame, authTag := none }, s)

def openSectorWithContext (fileSeed : Bytes) (sectorIndex : UInt64) (ciphertext : Bytes) (authTag : Option Tag)
    (fileId : Option UInt64) (s : CryptoShell PrivKey) : Except CryptoError Bytes × CryptoShell PrivKey :=
  if s.effectiveBackend = .pclsyncCompat then
    match fileId with
    | none => (.error .missingFileId, s)
    | some fileId =>
      match authTag with
      | none => (.error .pclsyncCompat, s)
      | some tag =>
        match s.compatFileKey fileId with
        | .error e => (.error e, s)
        | .ok keys =>
          match Pcloud.openSector suite.toPrimitives keys sectorIndex ciphertext tag with
          | .error _ => (.error .pclsyncCompat, s)
          | .ok plaintext => (.ok plaintext, s)
  else if sectorIndex.toNat ≥ 2 ^ 32 then (.error (.content .sectorIndexMismatch), s)
  else s.openSector suite host fileSeed sectorIndex.toUInt32 ciphertext

/-! ## Folders -/

/-- The local id of a new folder, and its entry in the registry. -/
def registerFolder (parentFolderId : Option UInt64) (encryptedName : String) (localFolderId : Option UInt64)
    (s : CryptoShell PrivKey) : Except CryptoError CryptoFolderEntry × CryptoShell PrivKey :=
  let insert (folderId : UInt64) (s : CryptoShell PrivKey) :=
    let entry : CryptoFolderEntry := ⟨folderId, parentFolderId, encryptedName⟩
    (Except.ok entry, { s with folders := Function.update s.folders folderId (some entry) })
  match localFolderId with
  | some id => if (s.folders id).isSome then (.error .folderExists, s) else insert id s
  | none =>
    -- `saturating_add`.
    let next := if s.nextLocalFolderId = 0xFFFFFFFFFFFFFFFF then s.nextLocalFolderId else s.nextLocalFolderId + 1
    insert s.nextLocalFolderId { s with nextLocalFolderId := next }

/-- `symKey` is the key drawn for the folder, none where the OS source failed. -/
def mkdirPclsyncCompat (symKey : Option SymKeyVer1) (parentFolderId : Option UInt64) (name : String)
    (localFolderId : Option UInt64) (s : CryptoShell PrivKey) :
    Except CryptoError CreatedCryptoFolder × CryptoShell PrivKey :=
  match s.pclsyncCompatState with
  | none => (.error .locked, s)
  | some state =>
    if name.isEmpty || name.contains '/' then (.error .invalidName, s)
    else
      match parentFolderId with
      | none => (.error .missingFolderId, s)
      | some parentId =>
        match state.folderKeys parentId with
        | none => (.error (.folderKeyNotCached parentId), s)
        | some sym =>
          match encodeFilename suite.toPrimitives ⟨sym.aesKey, sym.hmacKey⟩ name with
          | .error _ => (.error .pclsyncCompat, s)
          | .ok encodedName =>
            match symKey with
            | none => (.error .pclsyncCompat, s)
            | some symKey =>
              match s.registerFolder parentFolderId encodedName localFolderId with
              | (.error e, s) => (.error e, s)
              | (.ok entry, s) => (.ok { entry := entry, symKey := some symKey }, s)

def mkdir (symKey : Option SymKeyVer1) (parentFolderId : Option UInt64) (name : String)
    (localFolderId : Option UInt64) (s : CryptoShell PrivKey) :
    Except CryptoError CryptoFolderEntry × CryptoShell PrivKey :=
  if s.effectiveBackend = .pclsyncCompat then
    match s.mkdirPclsyncCompat suite symKey parentFolderId name localFolderId with
    | (.error e, s) => (.error e, s)
    | (.ok created, s) => (.ok created.entry, s)
  else
    match s.keys.activeKeyMaterial with
    | none => (.error .locked, s)
    | some key =>
      match encryptFilename suite key.1 name with
      | .error e => (.error (.metadata e), s)
      | .ok encryptedName => s.registerFolder parentFolderId encryptedName localFolderId

def mkdirWithContext (symKey : Option SymKeyVer1) (parentFolderId : Option UInt64) (name : String)
    (localFolderId : Option UInt64) (s : CryptoShell PrivKey) :
    Except CryptoError CreatedCryptoFolder × CryptoShell PrivKey :=
  if s.effectiveBackend = .pclsyncCompat then
    s.mkdirPclsyncCompat suite symKey parentFolderId name localFolderId
  else
    match s.mkdir suite symKey parentFolderId name localFolderId with
    | (.error e, s) => (.error e, s)
    | (.ok entry, s) => (.ok { entry := entry, symKey := none }, s)

/-! ## Key caches -/

/-- The checks before a symmetric key is cached, and what the cache becomes. -/
def withCompatState (change : PclsyncCompatState PrivKey → Except CryptoError (PclsyncCompatState PrivKey))
    (s : CryptoShell PrivKey) : Except CryptoError Unit × CryptoShell PrivKey :=
  let effective := s.effectiveBackend
  if effective ≠ .pclsyncCompat then (.error (.backendMismatch effective .pclsyncCompat), s)
  else
    match s.pclsyncCompatState with
    | none => (.error .locked, s)
    | some state =>
      match change state with
      | .error e => (.error e, s)
      | .ok state => (.ok (), { s with pclsyncCompatState := some state })

def insertFolderKey (folderId : UInt64) (sym : SymKeyVer1) (state : PclsyncCompatState PrivKey) :
    PclsyncCompatState PrivKey :=
  { state with folderKeys := Function.update state.folderKeys folderId (some sym) }

def insertFileKey (fileId : UInt64) (sym : SymKeyVer1) (state : PclsyncCompatState PrivKey) :
    PclsyncCompatState PrivKey :=
  { state with fileKeys := Function.update state.fileKeys fileId (some sym) }

def cacheFolderKey (folderId : UInt64) (sym : SymKeyVer1) (s : CryptoShell PrivKey) :
    Except CryptoError Unit × CryptoShell PrivKey :=
  s.withCompatState fun state => .ok (insertFolderKey folderId sym state)

def cacheFileKey (fileId : UInt64) (sym : SymKeyVer1) (s : CryptoShell PrivKey) :
    Except CryptoError Unit × CryptoShell PrivKey :=
  s.withCompatState fun state => .ok (insertFileKey fileId sym state)

def unwrapAndCacheFolderKey (folderId : UInt64) (wrapped : Bytes) (s : CryptoShell PrivKey) :
    Except CryptoError Unit × CryptoShell PrivKey :=
  s.withCompatState fun state =>
    match oaepUnwrap suite state.privKey wrapped with
    | .error _ => .error .pclsyncCompat
    | .ok sym => .ok (insertFolderKey folderId sym state)

/-- The hash of the file version that the source takes here is not used by it. -/
def unwrapAndCacheFileKey (fileId : UInt64) (wrapped : Bytes) (s : CryptoShell PrivKey) :
    Except CryptoError Unit × CryptoShell PrivKey :=
  s.withCompatState fun state =>
    match oaepUnwrap suite state.privKey wrapped with
    | .error _ => .error .pclsyncCompat
    | .ok sym => .ok (insertFileKey fileId sym state)

end Pcloud.CryptoShell
