import Pcloud.Crypto.Suite

/-!
# The PclsyncCompat profile

`pclsync_compat_profile.rs`, with what it uses of `pclsync_kdf.rs`, `pclsync_modes.rs` and
`pclsync_rsa.rs`. The profile holds the RSA private key, encrypted under a key derived from the
password, and a MAC of the public key by which a wrong password is told.
-/

namespace Pcloud

open BlockChain

inductive PclsyncRsaError
  | keyGen (message : String)
  | oaep
  | wrongCiphertextLen (got : Nat)
  | wrongSymKeyLen (got : Nat)
  | unsupportedSymKeyType (symType : UInt32)
  | der (message : String)
deriving DecidableEq, Repr

inductive PclsyncCompatError
  | privKeyTruncated
  | unsupportedPrivType (typ : UInt32)
  | rsa (error : PclsyncRsaError)
  | rng
deriving DecidableEq, Repr

/-! ## Symmetric keys -/

structure SymKeyVer1 where
  symType : UInt32
  flags : UInt32
  aesKey : Block 32
  hmacKey : Block 128
deriving DecidableEq

def parseSymKeyVer1 (buf : Bytes) : Except PclsyncRsaError SymKeyVer1 :=
  if buf.length ≠ 168 then .error (.wrongSymKeyLen buf.length)
  else
    let symType := u32OfLeBytes (buf.take 4)
    if symType ≠ 0 then .error (.unsupportedSymKeyType symType)
    else
      .ok { symType := symType
            flags := u32OfLeBytes ((buf.drop 4).take 4)
            aesKey := Block.ofBytes 32 (buf.drop 8)
            hmacKey := Block.ofBytes 128 (buf.drop 40) }

def oaepUnwrap {PrivKey : Type} (suite : CryptoSuite PrivKey) (privKey : PrivKey) (wrapped : Bytes) :
    Except PclsyncRsaError SymKeyVer1 :=
  if wrapped.length ≠ 512 then .error (.wrongCiphertextLen wrapped.length)
  else
    match suite.oaepDecrypt privKey wrapped with
    | none => .error .oaep
    | some plaintext => parseSymKeyVer1 plaintext

/-! ## Counter mode -/

/-- The counter goes into the first half of the IV. -/
def ctrKeystream (aes : Equiv.Perm (Block 16)) (iv : Block 16) (counter : UInt64) : Block 16 :=
  aes (iv.mask (toLeBytes counter))

/-- The first `n` blocks of a buffer. The last of them may be short. -/
def ctrBlocks (aes : Equiv.Perm (Block 16)) (iv : Block 16) : Nat → UInt64 → Bytes → Bytes
  | 0, _, _ => []
  | n + 1, counter, buf =>
    xorInto (buf.take 16) (ctrKeystream aes iv counter).1 ++ ctrBlocks aes iv n (counter + 1) (buf.drop 16)

def aes256CtrPclsyncXor (prims : Primitives) (key : Block 32) (iv : Block 16) (blockOffset : UInt64)
    (buf : Bytes) : Bytes :=
  let tail := if buf.length % 16 ≠ 0 then 1 else 0
  ctrBlocks (prims.aes256 key) iv (buf.length / 16 + tail) blockOffset buf

/-! ## The key that wraps the private key -/

structure UnlockedKek where
  key : Block 32
  iv : Block 16

section profile

variable {PrivKey : Type} (suite : CryptoSuite PrivKey)

def deriveKek (password : String) (salt : Block 64) : UnlockedKek :=
  let dk := suite.pbkdf2 (utf8 password) salt.1 20000
  { key := Block.ofBytes 32 dk.1
    iv := Block.ofBytes 16 (dk.1.drop 32) }

/-! ## Blobs -/

structure PclsyncCompatProfile where
  privKeyVer1Blob : Bytes
  pubKeyVer1Blob : Bytes
  pubFingerprint : Block 32
  flags : UInt32
deriving DecidableEq

/-- The flags, the salt and the encrypted key. -/
def parsePrivBlob (blob : Bytes) : Except PclsyncCompatError (UInt32 × Block 64 × Bytes) :=
  if blob.length < 72 then .error .privKeyTruncated
  else
    let typ := u32OfLeBytes (blob.take 4)
    let flags := u32OfLeBytes ((blob.drop 4).take 4)
    if typ ≠ 0 then .error (.unsupportedPrivType typ)
    else .ok (flags, Block.ofBytes 64 (blob.drop 8), blob.drop 72)

def buildPrivBlob (flags : UInt32) (salt : Block 64) (ciphertextDer : Bytes) : Bytes :=
  u32ToLeBytes 0 ++ u32ToLeBytes flags ++ salt.1 ++ ciphertextDer

def buildPubBlob (flags : UInt32) (pubDer : Bytes) : Bytes :=
  u32ToLeBytes 0 ++ u32ToLeBytes flags ++ pubDer

def pubFingerprint (kekKey : Block 32) (pubBlob : Bytes) : Block 32 := suite.hmacSha256 kekKey.1 pubBlob

/-! ## Making and unlocking a profile -/

/-- What the host answered while a profile was made: a salt and a key pair. -/
structure ProfileSeed (PrivKey : Type) where
  salt : Option (Block 64)
  keypair : Except String PrivKey

def generateProfile (seed : ProfileSeed PrivKey) (password : String) :
    Except PclsyncCompatError PclsyncCompatProfile :=
  match seed.salt with
  | none => .error .rng
  | some salt =>
    let kek := deriveKek suite password salt
    match seed.keypair with
    | .error message => .error (.rsa (.keyGen message))
    | .ok privKey =>
      match suite.privToDer privKey with
      | .error message => .error (.rsa (.der message))
      | .ok privDer =>
        match suite.pubToDer privKey with
        | .error message => .error (.rsa (.der message))
        | .ok pubDer =>
          let wrapped := aes256CtrPclsyncXor suite.toPrimitives kek.key kek.iv 0 privDer
          let pubBlob := buildPubBlob 0 pubDer
          .ok { privKeyVer1Blob := buildPrivBlob 0 salt wrapped
                pubKeyVer1Blob := pubBlob
                pubFingerprint := pubFingerprint suite kek.key pubBlob
                flags := 0 }

/-- The unwrapped private key and the symmetric keys fetched since. -/
structure PclsyncCompatState (PrivKey : Type) where
  privKey : PrivKey
  folderKeys : UInt64 → Option SymKeyVer1
  fileKeys : UInt64 → Option SymKeyVer1

def unlockProfile (password : String) (profile : PclsyncCompatProfile) :
    Except PclsyncCompatError (PclsyncCompatState PrivKey) :=
  match parsePrivBlob profile.privKeyVer1Blob with
  | .error e => .error e
  | .ok (_, salt, ctDer) =>
    let kek := deriveKek suite password salt
    if pubFingerprint suite kek.key profile.pubKeyVer1Blob ≠ profile.pubFingerprint then .error (.rsa .oaep)
    else
      match suite.privOfDer (aes256CtrPclsyncXor suite.toPrimitives kek.key kek.iv 0 ctDer) with
      | .error message => .error (.rsa (.der message))
      | .ok privKey => .ok { privKey := privKey, folderKeys := fun _ => none, fileKeys := fun _ => none }

end profile

/-! ## A made profile unlocks -/

theorem length_ctrBlocks {aes : Equiv.Perm (Block 16)} {iv : Block 16} {n : Nat} {counter : UInt64} {buf : Bytes}
    (h : buf.length ≤ n * 16) : (ctrBlocks aes iv n counter buf).length = buf.length := by
  induction n generalizing counter buf with
  | zero =>
    have hnil : buf = [] := List.eq_nil_of_length_eq_zero (by omega)
    simp [ctrBlocks, hnil]
  | succ n ih =>
    have hrest : (buf.drop 16).length ≤ n * 16 := by
      rw [List.length_drop]
      omega
    simp only [ctrBlocks, List.length_append, length_xorInto, ih hrest, List.length_take, List.length_drop]
    omega

theorem ctrBlocks_ctrBlocks {aes : Equiv.Perm (Block 16)} {iv : Block 16} {n : Nat} {counter : UInt64} {buf : Bytes}
    (h : buf.length ≤ n * 16) : ctrBlocks aes iv n counter (ctrBlocks aes iv n counter buf) = buf := by
  induction n generalizing counter buf with
  | zero =>
    have hnil : buf = [] := List.eq_nil_of_length_eq_zero (by omega)
    simp [ctrBlocks, hnil]
  | succ n ih =>
    have hrest : (buf.drop 16).length ≤ n * 16 := by
      rw [List.length_drop]
      omega
    by_cases hfull : 16 ≤ buf.length
    · have hblock : (xorInto (buf.take 16) (ctrKeystream aes iv counter).1).length = 16 := by
        rw [length_xorInto, List.length_take]
        omega
      simp only [ctrBlocks, List.take_left' hblock, List.drop_left' hblock, xorInto_xorInto, ih hrest,
        List.take_append_drop]
    · -- The last block: nothing follows it.
      have hdrop : buf.drop 16 = [] := List.drop_eq_nil_of_le (by omega)
      have htake : buf.take 16 = buf := List.take_of_length_le (by omega)
      have hnil : ∀ c, ctrBlocks aes iv n c [] = [] := by
        intro c
        apply List.eq_nil_of_length_eq_zero
        rw [length_ctrBlocks (Nat.zero_le _), List.length_nil]
      have hshort : (xorInto buf (ctrKeystream aes iv counter).1).length ≤ 16 := by
        rw [length_xorInto]
        omega
      simp only [ctrBlocks, hdrop, htake, hnil, List.append_nil, List.take_of_length_le hshort,
        List.drop_eq_nil_of_le hshort, xorInto_xorInto]

theorem aes256CtrPclsyncXor_twice (prims : Primitives) (key : Block 32) (iv : Block 16) (offset : UInt64)
    (buf : Bytes) :
    aes256CtrPclsyncXor prims key iv offset (aes256CtrPclsyncXor prims key iv offset buf) = buf := by
  have hroom : buf.length ≤ (buf.length / 16 + if buf.length % 16 ≠ 0 then 1 else 0) * 16 := by
    split <;> omega
  have hlen : (aes256CtrPclsyncXor prims key iv offset buf).length = buf.length := length_ctrBlocks hroom
  unfold aes256CtrPclsyncXor at hlen ⊢
  simp only [hlen]
  exact ctrBlocks_ctrBlocks hroom

theorem parsePrivBlob_build (flags : UInt32) (salt : Block 64) (ct : Bytes) :
    parsePrivBlob (buildPrivBlob flags salt ct) = .ok (flags, salt, ct) := by
  have hlen : (u32ToLeBytes 0 ++ u32ToLeBytes flags).length = 8 := by simp
  have hhead : (u32ToLeBytes 0 ++ u32ToLeBytes flags ++ salt.1).length = 72 := by simp
  have htake : (buildPrivBlob flags salt ct).take 4 = u32ToLeBytes 0 := by
    simp only [buildPrivBlob, List.append_assoc]
    exact List.take_left' (length_u32ToLeBytes 0)
  have hdrop4 : (buildPrivBlob flags salt ct).drop 4 = u32ToLeBytes flags ++ (salt.1 ++ ct) := by
    simp only [buildPrivBlob, List.append_assoc]
    exact List.drop_left' (length_u32ToLeBytes 0)
  have hdrop8 : (buildPrivBlob flags salt ct).drop 8 = salt.1 ++ ct := by
    rw [buildPrivBlob, List.append_assoc]
    exact List.drop_left' hlen
  have hdrop72 : (buildPrivBlob flags salt ct).drop 72 = ct := List.drop_left' hhead
  have hlong : ¬ (buildPrivBlob flags salt ct).length < 72 := by
    simp [buildPrivBlob]
    omega
  unfold parsePrivBlob
  simp only [if_neg hlong, htake, hdrop4, hdrop8, hdrop72, List.take_left' (length_u32ToLeBytes flags),
    u32OfLeBytes_toLeBytes, ne_eq, not_true_eq_false, if_false, Block.ofBytes_append]

section unlock

variable {PrivKey : Type} {suite : CryptoSuite PrivKey}

theorem unlockProfile_wrapped {profile : PclsyncCompatProfile} {password : String} {flags : UInt32}
    {salt : Block 64} {privKey : PrivKey} {privDer : Bytes} (hder : suite.privToDer privKey = .ok privDer)
    (hblob : profile.privKeyVer1Blob = buildPrivBlob flags salt
      (aes256CtrPclsyncXor suite.toPrimitives (deriveKek suite password salt).key (deriveKek suite password salt).iv
        0 privDer))
    (hprint : profile.pubFingerprint =
      pubFingerprint suite (deriveKek suite password salt).key profile.pubKeyVer1Blob) :
    unlockProfile suite password profile =
      .ok { privKey := privKey, folderKeys := fun _ => none, fileKeys := fun _ => none } := by
  unfold unlockProfile
  simp only [hblob, parsePrivBlob_build, hprint, ne_eq, not_true_eq_false, if_false, aes256CtrPclsyncXor_twice,
    suite.privOfDer_privToDer privKey privDer hder]

theorem unlockProfile_generateProfile {seed : ProfileSeed PrivKey} {password : String}
    {profile : PclsyncCompatProfile} (h : generateProfile suite seed password = .ok profile) :
    ∃ privKey, seed.keypair = .ok privKey ∧ unlockProfile suite password profile =
      .ok { privKey := privKey, folderKeys := fun _ => none, fileKeys := fun _ => none } := by
  unfold generateProfile at h
  cases hsalt : seed.salt with
  | none => simp [hsalt] at h
  | some salt =>
    cases hpair : seed.keypair with
    | error message => simp [hsalt, hpair] at h
    | ok privKey =>
      cases hpriv : suite.privToDer privKey with
      | error message => simp [hsalt, hpair, hpriv] at h
      | ok privDer =>
        cases hpub : suite.pubToDer privKey with
        | error message => simp [hsalt, hpair, hpriv, hpub] at h
        | ok pubDer =>
          simp only [hsalt, hpair, hpriv, hpub, Except.ok.injEq] at h
          subst h
          exact ⟨privKey, rfl, unlockProfile_wrapped hpriv rfl rfl⟩

end unlock

end Pcloud
