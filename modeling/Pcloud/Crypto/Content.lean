import Pcloud.Crypto.Suite

/-!
# Sector frames and names of the Enhanced backend

`content.rs` and `metadata.rs`. A frame is the sector index, the nonce and the AES-GCM
ciphertext, under a key derived for the file. A name is the MAC of its normal form.
-/

namespace Pcloud

open BlockChain

inductive ContentCryptoError
  | locked
  | invalidFrame
  | authFailed
  | sectorTooLarge
  | sectorIndexMismatch
deriving DecidableEq, Repr

inductive MetadataCryptoError
  | locked
  | invalidName
deriving DecidableEq, Repr

section content

variable {PrivKey : Type} (suite : CryptoSuite PrivKey)

/-- `master` is the master key, or the data key where a KMS holds one. -/
def deriveFileKey (master fileSeed : Bytes) : Block 32 :=
  suite.hmacSha256 master (utf8 "pcloud-crypto/file-key/v1" ++ fileSeed)

/-- The nonce is what the OS source answered. -/
def sealFrame (nonce : Option (Block 12)) (fileKey : Block 32) (sectorIndex : UInt32) (plaintext : Bytes)
    (sectorSize : Nat) : Except ContentCryptoError Bytes :=
  if plaintext.length > sectorSize then .error .sectorTooLarge
  else
    match nonce with
    | none => .error .invalidFrame
    | some nonce =>
      let aad := u32ToBeBytes sectorIndex
      match suite.gcmSeal fileKey nonce aad plaintext with
      | none => .error .authFailed
      | some ct => .ok (aad ++ nonce.1 ++ ct)

def openFrame (fileKey : Block 32) (expectedIndex : UInt32) (frame : Bytes) : Except ContentCryptoError Bytes :=
  if frame.length < 4 + 12 + 16 then .error .invalidFrame
  else
    let idx := frame.take 4
    if u32OfBeBytes idx ≠ expectedIndex then .error .sectorIndexMismatch
    else
      match suite.gcmOpen fileKey (Block.ofBytes 12 (frame.drop 4)) idx (frame.drop 16) with
      | none => .error .authFailed
      | some plaintext => .ok plaintext

def encryptFilename (master : Bytes) (plaintext : String) : Except MetadataCryptoError String :=
  if plaintext.isEmpty || plaintext.contains '/' then .error .invalidName
  else .ok (hexEncode (suite.hmacSha256 master (utf8 "pcloud-crypto/filename/v1" ++ utf8 (suite.nfc plaintext))).1)

end content

section frames

variable {PrivKey : Type} {suite : CryptoSuite PrivKey}

theorem sealFrame_eq_ok {nonce : Option (Block 12)} {fileKey : Block 32} {index : UInt32} {plaintext : Bytes}
    {size : Nat} {frame : Bytes} :
    sealFrame suite nonce fileKey index plaintext size = .ok frame ↔
      plaintext.length ≤ size ∧ ∃ n, nonce = some n ∧
        ∃ ct, suite.gcmSeal fileKey n (u32ToBeBytes index) plaintext = some ct ∧
          frame = u32ToBeBytes index ++ n.1 ++ ct := by
  unfold sealFrame
  by_cases hsize : plaintext.length > size
  · simp [hsize, Nat.not_le.mpr hsize]
  · cases nonce with
    | none => simp [hsize]
    | some n =>
      cases hseal : suite.gcmSeal fileKey n (u32ToBeBytes index) plaintext with
      | none => simp [hsize, hseal]
      | some ct =>
        simp only [hsize, if_false, hseal, Except.ok.injEq, Option.some.injEq, exists_eq_left', Nat.not_lt.mp hsize,
          true_and]
        exact eq_comm

section parts

variable {index : UInt32} {n : Block 12} {ct : Bytes}

theorem frame_index : (u32ToBeBytes index ++ n.1 ++ ct).take 4 = u32ToBeBytes index := by
  rw [List.append_assoc]
  exact List.take_left' (length_u32ToBeBytes index)

theorem frame_nonce : Block.ofBytes 12 ((u32ToBeBytes index ++ n.1 ++ ct).drop 4) = n := by
  rw [List.append_assoc, List.drop_left' (length_u32ToBeBytes index), Block.ofBytes_append]

theorem frame_ciphertext : (u32ToBeBytes index ++ n.1 ++ ct).drop 16 = ct := by
  apply List.drop_left'
  simp

end parts

theorem openFrame_sealFrame {nonce : Option (Block 12)} {fileKey : Block 32} {index : UInt32} {plaintext : Bytes}
    {size : Nat} {frame : Bytes} (h : sealFrame suite nonce fileKey index plaintext size = .ok frame) :
    openFrame suite fileKey index frame = .ok plaintext ∧
      ∀ key, ∀ other ≠ index, openFrame suite key other frame = .error .sectorIndexMismatch := by
  obtain ⟨-, n, -, ct, hseal, rfl⟩ := sealFrame_eq_ok.mp h
  have hct := suite.gcm_length _ _ _ _ _ hseal
  have hlong : ¬ (u32ToBeBytes index ++ n.1 ++ ct).length < 4 + 12 + 16 := by
    simp [hct]
    omega
  have hopen := (suite.gcm_exact _ _ _ _ _).mpr hseal
  unfold openFrame
  simp only [if_neg hlong, frame_index, frame_nonce, frame_ciphertext, u32OfBeBytes_toBeBytes]
  constructor
  · simp [hopen]
  · intro key other hother
    rw [if_pos (Ne.symm hother)]

theorem sealFrame_isOk {nonce : Block 12} {fileKey : Block 32} {index : UInt32} {plaintext : Bytes} {size : Nat}
    (hsize : plaintext.length ≤ size) (hmax : plaintext.length ≤ 2 ^ 36) :
    ∃ frame, sealFrame suite (some nonce) fileKey index plaintext size = .ok frame := by
  obtain ⟨ct, hct⟩ := Option.isSome_iff_exists.mp (suite.gcm_accepts fileKey nonce (u32ToBeBytes index) _ hmax)
  exact ⟨_, sealFrame_eq_ok.mpr ⟨hsize, nonce, rfl, ct, hct, rfl⟩⟩

end frames

end Pcloud
