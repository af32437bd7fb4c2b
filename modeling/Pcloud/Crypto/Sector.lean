import Pcloud.Crypto.Primitives

/-!
# The sector AEAD

`pclsync_sector.rs`: a sector of 1 to 4096 bytes is encrypted to as many bytes and a detached
tag of 32. A sector below one block is sent as its nonce, with the plaintext in the tag.
-/

namespace Pcloud

open BlockChain

abbrev Tag := Block 32

def sectorSize : Nat := 4096

structure SectorKeys where
  aesKey : Block 32
  hmacKey : Bytes

structure SealedSector where
  ciphertext : Bytes
  authTag : Tag
deriving DecidableEq

inductive SectorError
  | plaintextTooLong (len : Nat)
  | ciphertextTooLong (len : Nat)
  | authFailed
  | rng (message : String)
  | emptySector
deriving DecidableEq, Repr

/-! ## The tag -/

def joinBlocks (b0 b1 : Block 16) : Tag := ⟨b0.1 ++ b1.1, by simp⟩

def ecbEncryptTwoBlocks (aes : Equiv.Perm (Block 16)) (blocks : Tag) : Tag :=
  joinBlocks (aes (Block.ofBytes 16 blocks.1)) (aes (Block.ofBytes 16 (blocks.1.drop 16)))

def ecbDecryptTwoBlocks (aes : Equiv.Perm (Block 16)) (blocks : Tag) : Tag :=
  joinBlocks (aes.symm (Block.ofBytes 16 blocks.1)) (aes.symm (Block.ofBytes 16 (blocks.1.drop 16)))

/-! ## The text -/

def cbcCsEncrypt (aes : Equiv.Perm (Block 16)) (iv : Block 16) (plaintext : Bytes) : Bytes :=
  pass (chainEncrypt aes) (stealEncrypt aes) iv plaintext

def cbcCsDecrypt (aes : Equiv.Perm (Block 16)) (iv : Block 16) (ciphertext : Bytes) : Bytes :=
  pass (chainDecrypt aes) (stealDecrypt aes) iv ciphertext

/-! ## The two layouts -/

/-- Below one block: the nonce goes out as the ciphertext, and the tag carries the plaintext. -/
def sealShort (aes : Equiv.Perm (Block 16)) (plaintext : Bytes) (rnd hmac16 : Block 16) :
    SealedSector :=
  { ciphertext := rnd.1.take plaintext.length
    authTag := ecbEncryptTwoBlocks aes (joinBlocks (rnd.mask plaintext) hmac16) }

def openShort (aes : Equiv.Perm (Block 16)) (ciphertext : Bytes) (authTag : Tag) :
    Bytes × Block 16 × Block 16 :=
  let tagPlain := ecbDecryptTwoBlocks aes authTag
  let rndXoredPt := tagPlain.1.take 16
  let datalen := ciphertext.length
  (xorInto (rndXoredPt.take datalen) ciphertext,
    Block.ofBytes 16 (ciphertext ++ rndXoredPt.drop datalen),
    Block.ofBytes 16 (tagPlain.1.drop 16))

/-- From one block on: the tag is the digest between the halves of the nonce. -/
def longTag (rnd hmac16 : Block 16) : Tag :=
  ⟨rnd.1.take 8 ++ hmac16.1 ++ rnd.1.drop 8, by simp⟩

def sealLong (aes : Equiv.Perm (Block 16)) (plaintext : Bytes) (rnd hmac16 : Block 16) :
    SealedSector :=
  { ciphertext := cbcCsEncrypt aes hmac16 plaintext
    authTag := ecbEncryptTwoBlocks aes (longTag rnd hmac16) }

def openLong (aes : Equiv.Perm (Block 16)) (ciphertext : Bytes) (authTag : Tag) :
    Bytes × Block 16 × Block 16 :=
  let tagPlain := ecbDecryptTwoBlocks aes authTag
  let iv := Block.ofBytes 16 (tagPlain.1.drop 8)
  (cbcCsDecrypt aes iv ciphertext,
    Block.ofBytes 16 (tagPlain.1.take 8 ++ tagPlain.1.drop 24),
    iv)

/-! ## Sealing and opening -/

/-- The first block of the digest of a sector, its id and its nonce. -/
def sectorHmac16 (prims : Primitives) (keys : SectorKeys) (sectorId : UInt64) (plaintext : Bytes)
    (rnd : Block 16) : Block 16 :=
  Block.ofBytes 16 (prims.hmacSha512 keys.hmacKey [plaintext, toLeBytes sectorId, rnd.1]).1

def sealBranch (aes : Equiv.Perm (Block 16)) (plaintext : Bytes) (rnd hmac16 : Block 16) :
    SealedSector :=
  if plaintext.length < 16 then sealShort aes plaintext rnd hmac16
  else sealLong aes plaintext rnd hmac16

def openBranch (aes : Equiv.Perm (Block 16)) (ciphertext : Bytes) (authTag : Tag) :
    Bytes × Block 16 × Block 16 :=
  if ciphertext.length < 16 then openShort aes ciphertext authTag
  else openLong aes ciphertext authTag

def sealSectorWithRnd (prims : Primitives) (keys : SectorKeys) (sectorId : UInt64)
    (plaintext : Bytes) (rnd : Block 16) : Except SectorError SealedSector :=
  if plaintext.isEmpty then .error .emptySector
  else if plaintext.length > sectorSize then .error (.plaintextTooLong plaintext.length)
  else
    let hmac16 := sectorHmac16 prims keys sectorId plaintext rnd
    .ok (sealBranch (prims.aes256 keys.aesKey) plaintext rnd hmac16)

/-- The nonce is what the OS source answered. -/
def sealSector (prims : Primitives) (osRng : Except String (Block 16)) (keys : SectorKeys)
    (sectorId : UInt64) (plaintext : Bytes) : Except SectorError SealedSector :=
  if plaintext.isEmpty then .error .emptySector
  else if plaintext.length > sectorSize then .error (.plaintextTooLong plaintext.length)
  else
    match osRng with
    | .error message => .error (.rng message)
    | .ok rnd => sealSectorWithRnd prims keys sectorId plaintext rnd

def openSector (prims : Primitives) (keys : SectorKeys) (sectorId : UInt64) (ciphertext : Bytes)
    (authTag : Tag) : Except SectorError Bytes :=
  if ciphertext.isEmpty then .error .emptySector
  else if ciphertext.length > sectorSize then .error (.ciphertextTooLong ciphertext.length)
  else
    let (plaintext, rnd, hmac16) := openBranch (prims.aes256 keys.aesKey) ciphertext authTag
    if sectorHmac16 prims keys sectorId plaintext rnd ≠ hmac16 then .error .authFailed
    else .ok plaintext

/-! ## Opening undoes sealing -/

section layouts

variable {aes : Equiv.Perm (Block 16)}

@[simp]
theorem joinBlocks_first (b0 b1 : Block 16) : Block.ofBytes 16 (joinBlocks b0 b1).1 = b0 :=
  Block.ofBytes_append b0 b1.1

@[simp]
theorem joinBlocks_drop (b0 b1 : Block 16) : (joinBlocks b0 b1).1.drop 16 = b1.1 :=
  List.drop_left' b0.2

@[simp]
theorem joinBlocks_take (b0 b1 : Block 16) : (joinBlocks b0 b1).1.take 16 = b0.1 :=
  List.take_left' b0.2

theorem joinBlocks_split (tag : Tag) :
    joinBlocks (Block.ofBytes 16 tag.1) (Block.ofBytes 16 (tag.1.drop 16)) = tag := by
  apply Subtype.ext
  have h0 : (Block.ofBytes 16 tag.1).1 = tag.1.take 16 := Block.ofBytes_val (by simp)
  have h1 : (Block.ofBytes 16 (tag.1.drop 16)).1 = tag.1.drop 16 := by
    rw [Block.ofBytes_val (by simp), List.take_of_length_le (by simp)]
  calc (Block.ofBytes 16 tag.1).1 ++ (Block.ofBytes 16 (tag.1.drop 16)).1
      = tag.1.take 16 ++ tag.1.drop 16 := by rw [h0, h1]
    _ = tag.1 := List.take_append_drop 16 tag.1

@[simp]
theorem ecbDecrypt_ecbEncrypt (tag : Tag) :
    ecbDecryptTwoBlocks aes (ecbEncryptTwoBlocks aes tag) = tag := by
  simp [ecbDecryptTwoBlocks, ecbEncryptTwoBlocks, joinBlocks_split]

@[simp]
theorem ecbEncrypt_ecbDecrypt (tag : Tag) :
    ecbEncryptTwoBlocks aes (ecbDecryptTwoBlocks aes tag) = tag := by
  simp [ecbDecryptTwoBlocks, ecbEncryptTwoBlocks, joinBlocks_split]

theorem openShort_sealShort {plaintext : Bytes} (rnd hmac16 : Block 16) (h : plaintext.length < 16) :
    openShort aes (sealShort aes plaintext rnd hmac16).ciphertext
      (sealShort aes plaintext rnd hmac16).authTag = (plaintext, rnd, hmac16) := by
  have hle : plaintext.length ≤ 16 := Nat.le_of_lt h
  simp only [openShort, sealShort, ecbDecrypt_ecbEncrypt, joinBlocks_take, joinBlocks_drop,
    rnd.length_take hle, rnd.unmask_front hle, rnd.unmask_rest hle, Block.ofBytes_self]

theorem sealShort_openShort {ciphertext : Bytes} (authTag : Tag) (h : ciphertext.length < 16) :
    sealShort aes (openShort aes ciphertext authTag).1 (openShort aes ciphertext authTag).2.1
      (openShort aes ciphertext authTag).2.2 = ⟨ciphertext, authTag⟩ := by
  have hle : ciphertext.length ≤ 16 := Nat.le_of_lt h
  set tagPlain := ecbDecryptTwoBlocks aes authTag with htag
  set b0 := Block.ofBytes 16 tagPlain.1 with hb0
  have htake : tagPlain.1.take 16 = b0.1 := (Block.ofBytes_val (by simp)).symm
  have hjoin : joinBlocks b0 (Block.ofBytes 16 (tagPlain.1.drop 16)) = tagPlain :=
    joinBlocks_split tagPlain
  simp only [openShort, sealShort, ← htag, htake, length_xorInto, b0.length_take hle,
    b0.replaced_val hle, List.take_left, b0.mask_replaced hle, hjoin]
  rw [htag, ecbEncrypt_ecbDecrypt]

theorem longTag_val (rnd hmac16 : Block 16) :
    (longTag rnd hmac16).1 = rnd.1.take 8 ++ (hmac16.1 ++ rnd.1.drop 8) :=
  List.append_assoc _ _ _

theorem longTag_digest (rnd hmac16 : Block 16) :
    Block.ofBytes 16 ((longTag rnd hmac16).1.drop 8) = hmac16 := by
  have hdrop : (longTag rnd hmac16).1.drop 8 = hmac16.1 ++ rnd.1.drop 8 := by
    rw [longTag_val]
    apply List.drop_left'
    simp
  rw [hdrop, Block.ofBytes_append]

theorem longTag_nonce (rnd hmac16 : Block 16) :
    Block.ofBytes 16 ((longTag rnd hmac16).1.take 8 ++ (longTag rnd hmac16).1.drop 24) = rnd := by
  have htake : (longTag rnd hmac16).1.take 8 = rnd.1.take 8 := by
    rw [longTag_val]
    apply List.take_left'
    simp
  have hdrop : (longTag rnd hmac16).1.drop 24 = rnd.1.drop 8 := by
    apply List.drop_left'
    simp
  rw [htake, hdrop, List.take_append_drop, Block.ofBytes_self]

theorem longTag_split (tag : Tag) :
    longTag (Block.ofBytes 16 (tag.1.take 8 ++ tag.1.drop 24)) (Block.ofBytes 16 (tag.1.drop 8)) =
      tag := by
  have hnonce : (Block.ofBytes 16 (tag.1.take 8 ++ tag.1.drop 24)).1 = tag.1.take 8 ++ tag.1.drop 24 := by
    rw [Block.ofBytes_val (by simp), List.take_of_length_le (by simp)]
  have hdigest : (Block.ofBytes 16 (tag.1.drop 8)).1 = (tag.1.drop 8).take 16 :=
    Block.ofBytes_val (by simp)
  have hlen : (tag.1.take 8).length = 8 := by simp
  apply Subtype.ext
  calc (longTag _ _).1
      = tag.1.take 8 ++ ((tag.1.drop 8).take 16 ++ tag.1.drop 24) := by
        rw [longTag_val, hnonce, hdigest, List.take_left' hlen, List.drop_left' hlen]
    _ = tag.1.take 8 ++ ((tag.1.drop 8).take 16 ++ (tag.1.drop 8).drop 16) := by
        rw [List.drop_drop]
    _ = tag.1 := by rw [List.take_append_drop, List.take_append_drop]

theorem openLong_sealLong {plaintext : Bytes} (rnd hmac16 : Block 16) (h : 16 ≤ plaintext.length) :
    openLong aes (sealLong aes plaintext rnd hmac16).ciphertext
      (sealLong aes plaintext rnd hmac16).authTag = (plaintext, rnd, hmac16) := by
  have hpass := (encrypt_undone aes).pass_pass (by decide) hmac16 h
  simp only [openLong, sealLong, ecbDecrypt_ecbEncrypt, longTag_digest, longTag_nonce, cbcCsEncrypt,
    cbcCsDecrypt, hpass]

theorem sealLong_openLong {ciphertext : Bytes} (authTag : Tag) (h : 16 ≤ ciphertext.length) :
    sealLong aes (openLong aes ciphertext authTag).1 (openLong aes ciphertext authTag).2.1
      (openLong aes ciphertext authTag).2.2 = ⟨ciphertext, authTag⟩ := by
  have hpass := fun iv => (decrypt_undone aes).pass_pass (by decide) iv h
  simp only [openLong, sealLong, longTag_split, ecbEncrypt_ecbDecrypt, cbcCsEncrypt, cbcCsDecrypt,
    hpass]

variable (aes) in
theorem length_sealBranch (plaintext : Bytes) (rnd hmac16 : Block 16) :
    (sealBranch aes plaintext rnd hmac16).ciphertext.length = plaintext.length := by
  unfold sealBranch
  split
  · rename_i hlt
    exact rnd.length_take (Nat.le_of_lt hlt)
  · rename_i hge
    exact (encrypt_undone aes).length_pass (by decide) hmac16 (Nat.le_of_not_lt hge)

theorem length_of_sealBranch {plaintext ciphertext : Bytes} {rnd hmac16 : Block 16} {authTag : Tag}
    (h : sealBranch aes plaintext rnd hmac16 = ⟨ciphertext, authTag⟩) :
    ciphertext.length = plaintext.length := by
  have hlen := length_sealBranch aes plaintext rnd hmac16
  rwa [h] at hlen

variable (aes) in
theorem length_openBranch (ciphertext : Bytes) (authTag : Tag) :
    (openBranch aes ciphertext authTag).1.length = ciphertext.length := by
  unfold openBranch
  split
  · rename_i hlt
    simp only [openShort, length_xorInto, List.length_take, Block.length_val]
    omega
  · rename_i hge
    exact (decrypt_undone aes).length_pass (by decide) _ (Nat.le_of_not_lt hge)

theorem openBranch_eq_iff (ciphertext : Bytes) (authTag : Tag) (plaintext : Bytes)
    (rnd hmac16 : Block 16) :
    openBranch aes ciphertext authTag = (plaintext, rnd, hmac16) ↔
      sealBranch aes plaintext rnd hmac16 = ⟨ciphertext, authTag⟩ := by
  constructor
  · intro h
    have hlen : plaintext.length = ciphertext.length := by
      rw [← length_openBranch aes ciphertext authTag, h]
    unfold openBranch at h
    unfold sealBranch
    split at h
    · rename_i hlt
      rw [if_pos (by omega), ← sealShort_openShort authTag hlt, h]
    · rename_i hge
      have hge : 16 ≤ ciphertext.length := Nat.le_of_not_lt hge
      rw [if_neg (by omega), ← sealLong_openLong authTag hge, h]
  · intro h
    have hlen := length_of_sealBranch h
    unfold sealBranch at h
    unfold openBranch
    split at h
    · rename_i hlt
      rw [if_pos (by omega), ← openShort_sealShort rnd hmac16 hlt, h]
    · rename_i hge
      have hge : 16 ≤ plaintext.length := Nat.le_of_not_lt hge
      rw [if_neg (by omega), ← openLong_sealLong rnd hmac16 hge, h]

end layouts

section sectors

variable (prims : Primitives) (keys : SectorKeys) (sectorId : UInt64)

theorem sealSectorWithRnd_eq_ok {plaintext : Bytes} {rnd : Block 16} {sealed : SealedSector} :
    sealSectorWithRnd prims keys sectorId plaintext rnd = .ok sealed ↔
      plaintext ≠ [] ∧ plaintext.length ≤ sectorSize ∧
        sealBranch (prims.aes256 keys.aesKey) plaintext rnd
          (sectorHmac16 prims keys sectorId plaintext rnd) = sealed := by
  unfold sealSectorWithRnd
  by_cases hempty : plaintext = []
  · simp [hempty]
  · by_cases hlong : plaintext.length > sectorSize
    · simp [hempty, hlong, Nat.not_le_of_gt hlong]
    · simp [hempty, hlong, Nat.le_of_not_gt hlong]

theorem openSector_eq_ok {ciphertext : Bytes} {authTag : Tag} {plaintext : Bytes} :
    openSector prims keys sectorId ciphertext authTag = .ok plaintext ↔
      ciphertext ≠ [] ∧ ciphertext.length ≤ sectorSize ∧
        ∃ rnd, openBranch (prims.aes256 keys.aesKey) ciphertext authTag =
          (plaintext, rnd, sectorHmac16 prims keys sectorId plaintext rnd) := by
  unfold openSector
  by_cases hempty : ciphertext = []
  · simp [hempty]
  · by_cases hlong : ciphertext.length > sectorSize
    · simp [hempty, hlong, Nat.not_le_of_gt hlong]
    · obtain ⟨opened, rnd, hmac16⟩ := openBranch (prims.aes256 keys.aesKey) ciphertext authTag
      simp only [List.isEmpty_iff, hempty, hlong, Nat.le_of_not_gt hlong, if_false, ne_eq,
        not_false_eq_true, true_and, Prod.mk.injEq, ite_not]
      constructor
      · intro h
        split at h
        · rename_i hmac
          cases h
          exact ⟨rnd, rfl, rfl, hmac.symm⟩
        · cases h
      · rintro ⟨rnd, rfl, rfl, rfl⟩
        rw [if_pos rfl]

theorem openSector_iff_sealed (ciphertext : Bytes) (authTag : Tag) (plaintext : Bytes) :
    openSector prims keys sectorId ciphertext authTag = .ok plaintext ↔
      ∃ rnd, sealSectorWithRnd prims keys sectorId plaintext rnd = .ok ⟨ciphertext, authTag⟩ := by
  rw [openSector_eq_ok]
  constructor
  · rintro ⟨hne, hle, rnd, hopen⟩
    rw [openBranch_eq_iff] at hopen
    have hlen := length_of_sealBranch hopen
    refine ⟨rnd, (sealSectorWithRnd_eq_ok prims keys sectorId).mpr ⟨?_, hlen ▸ hle, hopen⟩⟩
    rintro rfl
    exact hne (List.eq_nil_of_length_eq_zero hlen)
  · rintro ⟨rnd, hseal⟩
    obtain ⟨hne, hle, hseal⟩ := (sealSectorWithRnd_eq_ok prims keys sectorId).mp hseal
    have hlen := length_of_sealBranch hseal
    refine ⟨?_, hlen.symm ▸ hle, rnd, (openBranch_eq_iff _ _ _ _ _).mpr hseal⟩
    rintro rfl
    exact hne (List.eq_nil_of_length_eq_zero hlen.symm)

theorem length_openSector {ciphertext : Bytes} {authTag : Tag} {plaintext : Bytes}
    (h : openSector prims keys sectorId ciphertext authTag = .ok plaintext) :
    plaintext.length = ciphertext.length := by
  obtain ⟨_, _, rnd, hopen⟩ := (openSector_eq_ok prims keys sectorId).mp h
  have hlen := length_openBranch (prims.aes256 keys.aesKey) ciphertext authTag
  rwa [hopen] at hlen

theorem openSector_sealSector {osRng : Except String (Block 16)} {plaintext : Bytes}
    {sealed : SealedSector} (h : sealSector prims osRng keys sectorId plaintext = .ok sealed) :
    openSector prims keys sectorId sealed.ciphertext sealed.authTag = .ok plaintext := by
  unfold sealSector at h
  split at h
  · cases h
  · split at h
    · cases h
    · cases osRng with
      | error message => cases h
      | ok rnd => exact (openSector_iff_sealed prims keys sectorId _ _ _).mpr ⟨rnd, h⟩

/-- The AEAD is exact: a ciphertext and a tag open to `plaintext` just when they are a sealing
of it under some nonce. -/
theorem sector_aead_exact (ciphertext : Bytes) (authTag : Tag) (plaintext : Bytes) :
    (openSector prims keys sectorId ciphertext authTag = .ok plaintext ↔
      ∃ rnd, sealSectorWithRnd prims keys sectorId plaintext rnd = .ok ⟨ciphertext, authTag⟩) ∧
    (openSector prims keys sectorId ciphertext authTag = .ok plaintext →
      plaintext.length = ciphertext.length) ∧
    ∀ rnd sealed, sealSectorWithRnd prims keys sectorId plaintext rnd = .ok sealed →
      openSector prims keys sectorId sealed.ciphertext sealed.authTag = .ok plaintext := by
  refine ⟨openSector_iff_sealed prims keys sectorId _ _ _, length_openSector prims keys sectorId, ?_⟩
  intro rnd sealed hseal
  exact (openSector_iff_sealed prims keys sectorId _ _ _).mpr ⟨rnd, hseal⟩

end sectors

end Pcloud
