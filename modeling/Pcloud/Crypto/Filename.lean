import Pcloud.Crypto.Base32

/-!
# Encrypted names

`pclsync_filename.rs`: a name is padded with zeros to whole blocks, encrypted under a folder's
keys and wrapped in base32. One block is masked with the front of the HMAC key. More blocks are
chained from a tweak that is the HMAC of the name past its first block, so the decoder has to
find the end of the name before it can undo the first block.
-/

namespace Pcloud

open BlockChain

structure FilenameKeys where
  aesKey : Block 32
  hmacKey : Block 128

def pclsyncMaxFilenamePlaintext : Nat := 255

section codec

variable (prims : Primitives) (keys : FilenameKeys)

def hmacSha512Tweak (hmacKey : Block 128) (msg : Bytes) : Block 16 :=
  Block.ofBytes 16 (prims.hmacSha512 hmacKey.1 [msg]).1

/-- Zero bytes up to the next block boundary. -/
def zeroPad (txt : Bytes) : Bytes :=
  txt ++ List.replicate ((txt.length + 15) / 16 * 16 - txt.length) 0

/-- The ciphertext of a name: `encode_filename` without its checks and its envelope. -/
def encryptName (txt : Bytes) : Bytes :=
  let padded := zeroPad txt
  let aes := prims.aes256 keys.aesKey
  if padded.length = 16 then
    (aes ((Block.ofBytes 16 padded).mask (keys.hmacKey.1.take 16))).1
  else
    -- The HMAC is over the unpadded tail.
    let tweak := hmacSha512Tweak prims keys.hmacKey (txt.drop 16)
    (chainEncrypt aes (padded.length / 16) tweak padded).1

def encodeFilename (plaintext : String) : Except FilenameError String :=
  let txt := utf8 plaintext
  if txt.isEmpty then .error .empty
  else if txt.length > pclsyncMaxFilenamePlaintext then .error (.tooLong txt.length)
  else .ok (base32Encode (encryptName prims keys txt))

/-- The position of the first NUL, or the length where there is none. -/
def strlen (bytes : Bytes) : Nat := bytes.findIdx (· == 0)

def cString (bytes : Bytes) : Bytes := bytes.take (strlen bytes)

/-- The padded name in a ciphertext of whole blocks. -/
def decryptName (data : Bytes) : Bytes :=
  let aes := prims.aes256 keys.aesKey
  let blk0 := aes.symm (Block.ofBytes 16 data)
  if data.length = 16 then (blk0.mask (keys.hmacKey.1.take 16)).1
  else
    let tail := (chainDecrypt aes (data.length / 16 - 1) (Block.ofBytes 16 data) (data.drop 16)).1
    let tweak := hmacSha512Tweak prims keys.hmacKey (cString tail)
    (blk0.mask tweak.1).1 ++ tail

/-- Nothing but zeros past the first NUL. A buffer without a NUL passes. -/
def paddingOk (plain : Bytes) : Bool :=
  if strlen plain < plain.length then (plain.drop (strlen plain + 1)).all (· == 0) else true

/-- The structural check on a decrypted name. -/
def plaintextName (plain : Bytes) : Except FilenameError String :=
  if !paddingOk plain then .error .invalidPlaintext
  else if strlen plain = 0 then .error .invalidPlaintext
  else
    match fromUtf8 (cString plain) with
    | none => .error .invalidUtf8
    | some name => .ok name

def decodeFilename (encoded : String) : Except FilenameError String :=
  if encoded.isEmpty then .error .empty
  else
    match base32Decode encoded with
    | .error e => .error e
    | .ok data =>
      if data.isEmpty || data.length % 16 ≠ 0 then .error .invalidPlaintext
      else plaintextName (decryptName prims keys data)

end codec

/-! ## Names and their padding -/

/-- Bytes that can be the name in a padded buffer. -/
def IsName (txt : Bytes) : Prop := txt ≠ [] ∧ 0 ∉ txt

theorem strlen_name {txt : Bytes} (h : 0 ∉ txt) (n : Nat) :
    strlen (txt ++ List.replicate n 0) = txt.length := by
  unfold strlen
  rw [List.findIdx_append, List.findIdx_eq_length_of_false]
  · cases n <;> simp [List.replicate_succ, List.findIdx_cons]
  · intro byte hbyte
    simpa using fun hzero : byte = 0 => h (hzero ▸ hbyte)

theorem cString_name {txt : Bytes} (h : 0 ∉ txt) (n : Nat) : cString (txt ++ List.replicate n 0) = txt := by
  rw [cString, strlen_name h, List.take_left]

theorem strlen_le (bytes : Bytes) : strlen bytes ≤ bytes.length := List.findIdx_le_length

theorem zero_not_mem_cString (bytes : Bytes) : 0 ∉ cString bytes := by
  intro hmem
  obtain ⟨i, hi, hget⟩ := List.mem_iff_getElem.mp hmem
  have hlt : i < strlen bytes := by
    rw [cString, List.length_take] at hi
    omega
  have hne := List.not_of_lt_findIdx hlt
  simp only [cString, List.getElem_take] at hget
  simp [hget] at hne

theorem length_zeroPad {txt : Bytes} : (zeroPad txt).length = (txt.length + 15) / 16 * 16 := by
  simp only [zeroPad, List.length_append, List.length_replicate]
  omega

theorem paddingOk_iff (plain : Bytes) :
    paddingOk plain = true ↔ plain.drop (strlen plain) = List.replicate (plain.length - strlen plain) 0 := by
  unfold paddingOk
  have hle := strlen_le plain
  by_cases hlt : strlen plain < plain.length
  · have hnul : plain[strlen plain] = 0 := by
      exact eq_of_beq (List.findIdx_getElem (w := hlt))
    have hlen : plain.length - strlen plain = (plain.length - (strlen plain + 1)) + 1 := by omega
    rw [if_pos hlt, List.drop_eq_getElem_cons hlt, hnul, hlen, List.replicate_succ, List.all_eq_true]
    constructor
    · intro hall
      congr 1
      apply List.eq_replicate_iff.mpr
      exact ⟨List.length_drop, fun byte hbyte => by simpa using hall byte hbyte⟩
    · intro heq byte hbyte
      rw [(List.cons_eq_cons.mp heq).2] at hbyte
      simpa using List.eq_of_mem_replicate hbyte
  · have hall : strlen plain = plain.length := by omega
    simp [hall]

theorem plaintextName_eq_ok {plain : Bytes} {name : String} :
    plaintextName plain = .ok name ↔
      IsName (utf8 name) ∧ ∃ n, plain = utf8 name ++ List.replicate n 0 := by
  unfold plaintextName
  constructor
  · intro h
    by_cases hpad : paddingOk plain = true
    · by_cases hend : strlen plain = 0
      · simp [hpad, hend] at h
      · cases hname : fromUtf8 (cString plain) with
        | none => simp [hpad, hend, hname] at h
        | some text =>
          simp only [hpad, hend, hname, Bool.not_true, Bool.false_eq_true, if_false, Except.ok.injEq] at h
          subst h
          have htake := fromUtf8_eq_some.mp hname
          have hzeros := (paddingOk_iff plain).mp hpad
          have hle := strlen_le plain
          refine ⟨⟨?_, ?_⟩, plain.length - strlen plain, ?_⟩
          · rw [htake]
            intro hnil
            have hlen := congrArg List.length hnil
            rw [cString, List.length_take, List.length_nil] at hlen
            omega
          · rw [htake]
            exact zero_not_mem_cString plain
          · rw [htake, ← hzeros, cString, List.take_append_drop]
    · simp [hpad] at h
  · rintro ⟨⟨hne, hnul⟩, n, rfl⟩
    have hlen := strlen_name hnul n
    have hpad : paddingOk (utf8 name ++ List.replicate n 0) = true := by
      rw [paddingOk_iff, hlen, List.drop_left]
      simp
    have hpos : strlen (utf8 name ++ List.replicate n 0) ≠ 0 := by
      rw [hlen]
      exact fun hzero => hne (List.eq_nil_of_length_eq_zero hzero)
    simp only [hpad, Bool.not_true, Bool.false_eq_true, if_false, hpos, cString_name hnul,
      fromUtf8_eq_some.mpr rfl]

/-! ## Undoing the cipher -/

section cipher

variable {prims : Primitives} {keys : FilenameKeys}

theorem length_encryptName {txt : Bytes} (h : txt ≠ []) :
    (encryptName prims keys txt).length = (zeroPad txt).length := by
  have hpos : 0 < txt.length := List.length_pos_iff.mpr h
  have hlen := @length_zeroPad txt
  unfold encryptName
  by_cases hone : (zeroPad txt).length = 16
  · simp only [hone, if_true, Block.length_val]
  · simp only [hone, if_false, length_chainEncrypt]
    omega

theorem length_decryptName {data : Bytes} (hpos : data ≠ []) (hblocks : data.length % 16 = 0) :
    (decryptName prims keys data).length = data.length := by
  have hlen : 0 < data.length := List.length_pos_iff.mpr hpos
  unfold decryptName
  by_cases hone : data.length = 16
  · simp only [hone, if_true, Block.length_val]
  · simp only [hone, if_false, List.length_append, Block.length_val, length_chainDecrypt]
    omega

theorem decryptName_chain {data : Bytes} {n : Nat} (h : data.length = (n + 2) * 16) :
    decryptName prims keys data =
      (chainDecrypt (prims.aes256 keys.aesKey) (n + 2)
        (hmacSha512Tweak prims keys.hmacKey (cString ((decryptName prims keys data).drop 16))) data).1 := by
  have hmany : data.length ≠ 16 := by omega
  have hdiv : data.length / 16 - 1 = n + 1 := by omega
  unfold decryptName
  simp only [if_neg hmany, hdiv, List.drop_left' (Block.length_val _)]
  rfl

/-- The tail does not depend on the tweak, so a tweak that fits the tail it leaves is the one the
decoder finds. -/
theorem decryptName_of_tweak {data : Bytes} {n : Nat} (h : data.length = (n + 2) * 16) {tweak : Block 16}
    {plain : Bytes} (hplain : (chainDecrypt (prims.aes256 keys.aesKey) (n + 2) tweak data).1 = plain)
    (htweak : hmacSha512Tweak prims keys.hmacKey (cString (plain.drop 16)) = tweak) :
    decryptName prims keys data = plain := by
  have htail : (decryptName prims keys data).drop 16 = plain.drop 16 := by
    rw [decryptName_chain h, ← hplain]
    simp only [chainDecrypt, List.drop_left' (Block.length_val _)]
  rw [decryptName_chain h, htail, htweak, hplain]

theorem drop_zeroPad {txt : Bytes} (h : 16 ≤ txt.length) :
    ∃ n, (zeroPad txt).drop 16 = txt.drop 16 ++ List.replicate n 0 :=
  ⟨_, List.drop_append_of_le_length h⟩

theorem cString_drop_zeroPad {txt : Bytes} (hnul : 0 ∉ txt) (h : 16 ≤ txt.length) :
    cString ((zeroPad txt).drop 16) = txt.drop 16 := by
  obtain ⟨n, hdrop⟩ := drop_zeroPad h
  rw [hdrop, cString_name fun hmem => hnul (List.mem_of_mem_drop hmem)]

theorem decryptName_encryptName {txt : Bytes} (h : IsName txt) :
    decryptName prims keys (encryptName prims keys txt) = zeroPad txt := by
  obtain ⟨hne, hnul⟩ := h
  have hpos : 0 < txt.length := List.length_pos_iff.mpr hne
  have hpad := @length_zeroPad txt
  have hlen := @length_encryptName prims keys txt hne
  by_cases hone : (zeroPad txt).length = 16
  · have hblock : (Block.ofBytes 16 (zeroPad txt)).1 = zeroPad txt := by
      rw [Block.ofBytes_val hone.ge, ← hone, List.take_length]
    unfold decryptName
    simp only [hlen, hone, if_true]
    simp only [encryptName, hone, if_true, Block.ofBytes_self, Equiv.symm_apply_apply, Block.mask_mask]
    exact hblock
  · obtain ⟨n, hn⟩ : ∃ n, (zeroPad txt).length = (n + 2) * 16 := ⟨(txt.length + 15) / 16 - 2, by omega⟩
    have hdiv : (zeroPad txt).length / 16 = n + 2 := by omega
    have hround := @chainDecrypt_chainEncrypt 16 (prims.aes256 keys.aesKey) (n + 2)
      (hmacSha512Tweak prims keys.hmacKey (txt.drop 16)) (zeroPad txt) [] hn.ge
    rw [List.append_nil, ← hn, List.take_length] at hround
    have htail := cString_drop_zeroPad hnul (by omega)
    apply decryptName_of_tweak (hlen.trans hn) _ (congrArg (hmacSha512Tweak prims keys.hmacKey) htail)
    simp only [encryptName, hone, if_false, hdiv, hround]

theorem encryptName_of_decryptName {txt data : Bytes} (h : IsName txt)
    (hplain : decryptName prims keys data = zeroPad txt) (hlen : data.length = (zeroPad txt).length) :
    encryptName prims keys txt = data := by
  obtain ⟨hne, hnul⟩ := h
  have hpos : 0 < txt.length := List.length_pos_iff.mpr hne
  have hpad := @length_zeroPad txt
  by_cases hone : (zeroPad txt).length = 16
  · have hdata : (Block.ofBytes 16 data).1 = data := by
      rw [Block.ofBytes_val (by omega), List.take_of_length_le (by omega)]
    unfold decryptName at hplain
    simp only [hlen, hone, if_true] at hplain
    simp only [encryptName, hone, if_true]
    rw [← hplain, Block.ofBytes_self, Block.mask_mask, Equiv.apply_symm_apply, hdata]
  · obtain ⟨n, hn⟩ : ∃ n, (zeroPad txt).length = (n + 2) * 16 := ⟨(txt.length + 15) / 16 - 2, by omega⟩
    have hdiv : (zeroPad txt).length / 16 = n + 2 := by omega
    have hchain := @decryptName_chain prims keys data n (hlen.trans hn)
    rw [hplain, cString_drop_zeroPad hnul (by omega)] at hchain
    have hround := @chainEncrypt_chainDecrypt 16 (prims.aes256 keys.aesKey) (n + 2)
      (hmacSha512Tweak prims keys.hmacKey (txt.drop 16)) data [] (hlen.trans hn).ge
    rw [List.append_nil, ← hn, ← hlen, List.take_length, ← hchain] at hround
    simp only [encryptName, hone, if_false, hdiv, hround]

end cipher

/-! ## There and back -/

section names

variable (prims : Primitives) (keys : FilenameKeys)

theorem encodeFilename_eq_ok {name encoded : String} :
    encodeFilename prims keys name = .ok encoded ↔
      name ≠ "" ∧ (utf8 name).length ≤ pclsyncMaxFilenamePlaintext ∧
        base32Encode (encryptName prims keys (utf8 name)) = encoded := by
  unfold encodeFilename
  by_cases hempty : name = ""
  · simp [hempty]
  · by_cases hlong : (utf8 name).length > pclsyncMaxFilenamePlaintext
    · simp [hempty, hlong]
    · simp [hempty, hlong, Nat.not_lt.mp hlong]

theorem decodeFilename_eq_ok {encoded name : String} :
    decodeFilename prims keys encoded = .ok name ↔
      ∃ data, base32Decode encoded = .ok data ∧ data ≠ [] ∧ data.length % 16 = 0 ∧ IsName (utf8 name) ∧
        ∃ n, decryptName prims keys data = utf8 name ++ List.replicate n 0 := by
  unfold decodeFilename
  by_cases hempty : encoded = ""
  · subst hempty
    simp [base32Decode, base32DecodeLoop, utf8_eq_nil.mpr rfl]
  · have hsome : encoded.isEmpty = false := by simpa using hempty
    simp only [hsome, Bool.false_eq_true, if_false]
    cases hdata : base32Decode encoded with
    | error e => simp
    | ok data =>
      by_cases hblocks : data.isEmpty || data.length % 16 ≠ 0
      · simp only [hblocks, if_true, Except.ok.injEq, exists_eq_left', reduceCtorEq, false_iff]
        rintro ⟨hne, hmod, -⟩
        simp [hne, hmod] at hblocks
      · simp only [if_neg hblocks, Except.ok.injEq, exists_eq_left', plaintextName_eq_ok]
        simp only [Bool.or_eq_true, List.isEmpty_iff, decide_eq_true_eq, not_or, ne_eq, not_not] at hblocks
        simp only [ne_eq, hblocks, not_false_eq_true, true_and]

theorem decode_of_encode {name encoded : String} (hnul : 0 ∉ utf8 name)
    (h : encodeFilename prims keys name = .ok encoded) : decodeFilename prims keys encoded = .ok name := by
  obtain ⟨hne, hlen, rfl⟩ := (encodeFilename_eq_ok prims keys).mp h
  have hbytes : utf8 name ≠ [] := fun hnil => hne (utf8_eq_nil.mp hnil)
  have hcipher := @length_encryptName prims keys _ hbytes
  have hpos : 0 < (utf8 name).length := List.length_pos_iff.mpr hbytes
  rw [length_zeroPad] at hcipher
  apply (decodeFilename_eq_ok prims keys).mpr
  refine ⟨_, base32Decode_encode _, ?_, ?_, ⟨hbytes, hnul⟩, _, decryptName_encryptName ⟨hbytes, hnul⟩⟩
  · apply List.length_pos_iff.mp
    omega
  · omega

theorem filename_round_trip {name : String} (hne : name ≠ "") (hnul : 0 ∉ utf8 name)
    (hlen : (utf8 name).length ≤ 255) :
    (∃ encoded, encodeFilename prims keys name = .ok encoded ∧ decodeFilename prims keys encoded = .ok name) ∧
      ∀ other : String, other ≠ "" → 0 ∉ utf8 other → (utf8 other).length ≤ 255 →
        encodeFilename prims keys other = encodeFilename prims keys name → other = name := by
  have hok := (encodeFilename_eq_ok prims keys).mpr ⟨hne, hlen, rfl⟩
  have hback := decode_of_encode prims keys hnul hok
  refine ⟨⟨_, hok, hback⟩, ?_⟩
  intro other _ hother _ hsame
  have hback' := decode_of_encode prims keys hother (hsame.trans hok)
  exact Except.ok.inj (hback'.symm.trans hback)

theorem filename_round_trip_ab :
    let keys : FilenameKeys := ⟨Block.ofBytes 32 [], Block.ofBytes 128 []⟩
    (∃ encoded, encodeFilename echoPrims keys "ab" = .ok encoded ∧
        decodeFilename echoPrims keys encoded = .ok "ab") ∧
      ∀ other : String, other ≠ "" → 0 ∉ utf8 other → (utf8 other).length ≤ 255 →
        encodeFilename echoPrims keys other = encodeFilename echoPrims keys "ab" → other = "ab" :=
  filename_round_trip echoPrims _ (by decide) (by decide) (by decide)

/-! ## Canonical strings -/

def lastBlock (data : Bytes) : Block 16 := Block.ofBytes 16 (data.drop (data.length - 16))

def blockBeforeLast (data : Bytes) : Block 16 := Block.ofBytes 16 (data.drop (data.length - 32))

/-- What the last block of a chained ciphertext decrypts to. -/
def lastPlainBlock (data : Bytes) : Block 16 :=
  ((prims.aes256 keys.aesKey).symm (lastBlock data)).mask (blockBeforeLast data).1

/-- A ciphertext that the encoder could have made of the name in it: no block of nothing but padding,
and no more than the 255 bytes that it takes. -/
def CanonicalCiphertext (data : Bytes) : Prop :=
  (16 < data.length → lastBlock data ≠ prims.aes256 keys.aesKey (blockBeforeLast data)) ∧
    (data.length < 256 ∨ data.length = 256 ∧ (lastPlainBlock prims keys data).1.getLast? = some 0)

theorem drop_decryptName {data : Bytes} {n : Nat} (h : data.length = (n + 2) * 16) :
    (decryptName prims keys data).drop ((n + 1) * 16) = (lastPlainBlock prims keys data).1 := by
  have hlast : data.length - 16 = (n + 1) * 16 := by omega
  have hbefore : data.length - 32 = n * 16 := by omega
  rw [decryptName_chain h, chainDecrypt_concat, chainDecrypt_concat, List.drop_left']
  · rw [lastPlainBlock, lastBlock, blockBeforeLast, hlast, hbefore]
  · simp only [List.length_append, length_chainDecrypt, Block.length_val]
    omega

theorem lastPlainBlock_zero (data : Bytes) :
    (lastPlainBlock prims keys data).1 = List.replicate 16 0 ↔
      lastBlock data = prims.aes256 keys.aesKey (blockBeforeLast data) := by
  rw [lastPlainBlock, Block.mask_eq_zero, Equiv.symm_apply_eq]

section plaintext

variable {txt : Bytes} (hnul : 0 ∉ txt) (z : Nat)
include hnul

theorem drop_name_zeros (m j : Nat) (h : txt.length + z = m + j) :
    (txt ++ List.replicate z 0).drop m = List.replicate j 0 ↔ txt.length ≤ m := by
  constructor
  · intro hdrop
    rw [List.drop_append] at hdrop
    have hnil : txt.drop m = [] := by
      apply List.eq_nil_iff_forall_not_mem.mpr
      intro byte hbyte
      have hzero : byte ∈ List.replicate j (0 : UInt8) := hdrop ▸ List.mem_append_left _ hbyte
      exact hnul (List.eq_of_mem_replicate hzero ▸ List.mem_of_mem_drop hbyte)
    exact List.drop_eq_nil_iff.mp hnil
  · intro hle
    have hj : z - (m - txt.length) = j := by omega
    rw [List.drop_append, List.drop_of_length_le hle, List.nil_append, List.drop_replicate, hj]

theorem getLast_name_zeros :
    (txt ++ List.replicate z 0).getLast? = some 0 ↔ 0 < z := by
  cases z with
  | zero =>
    simp only [List.replicate_zero, List.append_nil, Nat.lt_irrefl, iff_false]
    exact fun h => hnul (List.mem_of_getLast? h)
  | succ z => simp [List.getLast?_append, List.getLast?_replicate]

end plaintext

theorem canonicalCiphertext_iff {data txt : Bytes} {z : Nat} (hne : data ≠ []) (hblocks : data.length % 16 = 0)
    (h : IsName txt) (hplain : decryptName prims keys data = txt ++ List.replicate z 0) :
    CanonicalCiphertext prims keys data ↔ txt.length ≤ 255 ∧ (zeroPad txt).length = data.length := by
  obtain ⟨hname, hnul⟩ := h
  have hpos : 0 < txt.length := List.length_pos_iff.mpr hname
  have hsome : 0 < data.length := List.length_pos_iff.mpr hne
  have hlen : txt.length + z = data.length := by
    rw [← @length_decryptName prims keys data hne hblocks, hplain]
    simp
  unfold CanonicalCiphertext
  rw [length_zeroPad]
  by_cases hone : data.length = 16
  · simp only [hone, Nat.lt_irrefl, false_implies, true_and, Nat.reduceLT, true_or, true_iff]
    omega
  · obtain ⟨n, hn⟩ : ∃ n, data.length = (n + 2) * 16 := ⟨data.length / 16 - 2, by omega⟩
    have hdrop := drop_decryptName prims keys hn
    rw [hplain] at hdrop
    have hpadding : lastBlock data = prims.aes256 keys.aesKey (blockBeforeLast data) ↔ txt.length ≤ (n + 1) * 16 := by
      rw [← lastPlainBlock_zero, ← hdrop]
      exact drop_name_zeros hnul z _ _ (by omega)
    have hlast : (lastPlainBlock prims keys data).1.getLast? = some 0 ↔ 0 < z := by
      rw [← hdrop, List.getLast?_drop, if_neg (by simp; omega)]
      exact getLast_name_zeros hnul z
    rw [ne_eq, hpadding, hlast]
    omega

/-- Directory lookup encodes the name and compares, so only a string that is its own encoding is
found under the name it decrypts to. -/
theorem encode_of_decode_iff {encoded name : String} (h : decodeFilename prims keys encoded = .ok name) :
    encodeFilename prims keys name = .ok encoded ↔
      Base32Canonical encoded ∧ ∀ data, base32Decode encoded = .ok data → CanonicalCiphertext prims keys data := by
  obtain ⟨data, hdata, hne, hblocks, hname, z, hplain⟩ := (decodeFilename_eq_ok prims keys).mp h
  have hcanonical := canonicalCiphertext_iff prims keys hne hblocks hname hplain
  have hnonempty : name ≠ "" := fun hempty => hname.1 (utf8_eq_nil.mpr hempty)
  rw [encodeFilename_eq_ok]
  constructor
  · rintro ⟨-, hlen, hencode⟩
    have hsame : encryptName prims keys (utf8 name) = data := by
      rw [← hencode, base32Decode_encode] at hdata
      exact Except.ok.inj hdata
    refine ⟨(base32Encode_decode_iff hdata).mp (hsame ▸ hencode), ?_⟩
    intro data' hdata'
    obtain rfl : data = data' := Except.ok.inj (hdata.symm.trans hdata')
    exact hcanonical.mpr ⟨hlen, by rw [← hsame, length_encryptName hname.1]⟩
  · rintro ⟨hbase32, hcipher⟩
    obtain ⟨hlen, hpad⟩ := hcanonical.mp (hcipher data hdata)
    have hzeros : decryptName prims keys data = zeroPad (utf8 name) := by
      have hz : (utf8 name).length + z = data.length := by
        rw [← @length_decryptName prims keys data hne hblocks, hplain]
        simp
      rw [hplain, zeroPad, ← length_zeroPad, hpad, ← hz, Nat.add_sub_cancel_left]
    have hsame := encryptName_of_decryptName hname hzeros hpad.symm
    exact ⟨hnonempty, hlen, hsame ▸ (base32Encode_decode_iff hdata).mpr hbase32⟩

/-- One superfluous character is a second string for the same name. -/
theorem decode_not_canonical :
    let keys : FilenameKeys := ⟨Block.ofBytes 32 [], Block.ofBytes 128 []⟩
    decodeFilename echoPrims keys "MEAAAAAAAAAAAAAAAAAAAAAAAAA" = .ok "a" ∧
      encodeFilename echoPrims keys "a" = .ok "MEAAAAAAAAAAAAAAAAAAAAAAAA" := by
  decide +kernel

theorem encode_of_decode_iff_a :
    let keys : FilenameKeys := ⟨Block.ofBytes 32 [], Block.ofBytes 128 []⟩
    decodeFilename echoPrims keys "MEAAAAAAAAAAAAAAAAAAAAAAAAA" = .ok "a" ∧
      (encodeFilename echoPrims keys "a" = .ok "MEAAAAAAAAAAAAAAAAAAAAAAAAA" ↔
        Base32Canonical "MEAAAAAAAAAAAAAAAAAAAAAAAAA" ∧
          ∀ data, base32Decode "MEAAAAAAAAAAAAAAAAAAAAAAAAA" = .ok data →
            CanonicalCiphertext echoPrims keys data) := by
  have h : decodeFilename echoPrims ⟨Block.ofBytes 32 [], Block.ofBytes 128 []⟩ "MEAAAAAAAAAAAAAAAAAAAAAAAAA" =
      .ok "a" := by decide +kernel
  exact ⟨h, encode_of_decode_iff echoPrims _ h⟩

end names

end Pcloud
