import Pcloud.Lib.KeyStream
import Pcloud.Crypto.CompatProfile
import Pcloud.Crypto.Sector

/-!
# The modes of AES (`pclsync_modes.rs`)

The counter mode of the legacy client, and CBC with ciphertext stealing. The latter swaps the last two blocks whether
it steals or not, which the sector's own CBC does not.
-/

namespace Pcloud

open BlockChain KeyStream

/-! ## Counter mode, in place -/

section counter

variable (aes : Equiv.Perm (Block 16)) (iv : Block 16)

/-- `len` bytes of the buffer from `start` on, XORed with a block of the keystream. -/
def xorChunk (counter : UInt64) (start len : Nat) (buf : Bytes) : Bytes :=
  buf.take start ++ xorInto ((buf.drop start).take len) (ctrKeystream aes iv counter).1 ++ buf.drop (start + len)

/-- The loop over the full blocks, from block `i` on. -/
def xorFullBlocks (blockOffset : UInt64) : (n i : Nat) → Bytes → Bytes
  | 0, _, buf => buf
  | n + 1, i, buf =>
    xorFullBlocks blockOffset n (i + 1) (xorChunk aes iv (blockOffset + UInt64.ofNat i) (i * 16) 16 buf)

def aes256CtrPclsyncXorInplace (prims : Primitives) (key : Block 32) (iv : Block 16) (blockOffset : UInt64)
    (buf : Bytes) : Bytes :=
  if buf.isEmpty then buf
  else
    let fullBlocks := buf.length / 16
    let tail := buf.length % 16
    let xored := xorFullBlocks (prims.aes256 key) iv blockOffset fullBlocks 0 buf
    if tail ≠ 0 then
      xorChunk (prims.aes256 key) iv (blockOffset + UInt64.ofNat fullBlocks) (fullBlocks * 16) tail xored
    else xored

/-- The byte of the keystream at a place. -/
def ctrByte (blockOffset : UInt64) (i : Nat) : UInt8 :=
  (ctrKeystream aes iv (blockOffset + UInt64.ofNat (i / 16))).1.getD (i % 16) 0

/-! ### The loops XOR one keystream -/

theorem ctrByte_add (blockOffset : UInt64) (n i : Nat) :
    ctrByte aes iv blockOffset (n * 16 + i) = ctrByte aes iv (blockOffset + UInt64.ofNat n) i := by
  have hblock : (n * 16 + i) / 16 = n + i / 16 := by omega
  have hplace : (n * 16 + i) % 16 = i % 16 := by omega
  rw [ctrByte, ctrByte, hblock, hplace, UInt64.ofNat_add, UInt64.add_assoc]

theorem xorStream_block (blockOffset : UInt64) {chunk : Bytes} (h : chunk.length ≤ 16) :
    xorInto chunk (ctrKeystream aes iv blockOffset).1 = xorStream (ctrByte aes iv blockOffset) chunk := by
  rw [xorInto_eq_xorStream (by simpa using h)]
  refine xorStream_congr fun i hi => ?_
  rw [ctrByte, Nat.div_eq_of_lt (by omega), Nat.mod_eq_of_lt (by omega)]
  simp

theorem xorChunk_eq (counter : UInt64) {front chunk back : Bytes} (h : chunk.length ≤ 16) :
    xorChunk aes iv counter front.length chunk.length (front ++ chunk ++ back) =
      front ++ xorStream (ctrByte aes iv counter) chunk ++ back := by
  have htext : front ++ chunk ++ back = front ++ (chunk ++ back) := List.append_assoc front chunk back
  have hback : (front ++ (chunk ++ back)).drop (front.length + chunk.length) = back := by
    rw [← htext]
    exact List.drop_left' (by simp)
  rw [xorChunk, htext, List.take_left, List.drop_left, List.take_left, hback, xorStream_block aes iv _ h]

theorem xorFullBlocks_eq (blockOffset : UInt64) {n i : Nat} {front blocks : Bytes} (tail : Bytes)
    (hfront : front.length = i * 16) (hblocks : blocks.length = n * 16) :
    xorFullBlocks aes iv blockOffset n i (front ++ blocks ++ tail) =
      front ++ xorStream (ctrByte aes iv (blockOffset + UInt64.ofNat i)) blocks ++ tail := by
  induction n generalizing i front blocks with
  | zero =>
    have hnil : blocks = [] := List.eq_nil_of_length_eq_zero (by omega)
    rw [hnil]
    rfl
  | succ n ih =>
    obtain ⟨block, rest, rfl, hblock⟩ : ∃ block rest, blocks = block ++ rest ∧ block.length = 16 :=
      ⟨blocks.take 16, blocks.drop 16, (List.take_append_drop 16 blocks).symm, by rw [List.length_take]; omega⟩
    rw [List.length_append, hblock] at hblocks
    set counter := blockOffset + UInt64.ofNat i with hcounter
    have hchunk : xorChunk aes iv counter (i * 16) 16 (front ++ block ++ (rest ++ tail)) =
        front ++ xorStream (ctrByte aes iv counter) block ++ (rest ++ tail) := by
      have h := @xorChunk_eq aes iv counter front block (rest ++ tail) (Nat.le_of_eq hblock)
      rwa [hfront, hblock] at h
    have hnext : (front ++ xorStream (ctrByte aes iv counter) block).length = (i + 1) * 16 := by
      rw [List.length_append, length_xorStream, hfront, hblock]
      omega
    -- The rest of the blocks go on where this one ends.
    have hrest : ctrByte aes iv (blockOffset + UInt64.ofNat (i + 1)) =
        fun place => ctrByte aes iv counter (block.length + place) := by
      funext place
      have h := ctrByte_add aes iv counter 1 place
      rw [hblock, h, hcounter, UInt64.ofNat_add, UInt64.add_assoc]
    calc xorFullBlocks aes iv blockOffset (n + 1) i (front ++ (block ++ rest) ++ tail)
        = xorFullBlocks aes iv blockOffset n (i + 1)
            (front ++ xorStream (ctrByte aes iv counter) block ++ rest ++ tail) := by
          rw [xorFullBlocks, ← hcounter, ← List.append_assoc front, List.append_assoc _ rest tail, hchunk,
            List.append_assoc _ rest tail]
      _ = front ++ xorStream (ctrByte aes iv counter) block ++
            xorStream (ctrByte aes iv (blockOffset + UInt64.ofNat (i + 1))) rest ++ tail := by
          rw [ih hnext (by omega)]
      _ = front ++ xorStream (ctrByte aes iv counter) (block ++ rest) ++ tail := by
          rw [hrest, xorStream_append, List.append_assoc front]

theorem ctrBlocks_eq_xorStream {n : Nat} {counter : UInt64} {buf : Bytes} (h : buf.length ≤ n * 16) :
    ctrBlocks aes iv n counter buf = xorStream (ctrByte aes iv counter) buf := by
  induction n generalizing counter buf with
  | zero =>
    have hnil : buf = [] := List.eq_nil_of_length_eq_zero (by omega)
    rw [hnil]
    rfl
  | succ n ih =>
    have hrest : (buf.drop 16).length ≤ n * 16 := by
      rw [List.length_drop]
      omega
    have hblock : (buf.take 16).length ≤ 16 := List.length_take_le 16 buf
    conv_rhs => rw [← List.take_append_drop 16 buf, xorStream_append]
    rw [ctrBlocks, ih hrest, xorStream_block aes iv counter hblock]
    by_cases hfull : 16 ≤ buf.length
    · congr 2
      funext place
      have h := ctrByte_add aes iv counter 1 place
      have hone : UInt64.ofNat 1 = 1 := rfl
      rw [List.length_take_of_le hfull, h, hone]
    · rw [List.drop_eq_nil_of_le (by omega), xorStream_nil, xorStream_nil]

theorem aes256CtrPclsyncXorInplace_eq (prims : Primitives) (key : Block 32) (blockOffset : UInt64) (buf : Bytes) :
    aes256CtrPclsyncXorInplace prims key iv blockOffset buf =
      xorStream (ctrByte (prims.aes256 key) iv blockOffset) buf := by
  obtain ⟨blocks, tail, rfl, hblocks⟩ :
      ∃ blocks tail, buf = blocks ++ tail ∧ blocks.length = buf.length / 16 * 16 :=
    ⟨buf.take (buf.length / 16 * 16), buf.drop (buf.length / 16 * 16), (List.take_append_drop _ buf).symm,
      List.length_take_of_le (Nat.div_mul_le_self buf.length 16)⟩
  have htail : tail.length = (blocks ++ tail).length % 16 := by
    rw [List.length_append] at hblocks ⊢
    omega
  have hxored : xorFullBlocks (prims.aes256 key) iv blockOffset ((blocks ++ tail).length / 16) 0 (blocks ++ tail) =
      xorStream (ctrByte (prims.aes256 key) iv blockOffset) blocks ++ tail := by
    have h := @xorFullBlocks_eq (prims.aes256 key) iv blockOffset _ 0 [] blocks tail rfl hblocks
    have hstart : blockOffset + UInt64.ofNat 0 = blockOffset := UInt64.add_zero blockOffset
    rwa [List.nil_append, List.nil_append, hstart] at h
  have hlast : xorChunk (prims.aes256 key) iv (blockOffset + UInt64.ofNat ((blocks ++ tail).length / 16))
      ((blocks ++ tail).length / 16 * 16) tail.length
      (xorStream (ctrByte (prims.aes256 key) iv blockOffset) blocks ++ tail) =
        xorStream (ctrByte (prims.aes256 key) iv blockOffset) (blocks ++ tail) := by
    have hshort : tail.length ≤ 16 := by omega
    have h := @xorChunk_eq (prims.aes256 key) iv (blockOffset + UInt64.ofNat ((blocks ++ tail).length / 16))
      (xorStream (ctrByte (prims.aes256 key) iv blockOffset) blocks) tail [] hshort
    have hmoved : ctrByte (prims.aes256 key) iv (blockOffset + UInt64.ofNat ((blocks ++ tail).length / 16)) =
        fun place => ctrByte (prims.aes256 key) iv blockOffset (blocks.length + place) := by
      funext place
      rw [← ctrByte_add, ← hblocks]
    rwa [List.append_nil, List.append_nil, length_xorStream, hblocks, hmoved, ← xorStream_append] at h
  rw [aes256CtrPclsyncXorInplace]
  by_cases hempty : (blocks ++ tail).isEmpty = true
  · rw [if_pos hempty, List.isEmpty_iff.mp hempty]
    rfl
  · rw [if_neg hempty]
    simp only [hxored, ← htail, hlast]
    by_cases hzero : tail.length ≠ 0
    · rw [if_pos hzero]
    · have hnil : tail = [] := List.eq_nil_of_length_eq_zero (not_not.mp hzero)
      rw [if_neg hzero, hnil, List.append_nil, List.append_nil]

theorem aes256CtrPclsyncXor_eq_inplace (prims : Primitives) (key : Block 32) (blockOffset : UInt64) (buf : Bytes) :
    aes256CtrPclsyncXor prims key iv blockOffset buf = aes256CtrPclsyncXorInplace prims key iv blockOffset buf := by
  have hroom : buf.length ≤ (buf.length / 16 + if buf.length % 16 ≠ 0 then 1 else 0) * 16 := by
    split <;> omega
  rw [aes256CtrPclsyncXorInplace_eq]
  exact ctrBlocks_eq_xorStream _ iv hroom

theorem aes256CtrPclsyncXorInplace_seekable (prims : Primitives) (key : Block 32) (blockOffset : UInt64) :
    (∀ buf, aes256CtrPclsyncXorInplace prims key iv blockOffset
        (aes256CtrPclsyncXorInplace prims key iv blockOffset buf) = buf) ∧
      ∀ a b : Bytes, a.length % 16 = 0 →
        aes256CtrPclsyncXorInplace prims key iv blockOffset (a ++ b) =
          aes256CtrPclsyncXorInplace prims key iv blockOffset a ++
            aes256CtrPclsyncXorInplace prims key iv (blockOffset + UInt64.ofNat (a.length / 16)) b := by
  simp only [aes256CtrPclsyncXorInplace_eq]
  refine ⟨fun buf => xorStream_xorStream _ buf, fun a b hwhole => ?_⟩
  have hblocks : a.length = a.length / 16 * 16 := by omega
  rw [xorStream_append]
  congr 2
  funext place
  rw [hblocks, ctrByte_add, ← hblocks]

/-- The counter ends between the two halves. -/
theorem aes256CtrPclsyncXorInplace_seekable_wrap :
    (∀ buf, aes256CtrPclsyncXorInplace echoPrims (Block.ofBytes 32 []) (Block.ofBytes 16 []) 0xFFFFFFFFFFFFFFFF
        (aes256CtrPclsyncXorInplace echoPrims (Block.ofBytes 32 []) (Block.ofBytes 16 []) 0xFFFFFFFFFFFFFFFF buf) =
          buf) ∧
      aes256CtrPclsyncXorInplace echoPrims (Block.ofBytes 32 []) (Block.ofBytes 16 []) 0xFFFFFFFFFFFFFFFF
          (List.replicate 16 7 ++ [1, 2, 3]) =
        aes256CtrPclsyncXorInplace echoPrims (Block.ofBytes 32 []) (Block.ofBytes 16 []) 0xFFFFFFFFFFFFFFFF
            (List.replicate 16 7) ++
          aes256CtrPclsyncXorInplace echoPrims (Block.ofBytes 32 []) (Block.ofBytes 16 [])
            (0xFFFFFFFFFFFFFFFF + UInt64.ofNat 1) [1, 2, 3] :=
  have h := aes256CtrPclsyncXorInplace_seekable (Block.ofBytes 16 []) echoPrims (Block.ofBytes 32 []) 0xFFFFFFFFFFFFFFFF
  ⟨h.1, h.2 (List.replicate 16 7) [1, 2, 3] rfl⟩

end counter

/-! ## CBC with ciphertext stealing -/

inductive ModesError
  | inputTooShort (len : Nat)
  deriving DecidableEq

/-- The last two of the blocks change places, where there are two. -/
def swapLastTwo (blocks : Nat) (out : Bytes) : Bytes :=
  if blocks ≥ 2 then
    let left := out.take ((blocks - 2) * 16)
    let lastTwo := out.drop ((blocks - 2) * 16)
    left ++ lastTwo.drop 16 ++ lastTwo.take 16
  else out

def aes256CbcCtsEncrypt (prims : Primitives) (key : Block 32) (iv : Block 16) (plaintext : Bytes) :
    Except ModesError Bytes :=
  let aes := prims.aes256 key
  let n := plaintext.length
  if n < 16 then .error (.inputTooShort n)
  else if n % 16 = 0 then .ok (swapLastTwo (n / 16) (chainEncrypt aes (n / 16) iv plaintext).1)
  else
    let r := n % 16
    let fullPrefixBlocks := (n - 16 - r) / 16
    let tailOffset := fullPrefixBlocks * 16
    let (out, prev) := chainEncrypt aes fullPrefixBlocks iv plaintext
    let pPen := Block.ofBytes 16 (plaintext.drop tailOffset)
    let pLast := plaintext.drop (tailOffset + 16)
    let cPenRaw := aes (pPen.mask prev.1)
    let cLastFull := aes ((Block.ofBytes 16 pLast).mask cPenRaw.1)
    .ok (out ++ cLastFull.1 ++ cPenRaw.1.take r)

def aes256CbcCtsDecrypt (prims : Primitives) (key : Block 32) (iv : Block 16) (ciphertext : Bytes) :
    Except ModesError Bytes :=
  let aes := prims.aes256 key
  let n := ciphertext.length
  if n < 16 then .error (.inputTooShort n)
  else if n % 16 = 0 then .ok (chainDecrypt aes (n / 16) iv (swapLastTwo (n / 16) ciphertext)).1
  else
    let r := n % 16
    let fullPrefixBlocks := (n - 16 - r) / 16
    let tailOffset := fullPrefixBlocks * 16
    let (out, prev) := chainDecrypt aes fullPrefixBlocks iv ciphertext
    let cLastFull := Block.ofBytes 16 (ciphertext.drop tailOffset)
    let cPenPrefix := ciphertext.drop (tailOffset + 16)
    let decLast := aes.symm cLastFull
    let cPenRaw := Block.ofBytes 16 (cPenPrefix ++ decLast.1.drop r)
    let pLast := xorInto (decLast.1.take r) cPenRaw.1
    let decPen := aes.symm cPenRaw
    .ok (out ++ (decPen.mask prev.1).1 ++ pLast)

/-! ### The order of the last two blocks -/

/-- A text of whole blocks with its last two swapped. -/
def ctsOrder (text : Bytes) : Bytes :=
  if text.length % 16 = 0 then swapLastTwo (text.length / 16) text else text

theorem last_two_blocks {text : Bytes} {n : Nat} (h : text.length = (n + 2) * 16) :
    ∃ left, ∃ pen last : Block 16, text = left ++ pen.1 ++ last.1 ∧ left.length = n * 16 := by
  have hpen : (Block.ofBytes 16 (text.drop (n * 16))).1 = (text.drop (n * 16)).take 16 :=
    Block.ofBytes_val (by rw [List.length_drop]; omega)
  have hlast : (Block.ofBytes 16 (text.drop (n * 16 + 16))).1 = text.drop (n * 16 + 16) := by
    rw [Block.ofBytes_val (by rw [List.length_drop]; omega), List.take_of_length_le (by rw [List.length_drop]; omega)]
  refine ⟨text.take (n * 16), Block.ofBytes 16 (text.drop (n * 16)), Block.ofBytes 16 (text.drop (n * 16 + 16)),
    ?_, ?_⟩
  · rw [hpen, hlast, List.append_assoc, ← List.drop_drop, List.take_append_drop, List.take_append_drop]
  · exact List.length_take_of_le (by omega)

theorem swapLastTwo_append {n : Nat} {left : Bytes} (pen last : Block 16) (h : left.length = n * 16) :
    swapLastTwo (n + 2) (left ++ pen.1 ++ last.1) = left ++ last.1 ++ pen.1 := by
  have hsub : n + 2 - 2 = n := rfl
  rw [swapLastTwo, if_pos (by omega), hsub]
  simp only [List.append_assoc, List.take_left' h, List.drop_left' h, List.drop_left' pen.length_val,
    List.take_left' pen.length_val]

theorem ctsOrder_append {n : Nat} {left : Bytes} (pen last : Block 16) (h : left.length = n * 16) :
    ctsOrder (left ++ pen.1 ++ last.1) = left ++ last.1 ++ pen.1 := by
  have hlen : (left ++ pen.1 ++ last.1).length = (n + 2) * 16 := by
    simp only [List.length_append, h, Block.length_val]
    omega
  rw [ctsOrder, hlen, Nat.mul_mod_left, if_pos rfl, Nat.mul_div_cancel _ (by decide), swapLastTwo_append pen last h]

theorem ctsOrder_ragged {text : Bytes} (h : text.length % 16 ≠ 0) : ctsOrder text = text := by
  rw [ctsOrder, if_neg h]

theorem ctsOrder_short {text : Bytes} (h : text.length < 32) : ctsOrder text = text := by
  rw [ctsOrder]
  split
  · rw [swapLastTwo, if_neg (by omega)]
  · rfl

theorem text_ends (text : Bytes) :
    ctsOrder text = text ∨
      ∃ n, ∃ left, ∃ pen last : Block 16, text = left ++ pen.1 ++ last.1 ∧ left.length = n * 16 := by
  by_cases hragged : text.length % 16 ≠ 0
  · exact .inl (ctsOrder_ragged hragged)
  · by_cases hshort : text.length < 32
    · exact .inl (ctsOrder_short hshort)
    · have hlen : text.length = (text.length / 16 - 2 + 2) * 16 := by omega
      obtain ⟨left, pen, last, htext, hleft⟩ := last_two_blocks hlen
      exact .inr ⟨_, left, pen, last, htext, hleft⟩

@[simp]
theorem length_ctsOrder (text : Bytes) : (ctsOrder text).length = text.length := by
  rcases text_ends text with hsame | ⟨n, left, pen, last, rfl, hleft⟩
  · rw [hsame]
  · rw [ctsOrder_append pen last hleft]
    simp

@[simp]
theorem ctsOrder_ctsOrder (text : Bytes) : ctsOrder (ctsOrder text) = text := by
  rcases text_ends text with hsame | ⟨n, left, pen, last, rfl, hleft⟩
  · rw [hsame, hsame]
  · rw [ctsOrder_append pen last hleft, ctsOrder_append last pen hleft]

/-! ### The mode is the sector's CBC in that order -/

section cts

variable (prims : Primitives) (key : Block 32) (iv : Block 16)

theorem ragged_parts {n : Nat} {front tail : Bytes} (pen : Block 16) (hfront : front.length = n * 16)
    (hpos : 0 < tail.length) (hlt : tail.length < 16) :
    (front ++ pen.1 ++ tail).length % 16 = tail.length ∧
      ((front ++ pen.1 ++ tail).length - 16 - tail.length) / 16 = n ∧
      Block.ofBytes 16 ((front ++ pen.1 ++ tail).drop (n * 16)) = pen ∧
      (front ++ pen.1 ++ tail).drop (n * 16 + 16) = tail := by
  have hlen : (front ++ pen.1 ++ tail).length = n * 16 + 16 + tail.length := by
    simp only [List.length_append, hfront, Block.length_val]
  refine ⟨by omega, by omega, ?_, ?_⟩
  · rw [List.append_assoc, List.drop_left' hfront, Block.ofBytes_append]
  · exact List.drop_left' (by rw [List.length_append, hfront, Block.length_val])

theorem aes256CbcCtsEncrypt_eq {plaintext : Bytes} (h : 16 ≤ plaintext.length) :
    aes256CbcCtsEncrypt prims key iv plaintext = .ok (ctsOrder (cbcCsEncrypt (prims.aes256 key) iv plaintext)) := by
  have hlong : ¬ plaintext.length < 16 := by omega
  have hlen : (cbcCsEncrypt (prims.aes256 key) iv plaintext).length = plaintext.length :=
    (encrypt_undone (prims.aes256 key)).length_pass (by decide) iv h
  rcases text_cases (by decide) h with ⟨n, hn⟩ | ⟨n, front, pen, tail, rfl, hfront, hpos, hlt⟩
  · have hwhole : plaintext.length % 16 = 0 := by omega
    have hdiv : plaintext.length / 16 = n := by omega
    rw [ctsOrder, hlen, aes256CbcCtsEncrypt]
    simp only [if_neg hlong, hwhole, if_true, hdiv]
    rw [cbcCsEncrypt, pass_full iv (by decide) hn]
  · obtain ⟨hmod, hdiv, hpen, htail⟩ := ragged_parts pen hfront hpos hlt
    have hragged : ¬ tail.length = 0 := by omega
    rw [ctsOrder_ragged (by rw [hlen, hmod]; exact hragged), aes256CbcCtsEncrypt]
    simp only [if_neg hlong, hmod, if_neg hragged, hdiv, hpen, htail]
    rw [cbcCsEncrypt, pass_ragged iv pen hfront hpos hlt, stealEncrypt]
    simp only [pen.mask_comm, Block.ofBytes_mask _ (Nat.le_of_lt hlt)]

theorem aes256CbcCtsDecrypt_eq {ciphertext : Bytes} (h : 16 ≤ ciphertext.length) :
    aes256CbcCtsDecrypt prims key iv ciphertext = .ok (cbcCsDecrypt (prims.aes256 key) iv (ctsOrder ciphertext)) := by
  have hlong : ¬ ciphertext.length < 16 := by omega
  rcases text_cases (by decide) h with ⟨n, hn⟩ | ⟨n, front, pen, tail, rfl, hfront, hpos, hlt⟩
  · have hwhole : ciphertext.length % 16 = 0 := by omega
    have hdiv : ciphertext.length / 16 = n := by omega
    have hswap : swapLastTwo n ciphertext = ctsOrder ciphertext := by rw [ctsOrder, if_pos hwhole, hdiv]
    have hn' : (ctsOrder ciphertext).length = n * 16 := by rwa [length_ctsOrder]
    rw [aes256CbcCtsDecrypt]
    simp only [if_neg hlong, hwhole, if_true, hdiv, hswap]
    rw [cbcCsDecrypt, pass_full iv (by decide) hn']
  · obtain ⟨hmod, hdiv, hlast, hstolen⟩ := ragged_parts pen hfront hpos hlt
    have hragged : ¬ tail.length = 0 := by omega
    -- The stolen bytes are the front of the block they were taken from.
    have hmask : ∀ block : Block 16, xorInto (block.1.take tail.length)
        (Block.ofBytes 16 (tail ++ block.1.drop tail.length)).1 = xorInto (block.1.take tail.length) tail := by
      intro block
      rw [block.replaced_val (Nat.le_of_lt hlt)]
      exact xorInto_append_right _ (Nat.le_of_eq (block.length_take (Nat.le_of_lt hlt)))
    rw [ctsOrder_ragged (by rw [hmod]; exact hragged), aes256CbcCtsDecrypt]
    simp only [if_neg hlong, hmod, if_neg hragged, hdiv, hlast, hstolen, hmask]
    rw [cbcCsDecrypt, pass_ragged iv pen hfront hpos hlt, stealDecrypt]

/-- Encryption and decryption undo each other, and keep the length. -/
theorem aes256CbcCts_round_trip :
    (∀ p : Bytes, 16 ≤ p.length →
      ∃ c, aes256CbcCtsEncrypt prims key iv p = .ok c ∧ c.length = p.length ∧
        aes256CbcCtsDecrypt prims key iv c = .ok p) ∧
      ∀ c : Bytes, 16 ≤ c.length →
        ∃ p, aes256CbcCtsDecrypt prims key iv c = .ok p ∧ p.length = c.length ∧
          aes256CbcCtsEncrypt prims key iv p = .ok c := by
  have hencrypt := encrypt_undone (prims.aes256 key)
  have hdecrypt := decrypt_undone (prims.aes256 key)
  constructor
  · intro p hp
    have hlen : (ctsOrder (cbcCsEncrypt (prims.aes256 key) iv p)).length = p.length := by
      rw [length_ctsOrder]
      exact hencrypt.length_pass (by decide) iv hp
    refine ⟨_, aes256CbcCtsEncrypt_eq prims key iv hp, hlen, ?_⟩
    rw [aes256CbcCtsDecrypt_eq prims key iv (hlen.symm ▸ hp), ctsOrder_ctsOrder]
    exact congrArg _ (hencrypt.pass_pass (by decide) iv hp)
  · intro c hc
    have hc' : 16 ≤ (ctsOrder c).length := by rwa [length_ctsOrder]
    have hlen : (cbcCsDecrypt (prims.aes256 key) iv (ctsOrder c)).length = c.length := by
      rw [← length_ctsOrder c]
      exact hdecrypt.length_pass (by decide) iv hc'
    refine ⟨_, aes256CbcCtsDecrypt_eq prims key iv hc, hlen, ?_⟩
    have hpass : cbcCsEncrypt (prims.aes256 key) iv (cbcCsDecrypt (prims.aes256 key) iv (ctsOrder c)) = ctsOrder c :=
      hdecrypt.pass_pass (by decide) iv hc'
    rw [aes256CbcCtsEncrypt_eq prims key iv (hlen.symm ▸ hc), hpass, ctsOrder_ctsOrder]

/-- A ragged text and one of whole blocks. -/
theorem aes256CbcCts_round_trip_echo :
    (∃ c, aes256CbcCtsEncrypt echoPrims (Block.ofBytes 32 []) (Block.ofBytes 16 []) (List.replicate 20 7) = .ok c ∧
        c.length = 20 ∧
        aes256CbcCtsDecrypt echoPrims (Block.ofBytes 32 []) (Block.ofBytes 16 []) c = .ok (List.replicate 20 7)) ∧
      ∃ p, aes256CbcCtsDecrypt echoPrims (Block.ofBytes 32 []) (Block.ofBytes 16 []) (List.replicate 32 7) = .ok p ∧
        p.length = 32 ∧
        aes256CbcCtsEncrypt echoPrims (Block.ofBytes 32 []) (Block.ofBytes 16 []) p = .ok (List.replicate 32 7) :=
  have h := aes256CbcCts_round_trip echoPrims (Block.ofBytes 32 []) (Block.ofBytes 16 [])
  ⟨h.1 (List.replicate 20 7) (by decide), h.2 (List.replicate 32 7) (by decide)⟩

/-! ### Where the two modules agree -/

/-- The block that goes into the cipher at place `i` of a chain. -/
def cipherInput (aes : Equiv.Perm (Block 16)) (text : Bytes) : Nat → Block 16
  | 0 => (Block.ofBytes 16 text).mask iv.1
  | i + 1 => (Block.ofBytes 16 (text.drop ((i + 1) * 16))).mask (aes (cipherInput aes text i)).1

theorem chainEncrypt_cipherInput (aes : Equiv.Perm (Block 16)) (n : Nat) (text : Bytes) :
    chainEncrypt aes (n + 1) iv text =
      ((chainEncrypt aes n iv text).1 ++ (aes (cipherInput iv aes text n)).1, aes (cipherInput iv aes text n)) := by
  induction n with
  | zero => simp [chainEncrypt, cipherInput]
  | succ n ih => rw [chainEncrypt_concat, ih, cipherInput]

theorem ctsOrder_eq_self_iff {n : Nat} {left : Bytes} (pen last : Block 16) (h : left.length = n * 16) :
    ctsOrder (left ++ pen.1 ++ last.1) = left ++ pen.1 ++ last.1 ↔ last = pen := by
  rw [ctsOrder_append pen last h]
  constructor
  · intro hsame
    rw [List.append_assoc, List.append_assoc] at hsame
    have hswapped := List.append_cancel_left hsame
    exact Subtype.ext (List.append_inj_left hswapped (by simp))
  · rintro rfl
    rfl

/-- The two modules write the same ciphertext just for a text that ends in a part of a block, for one of a single
block, and for one whose last two blocks are the same going into the cipher. -/
theorem aes256CbcCtsEncrypt_eq_cbcCs_iff {p : Bytes} (h : 16 ≤ p.length) :
    aes256CbcCtsEncrypt prims key iv p = .ok (cbcCsEncrypt (prims.aes256 key) iv p) ↔
      p.length % 16 ≠ 0 ∨ p.length = 16 ∨
        cipherInput iv (prims.aes256 key) p (p.length / 16 - 1) =
          cipherInput iv (prims.aes256 key) p (p.length / 16 - 2) := by
  have hlen : (cbcCsEncrypt (prims.aes256 key) iv p).length = p.length :=
    (encrypt_undone (prims.aes256 key)).length_pass (by decide) iv h
  rw [aes256CbcCtsEncrypt_eq prims key iv h, Except.ok.injEq]
  by_cases hragged : p.length % 16 ≠ 0
  · exact iff_of_true (ctsOrder_ragged (by rwa [hlen])) (.inl hragged)
  · by_cases hone : p.length = 16
    · exact iff_of_true (ctsOrder_short (by rw [hlen]; omega)) (.inr (.inl hone))
    · obtain ⟨n, hn⟩ : ∃ n, p.length = (n + 2) * 16 := ⟨p.length / 16 - 2, by omega⟩
      have hlast : p.length / 16 - 1 = n + 1 := by omega
      have hpen : p.length / 16 - 2 = n := by omega
      rw [cbcCsEncrypt, pass_full iv (by decide) hn, chainEncrypt_cipherInput, chainEncrypt_cipherInput,
        ctsOrder_eq_self_iff _ _ (length_chainEncrypt n iv p), hlast, hpen, EmbeddingLike.apply_eq_iff_eq]
      constructor
      · exact fun hsame => .inr (.inr hsame)
      · rintro (hbad | hbad | hsame)
        · exact absurd hbad hragged
        · exact absurd hbad hone
        · exact hsame

/-- What AES-256 gives for a block of zeros under a key of zeros. -/
def zeroKeyMask : Bytes :=
  [0xdc, 0x95, 0xc0, 0x78, 0xa2, 0x40, 0x89, 0x89, 0xad, 0x48, 0xa2, 0x14, 0x92, 0x84, 0x20, 0x87]

/-- A cipher that is right on that block. -/
def zeroKeyPrims : Primitives where
  aes256 _ :=
    { toFun := fun block => block.mask zeroKeyMask
      invFun := fun block => block.mask zeroKeyMask
      left_inv := fun block => block.mask_mask zeroKeyMask
      right_inv := fun block => block.mask_mask zeroKeyMask }
  hmac _ data := Block.ofBytes 64 data

/-- Two blocks of zeros. -/
theorem aes256CbcCtsEncrypt_ne_cbcCs :
    aes256CbcCtsEncrypt zeroKeyPrims (Block.ofBytes 32 []) (Block.ofBytes 16 []) (List.replicate 32 0) ≠
      .ok (cbcCsEncrypt (zeroKeyPrims.aes256 (Block.ofBytes 32 [])) (Block.ofBytes 16 []) (List.replicate 32 0)) := by
  decide +kernel

theorem aes256CbcCtsEncrypt_eq_cbcCs_iff_zeros :
    aes256CbcCtsEncrypt zeroKeyPrims (Block.ofBytes 32 []) (Block.ofBytes 16 []) (List.replicate 16 0) =
        .ok (cbcCsEncrypt (zeroKeyPrims.aes256 (Block.ofBytes 32 [])) (Block.ofBytes 16 []) (List.replicate 16 0)) :=
  (aes256CbcCtsEncrypt_eq_cbcCs_iff zeroKeyPrims (Block.ofBytes 32 []) (Block.ofBytes 16 [])
    (show 16 ≤ (List.replicate 16 0).length by decide)).mpr (.inr (.inl rfl))

end cts

end Pcloud
