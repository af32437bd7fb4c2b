import Mathlib.Data.List.TakeDrop
import Mathlib.Logic.Equiv.Defs

/-!
# Cipher block chaining with ciphertext stealing

A permutation of the blocks of `k` bytes is run along a text: every block is masked with the
ciphertext block before it. A text that is not a multiple of `k` ends in a steal, which keeps
the ciphertext as long as the text. Both are undone by the inverse permutation.
-/

namespace BlockChain

/-! ## Masking -/

/-- `dst` with its first bytes XORed with `src`. The bytes past `src` stay. -/
def xorInto : List UInt8 → List UInt8 → List UInt8
  | d :: dst, s :: src => (d ^^^ s) :: xorInto dst src
  | [], _ => []
  | dst, [] => dst

attribute [local simp] xorInto in
@[simp]
theorem xorInto_nil (dst : List UInt8) : xorInto dst [] = dst := by
  cases dst <;> simp

@[simp]
theorem length_xorInto (dst src : List UInt8) : (xorInto dst src).length = dst.length := by
  fun_induction xorInto dst src with
  | case1 d dst s src ih => simp [ih]
  | case2 src => rfl
  | case3 dst h => rfl

theorem xorInto_xorInto (dst src : List UInt8) : xorInto (xorInto dst src) src = dst := by
  fun_induction xorInto dst src with
  | case1 d dst s src ih =>
    rw [xorInto, UInt8.xor_assoc, UInt8.xor_self, UInt8.xor_zero, ih]
  | case2 src => rfl
  | case3 dst h => exact xorInto_nil dst

theorem xorInto_self (bytes : List UInt8) : xorInto bytes bytes = List.replicate bytes.length 0 := by
  induction bytes with
  | nil => rfl
  | cons byte bytes ih => rw [xorInto, UInt8.xor_self, ih, List.length_cons, List.replicate_succ]

theorem xorInto_comm {a b : List UInt8} (h : a.length = b.length) : xorInto a b = xorInto b a := by
  induction a generalizing b with
  | nil =>
    have hb : b = [] := List.eq_nil_of_length_eq_zero h.symm
    simp [hb]
  | cons x a ih =>
    obtain ⟨y, b, rfl⟩ := List.exists_cons_of_length_eq_add_one h.symm
    have hab : a.length = b.length := by simpa using h
    simp [xorInto, ih hab, UInt8.xor_comm x y]

theorem xorInto_cancel {a b : List UInt8} (h : a.length = b.length) :
    xorInto (xorInto a b) a = b := by
  rw [xorInto_comm h]
  exact xorInto_xorInto b a

theorem xorInto_cancel_left {a b : List UInt8} (h : a.length = b.length) :
    xorInto a (xorInto b a) = b := by
  rw [xorInto_comm (by simpa using h)]
  exact xorInto_xorInto b a

theorem xorInto_append (a c : List UInt8) {b : List UInt8} (h : a.length = b.length) :
    xorInto (a ++ c) b = xorInto a b ++ c := by
  induction a generalizing b with
  | nil =>
    have hb : b = [] := List.eq_nil_of_length_eq_zero h.symm
    simp [hb]
  | cons x a ih =>
    obtain ⟨y, b, rfl⟩ := List.exists_cons_of_length_eq_add_one h.symm
    have hab : a.length = b.length := by simpa using h
    simp [xorInto, ih hab]

theorem xorInto_append_right {a b : List UInt8} (c : List UInt8) (h : a.length ≤ b.length) :
    xorInto a (b ++ c) = xorInto a b := by
  induction a generalizing b with
  | nil => rfl
  | cons x a ih =>
    cases b with
    | nil => simp at h
    | cons y b =>
      have hab : a.length ≤ b.length := by simpa using h
      rw [List.cons_append, xorInto, xorInto, ih hab]

theorem xorInto_takeD {text key : List UInt8} (h : text.length ≤ key.length) :
    xorInto (text.takeD key.length 0) key = xorInto key text := by
  induction key generalizing text with
  | nil =>
    have htext : text = [] := List.eq_nil_of_length_eq_zero (by simpa using h)
    rw [htext]
    rfl
  | cons k key ih =>
    cases text with
    | nil =>
      have hrest := @ih [] (Nat.zero_le key.length)
      rw [xorInto_nil] at hrest
      simp only [List.length_cons, List.takeD_succ, List.head?_nil, Option.getD_none, List.tail_nil, xorInto,
        UInt8.zero_xor, hrest]
    | cons byte text =>
      have htail : text.length ≤ key.length := by simpa using h
      simp only [List.length_cons, List.takeD_succ, List.head?_cons, Option.getD_some, List.tail_cons, xorInto,
        ih htail, UInt8.xor_comm byte k]

theorem xorInto_split {dst src : List UInt8} (h : src.length ≤ dst.length) :
    xorInto dst src = xorInto (dst.take src.length) src ++ dst.drop src.length := by
  conv_lhs => rw [← List.take_append_drop src.length dst]
  apply xorInto_append
  exact List.length_take_of_le h

theorem take_xorInto {dst src : List UInt8} (h : src.length ≤ dst.length) :
    (xorInto dst src).take src.length = xorInto (dst.take src.length) src := by
  rw [xorInto_split h]
  apply List.take_left'
  rw [length_xorInto, List.length_take_of_le h]

theorem drop_xorInto {dst src : List UInt8} (h : src.length ≤ dst.length) :
    (xorInto dst src).drop src.length = dst.drop src.length := by
  rw [xorInto_split h]
  apply List.drop_left'
  rw [length_xorInto, List.length_take_of_le h]

/-! ## Blocks -/

abbrev Block (k : Nat) := {bytes : List UInt8 // bytes.length = k}

variable {k : Nat}

@[simp]
theorem Block.length_val (block : Block k) : block.1.length = k := block.2

/-- The first `k` bytes, copied into a zeroed block. -/
def Block.ofBytes (k : Nat) (bytes : List UInt8) : Block k :=
  ⟨bytes.takeD k 0, List.takeD_length k bytes 0⟩

def Block.mask (block : Block k) (src : List UInt8) : Block k :=
  ⟨xorInto block.1 src, by simp [block.2]⟩

theorem Block.ofBytes_append (block : Block k) (rest : List UInt8) :
    Block.ofBytes k (block.1 ++ rest) = block := by
  apply Subtype.ext
  exact List.takeD_left' block.2

@[simp]
theorem Block.ofBytes_self (block : Block k) : Block.ofBytes k block.1 = block := by
  have h := Block.ofBytes_append block []
  rwa [List.append_nil] at h

theorem Block.ofBytes_val {bytes : List UInt8} (h : k ≤ bytes.length) :
    (Block.ofBytes k bytes).1 = bytes.take k := List.takeD_eq_take 0 h

@[simp]
theorem Block.mask_mask (block : Block k) (src : List UInt8) : (block.mask src).mask src = block := by
  apply Subtype.ext
  exact xorInto_xorInto block.1 src

theorem Block.mask_comm (a b : Block k) : a.mask b.1 = b.mask a.1 := by
  apply Subtype.ext
  exact xorInto_comm (a.2.trans b.2.symm)

theorem Block.ofBytes_mask (block : Block k) {text : List UInt8} (h : text.length ≤ k) :
    (Block.ofBytes k text).mask block.1 = block.mask text := by
  have hmask := xorInto_takeD (show text.length ≤ block.1.length by rwa [block.length_val])
  rw [block.length_val] at hmask
  apply Subtype.ext
  exact hmask

theorem Block.mask_cancel (a b : Block k) : (a.mask b.1).mask a.1 = b := by
  apply Subtype.ext
  exact xorInto_cancel (a.2.trans b.2.symm)

theorem Block.mask_eq_zero (a b : Block k) : (a.mask b.1).1 = List.replicate k 0 ↔ a = b := by
  have hself : (b.mask b.1).1 = List.replicate k 0 := by
    have h := xorInto_self b.1
    rwa [b.length_val] at h
  constructor
  · intro h
    have hsame : a.mask b.1 = b.mask b.1 := Subtype.ext (h.trans hself.symm)
    rw [← a.mask_mask b.1, hsame, b.mask_mask]
  · rintro rfl
    exact hself

theorem Block.mask_cancel_left (a b : Block k) : a.mask (b.mask a.1).1 = b := by
  apply Subtype.ext
  exact xorInto_cancel_left (a.2.trans b.2.symm)

/-! ## The front of a block

A block whose front is masked with a text, or replaced by it, is enough to get both back.
-/

section front

variable (block : Block k) {text : List UInt8} (h : text.length ≤ k)
include h

theorem Block.length_take : (block.1.take text.length).length = text.length := by
  rw [List.length_take, block.length_val]
  omega

theorem Block.unmask_front :
    xorInto ((block.mask text).1.take text.length) (block.1.take text.length) = text := by
  have htake : (block.mask text).1.take text.length = xorInto (block.1.take text.length) text :=
    take_xorInto (by simpa using h)
  rw [htake]
  exact xorInto_cancel (block.length_take h)

theorem Block.unmask_rest :
    Block.ofBytes k (block.1.take text.length ++ (block.mask text).1.drop text.length) = block := by
  have hdrop : (block.mask text).1.drop text.length = block.1.drop text.length :=
    drop_xorInto (by simpa using h)
  rw [hdrop, List.take_append_drop, Block.ofBytes_self]

theorem Block.replaced_val :
    (Block.ofBytes k (text ++ block.1.drop text.length)).1 = text ++ block.1.drop text.length := by
  have hlen : (text ++ block.1.drop text.length).length = k := by
    simp only [List.length_append, List.length_drop, Block.length_val]
    omega
  rw [Block.ofBytes_val (by omega), List.take_of_length_le (by omega)]

theorem Block.mask_replaced :
    (Block.ofBytes k (text ++ block.1.drop text.length)).mask
      (xorInto (block.1.take text.length) text) = block := by
  have hlen := block.length_take h
  apply Subtype.ext
  calc xorInto (Block.ofBytes k (text ++ block.1.drop text.length)).1
        (xorInto (block.1.take text.length) text)
      = xorInto text (xorInto (block.1.take text.length) text) ++ block.1.drop text.length := by
        rw [block.replaced_val h]
        apply xorInto_append
        rw [length_xorInto, hlen]
    _ = block.1.take text.length ++ block.1.drop text.length := by
        rw [xorInto_cancel_left hlen.symm]
    _ = block.1 := List.take_append_drop _ _

end front

/-! ## The chain -/

/-- The first `n` blocks of a text, and the last ciphertext block (`prev` where `n` is 0). -/
def chainEncrypt (e : Equiv.Perm (Block k)) : Nat → Block k → List UInt8 → List UInt8 × Block k
  | 0, prev, _ => ([], prev)
  | n + 1, prev, text =>
    let block := e ((Block.ofBytes k text).mask prev.1)
    let (out, last) := chainEncrypt e n block (text.drop k)
    (block.1 ++ out, last)

def chainDecrypt (e : Equiv.Perm (Block k)) : Nat → Block k → List UInt8 → List UInt8 × Block k
  | 0, prev, _ => ([], prev)
  | n + 1, prev, text =>
    let saved := Block.ofBytes k text
    let block := (e.symm saved).mask prev.1
    let (out, last) := chainDecrypt e n saved (text.drop k)
    (block.1 ++ out, last)

variable {e : Equiv.Perm (Block k)}

attribute [local simp] chainEncrypt in
@[simp]
theorem length_chainEncrypt (n : Nat) (prev : Block k) (text : List UInt8) :
    (chainEncrypt e n prev text).1.length = n * k := by
  induction n generalizing prev text with
  | zero => simp
  | succ n ih =>
    simp only [chainEncrypt, List.length_append, ih, Block.length_val]
    rw [Nat.succ_mul, Nat.add_comm]

attribute [local simp] chainDecrypt in
@[simp]
theorem length_chainDecrypt (n : Nat) (prev : Block k) (text : List UInt8) :
    (chainDecrypt e n prev text).1.length = n * k := by
  induction n generalizing prev text with
  | zero => simp
  | succ n ih =>
    simp only [chainDecrypt, List.length_append, ih, Block.length_val]
    rw [Nat.succ_mul, Nat.add_comm]

theorem take_succ_mul (n : Nat) (text : List UInt8) :
    text.take ((n + 1) * k) = text.take k ++ (text.drop k).take (n * k) := by
  rw [Nat.succ_mul, Nat.add_comm, List.take_add]

theorem chainEncrypt_concat (n : Nat) (prev : Block k) (text : List UInt8) :
    chainEncrypt e (n + 1) prev text =
      ((chainEncrypt e n prev text).1 ++
          (e ((Block.ofBytes k (text.drop (n * k))).mask (chainEncrypt e n prev text).2.1)).1,
        e ((Block.ofBytes k (text.drop (n * k))).mask (chainEncrypt e n prev text).2.1)) := by
  induction n generalizing prev text with
  | zero => simp [chainEncrypt]
  | succ n ih =>
    rw [chainEncrypt, ih]
    simp only [chainEncrypt, List.drop_drop, Nat.succ_mul, List.append_assoc, Nat.add_comm]

theorem chainDecrypt_chainEncrypt {n : Nat} {prev : Block k} {text : List UInt8} (rest : List UInt8)
    (h : n * k ≤ text.length) :
    chainDecrypt e n prev ((chainEncrypt e n prev text).1 ++ rest) =
      (text.take (n * k), (chainEncrypt e n prev text).2) := by
  induction n generalizing prev text with
  | zero => simp [chainDecrypt, chainEncrypt]
  | succ n ih =>
    rw [Nat.succ_mul] at h
    have hk : k ≤ text.length := by omega
    have hrest : n * k ≤ (text.drop k).length := by
      rw [List.length_drop]
      omega
    simp only [chainEncrypt, chainDecrypt, List.append_assoc, Block.ofBytes_append,
      Equiv.symm_apply_apply, Block.mask_mask, List.drop_left' (Block.length_val _), ih hrest,
      Block.ofBytes_val hk, take_succ_mul]

theorem chainEncrypt_chainDecrypt {n : Nat} {prev : Block k} {text : List UInt8} (rest : List UInt8)
    (h : n * k ≤ text.length) :
    chainEncrypt e n prev ((chainDecrypt e n prev text).1 ++ rest) =
      (text.take (n * k), (chainDecrypt e n prev text).2) := by
  induction n generalizing prev text with
  | zero => simp [chainDecrypt, chainEncrypt]
  | succ n ih =>
    rw [Nat.succ_mul] at h
    have hk : k ≤ text.length := by omega
    have hrest : n * k ≤ (text.drop k).length := by
      rw [List.length_drop]
      omega
    simp only [chainEncrypt, chainDecrypt, List.append_assoc, Block.ofBytes_append,
      Equiv.apply_symm_apply, Block.mask_mask, List.drop_left' (Block.length_val _), ih hrest,
      Block.ofBytes_val hk, take_succ_mul]

theorem chainDecrypt_concat (n : Nat) (prev : Block k) (text : List UInt8) :
    chainDecrypt e (n + 1) prev text =
      ((chainDecrypt e n prev text).1 ++
          ((e.symm (Block.ofBytes k (text.drop (n * k)))).mask (chainDecrypt e n prev text).2.1).1,
        Block.ofBytes k (text.drop (n * k))) := by
  induction n generalizing prev text with
  | zero => simp [chainDecrypt]
  | succ n ih =>
    rw [chainDecrypt, ih]
    simp only [chainDecrypt, List.drop_drop, Nat.succ_mul, List.append_assoc, Nat.add_comm]

/-! ## The steal -/

/-- The last full block and the tail after it: the full ciphertext block, and the bytes stolen
from the block that is not written. -/
def stealEncrypt (e : Equiv.Perm (Block k)) (prev pen : Block k) (tail : List UInt8) :
    Block k × List UInt8 :=
  let stolen := e (prev.mask pen.1)
  (e (stolen.mask tail), stolen.1.take tail.length)

def stealDecrypt (e : Equiv.Perm (Block k)) (prev pen : Block k) (tail : List UInt8) :
    Block k × List UInt8 :=
  let masked := e.symm pen
  let stolen := Block.ofBytes k (tail ++ masked.1.drop tail.length)
  ((e.symm stolen).mask prev.1, xorInto (masked.1.take tail.length) tail)

theorem stealDecrypt_stealEncrypt (prev pen : Block k) {tail : List UInt8} (h : tail.length ≤ k) :
    stealDecrypt e prev (stealEncrypt e prev pen tail).1 (stealEncrypt e prev pen tail).2 =
      (pen, tail) := by
  set stolen := e (prev.mask pen.1) with hstolen
  simp only [stealEncrypt, stealDecrypt, ← hstolen, Equiv.symm_apply_apply, Block.length_take stolen h,
    Block.unmask_front stolen h, Block.unmask_rest stolen h]
  rw [hstolen, Equiv.symm_apply_apply, Block.mask_cancel]

theorem stealEncrypt_stealDecrypt (prev pen : Block k) {tail : List UInt8} (h : tail.length ≤ k) :
    stealEncrypt e prev (stealDecrypt e prev pen tail).1 (stealDecrypt e prev pen tail).2 =
      (pen, tail) := by
  set masked := e.symm pen with hmasked
  simp only [stealDecrypt, stealEncrypt, ← hmasked, Block.mask_cancel_left, Equiv.apply_symm_apply,
    Block.mask_replaced masked h, length_xorInto, Block.length_take masked h, Block.replaced_val masked h,
    List.take_left]
  rw [hmasked, Equiv.apply_symm_apply]

/-! ## Whole texts -/

/-- How many bytes the chain covers. A steal takes the last full block and the tail. -/
def chainedLen (k len : Nat) : Nat :=
  if len % k ≠ 0 then len - (len % k + k) else len

/-- One pass over a text: `chain` over the full blocks, `steal` over a ragged end. -/
def pass (chain : Nat → Block k → List UInt8 → List UInt8 × Block k)
    (steal : Block k → Block k → List UInt8 → Block k × List UInt8) (iv : Block k)
    (text : List UInt8) : List UInt8 :=
  let needsteal := text.length % k
  let off := chainedLen k text.length
  let (out, prev) := chain (off / k) iv text
  if needsteal ≠ 0 then
    let pen := Block.ofBytes k (text.drop off)
    let tail := (text.drop (off + k)).take needsteal
    let (last, rest) := steal prev pen tail
    out ++ last.1 ++ rest
  else out

/-- What makes the pass over `chain'` and `steal'` undo the one over `chain` and `steal`. -/
structure Undoes (chain chain' : Nat → Block k → List UInt8 → List UInt8 × Block k)
    (steal steal' : Block k → Block k → List UInt8 → Block k × List UInt8) : Prop where
  chain_length : ∀ n prev text, (chain n prev text).1.length = n * k
  chain_undone : ∀ n prev text rest, n * k ≤ text.length →
    chain' n prev ((chain n prev text).1 ++ rest) = (text.take (n * k), (chain n prev text).2)
  steal_length : ∀ prev pen tail, tail.length ≤ k → (steal prev pen tail).2.length = tail.length
  steal_undone : ∀ prev pen tail, tail.length ≤ k →
    steal' prev (steal prev pen tail).1 (steal prev pen tail).2 = (pen, tail)

theorem encrypt_undone (e : Equiv.Perm (Block k)) :
    Undoes (chainEncrypt e) (chainDecrypt e) (stealEncrypt e) (stealDecrypt e) where
  chain_length := length_chainEncrypt
  chain_undone _ _ _ rest h := chainDecrypt_chainEncrypt rest h
  steal_length prev pen tail h := by
    simp only [stealEncrypt, List.length_take, Block.length_val]
    omega
  steal_undone prev pen _ h := stealDecrypt_stealEncrypt prev pen h

theorem decrypt_undone (e : Equiv.Perm (Block k)) :
    Undoes (chainDecrypt e) (chainEncrypt e) (stealDecrypt e) (stealEncrypt e) where
  chain_length := length_chainDecrypt
  chain_undone _ _ _ rest h := chainEncrypt_chainDecrypt rest h
  steal_length prev pen tail h := by
    simp only [stealDecrypt, length_xorInto, List.length_take, Block.length_val]
    omega
  steal_undone prev pen _ h := stealEncrypt_stealDecrypt prev pen h

section pass

variable {chain chain' : Nat → Block k → List UInt8 → List UInt8 × Block k}
  {steal steal' : Block k → Block k → List UInt8 → Block k × List UInt8}

theorem text_cases {text : List UInt8} (hk : 0 < k) (h : k ≤ text.length) :
    (∃ n, text.length = n * k) ∨
      ∃ n front, ∃ pen : Block k, ∃ tail, text = front ++ pen.1 ++ tail ∧ front.length = n * k ∧
        0 < tail.length ∧ tail.length < k := by
  have hdiv := Nat.div_add_mod text.length k
  have hlt := Nat.mod_lt text.length hk
  by_cases hz : text.length % k = 0
  · refine .inl ⟨text.length / k, ?_⟩
    rw [Nat.mul_comm]
    omega
  · obtain ⟨n, hn⟩ : ∃ n, text.length / k = n + 1 := Nat.exists_eq_add_one.mpr (Nat.div_pos h hk)
    rw [hn, Nat.mul_succ] at hdiv
    have hpen : (text.drop (k * n)).take k = (Block.ofBytes k (text.drop (k * n))).1 := by
      refine (Block.ofBytes_val ?_).symm
      rw [List.length_drop]
      omega
    refine .inr ⟨n, text.take (k * n), Block.ofBytes k (text.drop (k * n)), text.drop (k * n + k), ?_⟩
    refine ⟨?_, ?_, ?_, ?_⟩
    · rw [← hpen, List.append_assoc, ← List.drop_drop, List.take_append_drop, List.take_append_drop]
    · rw [Nat.mul_comm n k, List.length_take]
      omega
    · rw [List.length_drop]
      omega
    · rw [List.length_drop]
      omega

theorem pass_full (iv : Block k) {text : List UInt8} {n : Nat} (hk : 0 < k)
    (h : text.length = n * k) : pass chain steal iv text = (chain n iv text).1 := by
  have hz : text.length % k = 0 := by simp [h]
  have hoff : chainedLen k text.length = n * k := by simp [chainedLen, h]
  simp [pass, hz, hoff, Nat.mul_div_cancel n hk]

theorem pass_ragged (iv pen : Block k) {front tail : List UInt8} {n : Nat} (hfront : front.length = n * k)
    (hpos : 0 < tail.length) (hlt : tail.length < k) :
    pass chain steal iv (front ++ pen.1 ++ tail) =
      (chain n iv (front ++ pen.1 ++ tail)).1 ++
        (steal (chain n iv (front ++ pen.1 ++ tail)).2 pen tail).1.1 ++
        (steal (chain n iv (front ++ pen.1 ++ tail)).2 pen tail).2 := by
  have hlen : (front ++ pen.1 ++ tail).length = tail.length + (n + 1) * k := by
    simp only [List.length_append, hfront, Block.length_val, Nat.succ_mul]
    omega
  have hmod : (front ++ pen.1 ++ tail).length % k = tail.length := by
    rw [hlen, Nat.add_mul_mod_self_right, Nat.mod_eq_of_lt hlt]
  have hoff : chainedLen k (front ++ pen.1 ++ tail).length = n * k := by
    have hne : tail.length ≠ 0 := by omega
    have hsub : tail.length + (n * k + k) - (tail.length + k) = n * k := by omega
    rw [chainedLen, hmod, if_pos hne, hlen, Nat.succ_mul, hsub]
  have hdiv : n * k / k = n := Nat.mul_div_cancel n (by omega)
  have hpen : Block.ofBytes k ((front ++ pen.1 ++ tail).drop (n * k)) = pen := by
    rw [List.append_assoc, List.drop_left' hfront, Block.ofBytes_append]
  have htail : ((front ++ pen.1 ++ tail).drop (n * k + k)).take tail.length = tail := by
    rw [List.drop_left' (by simp [hfront]), List.take_length]
  have hne : tail.length ≠ 0 := by omega
  simp only [pass, hmod, hoff, hdiv, hne, ne_eq, not_false_eq_true, if_true, hpen, htail]

theorem Undoes.length_pass (hu : Undoes chain chain' steal steal') (hk : 0 < k) (iv : Block k)
    {text : List UInt8} (h : k ≤ text.length) :
    (pass chain steal iv text).length = text.length := by
  rcases text_cases hk h with ⟨n, hn⟩ | ⟨n, front, pen, tail, rfl, hfront, hpos, hlt⟩
  · rw [pass_full iv hk hn, hu.chain_length, hn]
  · rw [pass_ragged iv pen hfront hpos hlt]
    simp only [List.length_append, hu.chain_length, Block.length_val, hu.steal_length _ _ _ (Nat.le_of_lt hlt),
      hfront]

theorem Undoes.pass_pass (hu : Undoes chain chain' steal steal') (hk : 0 < k) (iv : Block k)
    {text : List UInt8} (h : k ≤ text.length) :
    pass chain' steal' iv (pass chain steal iv text) = text := by
  rcases text_cases hk h with ⟨n, hn⟩ | ⟨n, front, pen, tail, rfl, hfront, hpos, hlt⟩
  · have hundone := hu.chain_undone n iv text [] (Nat.le_of_eq hn.symm)
    rw [List.append_nil] at hundone
    rw [pass_full iv hk hn, pass_full iv hk (hu.chain_length n iv text), hundone, ← hn,
      List.take_length]
  · rw [pass_ragged iv pen hfront hpos hlt]
    set text := front ++ pen.1 ++ tail with htext
    set last := (chain n iv text).2 with hlast
    -- The output has the shape of the text: `n` blocks, one more and a tail of the same length.
    have htail := hu.steal_length last pen tail (Nat.le_of_lt hlt)
    have hchain : ∀ rest, chain' n iv ((chain n iv text).1 ++ rest) = (front, last) := by
      intro rest
      have hle : n * k ≤ text.length := by
        simp only [htext, List.length_append, hfront]
        omega
      have htake : text.take (n * k) = front := by
        rw [htext, List.append_assoc, List.take_left' hfront]
      rw [hu.chain_undone n iv text rest hle, htake]
    rw [pass_ragged iv _ (hu.chain_length n iv text) (htail ▸ hpos) (htail ▸ hlt)]
    simp only [List.append_assoc, hchain, hu.steal_undone last pen tail (Nat.le_of_lt hlt)]
    rw [htext, List.append_assoc]

end pass

end BlockChain
