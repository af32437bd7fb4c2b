import Pcloud.Lib.BlockChain

/-!
# A text under a stream of bytes

Every byte of a text is XORed with the byte of a stream that its place has. What is done twice is undone, and a text may
be taken in pieces.
-/

namespace KeyStream

def xorStream (stream : Nat → UInt8) (text : List UInt8) : List UInt8 := text.mapIdx fun i byte => byte ^^^ stream i

variable {stream stream' : Nat → UInt8} {text rest key : List UInt8}

@[simp]
theorem length_xorStream (stream : Nat → UInt8) (text : List UInt8) :
    (xorStream stream text).length = text.length := List.length_mapIdx

@[simp]
theorem xorStream_nil (stream : Nat → UInt8) : xorStream stream [] = [] := rfl

theorem xorStream_xorStream (stream : Nat → UInt8) (text : List UInt8) :
    xorStream stream (xorStream stream text) = text := by
  rw [xorStream, xorStream, List.mapIdx_mapIdx]
  refine List.ext_getElem (by simp) fun i _ _ => ?_
  rw [List.getElem_mapIdx, Function.comp_apply, UInt8.xor_assoc, UInt8.xor_self, UInt8.xor_zero]

theorem xorStream_append (stream : Nat → UInt8) (text rest : List UInt8) :
    xorStream stream (text ++ rest) =
      xorStream stream text ++ xorStream (fun i => stream (text.length + i)) rest := by
  rw [xorStream, List.mapIdx_append]
  simp only [xorStream, Nat.add_comm]

theorem xorStream_congr (h : ∀ i < text.length, stream i = stream' i) :
    xorStream stream text = xorStream stream' text := by
  refine List.ext_getElem (by simp) fun i hi _ => ?_
  rw [length_xorStream] at hi
  simp [xorStream, h i hi]

theorem xorInto_eq_xorStream (h : text.length ≤ key.length) :
    BlockChain.xorInto text key = xorStream (fun i => key.getD i 0) text := by
  induction text generalizing key with
  | nil => rfl
  | cons byte text ih =>
    cases key with
    | nil => simp at h
    | cons k key =>
      rw [BlockChain.xorInto, ih (by simpa using h), xorStream, xorStream, List.mapIdx_cons]
      rfl

end KeyStream
