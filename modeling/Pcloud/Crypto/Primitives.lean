import Pcloud.Lib.BlockChain
import Pcloud.Model.Bytes

/-!
# The primitives under the crypto layer

AES-256 and HMAC-SHA-512 come from other crates. All that is assumed of them: AES permutes the
16-byte blocks under each key, and HMAC is some function of the key and the bytes fed to it.
-/

namespace Pcloud

open BlockChain

structure Primitives where
  aes256 : Block 32 → Equiv.Perm (Block 16)
  hmac : Bytes → Bytes → Block 64

/-- The parts are fed to one MAC in order. -/
def Primitives.hmacSha512 (prims : Primitives) (key : Bytes) (parts : List Bytes) :
    Block 64 :=
  prims.hmac key parts.flatten

/-- A cipher that does nothing and a MAC that gives the front of its input back, to run the model on. -/
def echoPrims : Primitives := ⟨fun _ => Equiv.refl _, fun _ data => Block.ofBytes 64 data⟩

end Pcloud
