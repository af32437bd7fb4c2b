import Pcloud.Crypto.Primitives

/-!
# What the crypto shell takes from other crates

NFC, Argon2id, PBKDF2, HMAC-SHA-256, AES-GCM and RSA. The key derivations, the MAC and the
normalisation are any functions. AES-GCM opens what it sealed and nothing else, and an RSA key
that was written to DER is read back as itself.
-/

namespace Pcloud

open BlockChain

structure CryptoSuite (PrivKey : Type) extends Primitives where
  nfc : String → String
  /-- Password and salt, the crate's default cost. -/
  argon2 : Bytes → Bytes → Block 32
  hmacSha256 : Bytes → Bytes → Block 32
  /-- Password, salt and iterations. -/
  pbkdf2 : Bytes → Bytes → Nat → Block 48
  /-- Key, nonce, associated data and message. -/
  gcmSeal : Block 32 → Block 12 → Bytes → Bytes → Option Bytes
  gcmOpen : Block 32 → Block 12 → Bytes → Bytes → Option Bytes
  gcm_accepts : ∀ key nonce aad msg, msg.length ≤ 2 ^ 36 → (gcmSeal key nonce aad msg).isSome
  gcm_exact : ∀ key nonce aad msg ct, gcmOpen key nonce aad ct = some msg ↔ gcmSeal key nonce aad msg = some ct
  gcm_length : ∀ key nonce aad msg ct, gcmSeal key nonce aad msg = some ct → ct.length = msg.length + 16
  privToDer : PrivKey → Except String Bytes
  privOfDer : Bytes → Except String PrivKey
  privOfDer_privToDer : ∀ key der, privToDer key = .ok der → privOfDer der = .ok key
  /-- The DER of the public half. -/
  pubToDer : PrivKey → Except String Bytes
  oaepDecrypt : PrivKey → Bytes → Option Bytes

/-! ## A suite to run the model on -/

def echoTag (nonce : Block 12) (aad : Bytes) : Block 16 := Block.ofBytes 16 (nonce.1 ++ aad)

/-- Keys and digests are what goes in, a sealed message is the message with a tag. -/
def echoSuite : CryptoSuite Bytes where
  toPrimitives := echoPrims
  -- The one pair of spellings that the examples use.
  nfc text := if text = "e\u0301" then "\u00e9" else text
  argon2 password salt := Block.ofBytes 32 (password ++ salt)
  hmacSha256 key data := Block.ofBytes 32 (key ++ data)
  pbkdf2 password salt _ := Block.ofBytes 48 (password ++ salt)
  gcmSeal _ nonce aad msg := if msg.length ≤ 2 ^ 36 then some (msg ++ (echoTag nonce aad).1) else none
  gcmOpen _ nonce aad ct :=
    let msg := ct.take (ct.length - 16)
    if msg.length ≤ 2 ^ 36 ∧ ct = msg ++ (echoTag nonce aad).1 then some msg else none
  gcm_accepts key nonce aad msg h := by
    rw [if_pos h]
    rfl
  gcm_exact key nonce aad msg ct := by
    dsimp only
    constructor
    · intro h
      split at h
      · rename_i hct
        cases h
        rw [if_pos hct.1, ← hct.2]
      · cases h
    · intro h
      split at h
      · rename_i hlen
        cases h
        have htake : (msg ++ (echoTag nonce aad).1).take ((msg ++ (echoTag nonce aad).1).length - 16) = msg := by simp
        rw [htake, if_pos ⟨hlen, rfl⟩]
      · cases h
  gcm_length key nonce aad msg ct h := by
    split at h
    · cases h
      simp
    · cases h
  privToDer key := .ok key
  privOfDer der := .ok der
  privOfDer_privToDer key der h := by rw [← Except.ok.inj h]
  pubToDer key := .ok key
  oaepDecrypt _ ct := some ct

end Pcloud
