import Pcloud.Lib.LittleEndian

/-!
# SHA-256

The digest of a string of bytes, and the keyed digest made of it, to run models on that take both as parameters.
-/

namespace Sha256

/-- Words are numbers below this one. -/
def wordBound : Nat := 2 ^ 32

/-- The eight words that are carried from block to block. -/
structure State where
  a : Nat
  b : Nat
  c : Nat
  d : Nat
  e : Nat
  f : Nat
  g : Nat
  h : Nat

def start : State where
  a := 0x6A09E667
  b := 0xBB67AE85
  c := 0x3C6EF372
  d := 0xA54FF53A
  e := 0x510E527F
  f := 0x9B05688C
  g := 0x1F83D9AB
  h := 0x5BE0CD19

def constants : List Nat := [
  0x428A2F98, 0x71374491, 0xB5C0FBCF, 0xE9B5DBA5, 0x3956C25B, 0x59F111F1, 0x923F82A4, 0xAB1C5ED5,
  0xD807AA98, 0x12835B01, 0x243185BE, 0x550C7DC3, 0x72BE5D74, 0x80DEB1FE, 0x9BDC06A7, 0xC19BF174,
  0xE49B69C1, 0xEFBE4786, 0x0FC19DC6, 0x240CA1CC, 0x2DE92C6F, 0x4A7484AA, 0x5CB0A9DC, 0x76F988DA,
  0x983E5152, 0xA831C66D, 0xB00327C8, 0xBF597FC7, 0xC6E00BF3, 0xD5A79147, 0x06CA6351, 0x14292967,
  0x27B70A85, 0x2E1B2138, 0x4D2C6DFC, 0x53380D13, 0x650A7354, 0x766A0ABB, 0x81C2C92E, 0x92722C85,
  0xA2BFE8A1, 0xA81A664B, 0xC24B8B70, 0xC76C51A3, 0xD192E819, 0xD6990624, 0xF40E3585, 0x106AA070,
  0x19A4C116, 0x1E376C08, 0x2748774C, 0x34B0BCB5, 0x391C0CB3, 0x4ED8AA4A, 0x5B9CCA4F, 0x682E6FF3,
  0x748F82EE, 0x78A5636F, 0x84C87814, 0x8CC70208, 0x90BEFFFA, 0xA4506CEB, 0xBEF9A3F7, 0xC67178F2]

def rotr (n : Nat) (x : Nat) : Nat := (x >>> n) ||| ((x <<< (32 - n)) % wordBound)

def round (s : State) (k w : Nat) : State :=
  let s1 := rotr 6 s.e ^^^ rotr 11 s.e ^^^ rotr 25 s.e
  let ch := (s.e &&& s.f) ^^^ ((s.e ^^^ (wordBound - 1)) &&& s.g)
  let t1 := s.h + s1 + ch + k + w
  let s0 := rotr 2 s.a ^^^ rotr 13 s.a ^^^ rotr 22 s.a
  let maj := (s.a &&& s.b) ^^^ (s.a &&& s.c) ^^^ (s.b &&& s.c)
  ⟨(t1 + s0 + maj) % wordBound, s.a, s.b, s.c, (s.d + t1) % wordBound, s.e, s.f, s.g⟩

/-- One round for each constant. The window holds the next sixteen words of the schedule. -/
def rounds : List Nat → List Nat → State → State
  | [], _, s => s
  | k :: ks, window, s =>
    let word i := window.getD i 0
    let s0 := rotr 7 (word 1) ^^^ rotr 18 (word 1) ^^^ (word 1 >>> 3)
    let s1 := rotr 17 (word 14) ^^^ rotr 19 (word 14) ^^^ (word 14 >>> 10)
    rounds ks (window.drop 1 ++ [(word 0 + s0 + word 9 + s1) % wordBound]) (round s k (word 0))

def words : Nat → List UInt8 → List Nat
  | 0, _ => []
  | n + 1, bytes => LittleEndian.value (bytes.take 4).reverse :: words n (bytes.drop 4)

def compress (s : State) (block : List UInt8) : State :=
  let t := rounds constants (words 16 block) s
  ⟨(s.a + t.a) % wordBound, (s.b + t.b) % wordBound, (s.c + t.c) % wordBound, (s.d + t.d) % wordBound,
    (s.e + t.e) % wordBound, (s.f + t.f) % wordBound, (s.g + t.g) % wordBound, (s.h + t.h) % wordBound⟩

def compressAll : Nat → State → List UInt8 → State
  | 0, s, _ => s
  | n + 1, s, bytes => compressAll n (compress s (bytes.take 64)) (bytes.drop 64)

/-- The message, a one, zeros, and the length in bits. -/
def pad (message : List UInt8) : List UInt8 :=
  message ++ 0x80 :: List.replicate ((119 - message.length % 64) % 64) 0 ++
    (LittleEndian.digits 8 (8 * message.length)).reverse

def bigEndian (word : Nat) : List UInt8 := (LittleEndian.digits 4 word).reverse

def State.bytes (s : State) : List UInt8 := [s.a, s.b, s.c, s.d, s.e, s.f, s.g, s.h].flatMap bigEndian

def digest (message : List UInt8) : List UInt8 :=
  let padded := pad message
  (compressAll (padded.length / 64) start padded).bytes

/-- HMAC over the digest. -/
def hmac (key message : List UInt8) : List UInt8 :=
  let short := if key.length ≤ 64 then key else digest key
  let block := short ++ List.replicate (64 - short.length) 0
  digest (block.map (· ^^^ 0x5C) ++ digest (block.map (· ^^^ 0x36) ++ message))

theorem length_digest (message : List UInt8) : (digest message).length = 32 := by
  simp [digest, State.bytes, bigEndian]

theorem length_hmac (key message : List UInt8) : (hmac key message).length = 32 := length_digest _

/-- The digest of "abc". -/
example : digest [97, 98, 99] =
    [0xBA, 0x78, 0x16, 0xBF, 0x8F, 0x01, 0xCF, 0xEA, 0x41, 0x41, 0x40, 0xDE, 0x5D, 0xAE, 0x22, 0x23,
      0xB0, 0x03, 0x61, 0xA3, 0x96, 0x17, 0x7A, 0x9C, 0xB4, 0x10, 0xFF, 0x61, 0xF2, 0x00, 0x15, 0xAD] := by
  decide +kernel

end Sha256
