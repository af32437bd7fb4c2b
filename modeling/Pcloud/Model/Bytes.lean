import Pcloud.Lib.LittleEndian
import Pcloud.Lib.Utf8

/-!
# Bytes, words and strings
-/

namespace Pcloud

abbrev Bytes := List UInt8

/-! ## Sizes -/

def usizeMax : Nat := 2 ^ 64 - 1

def isizeMax : Nat := 2 ^ 63 - 1

def u64Max : Nat := 2 ^ 64 - 1

/-- `saturating_add` of `u64` and of `usize`. -/
def satAdd (a b : Nat) : Nat := min (a + b) u64Max

/-- A `Vec<u8>`: it never holds more than `isize::MAX` bytes. -/
structure Buffer where
  bytes : Bytes
  fits : bytes.length ≤ isizeMax
deriving DecidableEq

theorem Buffer.min_satAdd (buffer : Buffer) (a b : Nat) :
    min buffer.bytes.length (satAdd a b) = min buffer.bytes.length (a + b) := by
  have := buffer.fits
  unfold satAdd u64Max
  unfold isizeMax at this
  omega

/-! ## Words as bytes -/

def toLeBytes (word : UInt64) : Bytes :=
  (List.range 8).map fun i => UInt8.ofNat (word.toNat / 256 ^ i)

def u32ToLeBytes (word : UInt32) : Bytes :=
  (List.range 4).map fun i => UInt8.ofNat (word.toNat / 256 ^ i)

def u32OfLeBytes (bytes : Bytes) : UInt32 :=
  UInt32.ofNat (bytes.foldr (fun byte rest => byte.toNat + 256 * rest) 0)

def u32ToBeBytes (word : UInt32) : Bytes := (u32ToLeBytes word).reverse

def u32OfBeBytes (bytes : Bytes) : UInt32 := u32OfLeBytes bytes.reverse

def u16ToLeBytes (word : UInt16) : Bytes := LittleEndian.digits 2 word.toNat

@[simp]
theorem length_u32ToLeBytes (word : UInt32) : (u32ToLeBytes word).length = 4 := by
  simp [u32ToLeBytes]

@[simp]
theorem length_u32ToBeBytes (word : UInt32) : (u32ToBeBytes word).length = 4 := by
  simp [u32ToBeBytes]

@[simp]
theorem length_toLeBytes (word : UInt64) : (toLeBytes word).length = 8 := by
  simp [toLeBytes]

@[simp]
theorem length_u16ToLeBytes (word : UInt16) : (u16ToLeBytes word).length = 2 := by
  simp [u16ToLeBytes]

theorem value_u16ToLeBytes (word : UInt16) : LittleEndian.value (u16ToLeBytes word) = word.toNat :=
  LittleEndian.value_digits_of_lt word.toNat_lt

theorem value_u32ToLeBytes (word : UInt32) : LittleEndian.value (u32ToLeBytes word) = word.toNat :=
  LittleEndian.value_digits_of_lt word.toNat_lt

theorem value_toLeBytes (word : UInt64) : LittleEndian.value (toLeBytes word) = word.toNat :=
  LittleEndian.value_digits_of_lt word.toNat_lt

@[simp]
theorem u32OfLeBytes_toLeBytes (word : UInt32) : u32OfLeBytes (u32ToLeBytes word) = word := by
  apply UInt32.toNat_inj.mp
  show (UInt32.ofNat (LittleEndian.value (u32ToLeBytes word))).toNat = word.toNat
  rw [value_u32ToLeBytes, UInt32.ofNat_toNat]

theorem u32ToLeBytes_ofLeBytes {bytes : Bytes} (h : bytes.length = 4) : u32ToLeBytes (u32OfLeBytes bytes) = bytes := by
  have hlt := LittleEndian.value_lt bytes
  rw [h] at hlt
  have hvalue : (u32OfLeBytes bytes).toNat = LittleEndian.value bytes := UInt32.toNat_ofNat_of_lt hlt
  have hdigits := LittleEndian.digits_value bytes
  rwa [h, ← hvalue] at hdigits

@[simp]
theorem u32OfBeBytes_toBeBytes (word : UInt32) : u32OfBeBytes (u32ToBeBytes word) = word := by
  rw [u32OfBeBytes, u32ToBeBytes, List.reverse_reverse, u32OfLeBytes_toLeBytes]

/-! ## Strings as bytes -/

/-- `str::as_bytes`. -/
def utf8 (text : String) : Bytes := text.toByteArray.data.toList

/-- `std::str::from_utf8`. -/
def fromUtf8 (bytes : Bytes) : Option String := String.fromUTF8? ⟨bytes.toArray⟩

/-- `String::from_utf8_lossy`. -/
def fromUtf8Lossy (bytes : Bytes) : String := String.ofList (Utf8.lossy bytes)

theorem eq_of_toList_toString {n m : Nat} (h : (toString n).toList = (toString m).toList) : n = m := by
  have hdigits := congrArg (Nat.ofDigitChars 10 · 0) h
  simpa [toString, Nat.toList_repr] using hdigits

theorem length_utf8 (text : String) : (utf8 text).length = text.utf8ByteSize := rfl

theorem utf8_inj {a b : String} (h : utf8 a = utf8 b) : a = b := by
  apply String.toByteArray_inj.mp
  apply ByteArray.ext
  exact Array.toList_inj.mp h

@[simp]
theorem utf8_append (a b : String) : utf8 (a ++ b) = utf8 a ++ utf8 b := by
  simp [utf8, String.toByteArray_append]

theorem fromUtf8_eq_some {bytes : Bytes} {text : String} :
    fromUtf8 bytes = some text ↔ utf8 text = bytes := by
  unfold fromUtf8 String.fromUTF8?
  constructor
  · intro h
    split at h
    · cases h
      rfl
    · cases h
  · rintro rfl
    exact dif_pos text.isValidUTF8

@[simp]
theorem fromUtf8_utf8 (text : String) : fromUtf8 (utf8 text) = some text := fromUtf8_eq_some.mpr rfl

@[simp]
theorem utf8_eq_nil {text : String} : utf8 text = [] ↔ text = "" := by
  constructor
  · intro h
    exact utf8_inj h
  · rintro rfl
    rfl

theorem utf8_eq_flatMap (text : String) : utf8 text = text.toList.flatMap String.utf8EncodeChar := by
  have hbytes : text.toByteArray = (text.toList.flatMap String.utf8EncodeChar).toByteArray := by
    conv_lhs => rw [← String.ofList_toList (s := text)]
    rfl
  rw [utf8, hbytes, List.data_toByteArray]

theorem lossy_utf8 (text : String) : Utf8.lossy (utf8 text) = text.toList := by
  rw [utf8_eq_flatMap, Utf8.lossy_encode]

theorem fromUtf8Lossy_utf8 (text : String) : fromUtf8Lossy (utf8 text) = text := by
  rw [fromUtf8Lossy, lossy_utf8, String.ofList_toList]

theorem fromUtf8Lossy_of_fromUtf8 {raw : Bytes} {text : String} (h : fromUtf8 raw = some text) :
    fromUtf8Lossy raw = text ∧ text.utf8ByteSize = raw.length := by
  obtain rfl := fromUtf8_eq_some.mp h
  exact ⟨fromUtf8Lossy_utf8 text, rfl⟩

/-- A `String`: it never holds more than `isize::MAX` bytes. -/
structure OwnedString where
  text : String
  fits : (utf8 text).length ≤ isizeMax
deriving DecidableEq

theorem OwnedString.utf8_injective : Function.Injective fun s : OwnedString => utf8 s.text := by
  rintro ⟨text, _⟩ ⟨text', _⟩ h
  obtain rfl : text = text' := utf8_inj h
  rfl

/-- Lower case, two digits a byte. -/
def hexEncode (bytes : Bytes) : String :=
  String.ofList (bytes.flatMap fun byte => [hexDigit (byte.toNat / 16), hexDigit (byte.toNat % 16)])
where
  hexDigit (d : Nat) : Char := "0123456789abcdef".toList.getD d '0'

theorem hexDigit_inj {d e : Nat} (hd : d < 16) (he : e < 16) (h : hexEncode.hexDigit d = hexEncode.hexDigit e) :
    d = e := by
  have hall : ∀ d < 16, ∀ e < 16, hexEncode.hexDigit d = hexEncode.hexDigit e → d = e := by decide
  exact hall d hd e he h

theorem hexEncode_injective : Function.Injective hexEncode := by
  intro a b h
  have hdigits := String.ofList_injective h
  clear h
  induction a generalizing b with
  | nil =>
    cases b with
    | nil => rfl
    | cons y b => cases hdigits
  | cons x a ih =>
    cases b with
    | nil => cases hdigits
    | cons y b =>
      simp only [List.flatMap_cons, List.cons_append, List.nil_append, List.cons.injEq] at hdigits
      obtain ⟨hhigh, hlow, hrest⟩ := hdigits
      have hx := x.toNat_lt
      have hy := y.toNat_lt
      have hdiv := hexDigit_inj (by omega) (by omega) hhigh
      have hmod := hexDigit_inj (by omega) (by omega) hlow
      have hxy : x = y := UInt8.toNat_inj.mp (by omega)
      rw [hxy, ih hrest]

/-! ## Files -/

/-- `set_len`. -/
def setLen (blob : Bytes) (size : Nat) : Bytes := blob.take size ++ List.replicate (size - blob.length) 0

/-- Writes at an offset, over zeros where the blob ends before it. -/
def writeAt (blob : Bytes) (offset : Nat) (bytes : Bytes) : Bytes :=
  (setLen blob (max blob.length offset)).take offset ++ bytes ++ blob.drop (offset + bytes.length)

theorem writeAt_of_le {blob : Bytes} {offset : Nat} (bytes : Bytes) (h : offset ≤ blob.length) :
    writeAt blob offset bytes = blob.take offset ++ bytes ++ blob.drop (offset + bytes.length) := by
  simp [writeAt, setLen, Nat.max_eq_left h]

theorem writeAt_length (blob bytes : Bytes) : writeAt blob blob.length bytes = blob ++ bytes := by
  simp [writeAt_of_le]

theorem take_writeAt {blob target : Bytes} {offset n : Nat} (hlength : offset + n ≤ target.length)
    (htake : blob.take offset = target.take offset) :
    (writeAt blob offset ((target.drop offset).take n)).take (offset + n) = target.take (offset + n) := by
  have hoffset : offset ≤ blob.length := by
    have := congrArg List.length htake
    simp only [List.length_take] at this
    omega
  have hn : ((target.drop offset).take n).length = n := by simp; omega
  rw [writeAt_of_le _ hoffset, htake, ← List.take_add]
  apply List.take_left'
  simp
  omega

theorem length_writeAt (blob bytes : Bytes) (offset : Nat) :
    (writeAt blob offset bytes).length = max blob.length (offset + bytes.length) := by
  simp only [writeAt, setLen, List.length_append, List.length_take, List.length_drop, List.length_replicate]
  omega

end Pcloud
