import Pcloud.Proto.Response

/-!
# The grammar of a response

A `Wire` is one derivation in the tag grammar: what it is written as (`encode`), what it stands for
(`denote`) and which limits it keeps (`Within`) are said apart. References are resolved in the
table of the strings read so far, which a derivation is given and hands on.
-/

open Span

namespace Pcloud

/-! ## Tokens -/

def RparamTag.toNat : RparamTag → Nat
  | str lenLen => Rparam.str1 + lenLen - 1
  | rstr lenLen => Rparam.rstr1 + lenLen - 1
  | num lenLen => Rparam.num1 + lenLen - 1
  | hash => Rparam.hash
  | array => Rparam.array
  | bool value => if value then Rparam.btrue else Rparam.bfalse
  | data => Rparam.data
  | shortStr stringLen => Rparam.shortStrBase + stringLen
  | shortRstr id => Rparam.shortRstrBase + id
  | smallNum n => Rparam.smallNumBase + n

def RparamTag.byte (tag : RparamTag) : UInt8 := UInt8.ofNat tag.toNat

/-- The byte that closes an array or a hash. -/
def endByte : UInt8 := UInt8.ofNat Rparam.endTag

/-- The digits of a number, or of a length, whose tag says how many they are. -/
structure Field (width : Nat) where
  bytes : Bytes
  nonempty : 0 < bytes.length
  short : bytes.length ≤ width

namespace Field

variable {width : Nat} (field : Field width)

def len : Nat := field.bytes.length

def value : Nat := LittleEndian.value field.bytes

theorem value_lt : field.value < 256 ^ width :=
  Nat.lt_of_lt_of_le (LittleEndian.value_lt field.bytes) (Nat.pow_le_pow_right (by omega) field.short)

end Field

inductive Text
  | literal (length : Field 4) (raw : Bytes) (fits : length.value = raw.length)
  | shortLiteral (raw : Bytes) (fits : raw.length < 50)
  | reference (id : Field 4)
  | shortReference (id : Fin 50)

namespace Text

def encode : Text → Bytes
  | literal length raw _ => (RparamTag.str length.len).byte :: (length.bytes ++ raw)
  | shortLiteral raw _ => (RparamTag.shortStr raw.length).byte :: raw
  | reference id => (RparamTag.rstr id.len).byte :: id.bytes
  | shortReference id => [(RparamTag.shortRstr id).byte]

/-- The bytes of a string that the frame itself gives. -/
def raw? : Text → Option Bytes
  | literal _ raw _ | shortLiteral raw _ => some raw
  | reference _ | shortReference _ => none

def denote (limits : ParseLimits) (table : List String) : Text → Option (String × List String)
  | literal _ raw _ | shortLiteral raw _ => some (fromUtf8Lossy raw, remember limits table (fromUtf8Lossy raw))
  | reference id => table[id.value]?.map (·, table)
  | shortReference id => table[id.val]?.map (·, table)

def Within (limits : ParseLimits) (text : Text) : Prop := ∀ raw ∈ text.raw?, raw.length ≤ limits.maxStringLen

end Text

inductive Scalar
  | number (digits : Field 8)
  | smallNumber (n : Fin 20)
  | bool (value : Bool)
  | data (length : Bytes) (wide : length.length = 8)

namespace Scalar

def encode : Scalar → Bytes
  | number digits => (RparamTag.num digits.len).byte :: digits.bytes
  | smallNumber n => [(RparamTag.smallNum n).byte]
  | bool value => [(RparamTag.bool value).byte]
  | data length _ => RparamTag.data.byte :: length

def denote : Scalar → Value
  | number digits => .number (UInt64.ofNat digits.value)
  | smallNumber n => .number (UInt64.ofNat n)
  | bool value => .bool value
  | data length _ => .data (UInt64.ofNat (LittleEndian.value length))

end Scalar

/-! ## Derivations -/

inductive Wire
  | text (token : Text)
  | scalar (token : Scalar)
  | array (items : List Wire)
  | hash (entries : List (Text × Wire))

namespace Wire

mutual

def encode : Wire → Bytes
  | text token => token.encode
  | scalar token => token.encode
  | array items => RparamTag.array.byte :: (encodeItems items ++ [endByte])
  | hash entries => RparamTag.hash.byte :: (encodeEntries entries ++ [endByte])

def encodeItems : List Wire → Bytes
  | [] => []
  | item :: items => item.encode ++ encodeItems items

def encodeEntries : List (Text × Wire) → Bytes
  | [] => []
  | (key, value) :: entries => key.encode ++ value.encode ++ encodeEntries entries

end

mutual

def denote (limits : ParseLimits) (table : List String) : Wire → Option (Value × List String)
  | text token => do
    let (value, table) ← token.denote limits table
    return (.string value, table)
  | scalar token => some (token.denote, table)
  | array items => do
    let (values, table) ← denoteItems limits table items
    return (.array values, table)
  | hash entries => do
    let (values, table) ← denoteEntries limits table entries
    return (.hash values, table)

def denoteItems (limits : ParseLimits) (table : List String) : List Wire → Option (List Value × List String)
  | [] => some ([], table)
  | item :: items => do
    let (value, table) ← item.denote limits table
    let (values, table) ← denoteItems limits table items
    return (value :: values, table)

def denoteEntries (limits : ParseLimits) (table : List String) :
    List (Text × Wire) → Option (List (String × Value) × List String)
  | [] => some ([], table)
  | (key, wire) :: entries => do
    let (name, table) ← key.denote limits table
    let (value, table) ← wire.denote limits table
    let (values, table) ← denoteEntries limits table entries
    return ((name, value) :: values, table)

end

section Denote

variable {limits : ParseLimits} {table : List String}

attribute [local simp] denote denoteItems denoteEntries

theorem denote_text {token : Text} {result : Value × List String} :
    (text token).denote limits table = some result ↔
      ∃ value rest, token.denote limits table = some (value, rest) ∧ (.string value, rest) = result := by
  simp [Option.bind_eq_some_iff]

theorem denote_array {items : List Wire} {result : Value × List String} :
    (array items).denote limits table = some result ↔
      ∃ values rest, denoteItems limits table items = some (values, rest) ∧ (.array values, rest) = result := by
  simp [Option.bind_eq_some_iff]

theorem denote_hash {entries : List (Text × Wire)} {result : Value × List String} :
    (hash entries).denote limits table = some result ↔
      ∃ values rest, denoteEntries limits table entries = some (values, rest) ∧ (.hash values, rest) = result := by
  simp [Option.bind_eq_some_iff]

theorem denoteItems_cons {item : Wire} {items : List Wire} {result : List Value × List String} :
    denoteItems limits table (item :: items) = some result ↔
      ∃ value middle values rest, item.denote limits table = some (value, middle) ∧
        denoteItems limits middle items = some (values, rest) ∧ (value :: values, rest) = result := by
  simp [Option.bind_eq_some_iff]

theorem denoteEntries_cons {key : Text} {wire : Wire} {entries : List (Text × Wire)}
    {result : List (String × Value) × List String} :
    denoteEntries limits table ((key, wire) :: entries) = some result ↔
      ∃ name first value middle values rest, key.denote limits table = some (name, first) ∧
        wire.denote limits first = some (value, middle) ∧ denoteEntries limits middle entries = some (values, rest) ∧
        ((name, value) :: values, rest) = result := by
  simp [Option.bind_eq_some_iff]

end Denote

mutual

/-- A value, `depth` containers around it, within the limits. -/
def Within (limits : ParseLimits) (depth : Nat) : Wire → Prop
  | text token => depth ≤ limits.maxDepth ∧ token.Within limits
  | scalar _ => depth ≤ limits.maxDepth
  | array items => depth ≤ limits.maxDepth ∧ items.length ≤ limits.maxArrayLen ∧ ItemsWithin limits (depth + 1) items
  | hash entries =>
    depth ≤ limits.maxDepth ∧ entries.length ≤ limits.maxHashLen ∧ EntriesWithin limits (depth + 1) entries

def ItemsWithin (limits : ParseLimits) (depth : Nat) : List Wire → Prop
  | [] => True
  | item :: items => item.Within limits depth ∧ ItemsWithin limits depth items

def EntriesWithin (limits : ParseLimits) (depth : Nat) : List (Text × Wire) → Prop
  | [] => True
  | (key, value) :: entries => key.Within limits ∧ value.Within limits depth ∧ EntriesWithin limits depth entries

end

end Wire

/-- What the first four bytes say that the body is long. -/
def frameLen (bytes : Bytes) : Nat := LittleEndian.value (bytes.take 4)

/-- `bytes` begins with a frame whose body is the derivation `wire`. -/
structure IsFrame (limits : ParseLimits) (bytes : Bytes) (wire : Wire) : Prop where
  header : 4 ≤ bytes.length
  fits : frameLen bytes ≤ limits.maxFrameLen
  complete : 4 + frameLen bytes ≤ bytes.length
  body : (bytes.drop 4).take (frameLen bytes) = wire.encode
  within : wire.Within limits 0

/-! ## Tags -/

/-- The tags that a byte can be. -/
def RparamTag.InRange : RparamTag → Prop
  | str lenLen | rstr lenLen => 0 < lenLen ∧ lenLen ≤ 4
  | num lenLen => 0 < lenLen ∧ lenLen ≤ 8
  | hash | array | bool _ | data => True
  | shortStr n | shortRstr n => n < 50
  | smallNum n => n < 20

namespace RparamTag

theorem toNat_lt {tag : RparamTag} (h : tag.InRange) : tag.toNat < Rparam.endTag := by
  cases tag <;> unfold InRange at h <;> unfold toNat <;> grind

theorem toNat_byte {tag : RparamTag} (h : tag.InRange) : tag.byte.toNat = tag.toNat := by
  have := toNat_lt h
  rw [byte, UInt8.toNat_ofNat']
  exact Nat.mod_eq_of_lt (by grind)

theorem ofNat?_toNat {tag : RparamTag} (h : tag.InRange) : ofNat? tag.toNat = some tag := by
  cases tag <;> unfold InRange at h <;> unfold toNat ofNat? <;> grind

theorem ite_some_iff {α : Type} {p : Prop} [Decidable p] {a b : α} {rest : Option α} :
    (if p then some a else rest) = some b ↔ (p ∧ a = b) ∨ (¬ p ∧ rest = some b) := by
  split <;> simp [*]

theorem of_ofNat? {n : Nat} {tag : RparamTag} (h : ofNat? n = some tag) : tag.toNat = n ∧ tag.InRange := by
  unfold ofNat? at h
  simp only [ite_some_iff, reduceCtorEq, and_false, or_false] at h
  rcases h with ⟨_, rfl⟩ | ⟨_, ⟨_, rfl⟩ | ⟨_, ⟨_, rfl⟩ | ⟨_, ⟨_, rfl⟩ | ⟨_, ⟨_, rfl⟩ | ⟨_, ⟨_, rfl⟩ | ⟨_, ⟨_, rfl⟩ | ⟨_,
    ⟨_, rfl⟩ | ⟨_, ⟨_, rfl⟩ | ⟨_, ⟨_, rfl⟩ | ⟨_, ⟨_, rfl⟩⟩⟩⟩⟩⟩⟩⟩⟩⟩⟩
  all_goals unfold toNat InRange; grind

theorem ofNat?_eq_some {byte : UInt8} {tag : RparamTag} :
    ofNat? byte.toNat = some tag ↔ byte = tag.byte ∧ tag.InRange := by
  constructor
  · intro h
    obtain ⟨htag, hrange⟩ := of_ofNat? h
    refine ⟨?_, hrange⟩
    rw [RparamTag.byte, htag, UInt8.ofNat_toNat]
  · rintro ⟨rfl, hrange⟩
    rw [toNat_byte hrange, ofNat?_toNat hrange]

theorem byte_ne_endByte {tag : RparamTag} (h : tag.InRange) : tag.byte ≠ endByte := by
  intro heq
  have hlt := toNat_lt h
  rw [← toNat_byte h, heq] at hlt
  exact absurd hlt (by decide)

end RparamTag

/-! ## The grammar is unambiguous -/

section Unambiguous

variable {bytes : Bytes} {cursor stop stop' : Nat}

theorem RparamTag.byte_inj {tag tag' : RparamTag} (h : tag.InRange) (h' : tag'.InRange) (heq : tag.byte = tag'.byte) :
    tag = tag' := by
  have hsome := ofNat?_eq_some.mpr ⟨rfl, h⟩
  rw [heq, ofNat?_eq_some.mpr ⟨rfl, h'⟩] at hsome
  exact (Option.some.inj hsome).symm

theorem Field.ext_bytes {width : Nat} {field field' : Field width} (h : field.bytes = field'.bytes) : field = field' := by
  cases field
  cases h
  rfl

def Text.tag : Text → RparamTag
  | literal length _ _ => .str length.len
  | shortLiteral raw _ => .shortStr raw.length
  | reference id => .rstr id.len
  | shortReference id => .shortRstr id

def Scalar.tag : Scalar → RparamTag
  | number digits => .num digits.len
  | smallNumber n => .smallNum n
  | bool value => .bool value
  | data _ _ => .data

def Wire.tag : Wire → RparamTag
  | text token => token.tag
  | scalar token => token.tag
  | array _ => .array
  | hash _ => .hash

theorem Text.tag_inRange (text : Text) : text.tag.InRange := by
  rcases text with ⟨length, _, _⟩ | ⟨_, fits⟩ | id | id
  · exact ⟨length.nonempty, length.short⟩
  · exact fits
  · exact ⟨id.nonempty, id.short⟩
  · exact id.isLt

theorem Wire.tag_inRange (wire : Wire) : wire.tag.InRange := by
  rcases wire with token | token | items | entries
  · exact token.tag_inRange
  · rcases token with digits | n | value | ⟨_, _⟩
    · exact ⟨digits.nonempty, digits.short⟩
    · exact n.isLt
    · trivial
    · trivial
  · trivial
  · trivial

theorem Text.spells_tag {text : Text} (h : Spells bytes cursor text.encode stop) :
    ∃ start, Spells bytes cursor [text.tag.byte] start := by
  rcases text with ⟨_, _, _⟩ | ⟨_, _⟩ | _ | _
  all_goals
    obtain ⟨start, htag, _⟩ := spells_cons.mp h
    exact ⟨start, htag⟩

theorem Wire.spells_tag {wire : Wire} (h : Spells bytes cursor wire.encode stop) :
    ∃ start, Spells bytes cursor [wire.tag.byte] start := by
  rcases wire with token | token | items | entries
  · exact Text.spells_tag h
  · rcases token with _ | _ | _ | ⟨_, _⟩
    all_goals
      obtain ⟨start, htag, _⟩ := spells_cons.mp h
      exact ⟨start, htag⟩
  · obtain ⟨start, htag, _⟩ := spells_cons.mp h
    exact ⟨start, htag⟩
  · obtain ⟨start, htag, _⟩ := spells_cons.mp h
    exact ⟨start, htag⟩

theorem byte_unique {byte byte' : UInt8} {start start' : Nat} (h : Spells bytes cursor [byte] start)
    (h' : Spells bytes cursor [byte'] start') : byte = byte' ∧ start = start' := by
  obtain ⟨heq, hstart⟩ := h.unique h' rfl
  exact ⟨List.singleton_inj.mp heq, hstart⟩

theorem Wire.tag_unique (wire wire' : Wire) (h : Spells bytes cursor wire.encode stop)
    (h' : Spells bytes cursor wire'.encode stop') : wire.tag = wire'.tag := by
  obtain ⟨_, htag⟩ := spells_tag h
  obtain ⟨_, htag'⟩ := spells_tag h'
  exact RparamTag.byte_inj wire.tag_inRange wire'.tag_inRange (byte_unique htag htag').1

theorem Text.unique {text text' : Text} (h : Spells bytes cursor text.encode stop)
    (h' : Spells bytes cursor text'.encode stop') : text = text' ∧ stop = stop' := by
  have htag : text.tag = text'.tag := Wire.tag_unique (.text text) (.text text') h h'
  rcases text with ⟨length, raw, fits⟩ | ⟨raw, fits⟩ | id | id <;>
  rcases text' with ⟨length', raw', fits'⟩ | ⟨raw', fits'⟩ | id' | id' <;>
  simp only [tag, RparamTag.str.injEq, RparamTag.shortStr.injEq, RparamTag.rstr.injEq, RparamTag.shortRstr.injEq,
    reduceCtorEq] at htag
  · obtain ⟨start, hfirst, hrest⟩ := spells_cons.mp h
    obtain ⟨start', hfirst', hrest'⟩ := spells_cons.mp h'
    obtain ⟨_, rfl⟩ := byte_unique hfirst hfirst'
    obtain ⟨middle, hlength, hraw⟩ := spells_append.mp hrest
    obtain ⟨middle', hlength', hraw'⟩ := spells_append.mp hrest'
    obtain ⟨hbytes, rfl⟩ := hlength.unique hlength' htag
    obtain rfl := Field.ext_bytes hbytes
    obtain ⟨rfl, rfl⟩ := hraw.unique hraw' (fits.symm.trans fits')
    exact ⟨rfl, rfl⟩
  · obtain ⟨start, hfirst, hraw⟩ := spells_cons.mp h
    obtain ⟨start', hfirst', hraw'⟩ := spells_cons.mp h'
    obtain ⟨_, rfl⟩ := byte_unique hfirst hfirst'
    obtain ⟨rfl, rfl⟩ := hraw.unique hraw' htag
    exact ⟨rfl, rfl⟩
  · obtain ⟨start, hfirst, hid⟩ := spells_cons.mp h
    obtain ⟨start', hfirst', hid'⟩ := spells_cons.mp h'
    obtain ⟨_, rfl⟩ := byte_unique hfirst hfirst'
    obtain ⟨hbytes, rfl⟩ := hid.unique hid' htag
    obtain rfl := Field.ext_bytes hbytes
    exact ⟨rfl, rfl⟩
  · obtain rfl := Fin.ext htag
    exact ⟨rfl, (byte_unique h h').2⟩

theorem Scalar.unique {scalar scalar' : Scalar} (h : Spells bytes cursor scalar.encode stop)
    (h' : Spells bytes cursor scalar'.encode stop') : scalar = scalar' ∧ stop = stop' := by
  have htag : scalar.tag = scalar'.tag := Wire.tag_unique (.scalar scalar) (.scalar scalar') h h'
  rcases scalar with digits | n | value | ⟨length, wide⟩ <;>
  rcases scalar' with digits' | n' | value' | ⟨length', wide'⟩ <;>
  simp only [tag, RparamTag.num.injEq, RparamTag.smallNum.injEq, RparamTag.bool.injEq, reduceCtorEq] at htag
  · obtain ⟨start, hfirst, hdigits⟩ := spells_cons.mp h
    obtain ⟨start', hfirst', hdigits'⟩ := spells_cons.mp h'
    obtain ⟨_, rfl⟩ := byte_unique hfirst hfirst'
    obtain ⟨hbytes, rfl⟩ := hdigits.unique hdigits' htag
    obtain rfl := Field.ext_bytes hbytes
    exact ⟨rfl, rfl⟩
  · obtain rfl := Fin.ext htag
    exact ⟨rfl, (byte_unique h h').2⟩
  · obtain rfl := htag
    exact ⟨rfl, (byte_unique h h').2⟩
  · obtain ⟨start, hfirst, hlength⟩ := spells_cons.mp h
    obtain ⟨start', hfirst', hlength'⟩ := spells_cons.mp h'
    obtain ⟨_, rfl⟩ := byte_unique hfirst hfirst'
    obtain ⟨rfl, rfl⟩ := hlength.unique hlength' (wide.trans wide'.symm)
    exact ⟨rfl, rfl⟩

theorem not_endByte_and_tag {tag : RparamTag} {start start' : Nat} (hrange : tag.InRange)
    (h : Spells bytes cursor [endByte] start) (h' : Spells bytes cursor [tag.byte] start') : False :=
  RparamTag.byte_ne_endByte hrange (byte_unique h h').1.symm

end Unambiguous

mutual

theorem Wire.unique {bytes : Bytes} {cursor stop stop' : Nat} : (wire wire' : Wire) →
    Spells bytes cursor wire.encode stop → Spells bytes cursor wire'.encode stop' → wire = wire' ∧ stop = stop'
  | .text token, wire', h, h' => by
    have htag := Wire.tag_unique _ _ h h'
    rcases wire' with token' | token' | _ | _
    · obtain ⟨rfl, hstop⟩ := Text.unique h h'
      exact ⟨rfl, hstop⟩
    · rcases token <;> rcases token' <;> cases htag
    · rcases token <;> cases htag
    · rcases token <;> cases htag
  | .scalar token, wire', h, h' => by
    have htag := Wire.tag_unique _ _ h h'
    rcases wire' with token' | token' | _ | _
    · rcases token <;> rcases token' <;> cases htag
    · obtain ⟨rfl, hstop⟩ := Scalar.unique h h'
      exact ⟨rfl, hstop⟩
    · rcases token <;> cases htag
    · rcases token <;> cases htag
  | .array items, wire', h, h' => by
    have htag := Wire.tag_unique _ _ h h'
    rcases wire' with token' | token' | items' | _
    · rcases token' <;> cases htag
    · rcases token' <;> cases htag
    · obtain ⟨start, hfirst, hrest⟩ := spells_cons.mp h
      obtain ⟨start', hfirst', hrest'⟩ := spells_cons.mp h'
      obtain ⟨_, rfl⟩ := byte_unique hfirst hfirst'
      obtain ⟨rfl, hstop⟩ := Wire.items_unique items items' hrest hrest'
      exact ⟨rfl, hstop⟩
    · cases htag
  | .hash entries, wire', h, h' => by
    have htag := Wire.tag_unique _ _ h h'
    rcases wire' with token' | token' | _ | entries'
    · rcases token' <;> cases htag
    · rcases token' <;> cases htag
    · cases htag
    · obtain ⟨start, hfirst, hrest⟩ := spells_cons.mp h
      obtain ⟨start', hfirst', hrest'⟩ := spells_cons.mp h'
      obtain ⟨_, rfl⟩ := byte_unique hfirst hfirst'
      obtain ⟨rfl, hstop⟩ := Wire.entries_unique entries entries' hrest hrest'
      exact ⟨rfl, hstop⟩

theorem Wire.items_unique {bytes : Bytes} {cursor stop stop' : Nat} : (items items' : List Wire) →
    Spells bytes cursor (Wire.encodeItems items ++ [endByte]) stop →
    Spells bytes cursor (Wire.encodeItems items' ++ [endByte]) stop' → items = items' ∧ stop = stop'
  | [], [], h, h' => ⟨rfl, (byte_unique h h').2⟩
  | [], item' :: items', h, h' => by
    rw [Wire.encodeItems, List.append_assoc] at h'
    obtain ⟨_, hitem', _⟩ := spells_append.mp h'
    obtain ⟨_, htag'⟩ := Wire.spells_tag hitem'
    exact (not_endByte_and_tag item'.tag_inRange h htag').elim
  | item :: items, [], h, h' => by
    rw [Wire.encodeItems, List.append_assoc] at h
    obtain ⟨_, hitem, _⟩ := spells_append.mp h
    obtain ⟨_, htag⟩ := Wire.spells_tag hitem
    exact (not_endByte_and_tag item.tag_inRange h' htag).elim
  | item :: items, item' :: items', h, h' => by
    rw [Wire.encodeItems, List.append_assoc] at h h'
    obtain ⟨middle, hitem, hrest⟩ := spells_append.mp h
    obtain ⟨middle', hitem', hrest'⟩ := spells_append.mp h'
    obtain ⟨rfl, rfl⟩ := Wire.unique item item' hitem hitem'
    obtain ⟨rfl, hstop⟩ := Wire.items_unique items items' hrest hrest'
    exact ⟨rfl, hstop⟩

theorem Wire.entries_unique {bytes : Bytes} {cursor stop stop' : Nat} : (entries entries' : List (Text × Wire)) →
    Spells bytes cursor (Wire.encodeEntries entries ++ [endByte]) stop →
    Spells bytes cursor (Wire.encodeEntries entries' ++ [endByte]) stop' → entries = entries' ∧ stop = stop'
  | [], [], h, h' => ⟨rfl, (byte_unique h h').2⟩
  | [], (key', wire') :: entries', h, h' => by
    rw [Wire.encodeEntries, List.append_assoc, List.append_assoc] at h'
    obtain ⟨_, hkey', _⟩ := spells_append.mp h'
    obtain ⟨_, htag'⟩ := Text.spells_tag hkey'
    exact (not_endByte_and_tag key'.tag_inRange h htag').elim
  | (key, wire) :: entries, [], h, h' => by
    rw [Wire.encodeEntries, List.append_assoc, List.append_assoc] at h
    obtain ⟨_, hkey, _⟩ := spells_append.mp h
    obtain ⟨_, htag⟩ := Text.spells_tag hkey
    exact (not_endByte_and_tag key.tag_inRange h' htag).elim
  | (key, wire) :: entries, (key', wire') :: entries', h, h' => by
    rw [Wire.encodeEntries, List.append_assoc, List.append_assoc] at h h'
    obtain ⟨middle, hkey, hrest⟩ := spells_append.mp h
    obtain ⟨middle', hkey', hrest'⟩ := spells_append.mp h'
    obtain ⟨rfl, rfl⟩ := Text.unique hkey hkey'
    obtain ⟨next, hwire, hrest⟩ := spells_append.mp hrest
    obtain ⟨next', hwire', hrest'⟩ := spells_append.mp hrest'
    obtain ⟨rfl, rfl⟩ := Wire.unique wire wire' hwire hwire'
    obtain ⟨rfl, hstop⟩ := Wire.entries_unique entries entries' hrest hrest'
    exact ⟨rfl, hstop⟩

end

end Pcloud
