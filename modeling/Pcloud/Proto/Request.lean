import Pcloud.Model.Bytes

/-!
# Request frames (`pcloud-proto/src/binary_api.rs`)

`encodeRequest` is the encoder of the crate. `decodeRequest` reads the documented layout, and is
not in the crate: the server has it.
-/

namespace Pcloud

inductive BinaryParamValue
  | string (value : String)
  | number (value : UInt64)
  | bool (value : Bool)
deriving DecidableEq

structure BinaryParam where
  name : String
  value : BinaryParamValue
deriving DecidableEq

structure RequestFrame where
  command : String
  parameterCount : Nat
deriving DecidableEq

structure EncodedRequest where
  frame : RequestFrame
  params : List BinaryParam
  bytes : Bytes
deriving DecidableEq

inductive FrameParseError
  | commandTooLong
  | paramNameTooLong (name : String)
  | requestTooLarge
deriving DecidableEq, Repr

def maxRequestFrameLen : Nat := 65535

def maxParamNameLen : Nat := 63

/-! ## The encoder -/

def BinaryParamValue.wireLen : BinaryParamValue → Nat
  | string value => 4 + value.utf8ByteSize
  | number _ => 8
  | bool _ => 1

/-- One turn of the loop that measures the parameters. -/
def addPayloadLen (payloadLen : Nat) (param : BinaryParam) : Except FrameParseError Nat :=
  if param.name.utf8ByteSize > maxParamNameLen then .error (.paramNameTooLong param.name)
  else .ok (payloadLen + 1 + param.name.utf8ByteSize + param.value.wireLen)

def BinaryParamValue.paramType : BinaryParamValue → UInt8
  | string _ => 0
  | number _ => 1
  | bool _ => 2

def BinaryParamValue.encode : BinaryParamValue → Bytes
  | string value => u32ToLeBytes (UInt32.ofNat value.utf8ByteSize) ++ utf8 value
  | number value => toLeBytes value
  | bool value => [if value then 1 else 0]

def BinaryParam.encode (param : BinaryParam) : Bytes :=
  [param.value.paramType <<< 6 ||| UInt8.ofNat param.name.utf8ByteSize] ++ utf8 param.name ++ param.value.encode

def encodeBody (command : String) (params : List BinaryParam) (rawBodyLen : Option UInt64) : Bytes :=
  let cmdLen := UInt8.ofNat command.utf8ByteSize
  [if rawBodyLen.isSome then cmdLen ||| 0x80 else cmdLen] ++ (rawBodyLen.elim [] toLeBytes) ++ utf8 command ++
    -- `u8::try_from(params.len()).unwrap_or(u8::MAX)`.
    [if params.length < 256 then UInt8.ofNat params.length else 255] ++ params.flatMap BinaryParam.encode

def encodeRequest (command : String) (params : List BinaryParam) (rawBodyLen : Option UInt64) :
    Except FrameParseError EncodedRequest :=
  if command.utf8ByteSize ≥ 256 then .error .commandTooLong
  else
    match params.foldlM addPayloadLen (command.utf8ByteSize + 2 + if rawBodyLen.isSome then 8 else 0) with
    | .error e => .error e
    | .ok payloadLen =>
      if payloadLen + 2 > maxRequestFrameLen then .error .requestTooLarge
      else
        .ok {
          frame := ⟨command, params.length⟩
          params := params
          bytes := u16ToLeBytes (UInt16.ofNat payloadLen) ++ encodeBody command params rawBodyLen }

/-! ## The documented layout -/

structure Request where
  command : String
  params : List BinaryParam
  rawBodyLen : Option UInt64
deriving DecidableEq

def takeBytes (n : Nat) (input : Bytes) : Option (Bytes × Bytes) :=
  if n ≤ input.length then some (input.take n, input.drop n) else none

def takeByte : Bytes → Option (UInt8 × Bytes)
  | [] => none
  | byte :: input => some (byte, input)

def takeText (n : Nat) (input : Bytes) : Option (String × Bytes) := do
  let (bytes, input) ← takeBytes n input
  return (← fromUtf8 bytes, input)

/-- The two high bits of a parameter's header are the type of its value. -/
def decodeValue (paramType : Nat) (input : Bytes) : Option (BinaryParamValue × Bytes) :=
  match paramType with
  | 0 => do
    let (len, input) ← takeBytes 4 input
    let (value, input) ← takeText (LittleEndian.value len) input
    return (.string value, input)
  | 1 => do
    let (value, input) ← takeBytes 8 input
    return (.number (UInt64.ofNat (LittleEndian.value value)), input)
  | 2 => do
    let (value, input) ← takeByte input
    if value = 0 then return (.bool false, input)
    if value = 1 then return (.bool true, input)
    none
  | _ => none

def decodeParam (input : Bytes) : Option (BinaryParam × Bytes) := do
  let (header, input) ← takeByte input
  let (name, input) ← takeText (header.toNat % 64) input
  let (value, input) ← decodeValue (header.toNat / 64) input
  return (⟨name, value⟩, input)

def decodeParams : Nat → Bytes → Option (List BinaryParam × Bytes)
  | 0, input => some ([], input)
  | n + 1, input => do
    let (param, input) ← decodeParam input
    let (params, input) ← decodeParams n input
    return (param :: params, input)

/-- The top bit of the command's header says whether a length follows. -/
def takeBodyLen (header : UInt8) (payload : Bytes) : Option (Option UInt64 × Bytes) :=
  if header.toNat ≥ 128 then
    (takeBytes 8 payload).map fun (len, payload) => (some (UInt64.ofNat (LittleEndian.value len)), payload)
  else some (none, payload)

def decodeBody (payload : Bytes) : Option Request := do
  let (header, payload) ← takeByte payload
  let (rawBodyLen, payload) ← takeBodyLen header payload
  let (command, payload) ← takeText (header.toNat % 128) payload
  let (count, payload) ← takeByte payload
  let (params, payload) ← decodeParams count.toNat payload
  if payload = [] then return ⟨command, params, rawBodyLen⟩
  none

/-- The first request of a stream, and what follows it. -/
def decodeRequest (input : Bytes) : Option (Request × Bytes) := do
  let (len, input) ← takeBytes 2 input
  let (payload, rest) ← takeBytes (LittleEndian.value len) input
  return (← decodeBody payload, rest)

/-! ## What the encoder lets through -/

@[simp]
theorem length_encodeValue (value : BinaryParamValue) : value.encode.length = value.wireLen := by
  cases value <;> simp [BinaryParamValue.encode, BinaryParamValue.wireLen, length_utf8]

@[simp]
theorem length_encodeParam (param : BinaryParam) :
    param.encode.length = 1 + param.name.utf8ByteSize + param.value.wireLen := by
  simp only [BinaryParam.encode, List.length_append, List.length_singleton, length_utf8, length_encodeValue]

theorem addPayloadLen_eq_ok {payloadLen n : Nat} {param : BinaryParam} :
    addPayloadLen payloadLen param = .ok n ↔
      param.name.utf8ByteSize ≤ maxParamNameLen ∧ n = payloadLen + param.encode.length := by
  unfold addPayloadLen
  rw [length_encodeParam]
  split
  · simp
    omega
  · simp only [Except.ok.injEq]
    omega

theorem payloadLen_eq_ok {params : List BinaryParam} {start n : Nat} :
    params.foldlM addPayloadLen start = .ok n ↔
      (∀ param ∈ params, param.name.utf8ByteSize ≤ maxParamNameLen) ∧
        n = start + (params.flatMap BinaryParam.encode).length := by
  induction params generalizing start with
  | nil =>
    simp only [List.foldlM_nil, List.flatMap_nil, List.length_nil, Nat.add_zero, List.not_mem_nil, false_implies,
      implies_true, true_and]
    exact ⟨fun h => (Except.ok.inj h).symm, fun h => congrArg Except.ok h.symm⟩
  | cons param params ih =>
    rw [List.foldlM_cons, List.flatMap_cons, List.length_append, List.forall_mem_cons]
    constructor
    · intro h
      cases hadd : addPayloadLen start param with
      | error e =>
        rw [hadd] at h
        cases h
      | ok next =>
        rw [hadd] at h
        obtain ⟨hname, rfl⟩ := addPayloadLen_eq_ok.mp hadd
        obtain ⟨hnames, rfl⟩ := ih.mp h
        exact ⟨⟨hname, hnames⟩, by omega⟩
    · rintro ⟨⟨hname, hnames⟩, rfl⟩
      rw [addPayloadLen_eq_ok.mpr ⟨hname, rfl⟩]
      exact ih.mpr ⟨hnames, by omega⟩

theorem length_encodeBody (command : String) (params : List BinaryParam) (rawBodyLen : Option UInt64) :
    (encodeBody command params rawBodyLen).length =
      command.utf8ByteSize + 2 + (if rawBodyLen.isSome then 8 else 0) +
        (params.flatMap BinaryParam.encode).length := by
  unfold encodeBody
  cases rawBodyLen <;>
    simp only [List.length_append, List.length_singleton, length_utf8, Option.elim_none, Option.elim_some,
      List.length_nil, length_toLeBytes, Option.isSome_none, Option.isSome_some, Bool.false_eq_true, if_false, if_true] <;>
    omega

theorem encodeRequest_eq_ok {command : String} {params : List BinaryParam} {rawBodyLen : Option UInt64}
    {encoded : EncodedRequest} (h : encodeRequest command params rawBodyLen = .ok encoded) :
    (∀ param ∈ params, param.name.utf8ByteSize ≤ maxParamNameLen) ∧
      (encodeBody command params rawBodyLen).length ≤ 65533 ∧
      encoded.bytes = u16ToLeBytes (UInt16.ofNat (encodeBody command params rawBodyLen).length) ++
        encodeBody command params rawBodyLen := by
  unfold encodeRequest at h
  split at h
  · cases h
  · split at h
    · cases h
    · rename_i payloadLen hlen
      obtain ⟨hnames, rfl⟩ := payloadLen_eq_ok.mp hlen
      rw [← length_encodeBody] at h
      unfold maxRequestFrameLen at h
      split at h
      · cases h
      · obtain rfl := Except.ok.inj h
        exact ⟨hnames, by omega, rfl⟩

/-! ## What the layout gives back -/

theorem takeBytes_append {bytes : Bytes} {n : Nat} (h : bytes.length = n) (rest : Bytes) :
    takeBytes n (bytes ++ rest) = some (bytes, rest) := by
  unfold takeBytes
  rw [if_pos (by simp [h]), List.take_left' h, List.drop_left' h]

theorem takeBytes_eq_some {n : Nat} {input bytes rest : Bytes} (h : takeBytes n input = some (bytes, rest)) :
    bytes.length = n ∧ input = bytes ++ rest := by
  unfold takeBytes at h
  split at h
  · cases h
    simp
    omega
  · cases h

@[simp]
theorem takeByte_cons (byte : UInt8) (input : Bytes) : takeByte (byte :: input) = some (byte, input) := rfl

theorem takeText_append {text : String} {n : Nat} (h : text.utf8ByteSize = n) (rest : Bytes) :
    takeText n (utf8 text ++ rest) = some (text, rest) := by
  unfold takeText
  rw [takeBytes_append (by rw [length_utf8, h])]
  simp

theorem utf8ByteSize_takeText {n : Nat} {input rest : Bytes} {text : String}
    (h : takeText n input = some (text, rest)) : text.utf8ByteSize = n := by
  unfold takeText at h
  simp only [Option.bind_eq_bind, Option.bind_eq_some_iff, Option.pure_def, Option.some.injEq, Prod.mk.injEq,
    Prod.exists] at h
  obtain ⟨bytes, rest', htake, text', htext, rfl, -⟩ := h
  rw [← length_utf8, fromUtf8_eq_some.mp htext]
  exact (takeBytes_eq_some htake).1

theorem decodeValue_encode (value : BinaryParamValue) (hlen : value.wireLen ≤ 65535) (rest : Bytes) :
    decodeValue value.paramType.toNat (value.encode ++ rest) = some (value, rest) := by
  unfold decodeValue BinaryParamValue.encode BinaryParamValue.paramType
  unfold BinaryParamValue.wireLen at hlen
  rcases value with text | word | flag
  · have hword : (UInt32.ofNat text.utf8ByteSize).toNat = text.utf8ByteSize := by
      rw [UInt32.toNat_ofNat']
      dsimp only at hlen
      omega
    simp only [UInt8.toNat_zero, List.append_assoc]
    rw [takeBytes_append (length_u32ToLeBytes _)]
    simp only [Option.bind_eq_bind, Option.bind_some, value_u32ToLeBytes, hword]
    rw [takeText_append rfl]
    rfl
  · simp only [UInt8.toNat_one]
    rw [takeBytes_append (length_toLeBytes word)]
    simp [value_toLeBytes]
  · cases flag <;> rfl

theorem paramHeader_fields (value : BinaryParamValue) {n : Nat} (h : n < 64) :
    (value.paramType <<< 6 ||| UInt8.ofNat n).toNat % 64 = n ∧
      (value.paramType <<< 6 ||| UInt8.ofNat n).toNat / 64 = value.paramType.toNat := by
  have hfields : ∀ paramType ∈ [(0 : UInt8), 1, 2], ∀ n < 64,
      (paramType <<< 6 ||| UInt8.ofNat n).toNat % 64 = n ∧
        (paramType <<< 6 ||| UInt8.ofNat n).toNat / 64 = paramType.toNat := by decide +kernel
  apply hfields _ _ n h
  cases value <;> simp [BinaryParamValue.paramType]

theorem decodeParam_encode {param : BinaryParam} (hname : param.name.utf8ByteSize ≤ maxParamNameLen)
    (hlen : param.value.wireLen ≤ 65535) (rest : Bytes) :
    decodeParam (param.encode ++ rest) = some (param, rest) := by
  unfold maxParamNameLen at hname
  obtain ⟨hlow, hhigh⟩ := paramHeader_fields param.value (show param.name.utf8ByteSize < 64 by omega)
  unfold decodeParam BinaryParam.encode
  simp only [List.append_assoc, List.cons_append, List.nil_append, takeByte_cons, Option.bind_eq_bind,
    Option.bind_some, hlow, hhigh]
  rw [takeText_append rfl]
  simp only [Option.bind_some]
  rw [decodeValue_encode _ hlen]
  rfl

theorem decodeParams_encode {params : List BinaryParam}
    (hnames : ∀ param ∈ params, param.name.utf8ByteSize ≤ maxParamNameLen)
    (hlen : (params.flatMap BinaryParam.encode).length ≤ 65535) (rest : Bytes) :
    decodeParams params.length (params.flatMap BinaryParam.encode ++ rest) = some (params, rest) := by
  induction params with
  | nil => rfl
  | cons param params ih =>
    rw [List.forall_mem_cons] at hnames
    rw [List.flatMap_cons, List.length_append, length_encodeParam] at hlen
    rw [List.length_cons, List.flatMap_cons, List.append_assoc]
    unfold decodeParams
    rw [decodeParam_encode hnames.1 (by omega)]
    simp only [Option.bind_eq_bind, Option.bind_some]
    rw [ih hnames.2 (by omega)]
    rfl

theorem length_decodeParams {n : Nat} {input rest : Bytes} {params : List BinaryParam}
    (h : decodeParams n input = some (params, rest)) : params.length = n := by
  induction n generalizing input params with
  | zero =>
    cases h
    rfl
  | succ n ih =>
    unfold decodeParams at h
    simp only [Option.bind_eq_bind, Option.bind_eq_some_iff, Option.pure_def, Option.some.injEq, Prod.mk.injEq,
      Prod.exists] at h
    obtain ⟨param, input', -, params', rest', hparams, rfl, rfl⟩ := h
    rw [List.length_cons, ih hparams]

theorem commandHeader_fields {n : Nat} (h : n < 128) (rawBodyLen : Option UInt64) (rest : Bytes) :
    let header := if rawBodyLen.isSome then UInt8.ofNat n ||| 0x80 else UInt8.ofNat n
    header.toNat % 128 = n ∧
      takeBodyLen header (rawBodyLen.elim [] toLeBytes ++ rest) = some (rawBodyLen, rest) := by
  have hfields : ∀ n < 128, (UInt8.ofNat n).toNat = n ∧ (UInt8.ofNat n ||| 0x80).toNat = 128 + n := by decide
  obtain ⟨hplain, hflagged⟩ := hfields n h
  unfold takeBodyLen
  rcases rawBodyLen with - | len
  · simp only [Option.isSome_none, Bool.false_eq_true, if_false, hplain, Option.elim_none, List.nil_append]
    rw [if_neg (by omega)]
    exact ⟨by omega, rfl⟩
  · simp only [Option.isSome_some, if_true, hflagged, Option.elim_some]
    rw [if_pos (by omega), takeBytes_append (length_toLeBytes len)]
    simp only [Option.map_some, value_toLeBytes, UInt64.ofNat_toNat, and_true]
    omega

theorem decodeBody_encode {command : String} {params : List BinaryParam} {rawBodyLen : Option UInt64}
    (hnames : ∀ param ∈ params, param.name.utf8ByteSize ≤ maxParamNameLen)
    (hlen : (encodeBody command params rawBodyLen).length ≤ 65533)
    (hcommand : command.utf8ByteSize ≤ 127) (hcount : params.length ≤ 255) :
    decodeBody (encodeBody command params rawBodyLen) = some ⟨command, params, rawBodyLen⟩ := by
  rw [length_encodeBody] at hlen
  have hparams := decodeParams_encode hnames (by omega) []
  rw [List.append_nil] at hparams
  have hcountByte : (UInt8.ofNat params.length).toNat = params.length := by
    rw [UInt8.toNat_ofNat']
    omega
  unfold decodeBody encodeBody
  obtain ⟨hheader, hbody⟩ := commandHeader_fields (show command.utf8ByteSize < 128 by omega) rawBodyLen
    (utf8 command ++ UInt8.ofNat params.length :: params.flatMap BinaryParam.encode)
  simp only [List.append_assoc, List.cons_append, List.nil_append, takeByte_cons, Option.bind_eq_bind,
    Option.bind_some, show params.length < 256 by omega, if_true, hbody, hheader]
  rw [takeText_append rfl]
  simp only [Option.bind_some, takeByte_cons, hcountByte, hparams, if_true, Option.pure_def]

theorem decodeBody_bounds {payload : Bytes} {request : Request} (h : decodeBody payload = some request) :
    request.command.utf8ByteSize ≤ 127 ∧ request.params.length ≤ 255 := by
  unfold decodeBody at h
  simp only [Option.bind_eq_bind, Option.bind_eq_some_iff, Prod.exists] at h
  obtain ⟨header, payload₁, -, rawBodyLen, payload₂, -, command, payload₃, hcommand, count, payload₄, -, params,
    payload₅, hparams, h⟩ := h
  split at h
  · obtain rfl := Option.some.inj h
    constructor
    · rw [utf8ByteSize_takeText hcommand]
      omega
    · have hcount := count.toNat_lt
      rw [length_decodeParams hparams]
      omega
  · cases h

theorem decodeRequest_framed {body : Bytes} (hlen : body.length ≤ 65533) (rest : Bytes) :
    decodeRequest (u16ToLeBytes (UInt16.ofNat body.length) ++ body ++ rest) =
      (decodeBody body).map fun request => (request, rest) := by
  have hword : (UInt16.ofNat body.length).toNat = body.length := by
    rw [UInt16.toNat_ofNat']
    omega
  unfold decodeRequest
  rw [List.append_assoc, takeBytes_append (length_u16ToLeBytes _)]
  simp only [Option.bind_eq_bind, Option.bind_some, value_u16ToLeBytes, hword]
  rw [takeBytes_append rfl]
  simp only [Option.bind_some]
  cases decodeBody body <;> rfl

theorem decode_encode_iff {command : String} {params : List BinaryParam} {rawBodyLen : Option UInt64}
    {encoded : EncodedRequest} (h : encodeRequest command params rawBodyLen = .ok encoded) :
    (∀ rest, decodeRequest (encoded.bytes ++ rest) = some (⟨command, params, rawBodyLen⟩, rest)) ↔
      command.utf8ByteSize ≤ 127 ∧ params.length ≤ 255 := by
  obtain ⟨hnames, hlen, hbytes⟩ := encodeRequest_eq_ok h
  rw [hbytes]
  constructor
  · intro hdecode
    have hbody := hdecode []
    rw [decodeRequest_framed hlen, Option.map_eq_some_iff] at hbody
    obtain ⟨request, hrequest, heq⟩ := hbody
    obtain rfl : request = ⟨command, params, rawBodyLen⟩ := congrArg Prod.fst heq
    exact decodeBody_bounds hrequest
  · rintro ⟨hcommand, hcount⟩ rest
    rw [decodeRequest_framed hlen, decodeBody_encode hnames hlen hcommand hcount]
    rfl

/-- `login` with a name. -/
theorem decode_encode_iff_login :
    (∀ rest, decodeRequest ([19, 0, 5, 108, 111, 103, 105, 110, 1, 4, 117, 115, 101, 114, 3, 0, 0, 0, 97, 110, 110] ++ rest) =
        some (⟨"login", [⟨"user", .string "ann"⟩], none⟩, rest)) ↔
      "login".utf8ByteSize ≤ 127 ∧ [(⟨"user", .string "ann"⟩ : BinaryParam)].length ≤ 255 :=
  @decode_encode_iff "login" [⟨"user", .string "ann"⟩] none
    ⟨⟨"login", 1⟩, [⟨"user", .string "ann"⟩],
      [19, 0, 5, 108, 111, 103, 105, 110, 1, 4, 117, 115, 101, 114, 3, 0, 0, 0, 97, 110, 110]⟩ (by decide +kernel)

/-- A command of 128 letters reads as one of no letters and a raw body, and 256 parameters as 255 with
something after them. -/
theorem encode_ambiguous :
    (encodeRequest (String.ofList (List.replicate 128 'a')) [] none).map (fun encoded => decodeRequest encoded.bytes) =
        .ok none ∧
      (encodeRequest "x" (List.replicate 256 ⟨"", .bool true⟩) none).map (fun encoded => decodeRequest encoded.bytes) =
        .ok none := by
  constructor <;> decide +kernel

end Pcloud
