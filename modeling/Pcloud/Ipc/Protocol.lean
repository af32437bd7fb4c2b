import Pcloud.Model.Bytes

/-!
# Frames between client and daemon

A frame is a header of eight bytes and a payload of JSON. How requests and responses look as
JSON is settled by their derived codecs, which are a parameter here.
-/

namespace Pcloud.Ipc

def IPC_PROTOCOL_VERSION : Nat := 1

def MIN_ACCEPTED_IPC_PROTOCOL_VERSION : Nat := 1

def MAX_IPC_PAYLOAD_LEN : Nat := 1024 * 1024

inductive MessageKind
  | request
  | response
  | event
deriving DecidableEq, Repr

def MessageKind.tag : MessageKind → Nat
  | .request => 1
  | .response => 2
  | .event => 3

/-- Unknown tags are those of events. -/
def MessageKind.ofTag : Nat → MessageKind
  | 1 => .request
  | 2 => .response
  | _ => .event

structure FrameHeader where
  version : Nat
  messageType : MessageKind
  payloadLen : Nat
deriving DecidableEq, Repr

structure Frame (α : Type) where
  header : FrameHeader
  payload : α

inductive ProtocolError
  | truncatedHeader
  | payloadTooLarge
  | versionMismatch (expected actual : Nat)
  | codec (message : String)
deriving DecidableEq, Repr

def ProtocolError.text : ProtocolError → String
  | .truncatedHeader => "frame header is truncated"
  | .payloadTooLarge => "payload exceeds maximum IPC payload length"
  | .versionMismatch expected actual => s!"invalid protocol version: expected {expected}, got {actual}"
  | .codec message => "json codec failure: " ++ message

inductive ResponseStatus
  | ok
  | invalidRequest
  | unauthorized
  | conflict
  | unavailable
  | internalError
  | policyViolation (kind : String)
deriving DecidableEq, Repr

structure Response where
  status : ResponseStatus
  message : String
deriving DecidableEq, Repr

/-- The methods that the gates before the handler know, and the others by number. -/
inductive Method
  | drainStatus
  | shutdown
  | getHealth
  | health
  | haStatus
  | other (index : Nat)
deriving DecidableEq, Repr

/-- The requests other than `Plain` carry what no gate looks at. -/
inductive Request (π : Type) where
  | plain (method : Method)
  | carrying (payload : π)
deriving DecidableEq

structure RequestEnvelope (ρ : Type) where
  request : ρ
  traceparent : Option String := none
deriving DecidableEq

/-- The JSON of requests, of their envelopes and of responses. An error is its text. -/
structure Codec (ρ : Type) where
  envelopeToVec : RequestEnvelope ρ → Except String Bytes
  envelopeFromSlice : Bytes → Except String (RequestEnvelope ρ)
  requestFromSlice : Bytes → Except String ρ
  responseToVec : Response → Except String Bytes
  responseFromSlice : Bytes → Except String Response

/-- What the derived codecs promise: the JSON of a value is read back as the value. -/
structure Codec.Lawful {ρ : Type} (json : Codec ρ) : Prop where
  envelope : ∀ envelope bytes, json.envelopeToVec envelope = .ok bytes → json.envelopeFromSlice bytes = .ok envelope
  response : ∀ response bytes, json.responseToVec response = .ok bytes → json.responseFromSlice bytes = .ok response

/-! ## Encoding -/

section
variable {ρ α : Type} (json : Codec ρ)

def encodeFrame (kind : MessageKind) (payload : Bytes) : Except ProtocolError Bytes :=
  if MAX_IPC_PAYLOAD_LEN < payload.length then .error .payloadTooLarge
  else .ok (LittleEndian.digits 4 payload.length ++ LittleEndian.digits 2 IPC_PROTOCOL_VERSION ++
    LittleEndian.digits 2 kind.tag ++ payload)

def encodeRequest (envelope : RequestEnvelope ρ) : Except ProtocolError Bytes :=
  match json.envelopeToVec envelope with
  | .error message => .error (.codec message)
  | .ok payload => encodeFrame .request payload

def encodeResponse (response : Response) : Except ProtocolError Bytes :=
  match json.responseToVec response with
  | .error message => .error (.codec message)
  | .ok payload => encodeFrame .response payload

/-! ## Decoding -/

def decodeHeader (bytes : Bytes) : Except ProtocolError (Nat × Nat × Nat) :=
  if bytes.length < 8 then .error .truncatedHeader
  else .ok (LittleEndian.value (bytes.take 4), LittleEndian.value ((bytes.drop 4).take 2),
    LittleEndian.value ((bytes.drop 6).take 2))

/-- Requests and responses differ in how the payload is read. -/
def decodeFrame (read : Bytes → Except String α) (bytes : Bytes) : Except ProtocolError (Frame α) :=
  match decodeHeader bytes with
  | .error err => .error err
  | .ok (payloadLen, version, messageType) =>
    if version < MIN_ACCEPTED_IPC_PROTOCOL_VERSION ∨ IPC_PROTOCOL_VERSION < version then
      .error (.versionMismatch IPC_PROTOCOL_VERSION version)
    else
      let payload := bytes.drop 8
      if MAX_IPC_PAYLOAD_LEN < payload.length ∨ payload.length ≠ payloadLen then .error .payloadTooLarge
      else
        match read payload with
        | .error message => .error (.codec message)
        | .ok value => .ok ⟨⟨version, .ofTag messageType, payloadLen⟩, value⟩

/-- Clients from before the envelope send the bare request. -/
def tryFromWire (bytes : Bytes) : Except String (RequestEnvelope ρ) :=
  match json.envelopeFromSlice bytes with
  | .ok envelope => .ok envelope
  | .error envelopeErr =>
    match json.requestFromSlice bytes with
    | .ok request => .ok ⟨request, none⟩
    | .error _ => .error envelopeErr

def decodeRequest (bytes : Bytes) : Except ProtocolError (Frame (RequestEnvelope ρ)) :=
  decodeFrame (tryFromWire json) bytes

def decodeResponse (bytes : Bytes) : Except ProtocolError (Frame Response) :=
  decodeFrame json.responseFromSlice bytes

/-- `IpcServer::decode_envelope`. -/
def decodeEnvelope (bytes : Bytes) : Except ProtocolError (RequestEnvelope ρ) := do
  let frame ← decodeRequest json bytes
  return frame.payload

/-- `IpcClient::parse_response`. -/
def parseResponse (bytes : Bytes) : Except ProtocolError Response := do
  let frame ← decodeResponse json bytes
  return frame.payload

end

/-! ## What is written is read -/

variable {ρ α : Type} {json : Codec ρ} {kind : MessageKind} {payload bytes : Bytes}

theorem encodeFrame_eq_ok : encodeFrame kind payload = .ok bytes ↔
    payload.length ≤ MAX_IPC_PAYLOAD_LEN ∧
    bytes = LittleEndian.digits 4 payload.length ++ LittleEndian.digits 2 IPC_PROTOCOL_VERSION ++
      LittleEndian.digits 2 kind.tag ++ payload := by
  unfold encodeFrame
  split
  · rename_i hlong
    simp only [reduceCtorEq, false_iff]
    omega
  · rename_i hfits
    rw [Except.ok.injEq]
    constructor
    · rintro rfl
      exact ⟨Nat.le_of_not_lt hfits, rfl⟩
    · rintro ⟨-, rfl⟩
      rfl

theorem ofTag_tag (kind : MessageKind) : MessageKind.ofTag kind.tag = kind := by
  cases kind <;> rfl

section
variable {len version tag : Bytes}

theorem header_parts (hlen : len.length = 4) (hversion : version.length = 2) (htag : tag.length = 2) (rest : Bytes) :
    (len ++ version ++ tag ++ rest).take 4 = len ∧ ((len ++ version ++ tag ++ rest).drop 4).take 2 = version ∧
    ((len ++ version ++ tag ++ rest).drop 6).take 2 = tag ∧ (len ++ version ++ tag ++ rest).drop 8 = rest := by
  have hsix : (len ++ version).length = 6 := by rw [List.length_append, hlen, hversion]
  have height : (len ++ version ++ tag).length = 8 := by rw [List.length_append, hsix, htag]
  refine ⟨?_, ?_, ?_, List.drop_left' height⟩
  · rw [List.append_assoc, List.append_assoc]
    exact List.take_left' hlen
  · rw [List.append_assoc, List.append_assoc, List.drop_left' hlen]
    exact List.take_left' hversion
  · rw [List.append_assoc, List.drop_left' hsix]
    exact List.take_left' htag

theorem header_split (bytes : Bytes) :
    bytes = bytes.take 4 ++ (bytes.drop 4).take 2 ++ (bytes.drop 6).take 2 ++ bytes.drop 8 := by
  have htail : (bytes.drop 6).take 2 ++ bytes.drop 8 = bytes.drop 6 := by
    have h := List.take_append_drop 2 (bytes.drop 6)
    rwa [List.drop_drop] at h
  have hmiddle : (bytes.drop 4).take 2 ++ bytes.drop 6 = bytes.drop 4 := by
    have h := List.take_append_drop 2 (bytes.drop 4)
    rwa [List.drop_drop] at h
  rw [List.append_assoc, htail, List.append_assoc, hmiddle, List.take_append_drop]

end

theorem decodeHeader_frame (hfits : payload.length ≤ MAX_IPC_PAYLOAD_LEN) {tag : Nat} (htag : tag < 256 ^ 2) :
    decodeHeader (LittleEndian.digits 4 payload.length ++ LittleEndian.digits 2 IPC_PROTOCOL_VERSION ++
      LittleEndian.digits 2 tag ++ payload) = .ok (payload.length, IPC_PROTOCOL_VERSION, tag) := by
  obtain ⟨hlen, hversion, hkind, -⟩ := header_parts (LittleEndian.length_digits 4 payload.length)
    (LittleEndian.length_digits 2 IPC_PROTOCOL_VERSION) (LittleEndian.length_digits 2 tag) payload
  have hvalue : LittleEndian.value (LittleEndian.digits 4 payload.length) = payload.length := by
    apply LittleEndian.value_digits_of_lt
    unfold MAX_IPC_PAYLOAD_LEN at hfits
    omega
  have hlong : ¬ (LittleEndian.digits 4 payload.length ++ LittleEndian.digits 2 IPC_PROTOCOL_VERSION ++
      LittleEndian.digits 2 tag ++ payload).length < 8 := by
    simp only [List.length_append, LittleEndian.length_digits]
    omega
  unfold decodeHeader
  rw [if_neg hlong, hlen, hversion, hkind, hvalue, LittleEndian.value_digits_of_lt htag,
    LittleEndian.value_digits_of_lt (show IPC_PROTOCOL_VERSION < 256 ^ 2 by decide)]

theorem decodeFrame_eq_ok {read : Bytes → Except String α} {value : α} {header : FrameHeader} :
    decodeFrame read bytes = .ok ⟨header, value⟩ ↔
      ∃ tag payload, tag < 256 ^ 2 ∧ payload.length ≤ MAX_IPC_PAYLOAD_LEN ∧ read payload = .ok value ∧
        header = ⟨IPC_PROTOCOL_VERSION, .ofTag tag, payload.length⟩ ∧
        bytes = LittleEndian.digits 4 payload.length ++ LittleEndian.digits 2 IPC_PROTOCOL_VERSION ++
          LittleEndian.digits 2 tag ++ payload := by
  constructor
  · intro h
    unfold decodeFrame decodeHeader at h
    split at h
    · cases h
    · rename_i payloadLen version messageType hheader
      split at hheader
      · cases hheader
      · rename_i hlong
        simp only [Except.ok.injEq, Prod.mk.injEq] at hheader
        obtain ⟨rfl, rfl, rfl⟩ := hheader
        split at h
        · cases h
        · rename_i hwindow
          dsimp only at h
          split at h
          · cases h
          · rename_i hpayload
            split at h
            · cases h
            · rename_i value' hread
              simp only [Except.ok.injEq, Frame.mk.injEq] at h
              obtain ⟨rfl, rfl⟩ := h
              have hversion : LittleEndian.value ((bytes.drop 4).take 2) = IPC_PROTOCOL_VERSION := by
                unfold MIN_ACCEPTED_IPC_PROTOCOL_VERSION IPC_PROTOCOL_VERSION at *
                omega
              have hlen : (bytes.drop 8).length = LittleEndian.value (bytes.take 4) := by omega
              have htake4 : (bytes.take 4).length = 4 := List.length_take_of_le (by omega)
              have htake2 : ((bytes.drop 4).take 2).length = 2 :=
                List.length_take_of_le (by rw [List.length_drop]; omega)
              have htag : ((bytes.drop 6).take 2).length = 2 :=
                List.length_take_of_le (by rw [List.length_drop]; omega)
              refine ⟨LittleEndian.value ((bytes.drop 6).take 2), bytes.drop 8, ?_, by omega, hread, ?_, ?_⟩
              · have hlt := LittleEndian.value_lt ((bytes.drop 6).take 2)
                rwa [htag] at hlt
              · rw [hversion, hlen]
              · have hdigits4 := LittleEndian.digits_value (bytes.take 4)
                have hdigits2 := LittleEndian.digits_value ((bytes.drop 4).take 2)
                have hdigitsTag := LittleEndian.digits_value ((bytes.drop 6).take 2)
                rw [htake4] at hdigits4
                rw [htake2] at hdigits2
                rw [htag] at hdigitsTag
                rw [hlen, ← hversion, hdigits4, hdigits2, hdigitsTag]
                exact header_split bytes
  · rintro ⟨tag, payload, htag, hfits, hread, rfl, rfl⟩
    obtain ⟨-, -, -, hdrop⟩ := header_parts (LittleEndian.length_digits 4 payload.length)
      (LittleEndian.length_digits 2 IPC_PROTOCOL_VERSION) (LittleEndian.length_digits 2 tag) payload
    unfold decodeFrame
    rw [decodeHeader_frame hfits htag]
    dsimp only
    rw [if_neg (by decide), hdrop, if_neg (by omega), hread]

theorem decodeFrame_encodeFrame (read : Bytes → Except String α) {value : α}
    (hframe : encodeFrame kind payload = .ok bytes) (hread : read payload = .ok value) :
    decodeFrame read bytes = .ok ⟨⟨IPC_PROTOCOL_VERSION, kind, payload.length⟩, value⟩ := by
  obtain ⟨hfits, rfl⟩ := encodeFrame_eq_ok.mp hframe
  exact decodeFrame_eq_ok.mpr ⟨kind.tag, payload, by cases kind <;> decide, hfits, hread, by rw [ofTag_tag], rfl⟩

theorem decodeEnvelope_encodeRequest (hlawful : json.Lawful) {envelope : RequestEnvelope ρ}
    (h : encodeRequest json envelope = .ok bytes) : decodeEnvelope json bytes = .ok envelope := by
  unfold encodeRequest at h
  split at h
  · cases h
  · rename_i payload hpayload
    have hread : tryFromWire json payload = .ok envelope := by
      unfold tryFromWire
      rw [hlawful.envelope envelope payload hpayload]
    unfold decodeEnvelope decodeRequest
    rw [decodeFrame_encodeFrame _ h hread]
    rfl

theorem parseResponse_encodeResponse (hlawful : json.Lawful) {response : Response}
    (h : encodeResponse json response = .ok bytes) : parseResponse json bytes = .ok response := by
  unfold encodeResponse at h
  split at h
  · cases h
  · rename_i payload hpayload
    unfold parseResponse decodeResponse
    rw [decodeFrame_encodeFrame _ h (hlawful.response response payload hpayload)]
    rfl

end Pcloud.Ipc
