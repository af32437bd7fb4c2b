import Pcloud.Ipc.Protocol

/-!
# One connection (`pcloud-ipc/src/{transport,server,client,auth}.rs`)

What a client sends comes as bytes that end early or go on too long, and a client may stop
reading. The handler has a state, so that a call of it leaves a trace.
-/

namespace Pcloud.Ipc

def MAX_REQUEST_BYTES : Nat := 1024 * 1024

structure PeerIdentity where
  uid : UInt32
  pid : UInt32
deriving DecidableEq, Repr

def PeerIdentity.matchesOwner (peer : PeerIdentity) (ownerUid : UInt32) : Bool := peer.uid == ownerUid

/-- How a read fails past the end of what has come. -/
inductive ErrorKind
  | timedOut
  | wouldBlock
  | unexpectedEof
  | connectionReset
  | brokenPipe
  | interrupted
  | other
deriving DecidableEq, Repr

inductive IpcTransportError
  | io (kind : ErrorKind)
  | protocol (err : ProtocolError)
  | requestTooLarge (declared max : Nat)
deriving DecidableEq, Repr

/-- `room` is how much the client still takes; `none` is a client that takes everything. -/
structure Stream where
  incoming : Bytes
  ends : ErrorKind := .unexpectedEof
  room : Option Nat := none
  outgoing : Bytes := []
  closed : Bool := false

namespace Stream

variable (stream : Stream)

def readExact (n : Nat) : Except ErrorKind Bytes × Stream :=
  if n ≤ stream.incoming.length then
    (.ok (stream.incoming.take n), { stream with incoming := stream.incoming.drop n })
  else (.error stream.ends, { stream with incoming := [] })

/-- The writes are the last use of a stream, and their errors are not looked at. -/
def writeAll (bytes : Bytes) : Stream :=
  match stream.room with
  | none => { stream with outgoing := stream.outgoing ++ bytes }
  | some room => { stream with outgoing := stream.outgoing ++ bytes.take room, room := some (room - bytes.length) }

end Stream

section
variable {ρ σ : Type} (json : Codec ρ) (ownerUid : UInt32) (peer : PeerIdentity) (stream : Stream)

def readFramedRequest : Except IpcTransportError Bytes × Stream :=
  match stream.readExact 8 with
  | (.error kind, stream) => (.error (.io kind), stream)
  | (.ok header, stream) =>
    let payloadLen := LittleEndian.value (header.take 4)
    if MAX_REQUEST_BYTES < payloadLen then (.error (.requestTooLarge payloadLen MAX_REQUEST_BYTES), stream)
    else
      match stream.readExact payloadLen with
      | (.error kind, stream) => (.error (.io kind), stream)
      | (.ok payload, stream) => (.ok (header ++ payload), stream)

/-- A response that cannot be encoded is not sent. -/
def writeResponse (response : Response) : Stream :=
  match encodeResponse json response with
  | .error _ => stream
  | .ok bytes => stream.writeAll bytes

def handleClientError (err : IpcTransportError) : Except IpcTransportError Unit × Stream :=
  match err with
  | .requestTooLarge _ _ => (.ok (), { stream with closed := true })
  | .protocol err => (.ok (), writeResponse json stream ⟨.invalidRequest, err.text⟩)
  | .io .interrupted => (.error err, stream)
  | .io .other => (.error err, stream)
  | .io _ => (.ok (), stream)

def unauthorized : Response := ⟨.unauthorized, s!"unauthorized peer uid={peer.uid}, pid={peer.pid}"⟩

/-- What comes before the handler: a request for it, or an end without it. -/
inductive Received (ρ : Type) where
  | request (request : ρ) (stream : Stream)
  | ended (result : Except IpcTransportError Unit) (stream : Stream)

def Received.ofEnd (ended : Except IpcTransportError Unit × Stream) : Received ρ := .ended ended.1 ended.2

def receive : Received ρ :=
  if !peer.matchesOwner ownerUid then
    .ended (.ok ()) (writeResponse json (readFramedRequest stream).2 (unauthorized peer))
  else
    match readFramedRequest stream with
    | (.error err, stream) => .ofEnd (handleClientError json stream err)
    | (.ok bytes, stream) =>
      match decodeEnvelope json bytes with
      | .error err => .ofEnd (handleClientError json stream (.protocol err))
      | .ok envelope => .request envelope.request stream

/-- `serve_stream_once_with_peer`. -/
def serveStream (handler : σ → ρ → σ × Response) (state : σ) : σ × Except IpcTransportError Unit × Stream :=
  match receive json ownerUid peer stream with
  | .ended result stream => (state, result, stream)
  | .request request stream =>
    let (state, response) := handler state request
    (state, .ok (), writeResponse json stream response)

/-- `IpcClient::send_envelope` over a connection that loses nothing: the request is sent whole, and
the answer is read to its end. -/
def sendEnvelope (handler : σ → ρ → σ × Response) (state : σ) (envelope : RequestEnvelope ρ) :
    σ × Except ProtocolError Response :=
  match encodeRequest json envelope with
  | .error err => (state, .error err)
  | .ok bytes =>
    let (state, _, stream) := serveStream json ownerUid peer { incoming := bytes } handler state
    (state, parseResponse json stream.outgoing)

/-- What the client makes of a response that was to be sent. -/
def delivered (response : Response) : Except ProtocolError Response :=
  match encodeResponse json response with
  | .error _ => .error .truncatedHeader
  | .ok _ => .ok response

end

/-! ## What is read -/

variable {ρ σ : Type} {json : Codec ρ} {ownerUid : UInt32} {peer : PeerIdentity} {stream : Stream}

theorem readExact_append {bytes rest : Bytes} (h : stream.incoming = bytes ++ rest) :
    stream.readExact bytes.length = (.ok bytes, { stream with incoming := rest }) := by
  have hle : bytes.length ≤ stream.incoming.length := by simp [h]
  unfold Stream.readExact
  rw [if_pos hle, h, List.take_left, List.drop_left]

theorem readFramedRequest_frame {payload rest : Bytes} {tag : Nat} (hfits : payload.length ≤ MAX_IPC_PAYLOAD_LEN)
    (h : stream.incoming = (LittleEndian.digits 4 payload.length ++
      LittleEndian.digits 2 IPC_PROTOCOL_VERSION ++ LittleEndian.digits 2 tag ++ payload) ++ rest) :
    readFramedRequest stream = (.ok (LittleEndian.digits 4 payload.length ++
      LittleEndian.digits 2 IPC_PROTOCOL_VERSION ++ LittleEndian.digits 2 tag ++ payload),
      { stream with incoming := rest }) := by
  have hheader : stream.incoming = (LittleEndian.digits 4 payload.length ++
      LittleEndian.digits 2 IPC_PROTOCOL_VERSION ++ LittleEndian.digits 2 tag) ++ (payload ++ rest) := by
    rw [h, List.append_assoc]
  have hlength : (LittleEndian.digits 4 payload.length ++ LittleEndian.digits 2 IPC_PROTOCOL_VERSION ++
      LittleEndian.digits 2 tag).length = 8 := by simp
  have hlen : LittleEndian.value ((LittleEndian.digits 4 payload.length ++
      LittleEndian.digits 2 IPC_PROTOCOL_VERSION ++ LittleEndian.digits 2 tag).take 4) = payload.length := by
    rw [List.append_assoc, List.take_left' (LittleEndian.length_digits 4 payload.length)]
    apply LittleEndian.value_digits_of_lt
    unfold MAX_IPC_PAYLOAD_LEN at hfits
    omega
  have hread := readExact_append hheader
  rw [hlength] at hread
  unfold readFramedRequest
  rw [hread]
  dsimp only
  rw [hlen, if_neg (show ¬ MAX_REQUEST_BYTES < payload.length from Nat.not_lt.mpr hfits)]
  rw [readExact_append (show ({ stream with incoming := payload ++ rest } : Stream).incoming = payload ++ rest
    from rfl)]

theorem readFramedRequest_encoded {envelope : RequestEnvelope ρ} {bytes rest : Bytes}
    (hencoded : encodeRequest json envelope = .ok bytes) (h : stream.incoming = bytes ++ rest) :
    readFramedRequest stream = (.ok bytes, { stream with incoming := rest }) := by
  unfold encodeRequest at hencoded
  split at hencoded
  · cases hencoded
  · obtain ⟨hfits, rfl⟩ := encodeFrame_eq_ok.mp hencoded
    exact readFramedRequest_frame hfits h

theorem receive_eq_request {request : ρ} {stream' : Stream}
    (h : receive json ownerUid peer stream = .request request stream') :
    peer.uid = ownerUid ∧ ∃ bytes envelope, readFramedRequest stream = (.ok bytes, stream') ∧
      decodeEnvelope json bytes = .ok envelope ∧ envelope.request = request := by
  unfold receive at h
  split at h
  · cases h
  · rename_i howner
    have huid : peer.uid = ownerUid := by
      simpa [PeerIdentity.matchesOwner] using howner
    split at h
    · cases h
    · rename_i bytes stream'' hread
      split at h
      · cases h
      · rename_i envelope hdecoded
        simp only [Received.request.injEq] at h
        obtain ⟨rfl, rfl⟩ := h
        exact ⟨huid, bytes, envelope, hread, hdecoded, rfl⟩

/-- A call is answered with what the handler answers, for the owner, and without the handler for
everyone else. Only an answer that does not fit a frame is lost, and then the client sees an end
where the header should be. -/
theorem sendEnvelope_eq (hlawful : json.Lawful) (ownerUid : UInt32) (peer : PeerIdentity)
    (handler : σ → ρ → σ × Response) (state : σ) {envelope : RequestEnvelope ρ} {bytes : Bytes}
    (hencoded : encodeRequest json envelope = .ok bytes) :
    sendEnvelope json ownerUid peer handler state envelope =
      if peer.uid = ownerUid then
        ((handler state envelope.request).1, delivered json (handler state envelope.request).2)
      else (state, delivered json (unauthorized peer)) := by
  have hread : readFramedRequest { incoming := bytes } = (.ok bytes, { incoming := [] }) :=
    @readFramedRequest_encoded ρ json { incoming := bytes } envelope bytes [] hencoded (List.append_nil bytes).symm
  have hdelivered : ∀ response : Response,
      parseResponse json (writeResponse json { incoming := [] } response).outgoing = delivered json response := by
    intro response
    unfold writeResponse delivered
    cases hresponse : encodeResponse json response with
    | error err => rfl
    | ok answer => exact parseResponse_encodeResponse hlawful hresponse
  unfold sendEnvelope serveStream receive
  rw [hencoded]
  dsimp only
  by_cases howner : peer.uid = ownerUid
  · have hmatch : peer.matchesOwner ownerUid = true := by simp [PeerIdentity.matchesOwner, howner]
    simp only [hmatch, hread, decodeEnvelope_encodeRequest hlawful hencoded, howner, Bool.not_true,
      Bool.false_eq_true, if_false, if_true, hdelivered]
  · have hmatch : peer.matchesOwner ownerUid = false := by simp [PeerIdentity.matchesOwner, howner]
    simp only [hmatch, hread, howner, Bool.not_false, if_false, if_true, hdelivered]

def jsonBytes (text : String) : Bytes := text.toList.map fun c => UInt8.ofNat c.toNat

def healthRequest : Bytes := jsonBytes "\x7b\"request\":\x7b\"Plain\":\x7b\"method\":\"GetHealth\"\x7d\x7d\x7d"

def healthAnswer : Bytes := jsonBytes "\x7b\"status\":\"Ok\",\"message\":\"ok\"\x7d"

/-- The JSON of `GetHealth` and of its answer, and of nothing else. -/
def healthCodec {ρ : Type} [DecidableEq ρ] (getHealth : ρ) : Codec ρ where
  envelopeToVec envelope := if envelope = ⟨getHealth, none⟩ then .ok healthRequest else .error "not GetHealth"
  envelopeFromSlice bytes := if bytes = healthRequest then .ok ⟨getHealth, none⟩ else .error "not GetHealth"
  requestFromSlice bytes :=
    if bytes = jsonBytes "\x7b\"Plain\":\x7b\"method\":\"GetHealth\"\x7d\x7d" then .ok getHealth
    else .error "not GetHealth"
  responseToVec response := if response = ⟨.ok, "ok"⟩ then .ok healthAnswer else .error "not ok"
  responseFromSlice bytes := if bytes = healthAnswer then .ok ⟨.ok, "ok"⟩ else .error "not ok"

theorem healthCodec_lawful [DecidableEq ρ] (getHealth : ρ) : (healthCodec getHealth).Lawful where
  envelope envelope bytes h := by
    simp only [healthCodec] at h ⊢
    split at h
    · rename_i hsame
      rw [← Except.ok.inj h, hsame, if_pos rfl]
    · cases h
  response response bytes h := by
    simp only [healthCodec] at h ⊢
    split at h
    · rename_i hsame
      rw [← Except.ok.inj h, hsame, if_pos rfl]
    · cases h

theorem sendEnvelope_eq_health :
    sendEnvelope (healthCodec ()) 501 ⟨501, 4242⟩ (fun calls _ => (calls + 1, ⟨.ok, "ok"⟩)) 0 ⟨(), none⟩ =
      (1, .ok ⟨.ok, "ok"⟩) := by
  have hencoded : encodeRequest (healthCodec ()) ⟨(), none⟩ = .ok _ := encodeFrame_eq_ok.mpr ⟨by decide, rfl⟩
  rw [sendEnvelope_eq (healthCodec_lawful ()) 501 ⟨501, 4242⟩ (fun calls _ => (calls + 1, ⟨.ok, "ok"⟩)) 0 hencoded]
  rfl

end Pcloud.Ipc
