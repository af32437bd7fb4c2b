import Pcloud.Engine.Normalize
import Pcloud.Lib.Packets
import Pcloud.Model.Bytes

/-!
# Signed downloads (`pcloud-proto/src/http_download.rs`)

One request and its answer. The head of the answer is read byte by byte, the body in pieces, each
piece going to the sink and to the hasher. What was written before a failure stays in the sink.
-/

namespace Pcloud

/-- What can go wrong before the request is out. -/
inductive ConnectError
  | invalidAddress
  | connect
  | socketConfig
  | io
  | tls
  | invalidServerName
deriving DecidableEq

/-- Durations in milliseconds. -/
inductive HttpDownloadError
  | notConnected (e : ConnectError)
  | io
  | headerTooLarge
  | bodyTooLarge
  | httpStatus (status : Nat)
  | retryAfter (delay : Nat)
  | totalTimeoutExceeded
  | malformed (what : String)
  | integrityMismatch (expected actual : String)
deriving DecidableEq

structure SignedDownload where
  range : Option (Nat × Nat) := none
  host : String
  port : Option Nat
  path : String
  dwltag : Option String
deriving DecidableEq

structure HttpDownloadConfig where
  useTls : Bool := true
  maxHeaderBytes : Nat := 16 * 1024
  maxBodyBytes : Nat := 64 * 1024 * 1024

def streamReadBuf : Nat := 64 * 1024

/-! ## The connection -/

/-- A connection with what the server sends on it, and what went to the sink and to the hasher.
`checks` deadline checks pass, or all of them. -/
structure Transfer where
  packets : List Bytes
  broken : Bool := false
  checks : Option Nat := none
  written : Bytes := []
  hashed : Bytes := []

abbrev Fetch := ExceptT HttpDownloadError (StateM Transfer)

namespace Fetch

def exec {α : Type} (x : Fetch α) (s : Transfer) : Except HttpDownloadError α × Transfer := x.run s

/-- `Read::read` with a buffer of `want` bytes: nothing at the end of the stream. -/
def read (want : Nat) : Fetch Bytes := do
  let s ← get
  if s.packets.isEmpty && s.broken then throw .io
  let (bytes, packets) := Packets.read want s.packets
  set { s with packets }
  pure bytes

def checkDeadline : Fetch Unit := do
  let s ← get
  match s.checks with
  | none => pure ()
  | some 0 => throw .totalTimeoutExceeded
  | some (checks + 1) => set { s with checks := some checks }

def emit (bytes : Bytes) : Fetch Unit :=
  modify fun s => { s with written := s.written ++ bytes, hashed := s.hashed ++ bytes }

/-- The number of bytes to come. -/
def incoming : Fetch Nat := do
  let s ← get
  pure s.packets.flatten.length

end Fetch

/-! ## The head -/

/-- `from_str_radix` and `parse` of an unsigned type. -/
def parseUnsigned (radix max : Nat) (text : List Char) : Option Nat :=
  let digits := match text with
    | '+' :: digits => digits
    | digits => digits
  if digits.isEmpty then none
  else (digits.foldlM (fun value c => (digitOf c).map fun digit => value * radix + digit) 0).filter (· ≤ max)
where
  digitOf (c : Char) : Option Nat :=
    let digit :=
      if '0' ≤ c ∧ c ≤ '9' then c.toNat - '0'.toNat
      else if 'a' ≤ c ∧ c ≤ 'z' then c.toNat - 'a'.toNat + 10
      else if 'A' ≤ c ∧ c ≤ 'Z' then c.toNat - 'A'.toNat + 10
      else radix
    if digit < radix then some digit else none

/-- `split("\r\n")`. -/
def splitCrlf : List Char → List (List Char)
  | [] => [[]]
  | '\r' :: '\n' :: rest => [] :: splitCrlf rest
  | c :: rest =>
    match splitCrlf rest with
    | [] => [[c]]
    | line :: lines => (c :: line) :: lines

/-- `split_once(':')`. -/
def splitOnce (line : List Char) : Option (List Char × List Char) :=
  if ':' ∈ line then some (line.takeWhile (· ≠ ':'), (line.dropWhile (· ≠ ':')).drop 1) else none

def splitWhitespace (text : List Char) : List (List Char) :=
  ((text.map fun c => if isWhiteSpace c then ' ' else c).splitOn ' ').filter (!·.isEmpty)

/-- `str::contains`. -/
def containsText (text pattern : List Char) : Bool := text.tails.any fun tail => pattern.isPrefixOf tail

def toAsciiLowercase (text : List Char) : List Char := text.map Char.toLower

structure HeaderParse where
  contentLength : Option Nat := none
  transferChunked : Bool := false
  acceptRangesBytes : Bool := false
  status : Nat
  retryAfter : Option Nat
deriving DecidableEq

def parseStatus (line : List Char) : Except HttpDownloadError Nat :=
  match splitWhitespace line with
  | [] => .error (.malformed "missing protocol in status line")
  | protocol :: parts =>
    if !"HTTP/".toList.isPrefixOf protocol then .error (.malformed "invalid protocol in status line")
    else match parts with
      | [] => .error (.malformed "missing status code")
      | status :: _ =>
        match parseUnsigned 10 (2 ^ 16 - 1) status with
        | none => .error (.malformed "invalid status code")
        | some status => .ok status

/-- One turn of the loop over the header lines. -/
def parseHeaderLine (h : HeaderParse) (line : List Char) : Except HttpDownloadError HeaderParse :=
  match splitOnce line with
  | none => .ok h
  | some (key, value) =>
    let key := toAsciiLowercase (trim key)
    let value := trim value
    if key = "content-length".toList then
      match parseUnsigned 10 usizeMax value with
      | none => .error (.malformed "invalid content-length")
      | some length => .ok { h with contentLength := some length }
    else if key = "transfer-encoding".toList ∧ containsText (toAsciiLowercase value) "chunked".toList then
      .ok { h with transferChunked := true }
    else if key = "accept-ranges".toList ∧ containsText (toAsciiLowercase value) "bytes".toList then
      .ok { h with acceptRangesBytes := true }
    else .ok h

section

-- `parse_retry_after_from_headers` of `pcloud-resilience`: it reads a decimal fraction or a date.
variable (parseRetryAfter : String → Option Nat)

/-- What `read_headers` makes of the bytes it has read. -/
def parseHead (buffer : Bytes) : Except HttpDownloadError HeaderParse :=
  match fromUtf8 buffer with
  | none => .error (.malformed "headers were not utf8")
  | some text =>
    match splitCrlf text.toList with
    | [] => .error (.malformed "missing http status line")
    | statusLine :: lines => do
      let status ← parseStatus statusLine
      lines.foldlM parseHeaderLine { status, retryAfter := parseRetryAfter text }

def endOfHead : Bytes := utf8 "\r\n\r\n"

/-- The loop of `read_headers`: it keeps at most `maxHeaderBytes`, and `fuel` is one more. -/
def readHead (maxHeaderBytes : Nat) : Nat → Bytes → Fetch Bytes
  | 0, _ => throw .headerTooLarge
  | fuel + 1, buffer => do
    let byte ← Fetch.read 1
    if byte.isEmpty then throw (.malformed "unexpected eof while reading headers")
    let buffer := buffer ++ byte
    if maxHeaderBytes < buffer.length then throw .headerTooLarge
    else if endOfHead <:+ buffer then pure buffer
    else readHead maxHeaderBytes fuel buffer

def readHeaders (maxHeaderBytes : Nat) : Fetch HeaderParse := do
  let buffer ← readHead maxHeaderBytes (maxHeaderBytes + 1) []
  match parseHead parseRetryAfter buffer with
  | .error e => throw e
  | .ok headers => pure headers

/-! ## The body -/

-- Each turn of the loops below takes a byte at least, and `fuel` is one more than the bytes to come.

/-- The loop over a body of `length` bytes. -/
def copyLength (length : Nat) : Nat → Nat → Fetch Nat
  | 0, _ => throw .io
  | fuel + 1, written =>
    if written < length then do
      Fetch.checkDeadline
      let bytes ← Fetch.read (min (length - written) streamReadBuf)
      if bytes.isEmpty then throw (.malformed "unexpected eof while reading body")
      Fetch.emit bytes
      copyLength length fuel (written + bytes.length)
    else pure written

/-- The loop over a body that ends with the connection. `before` bytes are in the sink already. -/
def copyToEnd (config : HttpDownloadConfig) (before : Nat) : Nat → Nat → Fetch Nat
  | 0, _ => throw .io
  | fuel + 1, written => do
    Fetch.checkDeadline
    let bytes ← Fetch.read streamReadBuf
    if bytes.isEmpty then pure written
    else if config.maxBodyBytes < satAdd (satAdd before written) bytes.length then throw .bodyTooLarge
    else do
      Fetch.emit bytes
      copyToEnd config before fuel (written + bytes.length)

def crlf : Bytes := utf8 "\r\n"

/-- The loop of `read_line`, the line with its end. -/
def readLineBytes : Nat → Bytes → Fetch Bytes
  | 0, _ => throw .io
  | fuel + 1, bytes => do
    let byte ← Fetch.read 1
    if byte.isEmpty then throw (.malformed "unexpected eof while reading chunked body")
    let bytes := bytes ++ byte
    if crlf <:+ bytes then pure bytes else readLineBytes fuel bytes

def readLine : Fetch String := do
  let bytes ← readLineBytes ((← Fetch.incoming) + 1) []
  match fromUtf8 (bytes.take (bytes.length - 2)) with
  | none => throw (.malformed "chunk metadata was not utf8")
  | some line => pure line

/-- `read_exact` with a buffer of two bytes, what there is of them at the end of the stream. -/
def readTwo : Fetch Bytes := do
  let first ← Fetch.read 2
  if first.length = 1 then do
    let second ← Fetch.read 1
    pure (first ++ second)
  else pure first

def expectCrlf : Fetch Unit := do
  let bytes ← readTwo
  if bytes.length < 2 then throw .io
  else if bytes ≠ crlf then throw (.malformed "chunk payload was not terminated by crlf")
  else pure ()

/-- The loop over one chunk. -/
def copyChunk : Nat → Nat → Nat → Fetch Nat
  | 0, _, _ => throw .io
  | fuel + 1, remaining, written =>
    if 0 < remaining then do
      Fetch.checkDeadline
      let bytes ← Fetch.read (min remaining streamReadBuf)
      if bytes.isEmpty then throw (.malformed "unexpected eof while reading chunked body")
      Fetch.emit bytes
      copyChunk fuel (remaining - bytes.length) (written + bytes.length)
    else pure written

/-- The loop over the trailer lines. -/
def skipTrailers : Nat → Fetch Unit
  | 0 => throw .io
  | fuel + 1 => do
    let trailer ← readLine
    if trailer.isEmpty then pure () else skipTrailers fuel

def chunkSize (sizeLine : String) : Except HttpDownloadError Nat :=
  let sizeText := trim (sizeLine.toList.takeWhile (· ≠ ';'))
  match parseUnsigned 16 u64Max sizeText with
  | none => .error (.malformed "invalid chunk size")
  | some chunkSize => .ok chunkSize

def streamChunkedBody (config : HttpDownloadConfig) : Nat → Nat → Fetch Nat
  | 0, _ => throw .io
  | fuel + 1, written => do
    Fetch.checkDeadline
    let sizeLine ← readLine
    let chunkSize ← chunkSize sizeLine
    if chunkSize = 0 then
      skipTrailers ((← Fetch.incoming) + 1)
      pure written
    else if config.maxBodyBytes < satAdd written chunkSize then throw .bodyTooLarge
    else do
      let written ← copyChunk (chunkSize + 1) chunkSize written
      expectCrlf
      streamChunkedBody config fuel written

/-! ## One request -/

def buildRequest (download : SignedDownload) : String :=
  "GET " ++ download.path ++ " HTTP/1.1\r\nHost: " ++ download.host ++ "\r\nConnection: close\r\n" ++
    (match download.range with
      | some (start, stop) => "Range: bytes=" ++ toString start ++ "-" ++ toString (stop - 1) ++ "\r\n"
      | none => "") ++
    (match download.dwltag with
      | some dwltag => "Cookie: dwltag=" ++ dwltag ++ "\r\n"
      | none => "") ++ "\r\n"

/-- What becomes of a request: it is not sent, or the server answers. -/
inductive HttpAnswer
  | refused (e : ConnectError)
  | sent (packets : List Bytes) (broken : Bool) (checks : Option Nat)

/-- The servers: the answer to the `n`-th request of a run, by host, port and text. -/
abbrev Servers := Nat → String → Nat → String → HttpAnswer

def portOf (download : SignedDownload) (config : HttpDownloadConfig) : Nat :=
  download.port.getD (if config.useTls then 443 else 80)

/-- The body of an answer of status 2xx, by its framing. -/
def copyBody (config : HttpDownloadConfig) (headers : HeaderParse) : Fetch Nat := do
  if headers.transferChunked then streamChunkedBody config ((← Fetch.incoming) + 1) 0
  else match headers.contentLength with
    | some length => copyLength length (length + 1) 0
    | none => copyToEnd config 0 ((← Fetch.incoming) + 1) 0

/-- The error for a status other than 2xx. -/
def statusError (headers : HeaderParse) : HttpDownloadError :=
  match headers.retryAfter with
  | some retryAfter =>
    if headers.status = 429 ∨ headers.status = 503 then .retryAfter retryAfter else .httpStatus headers.status
  | none => .httpStatus headers.status

/-- `request_and_stream` from the answer on. `read_headers` leaves nothing over of the body. -/
def requestAndStream (config : HttpDownloadConfig) : Fetch Nat := do
  Fetch.checkDeadline
  let headers ← readHeaders parseRetryAfter config.maxHeaderBytes
  Fetch.checkDeadline
  if headers.status / 100 ≠ 2 then throw (statusError headers)
  else if headers.contentLength.any (config.maxBodyBytes < ·) then throw .bodyTooLarge
  else copyBody config headers

/-- A transfer over an answer, or the error where there is none. Sinks and hashers are appended to. -/
def HttpAnswer.run {α : Type} (answer : HttpAnswer) (x : Fetch α) (sink : Bytes) (hasher : Option Bytes) :
    Except HttpDownloadError α × Bytes × Option Bytes :=
  match answer with
  | .refused e => (.error (.notConnected e), sink, hasher)
  | .sent packets broken checks =>
    -- A read gives nothing at the end of the stream only.
    let packets := packets.filter (!·.isEmpty)
    let (result, s) := x.exec { packets, broken, checks }
    (result, sink ++ s.written, hasher.map (· ++ s.hashed))

variable (sha256 : Bytes → Bytes)

/-- The result, and the sink with what was written to it. -/
def fetchDownloadVerifiedStreaming (config : HttpDownloadConfig) (expectedSha256 : Option Bytes) (answer : HttpAnswer)
    (sink : Bytes) : Except HttpDownloadError Nat × Bytes :=
  let (result, sink, hasher) :=
    answer.run (requestAndStream parseRetryAfter config) sink (expectedSha256.map fun _ => [])
  match result with
  | .error e => (.error e, sink)
  | .ok written =>
    match expectedSha256, hasher with
    | some expected, some hashed =>
      let actual := sha256 hashed
      if actual ≠ expected then (.error (.integrityMismatch (hexEncode expected) (hexEncode actual)), sink)
      else (.ok written, sink)
    | _, _ => (.ok written, sink)

end

end Pcloud
