import Pcloud.Proto.HttpFraming

/-!
# Resumable downloads (`fetch_download_resumable`)

The body goes to a `.part` file, which a later call takes up where it ends. The digest is checked over
what the file held and what was added, and only then is the file renamed.
-/

namespace Pcloud

inductive ResumableOutcome
  | fullDownload (bytesWritten : Nat)
  | resumed (resumedFrom bytesWritten : Nat)
deriving DecidableEq

inductive ResumeAttempt
  | noRangeSupport
  | fatal (e : HttpDownloadError)
deriving DecidableEq

/-- The two files of a download, and the number of requests sent so far. -/
structure Downloads where
  part : Option Bytes
  dest : Option Bytes
  requests : Nat := 0

section

variable (parseRetryAfter : String → Option Nat) (sha256 : Bytes → Bytes)
variable (servers : Servers) (config : HttpDownloadConfig) (download : SignedDownload)

def rangeRequest (offset : Nat) : String :=
  "GET " ++ download.path ++ " HTTP/1.1\r\nHost: " ++ download.host ++ "\r\nConnection: close\r\nRange: bytes=" ++
    toString offset ++ "-\r\n" ++
    (match download.dwltag with
      | some dwltag => "Cookie: dwltag=" ++ dwltag ++ "\r\n"
      | none => "") ++ "\r\n"

/-- The body of an answer of status 206, appended to what the file holds. -/
def rangeBody (offset : Nat) (headers : HeaderParse) : Fetch Nat := do
  if headers.transferChunked then streamChunkedBody config ((← Fetch.incoming) + 1) 0
  else match headers.contentLength with
    | some length =>
      if config.maxBodyBytes < satAdd offset length then throw .bodyTooLarge
      else copyLength length (length + 1) 0
    | none => copyToEnd config offset ((← Fetch.incoming) + 1) 0

/-- `range_do` from the answer on: the status, whether ranges are accepted, and the bytes written. -/
def rangeDo (offset : Nat) : Fetch (Nat × Bool × Nat) := do
  Fetch.checkDeadline
  let headers ← readHeaders parseRetryAfter config.maxHeaderBytes
  Fetch.checkDeadline
  let status := headers.status
  if status / 100 ≠ 2 then throw (.httpStatus status)
  else if status = 200 then pure (200, headers.acceptRangesBytes, 0)
  else if status ≠ 206 then throw (.httpStatus status)
  else do
    let written ← rangeBody config offset headers
    pure (206, true, written)

/-- The answer to the next request. -/
def Downloads.answer (s : Downloads) (request : String) : HttpAnswer :=
  servers s.requests download.host (portOf download config) request

def tryResume (expectedSha256 : Bytes) (part : Bytes) (s : Downloads) :
    Except ResumeAttempt ResumableOutcome × Downloads :=
  let offset := part.length
  let answer := s.answer servers config download (rangeRequest download offset)
  let (result, sink, hasher) := answer.run (rangeDo parseRetryAfter config offset) part (some part)
  let s := { s with part := some sink, requests := s.requests + 1 }
  match result with
  | .error e => (.error (.fatal e), s)
  | .ok (status, acceptRanges, writtenTail) =>
    if status = 200 ∨ !acceptRanges then (.error .noRangeSupport, s)
    else if status ≠ 206 then (.error (.fatal (.httpStatus status)), s)
    else
      let actual := sha256 (hasher.getD [])
      if actual ≠ expectedSha256 then
        (.error (.fatal (.integrityMismatch (hexEncode expectedSha256) (hexEncode actual))), { s with part := none })
      else (.ok (.resumed offset (offset + writtenTail)), { s with part := none, dest := s.part })

def fullDownloadToPart (expectedSha256 : Bytes) (s : Downloads) : Except HttpDownloadError Nat × Downloads :=
  let answer := s.answer servers config download (buildRequest { download with range := none })
  let (result, sink) :=
    fetchDownloadVerifiedStreaming parseRetryAfter sha256 config (some expectedSha256) answer []
  let s := { s with part := some sink, requests := s.requests + 1 }
  match result with
  | .ok n => (.ok n, s)
  | .error (.integrityMismatch expected actual) =>
    (.error (.integrityMismatch expected actual), { s with part := none })
  | .error e => (.error e, s)

/-- A full download, once more where the server asks to wait. -/
def fullDownloadAfterWait (expectedSha256 : Bytes) (s : Downloads) : Except HttpDownloadError Nat × Downloads :=
  match fullDownloadToPart parseRetryAfter sha256 servers config download expectedSha256 s with
  | (.error (.retryAfter _), s) =>
    fullDownloadToPart parseRetryAfter sha256 servers config download expectedSha256 s
  | outcome => outcome

/-- The last part of `fetch_download_resumable`. -/
def fullDownload (expectedSha256 : Bytes) (s : Downloads) : Except HttpDownloadError ResumableOutcome × Downloads :=
  match fullDownloadAfterWait parseRetryAfter sha256 servers config download expectedSha256 s with
  | (.error e, s) => (.error e, s)
  | (.ok bytesWritten, s) => (.ok (.fullDownload bytesWritten), { s with part := none, dest := s.part })

def fetchDownloadResumable (expectedSha256 : Bytes) (s : Downloads) :
    Except HttpDownloadError ResumableOutcome × Downloads :=
  let full := fullDownload parseRetryAfter sha256 servers config download expectedSha256
  match s.part with
  | none => full s
  | some part =>
    if part.length = 0 then full s
    else match tryResume parseRetryAfter sha256 servers config download expectedSha256 part s with
      | (.ok outcome, s) => (.ok outcome, s)
      | (.error .noRangeSupport, s) => full s
      | (.error (.fatal (.retryAfter _)), s) => full s
      | (.error (.fatal e), s) => (.error e, s)

end

open Fetch

section

variable {parseRetryAfter : String → Option Nat} {config : HttpDownloadConfig}

/-! ## A ranged request -/

theorem spec_rangeBody (offset : Nat) (headers : HeaderParse) (stream : Bytes) :
    Spec (rangeBody config offset headers) stream
      (fun _ => ¬ ∃ body, Framed headers stream body ∧ offset + body.length ≤ config.maxBodyBytes)
      fun _ bytes _ => Framed headers stream bytes := by
  unfold rangeBody Framed
  split_ifs with hchunked
  · apply spec_incoming.quiet_bind
    rintro stream _ ⟨rfl, rfl⟩
    apply (spec_streamChunkedBody config (stream.length + 1) 0 (Nat.lt_succ_self _)).mono
    · exact fun _ _ _ h => h.1
    · rintro e hnone ⟨body, hbody, hfits⟩
      exact hnone ⟨body, hbody, by omega⟩
  · rcases headers.contentLength with _ | length
    · apply spec_incoming.quiet_bind
      rintro stream _ ⟨rfl, rfl⟩
      apply (spec_copyToEnd config offset (stream.length + 1) 0 (Nat.lt_succ_self _)).mono
      · exact fun _ _ _ h => h.1
      · rintro e hlarge ⟨body, rfl, hfits⟩
        omega
    · dsimp only
      split_ifs with hlarge
      · refine spec_throw ?_
        rintro ⟨body, ⟨-, rfl⟩, hfits⟩
        unfold satAdd at hlarge
        omega
      · apply (spec_copyLength length (length + 1) 0 (Nat.lt_succ_self _)).mono
        · rintro rest bytes n ⟨rfl, hlength, -⟩
          exact ⟨List.prefix_append _ _, hlength⟩
        · rintro e hshort ⟨body, ⟨hstarts, rfl⟩, -⟩
          have := hstarts.length_le
          omega

theorem spec_rangeDo (offset : Nat) (stream : Bytes) : Spec (rangeDo parseRetryAfter config offset) stream
    (fun e => ∀ headers payload, Head parseRetryAfter config.maxHeaderBytes stream headers payload →
      (headers.status / 100 ≠ 2 → e = .httpStatus headers.status) ∧
      (headers.status = 206 → ¬ ∃ body, Framed headers payload body ∧ offset + body.length ≤ config.maxBodyBytes))
    fun _ bytes outcome => ∃ headers payload, Head parseRetryAfter config.maxHeaderBytes stream headers payload ∧
      outcome.1 = headers.status ∧ headers.status / 100 = 2 ∧
      (headers.status = 206 → outcome.2.1 = true ∧ Framed headers payload bytes) := by
  unfold rangeDo
  apply spec_checkDeadline.quiet_bind
  rintro stream _ rfl
  apply Spec.quiet_bind (P := fun rest headers => Head parseRetryAfter config.maxHeaderBytes stream headers rest)
  · apply spec_readHeaders.mono fun _ _ _ h => h
    rintro e hnone headers payload hhead
    exact absurd ⟨headers, payload, hhead⟩ hnone
  · intro payload headers hhead
    apply spec_checkDeadline.quiet_bind
    rintro payload _ rfl
    dsimp only
    split_ifs with hstatus hfull hranged
    · refine spec_throw ?_
      intro headers' payload' hhead'
      obtain ⟨rfl, rfl⟩ := hhead.unique hhead'
      exact ⟨fun _ => rfl, fun h => by omega⟩
    · exact spec_pure ⟨headers, payload, hhead, hfull.symm, not_not.mp hstatus, fun h => by omega⟩
    · refine spec_throw ?_
      intro headers' payload' hhead'
      obtain ⟨rfl, rfl⟩ := hhead.unique hhead'
      exact ⟨fun _ => rfl, fun h => absurd h hranged⟩
    · apply ((spec_rangeBody offset headers payload).mono (fun _ _ _ h => h) _).bind
      · rintro rest bytes n hframed
        refine spec_pure ⟨headers, payload, hhead, (not_not.mp hranged).symm, not_not.mp hstatus, fun _ => ?_⟩
        exact ⟨rfl, by rwa [List.append_nil]⟩
      · intro e hnone headers' payload' hhead'
        obtain ⟨rfl, rfl⟩ := hhead.unique hhead'
        exact ⟨fun h => absurd (not_not.mp hstatus) h, fun _ => hnone⟩

end

/-! ## The outcome of a call -/

section

variable (parseRetryAfter : String → Option Nat) (sha256 : Bytes → Bytes) (servers : Servers)
variable (config : HttpDownloadConfig) (download : SignedDownload) (expectedSha256 : Bytes)

theorem tryResume_cases (part : Bytes) (s : Downloads) :
    let answer := s.answer servers config download (rangeRequest download part.length)
    let outcome := tryResume parseRetryAfter sha256 servers config download expectedSha256 part s
    ∃ bytes,
      (∃ headers payload, Head parseRetryAfter config.maxHeaderBytes answer.carried headers payload ∧
        headers.status = 206 ∧ Framed headers payload bytes ∧
        ((∃ r, outcome = (.ok r, { part := none, dest := some (part ++ bytes), requests := s.requests + 1 }) ∧
            sha256 (part ++ bytes) = expectedSha256) ∨
          ∃ e, outcome = (.error (.fatal e), { s with part := none, requests := s.requests + 1 }) ∧
            sha256 (part ++ bytes) ≠ expectedSha256 ∧ e.isMismatch = true)) ∨
      ∃ r, outcome = (.error r, { s with part := some (part ++ bytes), requests := s.requests + 1 }) ∧
        (∀ e, r = .fatal e → e.isMismatch = false) ∧
        (answer.Faultless → ∀ headers payload,
          Head parseRetryAfter config.maxHeaderBytes answer.carried headers payload →
          (headers.status / 100 ≠ 2 → r = .fatal (.httpStatus headers.status)) ∧
          (headers.status = 206 → ¬ ∃ body, Framed headers payload body ∧
            part.length + body.length ≤ config.maxBodyBytes)) := by
  intro answer
  obtain ⟨bytes, hrun, hresult⟩ := answer.run_spec
    (spec_rangeDo part.length answer.carried) part (some part)
  refine ⟨bytes, ?_⟩
  unfold tryResume
  dsimp only
  generalize answer.run (rangeDo parseRetryAfter config part.length) part (some part) = run at hrun hresult
  obtain ⟨result, sink, hasher⟩ := run
  obtain ⟨rfl, rfl⟩ := Prod.mk.inj hrun
  rcases result with e | ⟨status, acceptRanges, writtenTail⟩
  · refine .inr ⟨.fatal e, rfl, ?_, fun hfaultless => ?_⟩
    · rintro _ ⟨⟩
      exact hresult.1
    · intro headers payload hhead
      obtain ⟨hstatus, hranged⟩ := hresult.2 hfaultless headers payload hhead
      exact ⟨fun h => congrArg _ (hstatus h), hranged⟩
  · obtain ⟨-, headers, payload, hhead, hstatus, htwo, hranged⟩ := hresult
    change status = headers.status at hstatus
    subst hstatus
    -- A head of status 2xx but 206 was read, so no other can be.
    have hother : headers.status ≠ 206 → ∀ r : ResumeAttempt, ∀ headers' payload',
        Head parseRetryAfter config.maxHeaderBytes answer.carried headers' payload' →
        (headers'.status / 100 ≠ 2 → r = .fatal (.httpStatus headers'.status)) ∧
        (headers'.status = 206 → ¬ ∃ body, Framed headers' payload' body ∧
          part.length + body.length ≤ config.maxBodyBytes) := by
      intro hne r headers' payload' hhead'
      obtain ⟨rfl, rfl⟩ := hhead.unique hhead'
      exact ⟨fun h => absurd htwo h, fun h => absurd h hne⟩
    dsimp only [Option.map_some, Option.getD_some]
    split_ifs with hrefused hne hdigest
    · refine .inr ⟨.noRangeSupport, rfl, (by rintro _ ⟨⟩), fun _ => hother ?_ _⟩
      intro heq
      rcases hrefused with hfull | hranges
      · omega
      · have haccept : acceptRanges = true := (hranged heq).1
        simp [haccept] at hranges
    · refine .inr ⟨_, rfl, ?_, fun _ => hother hne _⟩
      rintro _ ⟨⟩
      rfl
    · have hframed := (hranged (not_not.mp hne)).2
      exact .inl ⟨headers, payload, hhead, not_not.mp hne, hframed, .inr ⟨_, rfl, hdigest, rfl⟩⟩
    · have hframed := (hranged (not_not.mp hne)).2
      exact .inl ⟨headers, payload, hhead, not_not.mp hne, hframed, .inl ⟨_, rfl, not_not.mp hdigest⟩⟩

theorem fullDownloadToPart_cases (s : Downloads) :
    let answer := s.answer servers config download (buildRequest { download with range := none })
    let outcome := fullDownloadToPart parseRetryAfter sha256 servers config download expectedSha256 s
    ∃ bytes,
      (outcome = (.ok bytes.length, { s with part := some bytes, requests := s.requests + 1 }) ∧
        sha256 bytes = expectedSha256) ∨
      ∃ e, (∀ body, answer.Delivers parseRetryAfter config body → sha256 body ≠ expectedSha256) ∧
        ((outcome = (.error e, { s with part := none, requests := s.requests + 1 }) ∧ e.isMismatch = true) ∨
          outcome = (.error e, { s with part := some bytes, requests := s.requests + 1 }) ∧ e.isMismatch = false) := by
  intro answer
  obtain ⟨bytes, hsink, hresult⟩ := fetch_spec parseRetryAfter config sha256 (some expectedSha256) answer []
  refine ⟨bytes, ?_⟩
  unfold fullDownloadToPart
  dsimp only
  generalize fetchDownloadVerifiedStreaming parseRetryAfter sha256 config (some expectedSha256) answer [] = fetched
    at hsink hresult
  obtain ⟨e | n, sink⟩ := fetched
  · dsimp only at hsink hresult
    subst hsink
    refine .inr ⟨e, ?_, ?_⟩
    · intro body hbody
      obtain ⟨expected, hexpected, hdigest⟩ := hresult body hbody
      rwa [Option.some.inj hexpected]
    · rcases e
      case integrityMismatch => exact .inl ⟨rfl, rfl⟩
      all_goals exact .inr ⟨rfl, rfl⟩
  · dsimp only at hsink hresult
    subst hsink
    obtain ⟨rfl, hdigest, -⟩ := hresult
    exact .inl ⟨rfl, hdigest expectedSha256 rfl⟩

/-- A file that is put in place has the expected digest. A call that fails leaves the destination as it is, and
one that fails over the digest leaves no `.part` file. -/
def Downloads.Intact (s : Downloads) (sha256 : Bytes → Bytes) (expectedSha256 : Bytes)
    (outcome : Except HttpDownloadError ResumableOutcome × Downloads) : Prop :=
  match outcome.1 with
  | .ok _ => ∃ bytes, outcome.2.dest = some bytes ∧ sha256 bytes = expectedSha256
  | .error e => outcome.2.dest = s.dest ∧ (e.isMismatch → outcome.2.part = none)

/-- The same of a full download before its file is put in place. -/
def Downloads.Staged (s : Downloads) (sha256 : Bytes → Bytes) (expectedSha256 : Bytes)
    (outcome : Except HttpDownloadError Nat × Downloads) : Prop :=
  outcome.2.dest = s.dest ∧
    match outcome.1 with
    | .ok _ => ∃ bytes, outcome.2.part = some bytes ∧ sha256 bytes = expectedSha256
    | .error e => e.isMismatch → outcome.2.part = none

theorem fullDownloadToPart_staged (s : Downloads) :
    s.Staged sha256 expectedSha256
      (fullDownloadToPart parseRetryAfter sha256 servers config download expectedSha256 s) := by
  obtain ⟨bytes, ⟨houtcome, hdigest⟩ | ⟨e, -, ⟨houtcome, -⟩ | ⟨houtcome, hmismatch⟩⟩⟩ :=
    fullDownloadToPart_cases parseRetryAfter sha256 servers config download expectedSha256 s
  · rw [houtcome]
    exact ⟨rfl, bytes, rfl, hdigest⟩
  · rw [houtcome]
    exact ⟨rfl, fun _ => rfl⟩
  · rw [houtcome]
    refine ⟨rfl, fun h => ?_⟩
    rw [hmismatch] at h
    cases h

theorem fullDownloadAfterWait_staged (s : Downloads) :
    s.Staged sha256 expectedSha256
      (fullDownloadAfterWait parseRetryAfter sha256 servers config download expectedSha256 s) := by
  have hfirst := fullDownloadToPart_staged parseRetryAfter sha256 servers config download expectedSha256 s
  unfold fullDownloadAfterWait
  split
  · rename_i wait s' hwait
    rw [hwait] at hfirst
    have hsecond := fullDownloadToPart_staged parseRetryAfter sha256 servers config download expectedSha256 s'
    exact ⟨hsecond.1.trans hfirst.1, hsecond.2⟩
  · exact hfirst

theorem fullDownload_intact (s : Downloads) :
    s.Intact sha256 expectedSha256
      (fullDownload parseRetryAfter sha256 servers config download expectedSha256 s) := by
  have hstaged := fullDownloadAfterWait_staged parseRetryAfter sha256 servers config download expectedSha256 s
  unfold fullDownload
  split
  · rename_i e s' hfailed
    rw [hfailed] at hstaged
    exact hstaged
  · rename_i n s' hdone
    rw [hdone] at hstaged
    exact hstaged.2

theorem fetchDownloadResumable_intact (s : Downloads) :
    s.Intact sha256 expectedSha256
      (fetchDownloadResumable parseRetryAfter sha256 servers config download expectedSha256 s) := by
  unfold fetchDownloadResumable
  dsimp only
  rcases hpart : s.part with _ | part
  · exact fullDownload_intact parseRetryAfter sha256 servers config download expectedSha256 s
  · dsimp only
    split_ifs
    · exact fullDownload_intact parseRetryAfter sha256 servers config download expectedSha256 s
    · obtain ⟨bytes, ⟨headers, payload, -, -, -, ⟨r, houtcome, hdigest⟩ | ⟨e, houtcome, -, hmismatch⟩⟩ |
          ⟨r, houtcome, hkind, -⟩⟩ :=
        tryResume_cases parseRetryAfter sha256 servers config download expectedSha256 part s
      · rw [houtcome]
        exact ⟨_, rfl, hdigest⟩
      · rw [houtcome]
        rcases e
        case integrityMismatch => exact ⟨rfl, fun _ => rfl⟩
        all_goals cases hmismatch
      · rw [houtcome]
        rcases r with _ | e
        · exact fullDownload_intact parseRetryAfter sha256 servers config download expectedSha256 _
        · have hnone := hkind e rfl
          rcases e
          case retryAfter => exact fullDownload_intact parseRetryAfter sha256 servers config download expectedSha256 _
          all_goals
            refine ⟨rfl, fun h => ?_⟩
            rw [hnone] at h
            cases h

end

end Pcloud
