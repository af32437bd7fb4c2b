import Pcloud.Backends.CommittedUpload
import Pcloud.Lib.Runs

/-!
# Sessions that cannot be saved

A row names the session of an upload, and nothing of its content. After a permanent failure the row is gone only
where the run had not come to a session: otherwise every later run takes the same session up again.
-/

namespace Pcloud.UploadState

open Program

/-! ## What the server refused -/

/-- The steps of a run that has a session. -/
inductive SessionStep
  | writing (uploadId : UInt64) (offset : Nat)
  | saving (uploadId : UInt64)
deriving DecidableEq, Repr

def SessionStep.uploadId : SessionStep → UInt64
  | .writing uploadId _ | .saving uploadId => uploadId

def stepOf : ServerRequest → Option SessionStep
  | .write request _ => some (.writing request.uploadId request.uploadOffset)
  | .info request => some (.saving request.uploadId)
  | .save request => some (.saving request.uploadId)
  | _ => none

/-- The sessions that a run has worked on. -/
def sessions (exchanges : List (ServerRequest × Option Value)) : List UInt64 :=
  exchanges.filterMap fun exchange => (stepOf exchange.1).map SessionStep.uploadId

def failureOf {α : Type} : Except UploadErrorClass α → Option UploadErrorClass
  | .ok _ => none
  | .error cls => some cls

namespace ChunkedUploadDriver

variable (driver : ChunkedUploadDriver)

/-- How an exchange failed. A report of other content is a permanent failure. -/
def refusalOf : ServerRequest × Option Value → Option UploadErrorClass
  | (.info _, report) => failureOf (driver.verdict report)
  | (_, reply) => failureOf (outcomeOf reply)

/-- How the requests of a step failed, one after the other. -/
def refusals (step : SessionStep) (exchanges : List (ServerRequest × Option Value)) : List UploadErrorClass :=
  (exchanges.filter fun exchange => stepOf exchange.1 = some step).filterMap driver.refusalOf

/-- No request of the session was refused for good: neither at once, nor twice in a step for want of a session token. -/
def Lenient (exchanges : List (ServerRequest × Option Value)) : Prop :=
  ∀ step, .PermFail ∉ driver.refusals step exchanges ∧ (driver.refusals step exchanges).count .Auth ≤ 1

end ChunkedUploadDriver

/-! ## Histories -/

/-- A server that does what it is asked, while it is up. -/
structure Healthy {τ : Type} (env : Surroundings τ) (sha1 : Bytes → Sha1Digest) (up : τ → Prop)
    (content : τ → UInt64 → Option Bytes) : Prop where
  store : ∀ s, up s → (env.store s).1 = true ∧ up (env.store s).2 ∧ content (env.store s).2 = content s
  create : ∀ s request, up s → ∃ hash uploadId, outcomeOf (env.respond s (.create request)).1 = .ok hash ∧
    hash.getNumber "uploadid" = some uploadId ∧ up (env.respond s (.create request)).2 ∧
    content (env.respond s (.create request)).2 uploadId = some []
  write : ∀ s request body bytes, up s → content s request.uploadId = some bytes →
    ∃ hash, outcomeOf (env.respond s (.write request body)).1 = .ok hash ∧ up (env.respond s (.write request body)).2 ∧
      content (env.respond s (.write request body)).2 request.uploadId = some (writeAt bytes request.uploadOffset body)
  info : ∀ s request bytes, up s → content s request.uploadId = some bytes → bytes.length ≤ isizeMax →
    ∃ hash, outcomeOf (env.respond s (.info request)).1 = .ok hash ∧
      (hash.getNumber "size").map UInt64.toNat = some bytes.length ∧
      hash.getString "sha1" = some (uploadSha1Hex sha1 bytes) ∧ up (env.respond s (.info request)).2 ∧
      content (env.respond s (.info request)).2 request.uploadId = some bytes
  save : ∀ s request bytes, up s → content s request.uploadId = some bytes →
    ∃ hash, outcomeOf (env.respond s (.save request)).1 = .ok hash ∧ up (env.respond s (.save request)).2

/-- The world after the calls so far, and the last of them with what it returned. -/
structure UploadHistory (σ : Type) where
  world : UploadWorld σ
  last : Option (UploadCall × Except ChunkedUploadError ChunkedUploadResult) := none

namespace UploadHistory

variable {σ : Type} (sha1 : Bytes → Sha1Digest) (policy : RetryPolicy) (env : Surroundings σ)

def step (s : UploadHistory σ) (call : UploadCall) : UploadHistory σ :=
  let (outcome, world) := s.world.upload env sha1 policy call
  { world, last := some (call, outcome) }

/-- After a permanent failure the row does not select the session that failed, and a later call for the path, of any
content, succeeds with a healthy server. -/
def Recovers (s : UploadHistory σ) : Prop :=
  ∀ call attempts, s.last = some (call, .error (.State (.Permanent attempts))) →
    (∀ record, s.world.rows call.req.localPath = some record → record.Selects call.req.state →
      record.uploadId ∉ sessions s.world.exchanges) ∧
    ∀ later : UploadCall, later.req.localPath = call.req.localPath →
      later.payload.bytes.length = later.req.totalSize → later.req.totalSize ≤ later.turns →
      ∀ (τ : Type) (healthy : Surroundings τ) (up : τ → Prop) (content : τ → UInt64 → Option Bytes),
        Healthy healthy sha1 up content → ∀ around, up around →
        ∃ result, (UploadWorld.upload healthy { around, rows := s.world.rows } sha1 policy later).1 = .ok result

/-- The server is lenient with the session of the call. -/
def Lenient (s : UploadHistory σ) (call : UploadCall) : Prop :=
  (call.driver sha1).Lenient (s.world.upload env sha1 policy call).2.exchanges

end UploadHistory

/-! ## A call to a healthy server -/

section

variable {τ : Type} {env : Surroundings τ} {sha1 : Bytes → Sha1Digest} {up : τ → Prop}
variable {content : τ → UInt64 → Option Bytes} {w : UploadWorld τ} {driver : ChunkedUploadDriver} {policy : RetryPolicy}
variable {uploadId : UInt64} {bytes : Bytes}

namespace Healthy

theorem statement (h : Healthy env sha1 up content) {α : Type} {answer : α} {rows : String → Option UploadResumeRecord}
    {Q : α → UploadWorld τ → Prop} (hup : up w.around)
    (hQ : ∀ around, up around → content around = content w.around → Q answer { w with around, rows }) :
    Ends Q (fun _ _ => False) (w.statement env answer rows).1 (w.statement env answer rows).2 := by
  obtain ⟨hok, hup', hcontent⟩ := h.store w.around hup
  unfold UploadWorld.statement
  split
  · next heq =>
    rw [heq] at hup' hcontent
    exact hQ _ hup' hcontent
  · next heq =>
    rw [heq] at hok
    cases hok

/-- The session that a world is at: up, and with these bytes. -/
def At (up : τ → Prop) (content : τ → UInt64 → Option Bytes) (uploadId : UInt64) (bytes : Bytes) (w : UploadWorld τ) :
    Prop :=
  up w.around ∧ content w.around uploadId = some bytes

theorem created (h : Healthy env sha1 up content) (hup : up w.around) (auth : String) :
    Follows (effectsIn env) (Ends (fun uploadId => At up content uploadId []) fun _ _ => False)
      (driver.create auth).run w := by
  refine follows_fallible_bind.mpr (follows_lift.mpr (follows_perform_in.mpr ?_))
  refine follows_fallible_bind.mpr (follows_exchange.mpr ?_)
  obtain ⟨hash, uploadId, hok, hid, hup', hcontent⟩ := h.create w.around _ hup
  rw [show (w.perform env (.cacheAuth auth) ()).2.around = w.around from rfl, hok]
  dsimp only [orElse]
  rw [hid]
  refine follows_pure_bind.mpr (follows_fallible_bind.mpr (follows_lift.mpr (follows_perform_in.mpr ?_)))
  exact show At up content uploadId [] _ from ⟨hup', hcontent⟩

theorem written (h : Healthy env sha1 up content) (hat : At up content uploadId bytes w) (offset chunkLen : Nat)
    (auth : String) :
    Follows (effectsIn env)
      (Ends (fun newOffset w => newOffset = offset + chunkLen ∧
        At up content uploadId (writeAt bytes offset ((driver.payload.bytes.drop offset).take chunkLen)) w)
        fun _ _ => False)
      (driver.writeChunk uploadId offset chunkLen auth).run w := by
  refine follows_fallible_bind.mpr (follows_exchange.mpr ?_)
  obtain ⟨hash, hok, hup, hcontent⟩ := h.write w.around
    ⟨auth, uploadId, offset, offset / psyncCopyBufferSize, some driver.idempotencyKey⟩
    ((driver.payload.bytes.drop offset).take chunkLen) bytes hat.1 hat.2
  rw [hok]
  exact ⟨rfl, hup, hcontent⟩

theorem saved (h : Healthy env sha1 up content) (hat : At up content uploadId driver.payload.bytes w)
    (hsize : driver.payload.bytes.length = driver.req.totalSize)
    (hsha1 : driver.localSha1 = uploadSha1Hex sha1 driver.payload.bytes) (auth : String) :
    Follows (effectsIn env) (Ends (fun _ w => up w.around) fun _ _ => False) (driver.save uploadId auth).run w := by
  obtain ⟨hash, hok, hreported, hdigest, hup, hcontent⟩ :=
    h.info w.around ⟨auth, uploadId, 0⟩ _ hat.1 hat.2 driver.payload.fits
  have hverdict : driver.verdict (env.respond w.around (.info ⟨auth, uploadId, 0⟩)).1 = .ok () := by
    refine verdict_eq_ok.mpr ⟨hash, hok, hsize ▸ hreported, hsha1 ▸ hdigest, ?_⟩
    rw [hsha1, length_uploadSha1Hex]
    rfl
  refine follows_save rfl (fun cls hrefused => ?_) fun _ => ?_
  · rw [hverdict] at hrefused
    cases hrefused
  · obtain ⟨hash, hok, hup⟩ := h.save _ (driver.commit uploadId auth) _ hup hcontent
    let report := env.respond w.around (.info ⟨auth, uploadId, 0⟩)
    show Ends _ _ ((outcomeOf (env.respond report.2 (.save (driver.commit uploadId auth))).1).map _) _
    rw [hok]
    exact hup

theorem wrote (h : Healthy env sha1 up content) {req : UploadRequest} {turns offset : Nat}
    (hsize : driver.payload.bytes.length = req.totalSize) (hoffset : offset ≤ req.totalSize)
    (hturns : req.totalSize ≤ offset + turns) (hat : At up content uploadId (driver.payload.bytes.take offset) w)
    (auth : String) :
    Follows (effectsIn env) (Ends (fun _ => At up content uploadId driver.payload.bytes) fun _ _ => False)
      (writeLoop policy driver.toUploadDriver req uploadId turns offset auth).run w := by
  induction turns generalizing offset auth w with
  | zero =>
    unfold writeLoop
    rw [if_pos (by omega)]
    rwa [List.take_of_length_le (by omega)] at hat
  | succ turns ih =>
    unfold writeLoop
    split
    · rwa [List.take_of_length_le (by omega)] at hat
    · next hmore =>
      let chunkLen := min (req.totalSize - offset) psyncCopyBufferSize
      have hchunk : 0 < chunkLen := Nat.lt_min.mpr ⟨by omega, by decide⟩
      have hfits : offset + chunkLen ≤ req.totalSize := by
        have := Nat.min_le_left (req.totalSize - offset) psyncCopyBufferSize
        omega
      have hstored :
          writeAt (driver.payload.bytes.take offset) offset ((driver.payload.bytes.drop offset).take chunkLen) =
            driver.payload.bytes.take (offset + chunkLen) := by
        have hlen : (driver.payload.bytes.take offset).length = offset := by
          rw [List.length_take]
          omega
        have hwrite :=
          writeAt_length (driver.payload.bytes.take offset) ((driver.payload.bytes.drop offset).take chunkLen)
        rw [hlen] at hwrite
        rw [hwrite, List.take_add]
      have hstep : Follows (effectsIn env)
          (Ends (fun newOffset w => newOffset = offset + chunkLen ∧
            At up content uploadId (driver.payload.bytes.take (offset + chunkLen)) w) fun _ _ => False)
          (driver.write uploadId offset (req.totalSize - offset) auth).run w := by
        refine follows_fallible_bind.mpr (follows_lift.mpr (follows_perform_in.mpr ?_))
        dsimp only [orElse]
        rw [if_neg (by omega)]
        have hcached : At up content uploadId (driver.payload.bytes.take offset)
            (w.perform env (.cacheAuth auth) ()).2 := hat
        rw [← hstored]
        exact h.written hcached offset chunkLen auth
      refine follows_ends_bind (follows_runStep_of_ok hstep) ?_
      rintro ⟨newOffset, auth⟩ w ⟨rfl, hup, hcontent⟩
      refine follows_ends_bind (follows_store (follows_perform_in.mpr
        (h.statement (Q := fun _ => At up content uploadId (driver.payload.bytes.take (offset + chunkLen))) hup ?_))) ?_
      · exact fun around hup' hcontent' => ⟨hup', by rw [hcontent', hcontent]⟩
      · intro _ w hat
        rw [Nat.min_eq_left hfits]
        exact ih hfits (by omega) hat auth

variable (w driver) in
theorem ran (h : Healthy env sha1 up content) {req : UploadRequest} {turns : Nat}
    (hsize : driver.payload.bytes.length = driver.req.totalSize) (hreq : req = driver.req.state)
    (hsha1 : driver.localSha1 = uploadSha1Hex sha1 driver.payload.bytes) (hturns : req.totalSize ≤ turns)
    (hup : up w.around) (hnone : w.rows req.localPath = none) (auth : String) :
    Follows (effectsIn env) (Ends (fun _ _ => True) fun _ _ => False)
      (run policy driver.toUploadDriver req turns auth).run w := by
  subst hreq
  have hbegin : Follows (effectsIn env)
      (Ends (fun begun w => begun.2.1 = 0 ∧ At up content begun.1 [] w) fun _ _ => False)
      (begin policy driver.toUploadDriver driver.req.state auth).run w := by
    refine follows_ends_bind (follows_store (follows_perform_in.mpr
      (h.statement (Q := fun existing w => existing = none ∧ up w.around) hup fun _ hup' _ => ⟨hnone, hup'⟩))) ?_
    rintro _ w ⟨rfl, hup⟩
    refine follows_ends_bind (follows_runStep_of_ok (h.created hup auth)) ?_
    rintro ⟨uploadId, auth⟩ w ⟨hup, hcontent⟩
    refine follows_ends_bind (follows_store (follows_perform_in.mpr
      (h.statement (Q := fun _ => At up content uploadId []) hup ?_))) fun _ w hat => ⟨rfl, hat⟩
    exact fun around hup' hcontent' => ⟨hup', by rw [hcontent', hcontent]⟩
  refine follows_ends_bind hbegin ?_
  rintro ⟨uploadId, offset, auth⟩ w ⟨rfl, hat⟩
  refine follows_ends_bind (h.wrote hsize (Nat.zero_le _) (by omega) hat auth) fun auth w hat => ?_
  refine follows_ends_bind (follows_runStep_of_ok (h.saved hat hsize hsha1 auth)) fun _ w hup => ?_
  exact follows_store (follows_perform_in.mpr (h.statement (Q := fun _ _ => True) hup fun _ _ _ => trivial))

variable (policy w) in
theorem uploads (h : Healthy env sha1 up content) {call : UploadCall}
    (hsize : call.payload.bytes.length = call.req.totalSize) (hturns : call.req.totalSize ≤ call.turns)
    (hup : up w.around) (hnone : w.rows call.req.localPath = none) :
    ∃ result, (w.upload env sha1 policy call).1 = .ok result := by
  have hprogram : Follows (effectsIn env) (Ends (fun _ _ => True) fun _ _ => False)
      (uploadBytesChunked sha1 policy call.idempotencyKey call.turns call.authToken call.req call.payload).run
      w.newDriver := by
    unfold uploadBytesChunked
    rw [if_neg (not_not.mpr hsize)]
    have hran : Follows (effectsIn env) (Ends (fun _ _ => True) fun _ _ => False)
        (run policy (call.driver sha1).toUploadDriver call.req.state call.turns call.authToken).run w.newDriver :=
      h.ran w.newDriver (call.driver sha1) hsize rfl rfl hturns hup hnone call.authToken
    refine follows_fallible_bind.mpr (follows_lift.mpr (hran.mono ?_))
    rintro (e | _) w hend
    · exact hend.elim
    · exact follows_fallible_bind.mpr (follows_lift.mpr (follows_perform_in.mpr trivial))
  have hend : Ends (fun _ _ => True) (fun _ _ => False) (w.upload env sha1 policy call).1
      (w.upload env sha1 policy call).2 := hprogram.exec trivial fun _ _ => trivial
  revert hend
  cases (w.upload env sha1 policy call).1 with
  | error e => exact False.elim
  | ok result => exact fun _ => ⟨result, rfl⟩

end Healthy

end

/-! ## What a step leaves -/

section

variable {σ : Type} {env : Surroundings σ} {w w' : UploadWorld σ} {driver : ChunkedUploadDriver} {policy : RetryPolicy}
variable {req : UploadRequest} {exchanges : List (ServerRequest × Option Value)} {step : SessionStep}
variable {uploadId : UInt64}

theorem refusals_concat (step : SessionStep) (exchange : ServerRequest × Option Value) :
    driver.refusals step (exchanges ++ [exchange]) =
      driver.refusals step exchanges ++
        if stepOf exchange.1 = some step then (driver.refusalOf exchange).toList else [] := by
  unfold ChunkedUploadDriver.refusals
  rw [List.filter_append, List.filterMap_append]
  by_cases hstep : stepOf exchange.1 = some step
  · rw [if_pos hstep]
    cases hrefusal : driver.refusalOf exchange <;> simp [hstep, hrefusal]
  · simp [hstep]

theorem sessions_concat (exchange : ServerRequest × Option Value) :
    sessions (exchanges ++ [exchange]) =
      sessions exchanges ++ ((stepOf exchange.1).map SessionStep.uploadId).toList := by
  unfold sessions
  rw [List.filterMap_append]
  cases hstep : stepOf exchange.1 <;> simp [hstep]

/-- An attempt of a step leaves the rows, and is noted under its step if it fails. -/
structure Attempted (driver : ChunkedUploadDriver) (step : SessionStep) (failure : Option UploadErrorClass)
    (w w' : UploadWorld σ) : Prop where
  rows : w'.rows = w.rows
  refusals (other : SessionStep) : driver.refusals other w'.exchanges =
    driver.refusals other w.exchanges ++ if other = step then failure.toList else []
  sessions : ∀ id ∈ sessions w'.exchanges, id ∈ sessions w.exchanges ∨ id = step.uploadId

theorem Attempted.send {request : ServerRequest} (hstep : stepOf request = some step) :
    Attempted driver step (driver.refusalOf (request, (env.respond w.around request).1)) w
      (w.perform env (.send request) ()).2 where
  rows := rfl
  refusals other := by
    show driver.refusals other (w.exchanges ++ [_]) = _
    rw [refusals_concat, hstep]
    simp only [Option.some.injEq, eq_comm]
  sessions id hid := by
    change id ∈ UploadState.sessions (w.exchanges ++ [_]) at hid
    rw [sessions_concat, hstep] at hid
    simpa using hid

theorem Attempted.trans {failure : Option UploadErrorClass} {between : UploadWorld σ}
    (h : Attempted driver step none w between) (h' : Attempted driver step failure between w') :
    Attempted driver step failure w w' where
  rows := h'.rows.trans h.rows
  refusals other := by
    rw [h'.refusals, h.refusals]
    simp
  sessions id hid := (h'.sessions id hid).elim (h.sessions id) .inr

theorem attempted_write {offset remaining : Nat} (auth : String)
    (hfits : offset + min remaining psyncCopyBufferSize ≤ driver.payload.bytes.length) :
    Follows (effectsIn env)
      (Ends (fun newOffset w' => newOffset = offset + min remaining psyncCopyBufferSize ∧
        Attempted driver (.writing uploadId offset) none w w')
        fun cls => Attempted driver (.writing uploadId offset) (some cls) w)
      (driver.write uploadId offset remaining auth).run w := by
  refine follows_fallible_bind.mpr (follows_lift.mpr (follows_perform_in.mpr ?_))
  dsimp only [orElse]
  rw [if_neg (by omega)]
  refine follows_fallible_bind.mpr (follows_exchange.mpr ?_)
  generalize hrequest : ServerRequest.write _ _ = request
  have hstep : stepOf request = some (.writing uploadId offset) := by rw [← hrequest]; rfl
  let cached := (w.perform env (.cacheAuth auth) ()).2
  have hsend : Attempted driver (.writing uploadId offset)
      (driver.refusalOf (request, (env.respond cached.around request).1)) cached
      (cached.perform env (.send request) ()).2 := Attempted.send hstep
  have hsent : Attempted driver (.writing uploadId offset)
      (driver.refusalOf (request, (env.respond w.around request).1)) w (cached.perform env (.send request) ()).2 :=
    ⟨hsend.rows, hsend.refusals, hsend.sessions⟩
  have hrefusal : ∀ reply, driver.refusalOf (request, reply) = failureOf (outcomeOf reply) := by
    intro reply
    rw [← hrequest]
    rfl
  rw [hrefusal] at hsent
  show orElse _ _ (outcomeOf (env.respond w.around request).1) _
  cases houtcome : outcomeOf (env.respond w.around request).1 with
  | error cls =>
    rw [houtcome] at hsent
    exact hsent
  | ok hash =>
    rw [houtcome] at hsent
    exact ⟨rfl, hsent⟩

theorem attempted_save (auth : String) :
    Follows (effectsIn env)
      (Ends (fun _ => Attempted driver (.saving uploadId) none w)
        fun cls => Attempted driver (.saving uploadId) (some cls) w)
      (driver.save uploadId auth).run w := by
  let info : ServerRequest := .info ⟨auth, uploadId, 0⟩
  let cached := (w.perform env (.cacheAuth auth) ()).2
  let reported := (cached.perform env (.send info) ()).2
  let commit : ServerRequest := .save (driver.commit uploadId auth)
  have hsend : Attempted driver (.saving uploadId) (driver.refusalOf (info, (env.respond cached.around info).1)) cached
      reported := Attempted.send rfl
  have hinfo : Attempted driver (.saving uploadId) (failureOf (driver.verdict (env.respond w.around info).1)) w
      reported := ⟨hsend.rows, hsend.refusals, hsend.sessions⟩
  have hcommit : Attempted driver (.saving uploadId) (failureOf (outcomeOf (env.respond reported.around commit).1))
      reported (reported.perform env (.send commit) ()).2 :=
    show Attempted driver (.saving uploadId)
      (driver.refusalOf (commit, (env.respond reported.around commit).1)) reported _ from Attempted.send rfl
  refine follows_save (show reported = _ from rfl) (fun cls hverdict => ?_) fun hverdict => ?_
  · rw [hverdict] at hinfo
    exact hinfo
  · rw [hverdict] at hinfo
    have hboth := hinfo.trans hcommit
    show Ends _ _ ((outcomeOf (env.respond reported.around commit).1).map _) _
    cases houtcome : outcomeOf (env.respond reported.around commit).1 with
    | error cls =>
      rw [houtcome] at hboth
      exact hboth
    | ok hash =>
      rw [houtcome] at hboth
      exact hboth

/-! ## What a run leaves -/

/-- The row of the path selects the session. -/
def RowSelects (req : UploadRequest) (uploadId : UInt64) (w : UploadWorld σ) : Prop :=
  ∃ record, w.rows req.localPath = some record ∧ record.Selects req ∧ record.uploadId = uploadId

/-- A run with a session that the row selects, not refused for good, and nothing asked yet of the steps ahead. -/
structure Underway (driver : ChunkedUploadDriver) (req : UploadRequest) (uploadId : UInt64)
    (ahead : SessionStep → Prop) (w : UploadWorld σ) : Prop where
  selects : RowSelects req uploadId w
  session : ∀ id ∈ sessions w.exchanges, id = uploadId
  lenient : driver.Lenient w.exchanges
  fresh : ∀ step, ahead step → driver.refusals step w.exchanges = []

/-- A run with a session ends with a permanent failure just where it was refused for good, and the row stays. -/
def Settled (driver : ChunkedUploadDriver) (req : UploadRequest) (e : UploadStateError) (w : UploadWorld σ) : Prop :=
  (∃ attempts, e = .Permanent attempts) ∧ ¬ driver.Lenient w.exchanges ∧
      (∃ uploadId, RowSelects req uploadId w ∧ ∀ id ∈ sessions w.exchanges, id = uploadId) ∨
    (∀ attempts, e ≠ .Permanent attempts) ∧ driver.Lenient w.exchanges

theorem settled_store (h : driver.Lenient w.exchanges) : Settled driver req .Store w :=
  .inr ⟨fun _ => UploadStateError.noConfusion, h⟩

theorem RowSelects.congr (h : RowSelects req uploadId w) (hrows : w'.rows = w.rows) : RowSelects req uploadId w' := by
  unfold RowSelects
  rw [hrows]
  exact h

theorem RowSelects.updateOffset (h : RowSelects req uploadId w) {around : σ} (offset : Nat) :
    RowSelects req uploadId
      { w with
        around
        rows := Function.update w.rows req.localPath
          ((w.rows req.localPath).map fun record => { record with offset }) } := by
  obtain ⟨record, hrow, hselects⟩ := h
  refine ⟨{ record with offset }, ?_, hselects⟩
  simp [hrow]

theorem statement_ends {α : Type} {answer : α} {rows : String → Option UploadResumeRecord}
    {Q : α → UploadWorld σ → Prop} {R : UploadWorld σ → Prop} (hok : ∀ around, Q answer { w with around, rows })
    (hfailed : ∀ around, R { w with around }) :
    Ends Q (fun _ => R) (w.statement env answer rows).1 (w.statement env answer rows).2 := by
  unfold UploadWorld.statement
  split
  · exact hok _
  · exact hfailed _

namespace Attempted

theorem lenient_of_none (h : Attempted driver step none w w') (hlenient : driver.Lenient w.exchanges) :
    driver.Lenient w'.exchanges := by
  intro other
  rw [h.refusals]
  simpa using hlenient other

theorem lenient_of_tempFail (h : Attempted driver step (some .TempFail) w w') (hlenient : driver.Lenient w.exchanges) :
    driver.Lenient w'.exchanges := by
  intro other
  rw [h.refusals]
  split
  · simpa using hlenient other
  · simpa using hlenient other

theorem not_lenient_of_permFail (h : Attempted driver step (some .PermFail) w w') : ¬ driver.Lenient w'.exchanges := by
  intro hlenient
  refine (hlenient step).1 ?_
  rw [h.refusals, if_pos rfl]
  simp

theorem count_auth (h : Attempted driver step (some .Auth) w w') :
    (driver.refusals step w'.exchanges).count .Auth = (driver.refusals step w.exchanges).count .Auth + 1 := by
  rw [h.refusals, if_pos rfl]
  simp

theorem lenient_of_auth (h : Attempted driver step (some .Auth) w w') (hlenient : driver.Lenient w.exchanges)
    (hfirst : (driver.refusals step w.exchanges).count .Auth = 0) : driver.Lenient w'.exchanges := by
  intro other
  by_cases hother : other = step
  · subst hother
    refine ⟨?_, by rw [h.count_auth, hfirst]⟩
    rw [h.refusals, if_pos rfl]
    simpa using (hlenient other).1
  · rw [h.refusals, if_neg hother, List.append_nil]
    exact hlenient other

theorem fresh {ahead : SessionStep → Prop} {failure : Option UploadErrorClass} (h : Attempted driver step failure w w')
    (hahead : ¬ ahead step) (hfresh : ∀ step, ahead step → driver.refusals step w.exchanges = []) :
    ∀ step, ahead step → driver.refusals step w'.exchanges = [] := by
  intro other hother
  have hne : other ≠ step := by
    rintro rfl
    exact hahead hother
  rw [h.refusals, hfresh other hother, if_neg hne]
  rfl

theorem session {failure : Option UploadErrorClass} (h : Attempted driver step failure w w')
    (hstep : step.uploadId = uploadId) (hsession : ∀ id ∈ UploadState.sessions w.exchanges, id = uploadId) :
    ∀ id ∈ UploadState.sessions w'.exchanges, id = uploadId := by
  intro id hid
  rcases h.sessions id hid with hid | rfl
  · exact hsession id hid
  · exact hstep

end Attempted

theorem underway_runStep {α : Type} {op : String → Upload UploadErrorClass α} {ahead ahead' : SessionStep → Prop}
    {value : α → Prop}
    (hop : ∀ auth (w : UploadWorld σ), Follows (effectsIn env)
      (Ends (fun a w' => value a ∧ Attempted driver step none w w') fun cls => Attempted driver step (some cls) w)
      (op auth).run w)
    (hsession : step.uploadId = uploadId) (hstep : ahead step) (hbehind : ¬ ahead' step)
    (hsub : ∀ step, ahead' step → ahead step) (h : Underway driver req uploadId ahead w) (auth : String) :
    Follows (effectsIn env)
      (Ends (fun result w => value result.1 ∧ Underway driver req uploadId ahead' w) (Settled driver req))
      (runStep policy op auth).run w := by
  -- The tries of this step count: none was refused for want of a token, or one was and the session is renewed.
  let tries (authRefreshed : Bool) (w : UploadWorld σ) : Prop :=
    Underway driver req uploadId ahead' w ∧
      (driver.refusals step w.exchanges).count .Auth = if authRefreshed then 1 else 0
  refine follows_runStep (I := tries) (Q := fun a w => value a ∧ Underway driver req uploadId ahead' w)
    (R := Settled driver req) ?_ ?_ auth ?_
  · rintro authRefreshed auth w ⟨h, hcount⟩
    refine (hop auth w).mono ?_
    rintro (cls | a) w' hattempt
    · have hselects := h.selects.congr hattempt.rows
      have hsessions := hattempt.session hsession h.session
      have hfresh := hattempt.fresh hbehind h.fresh
      cases cls with
      | PermFail =>
        exact fun attempts => .inl ⟨⟨attempts, rfl⟩, hattempt.not_lenient_of_permFail, uploadId, hselects, hsessions⟩
      | TempFail =>
        refine ⟨⟨hselects, hsessions, hattempt.lenient_of_tempFail h.lenient, hfresh⟩, ?_⟩
        rw [hattempt.refusals, if_pos rfl]
        simpa using hcount
      | Auth =>
        change ite _ _ _
        split
        · next hrefreshed =>
          rw [hrefreshed] at hcount
          refine fun attempts => .inl ⟨⟨attempts, rfl⟩, fun hlenient => ?_, uploadId, hselects, hsessions⟩
          have hmany := (hlenient step).2
          rw [hattempt.count_auth, hcount] at hmany
          exact absurd hmany (by decide)
        · next hrefreshed =>
          rw [if_neg hrefreshed] at hcount
          have hlenient := hattempt.lenient_of_auth h.lenient hcount
          refine follows_perform_in.mpr ?_
          cases (w'.perform env .refresh ()).1 with
          | error message => exact .inr ⟨fun _ => UploadStateError.noConfusion, hlenient⟩
          | ok newToken =>
            refine ⟨⟨hselects, hsessions, hlenient, hfresh⟩, ?_⟩
            show (driver.refusals step w'.exchanges).count .Auth = 1
            rw [hattempt.count_auth, hcount]
    · exact ⟨hattempt.1, h.selects.congr hattempt.2.rows, hattempt.2.session hsession h.session,
        hattempt.2.lenient_of_none h.lenient, hattempt.2.fresh hbehind h.fresh⟩
  · rintro authRefreshed w attempts ⟨h, -⟩
    exact .inr ⟨fun _ => UploadStateError.noConfusion, h.lenient⟩
  · refine ⟨⟨h.selects, h.session, h.lenient, fun step hahead => h.fresh step (hsub step hahead)⟩, ?_⟩
    rw [h.fresh step hstep]
    rfl

/-- The steps from the chunk at `offset` on. -/
def stepsFrom (offset : Nat) : SessionStep → Prop
  | .writing _ other => offset ≤ other
  | .saving _ => True

def IsSaving : SessionStep → Prop
  | .writing _ _ => False
  | .saving _ => True

theorem Underway.written {offset : Nat} (h : Underway driver req uploadId (stepsFrom offset) w) :
    Underway driver req uploadId IsSaving w where
  selects := h.selects
  session := h.session
  lenient := h.lenient
  fresh
    | .saving _, _ => h.fresh _ trivial

theorem underway_writeLoop {turns offset : Nat} (hsize : driver.payload.bytes.length = req.totalSize)
    (h : Underway driver req uploadId (stepsFrom offset) w) (auth : String) :
    Follows (effectsIn env) (Ends (fun _ => Underway driver req uploadId IsSaving) (Settled driver req))
      (writeLoop policy driver.toUploadDriver req uploadId turns offset auth).run w := by
  induction turns generalizing offset auth w with
  | zero =>
    unfold writeLoop
    split
    · exact h.written
    · exact .inr ⟨fun _ => UploadStateError.noConfusion, h.lenient⟩
  | succ turns ih =>
    unfold writeLoop
    split
    · exact h.written
    · next hmore =>
      let chunkLen := min (req.totalSize - offset) psyncCopyBufferSize
      have hchunk : 0 < chunkLen := Nat.lt_min.mpr ⟨by omega, by decide⟩
      have hfits : offset + chunkLen ≤ req.totalSize := by
        have := Nat.min_le_left (req.totalSize - offset) psyncCopyBufferSize
        omega
      have hstep : Follows (effectsIn env)
          (Ends (fun result w => result.1 = offset + chunkLen ∧
            Underway driver req uploadId (stepsFrom (offset + chunkLen)) w) (Settled driver req))
          (runStep policy (driver.write uploadId offset (req.totalSize - offset)) auth).run w := by
        refine underway_runStep (fun auth w => attempted_write auth (by rw [hsize]; exact hfits)) rfl
          (Nat.le_refl offset) ?_ ?_ h auth
        · exact fun hle => absurd (show offset + chunkLen ≤ offset from hle) (by omega)
        · rintro (⟨_, other⟩ | _) hother
          · exact (Nat.le_add_right offset chunkLen).trans hother
          · trivial
      refine follows_ends_bind hstep ?_
      rintro ⟨newOffset, auth⟩ w ⟨rfl, h⟩
      refine follows_ends_bind (follows_store (follows_perform_in.mpr (statement_ends
        (Q := fun _ => Underway driver req uploadId (stepsFrom (offset + chunkLen))) (R := Settled driver req .Store)
        (fun _ => ⟨h.selects.updateOffset _, h.session, h.lenient, h.fresh⟩)
        fun _ => settled_store h.lenient))) fun _ w h => ?_
      rw [Nat.min_eq_left hfits]
      exact ih h auth

/-- The effects outside a session, which leave the table. -/
def Sessionless : UploadEffect → Prop
  | .send request => stepOf request = none
  | .put _ | .updateOffset _ _ | .deleteRow _ => False
  | _ => True

/-- Nothing has become of a session, and the table is as before. -/
structure Aside (driver : ChunkedUploadDriver) (w w' : UploadWorld σ) : Prop where
  rows : w'.rows = w.rows
  refusals : ∀ step, driver.refusals step w'.exchanges = driver.refusals step w.exchanges
  sessions : sessions w'.exchanges = sessions w.exchanges

theorem perform_of_sessionless {e : UploadEffect} (h : Sessionless e) : Aside driver w (w.perform env e ()).2 := by
  cases e with
  | send request =>
    have hstep : stepOf request = none := h
    refine ⟨rfl, fun step => ?_, ?_⟩
    · show driver.refusals step (w.exchanges ++ [_]) = _
      rw [refusals_concat, hstep, if_neg (Option.some_ne_none step ∘ Eq.symm), List.append_nil]
    · show sessions (w.exchanges ++ [_]) = _
      rw [sessions_concat, hstep]
      exact List.append_nil _
  | get localPath =>
    unfold UploadWorld.perform UploadWorld.statement
    dsimp only
    split
    · exact ⟨rfl, fun _ => rfl, rfl⟩
    · exact ⟨rfl, fun _ => rfl, rfl⟩
  | refresh => exact ⟨rfl, fun _ => rfl, rfl⟩
  | cacheAuth authToken => exact ⟨rfl, fun _ => rfl, rfl⟩
  | setUploadId uploadId => exact ⟨rfl, fun _ => rfl, rfl⟩
  | cells => exact ⟨rfl, fun _ => rfl, rfl⟩
  | _ => exact h.elim

variable (driver) in
theorem follows_sessionless {α : Type} {p : Prog UploadEffect UploadEffect.Answer α} (hp : Asks Sessionless p)
    {I : UploadWorld σ → Prop} (hI : ∀ w w', Aside driver w w' → I w → I w') (h : I w) :
    Follows (effectsIn env) (fun _ => I) p w :=
  hp.keeps (fun w _ _ he h => hI w _ (perform_of_sessionless he) h) h

theorem refusals_of_no_session (h : sessions exchanges = []) (step : SessionStep) :
    driver.refusals step exchanges = [] := by
  have hnone : exchanges.filter (fun exchange => stepOf exchange.1 = some step) = [] := by
    refine List.filter_eq_nil_iff.mpr fun exchange hexchange hstep => ?_
    have hsession := List.filterMap_eq_nil_iff.mp h exchange hexchange
    rw [of_decide_eq_true hstep] at hsession
    cases hsession
  rw [ChunkedUploadDriver.refusals, hnone]
  rfl

theorem lenient_of_no_session (h : sessions exchanges = []) : driver.Lenient exchanges := by
  intro step
  rw [refusals_of_no_session h]
  simp

/-- How a run ends that fails: without a session, the path has no row after a permanent failure. -/
def Left (driver : ChunkedUploadDriver) (req : UploadRequest) (e : UploadStateError) (w : UploadWorld σ) : Prop :=
  Settled driver req e w ∨ driver.Lenient w.exchanges ∧ w.rows req.localPath = none

theorem underway_startOver {existing : Option UploadResumeRecord} (hexisting : w.rows req.localPath = existing)
    (hfresh : sessions w.exchanges = []) (auth : String) :
    Follows (effectsIn env) (Ends (fun begun => Underway driver req begun.1 fun _ => True) (Left driver req))
      (startOver policy driver.toUploadDriver req existing auth).run w := by
  let fresh (w : UploadWorld σ) : Prop := w.rows req.localPath = none ∧ sessions w.exchanges = []
  have hcreate : ∀ auth, Asks Sessionless (driver.create auth).run :=
    asks_create (fun _ => trivial) (fun _ => rfl) fun _ => trivial
  have hstart : ∀ w, fresh w → Follows (effectsIn env)
      (Ends (fun begun => Underway driver req begun.1 fun _ => True) (Left driver req))
      (startOver policy driver.toUploadDriver req none auth).run w := by
    intro w hw
    have hcreated : Follows (effectsIn env) (Ends (fun _ => fresh) (Left driver req))
        (runStep policy (driver.toUploadDriver.create req) auth).run w := by
      refine (follows_sessionless driver (I := fresh) (asks_runStep trivial hcreate auth) ?_ hw).mono ?_
      · rintro w w' haside ⟨hnone, hfresh⟩
        exact ⟨by rw [haside.rows, hnone], by rw [haside.sessions, hfresh]⟩
      · rintro (e | created) w ⟨hnone, hfresh⟩
        · exact .inr ⟨lenient_of_no_session hfresh, hnone⟩
        · exact ⟨hnone, hfresh⟩
    refine follows_ends_bind hcreated ?_
    rintro ⟨uploadId, auth⟩ w ⟨hnone, hfresh⟩
    have hput : Follows (effectsIn env) (Ends (fun _ => Underway driver req uploadId fun _ => True) (Left driver req))
        (store (Prog.perform (UploadEffect.put (req.record uploadId)))).run w := by
      refine follows_store (follows_perform_in.mpr (statement_ends (fun around => ?_) fun _ => ?_))
      · have hselects : (req.record uploadId).Selects req := ⟨rfl, rfl, rfl, ConflictMode.fromHint_toHint _⟩
        refine ⟨⟨req.record uploadId, Function.update_self .., hselects, rfl⟩, ?_, lenient_of_no_session hfresh,
          fun step _ => refusals_of_no_session hfresh step⟩
        show ∀ id ∈ sessions w.exchanges, id = uploadId
        rw [hfresh]
        exact fun id hid => absurd hid List.not_mem_nil
      · exact .inr ⟨lenient_of_no_session hfresh, hnone⟩
    exact follows_ends_bind hput fun _ w h => h
  cases existing with
  | none => exact hstart w ⟨hexisting, hfresh⟩
  | some record =>
    rw [startOver_some]
    refine follows_ends_bind (follows_store (follows_perform_in.mpr (statement_ends (Q := fun _ => fresh)
      (R := Left driver req .Store) (fun _ => ⟨Function.update_self .., hfresh⟩)
      fun _ => .inl (settled_store (lenient_of_no_session hfresh))))) fun _ w hw => ?_
    exact hstart w hw

theorem underway_begin (hnone : w.exchanges = []) (auth : String) :
    Follows (effectsIn env) (Ends (fun begun => Underway driver req begun.1 fun _ => True) (Left driver req))
      (begin policy driver.toUploadDriver req auth).run w := by
  have hfresh : sessions w.exchanges = [] := by
    rw [hnone]
    rfl
  refine follows_ends_bind (follows_store (follows_perform_in.mpr (statement_ends
    (Q := fun existing w => w.rows req.localPath = existing ∧ sessions w.exchanges = [])
    (R := Left driver req .Store) (fun _ => ⟨rfl, hfresh⟩)
    fun _ => .inl (settled_store (lenient_of_no_session hfresh))))) ?_
  rintro (_ | record) w ⟨hrow, hfresh⟩
  · exact underway_startOver hrow hfresh auth
  · dsimp only
    split
    · next hselects =>
      refine ⟨⟨record, hrow, hselects, rfl⟩, ?_, lenient_of_no_session hfresh,
        fun step _ => refusals_of_no_session hfresh step⟩
      rw [hfresh]
      exact fun id hid => absurd hid List.not_mem_nil
    · exact underway_startOver hrow hfresh auth

theorem left_run (turns : Nat) (hsize : driver.payload.bytes.length = req.totalSize) (hnone : w.exchanges = [])
    (auth : String) :
    Follows (effectsIn env) (Ends (fun _ w => driver.Lenient w.exchanges) (Left driver req))
      (run policy driver.toUploadDriver req turns auth).run w := by
  have hleft : ∀ {α : Type} {Q : α → UploadWorld σ → Prop} (outcome : Except UploadStateError α) w,
      Ends Q (Settled driver req) outcome w → Ends Q (Left driver req) outcome w := by
    rintro α Q (e | a) w h
    · exact .inl h
    · exact h
  refine follows_ends_bind (underway_begin hnone auth) ?_
  rintro ⟨uploadId, offset, auth⟩ w ⟨hselects, hsession, hlenient, hfresh⟩
  have hloop : Follows (effectsIn env) (Ends (fun _ => Underway driver req uploadId IsSaving) (Settled driver req))
      (writeLoop policy driver.toUploadDriver req uploadId turns offset auth).run w :=
    underway_writeLoop hsize ⟨hselects, hsession, hlenient, fun step _ => hfresh step trivial⟩ auth
  refine follows_ends_bind (hloop.mono hleft) fun auth w h => ?_
  have hsave : Follows (effectsIn env)
      (Ends (fun result w => True ∧ Underway driver req uploadId (fun _ => False) w) (Settled driver req))
      (runStep policy (driver.save uploadId) auth).run w := by
    have hattempt : ∀ auth (w : UploadWorld σ), Follows (effectsIn env)
        (Ends (fun _ w' => True ∧ Attempted driver (.saving uploadId) none w w')
          fun cls => Attempted driver (.saving uploadId) (some cls) w)
        (driver.save uploadId auth).run w := by
      intro auth w
      refine (attempted_save auth).mono ?_
      rintro (cls | _) w' hattempt
      · exact hattempt
      · exact ⟨trivial, hattempt⟩
    refine underway_runStep hattempt rfl ?_ id (fun _ => False.elim) h auth
    trivial
  refine follows_ends_bind (hsave.mono hleft) fun _ w h => ?_
  exact follows_store (follows_perform_in.mpr (statement_ends (Q := fun _ w => driver.Lenient w.exchanges)
    (R := Left driver req .Store) (fun _ => h.2.lenient)
    fun _ => .inl (settled_store h.2.lenient)))

/-! ## From call to call -/

theorem Aside.lenient (h : Aside driver w w') : driver.Lenient w'.exchanges ↔ driver.Lenient w.exchanges := by
  simp only [ChunkedUploadDriver.Lenient, h.refusals]

theorem Aside.left (h : Aside driver w w') {e : UploadStateError} (hleft : Left driver req e w) :
    Left driver req e w' := by
  unfold Left Settled RowSelects
  rw [h.lenient, h.rows, h.sessions]
  exact hleft

/-- How a call ends that fails. -/
def LeftByCall (driver : ChunkedUploadDriver) (req : UploadRequest) : ChunkedUploadError → UploadWorld σ → Prop
  | .PayloadSizeMismatch _ _, w => driver.Lenient w.exchanges
  | .State e, w => Left driver req e w

theorem left_finish (request : ChunkedUploadRequest) (text : String) {outcome : Except UploadStateError Unit}
    (hend : Ends (fun _ w => driver.Lenient w.exchanges) (Left driver req) outcome w) :
    Follows (effectsIn env) (Ends (fun _ w => driver.Lenient w.exchanges) (LeftByCall driver req))
      (finish request text outcome).run w := by
  rcases outcome with e | _
  · cases e with
    | Permanent attempts =>
      have hcleanUp : Asks Sessionless cleanUp := asks_cleanUp trivial fun _ _ => rfl
      refine follows_fallible_bind.mpr (follows_lift.mpr ?_)
      exact follows_sessionless driver hcleanUp (fun _ _ haside => haside.left) hend
    | _ => exact hend
  · exact follows_fallible_bind.mpr (follows_lift.mpr (follows_perform_in.mpr hend))

variable (env policy w) in
theorem left_upload (sha1 : Bytes → Sha1Digest) (call : UploadCall) :
    Ends (fun _ w => (call.driver sha1).Lenient w.exchanges) (LeftByCall (call.driver sha1) call.req.state)
      (w.upload env sha1 policy call).1 (w.upload env sha1 policy call).2 := by
  have hprogram : Follows (effectsIn env)
      (Ends (fun _ w => (call.driver sha1).Lenient w.exchanges) (LeftByCall (call.driver sha1) call.req.state))
      (uploadBytesChunked sha1 policy call.idempotencyKey call.turns call.authToken call.req call.payload).run
      w.newDriver := by
    unfold uploadBytesChunked
    split
    · exact lenient_of_no_session rfl
    · next hsize =>
      have hran : Follows (effectsIn env)
          (Ends (fun _ w => (call.driver sha1).Lenient w.exchanges) (Left (call.driver sha1) call.req.state))
          (run policy (call.driver sha1).toUploadDriver call.req.state call.turns call.authToken).run w.newDriver :=
        left_run call.turns (not_not.mp hsize) rfl call.authToken
      exact follows_fallible_bind.mpr (follows_lift.mpr (hran.mono fun outcome w hend => left_finish call.req _ hend))
  exact hprogram.exec trivial fun _ _ => trivial

end

theorem exists_session_of_not_lenient {driver : ChunkedUploadDriver} {exchanges : List (ServerRequest × Option Value)}
    (h : ¬ driver.Lenient exchanges) : ∃ id, id ∈ sessions exchanges :=
  List.exists_mem_of_ne_nil _ fun hnone => h (lenient_of_no_session hnone)

namespace UploadHistory

variable {σ : Type} (sha1 : Bytes → Sha1Digest) (policy : RetryPolicy) (env : Surroundings σ)

theorem recovers_step_iff (s : UploadHistory σ) (call : UploadCall) :
    (s.step sha1 policy env call).Recovers sha1 policy ↔ s.Lenient sha1 policy env call := by
  have hend := left_upload env s.world policy sha1 call
  unfold Lenient
  show Recovers sha1 policy
    ⟨(s.world.upload env sha1 policy call).2, some (call, (s.world.upload env sha1 policy call).1)⟩ ↔ _
  generalize s.world.upload env sha1 policy call = result at hend ⊢
  obtain ⟨outcome, world⟩ := result
  constructor
  · intro hrecovers
    rcases outcome with (⟨declared, actual⟩ | e) | result
    · exact hend
    · rcases hend with
        (⟨⟨attempts, rfl⟩, hrefused, uploadId, ⟨record, hrow, hselects, rfl⟩, hsession⟩ | ⟨-, hlenient⟩) | ⟨hlenient, -⟩
      · -- The row is still there, and names the session that the run has worked on.
        obtain ⟨id, hid⟩ := exists_session_of_not_lenient hrefused
        rw [hsession id hid] at hid
        exact absurd hid ((hrecovers call attempts rfl).1 record hrow hselects)
      · exact hlenient
      · exact hlenient
    · exact hend
  · rintro hlenient call' attempts heq
    obtain ⟨rfl, rfl⟩ : call = call' ∧ outcome = .error (.State (.Permanent attempts)) := by simpa using heq
    rcases hend with (⟨-, hrefused, -⟩ | ⟨hother, -⟩) | ⟨-, hnone⟩
    · exact absurd hlenient hrefused
    · exact absurd rfl (hother attempts)
    · refine ⟨fun record hrow => ?_, fun later hpath hsize hturns τ healthy up content h around hup => ?_⟩
      · rw [show world.rows call.req.localPath = none from hnone] at hrow
        cases hrow
      · refine h.uploads { around, rows := world.rows } policy hsize hturns hup ?_
        rw [hpath]
        exact hnone

/-- In whole histories: every permanent failure is recovered from just where the server is lenient with every session.
-/
theorem recovers_iff_lenient (world : UploadWorld σ) (calls : List UploadCall) :
    Runs.AllStates (step sha1 policy env) (Recovers sha1 policy) { world } calls ↔
      Runs.AllSteps (step sha1 policy env) (Lenient sha1 policy env) { world } calls :=
  Runs.allStates_iff_allSteps (fun s call _ => recovers_step_iff sha1 policy env s call) fun _ _ heq => by cases heq

end UploadHistory

/-! ## Another letter -/

/-- A server with one session, whatever its name, which only a create empties. -/
def oneSession (sha1 : Bytes → Sha1Digest) : Surroundings Bytes where
  respond
    | _, .create _ => (Shelf.reply [("uploadid", .number 0)], [])
    | bytes, .write request body => (Shelf.reply [], writeAt bytes request.uploadOffset body)
    | bytes, .info _ =>
      (Shelf.reply [("size", .number (.ofNat bytes.length)), ("sha1", .string (uploadSha1Hex sha1 bytes))], bytes)
    | bytes, _ => (Shelf.reply [], bytes)
  refresh bytes := (.ok "renewed", bytes)
  store bytes := (true, bytes)

theorem healthy_oneSession (sha1 : Bytes → Sha1Digest) :
    Healthy (oneSession sha1) sha1 (fun _ => True) fun bytes _ => some bytes where
  store _ _ := ⟨rfl, trivial, rfl⟩
  create _ _ _ := ⟨_, 0, Shelf.outcomeOf_reply _, rfl, trivial, rfl⟩
  write _ _ _ bytes _ hbytes := by
    cases hbytes
    exact ⟨_, Shelf.outcomeOf_reply _, trivial, rfl⟩
  info _ _ bytes _ hbytes hsize := by
    cases hbytes
    refine ⟨_, Shelf.outcomeOf_reply _, ?_, rfl, trivial, rfl⟩
    exact congrArg some (UInt64.toNat_ofNat_of_lt' (hsize.trans_lt (by decide)))
  save _ _ _ _ _ := ⟨_, Shelf.outcomeOf_reply _, trivial⟩

/-- The letter was an A when the server did not answer, and is a B since. The row of the A is still there after the
permanent failure, and even a healthy server, which holds the A, gets no further. -/
theorem not_alwaysRecovers : ¬ ∀ (σ : Type) (sha1 : Bytes → Sha1Digest) (policy : RetryPolicy) (env : Surroundings σ)
    (world : UploadWorld σ) (localPath : String) (totalSize : Nat) (calls : List UploadCall),
    (∀ call ∈ calls, call.req.localPath = localPath ∧ call.req.totalSize = totalSize) →
    Runs.AllStates (UploadHistory.step sha1 policy env) (UploadHistory.Recovers sha1 policy) { world } calls := by
  intro hall
  have hstates := hall Shelf letterSha1 defaultPolicy (Shelf.surroundings letterSha1)
    { around := { lost := [false, false, true, true, true, true, true] } } letterRequest.localPath 1
    [letterCall 65, letterCall 66] (by simp [letterCall, letterRequest])
  obtain ⟨result, hok⟩ := (hstates.2.2 (letterCall 66) 1 rfl).2 (letterCall 66) rfl rfl (Nat.le_refl 1) Bytes
    (oneSession letterSha1) _ _ (healthy_oneSession letterSha1) [65] trivial
  cases hok

end Pcloud.UploadState
