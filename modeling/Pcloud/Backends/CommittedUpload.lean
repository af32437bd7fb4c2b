import Pcloud.Backends.UploadSteps

/-!
# What a chunked upload commits

A session may have been filled by earlier runs, from other content. Whatever is in it, it is saved only right after
the server has reported that it holds the payload.
-/

namespace Pcloud.UploadState

open Program

/-! ## The record of a run -/

section

variable (sha1 : Bytes → Sha1Digest) (payload : Bytes) (uploadId : UInt64)

/-- The server reports of the session the size and the digest of the payload. -/
def Reports : ServerRequest × Option Value → Prop
  | (.info request, reply) => request.uploadId = uploadId ∧ ∃ hash, outcomeOf reply = .ok hash ∧
      (hash.getNumber "size").map UInt64.toNat = some payload.length ∧
      hash.getString "sha1" = some (uploadSha1Hex sha1 payload)
  | _ => False

/-- The server has saved the session. -/
def Commits : ServerRequest × Option Value → Prop
  | (.save request, reply) => request.uploadId = uploadId ∧ ∃ hash, outcomeOf reply = .ok hash
  | _ => False

/-- Each request to save a session comes right after such a report of it. -/
def SavesReported (exchanges : List (ServerRequest × Option Value)) : Prop :=
  ∀ before request reply rest, exchanges = before ++ (.save request, reply) :: rest →
    ∃ earlier report, before = earlier ++ [report] ∧ Reports sha1 payload request.uploadId report

/-- The record ends with a report that the session holds the payload, and with its commit. -/
def EndsCommitted (exchanges : List (ServerRequest × Option Value)) : Prop :=
  ∃ earlier report commit, exchanges = earlier ++ [report, commit] ∧ Reports sha1 payload uploadId report ∧
    Commits uploadId commit

end

theorem SavesReported.concat {sha1 : Bytes → Sha1Digest} {payload : Bytes}
    {exchanges : List (ServerRequest × Option Value)} {exchange : ServerRequest × Option Value}
    (h : SavesReported sha1 payload exchanges)
    (hlast : ∀ request reply, exchange = (.save request, reply) →
      ∃ earlier report, exchanges = earlier ++ [report] ∧ Reports sha1 payload request.uploadId report) :
    SavesReported sha1 payload (exchanges ++ [exchange]) := by
  intro before request reply rest hsplit
  rcases List.eq_nil_or_concat rest with rfl | ⟨rest, last, rfl⟩
  · obtain ⟨rfl, hlast'⟩ := List.append_inj' hsplit rfl
    exact hlast request reply (List.singleton_inj.mp hlast')
  · have hsplit' : exchanges ++ [exchange] = (before ++ (.save request, reply) :: rest) ++ [last] := by
      simpa using hsplit
    exact h before request reply rest (List.append_inj' hsplit' rfl).1

/-- A server that tells the truth: a report is of what a session holds, and leaves it there; to save a session is to
publish what it holds, whether the answer arrives or not; and nothing else publishes. -/
structure Honest {σ : Type} (env : Surroundings σ) (sha1 : Bytes → Sha1Digest) (content : σ → UInt64 → Bytes)
    (published : σ → Option Bytes) : Prop where
  size : ∀ s request hash, outcomeOf (env.respond s (.info request)).1 = .ok hash →
    ∀ size, hash.getNumber "size" = some size → size.toNat = (content s request.uploadId).length
  digest : ∀ s request hash, outcomeOf (env.respond s (.info request)).1 = .ok hash →
    ∀ text, hash.getString "sha1" = some text → text = uploadSha1Hex sha1 (content s request.uploadId)
  report : ∀ s request, content (env.respond s (.info request)).2 request.uploadId = content s request.uploadId
  save : ∀ s request, published (env.respond s (.save request)).2 = published s ∨
    published (env.respond s (.save request)).2 = some (content s request.uploadId)
  commit : ∀ s request hash, outcomeOf (env.respond s (.save request)).1 = .ok hash →
    published (env.respond s (.save request)).2 = some (content s request.uploadId)
  others : ∀ s request, (∀ save, request ≠ .save save) → published (env.respond s request).2 = published s
  refresh : ∀ s, published (env.refresh s).2 = published s
  store : ∀ s, published (env.store s).2 = published s

/-! ## Steps that commit nothing -/

/-- Any effect but the request that commits. -/
def Harmless : UploadEffect → Prop
  | .send (.save _) => False
  | _ => True

/-- Any effect but a request. -/
def Quiet : UploadEffect → Prop
  | .send _ => False
  | _ => True

section

variable {σ : Type} {env : Surroundings σ} {w : UploadWorld σ} {policy : RetryPolicy} {driver : ChunkedUploadDriver}
variable {sha1 : Bytes → Sha1Digest}

theorem asks_write (uploadId : UInt64) (offset remaining : Nat) (auth : String) :
    Asks Harmless (driver.write uploadId offset remaining auth).run := by
  refine Asks.fallible_bind (Asks.lift (asks_perform.mpr trivial)) fun _ => ?_
  dsimp only
  split
  · trivial
  · exact Asks.fallible_bind (asks_exchange trivial) fun _ => trivial

theorem asks_startOver (req : UploadRequest) (existing : Option UploadResumeRecord) (auth : String) :
    Asks Harmless (startOver policy driver.toUploadDriver req existing auth).run := by
  have hcreate : ∀ auth, Asks Harmless (driver.create auth).run :=
    asks_create (fun _ => trivial) (fun _ => trivial) fun _ => trivial
  have hnone : Asks Harmless (startOver policy driver.toUploadDriver req none auth).run := by
    refine Asks.fallible_bind (asks_runStep trivial hcreate auth) fun _ => ?_
    exact Asks.fallible_bind (asks_store (asks_perform.mpr trivial)) fun _ => trivial
  cases existing with
  | none => exact hnone
  | some record =>
    rw [startOver_some]
    exact Asks.fallible_bind (asks_store (asks_perform.mpr trivial)) fun _ => hnone

theorem asks_begin (req : UploadRequest) (auth : String) :
    Asks Harmless (begin policy driver.toUploadDriver req auth).run := by
  refine Asks.fallible_bind (asks_store (asks_perform.mpr trivial)) fun existing => ?_
  cases existing with
  | none => exact asks_startOver req none auth
  | some record =>
    dsimp only
    split
    · trivial
    · exact asks_startOver req (some record) auth

theorem asks_writeLoop (req : UploadRequest) (uploadId : UInt64) (turns offset : Nat) (auth : String) :
    Asks Harmless (writeLoop policy driver.toUploadDriver req uploadId turns offset auth).run := by
  induction turns generalizing offset auth with
  | zero =>
    unfold writeLoop
    split <;> trivial
  | succ turns ih =>
    unfold writeLoop
    split
    · trivial
    · refine Asks.fallible_bind (asks_runStep trivial (asks_write uploadId offset _) auth) fun _ => ?_
      exact Asks.fallible_bind (asks_store (asks_perform.mpr trivial)) fun _ => ih _ _

/-! ## From the commit to the call -/

/-- `I` holds until a session is saved, and `Q` of the session that the run has saved at last. -/
structure Commit (env : Surroundings σ) (driver : ChunkedUploadDriver) (I : UploadWorld σ → Prop)
    (Q : UInt64 → UploadWorld σ → Prop) : Prop where
  keeps : ∀ w e, Harmless e → I w → I (w.perform env e ()).2
  quiet : ∀ w e uploadId, Quiet e → Q uploadId w → Q uploadId (w.perform env e ()).2
  weaken : ∀ w uploadId, Q uploadId w → I w
  save : ∀ w uploadId auth, I w →
    Follows (effectsIn env) (Ends (fun _ => Q uploadId) fun _ => I) (driver.save uploadId auth).run w

namespace Commit

variable {I : UploadWorld σ → Prop} {Q : UInt64 → UploadWorld σ → Prop} {α ε : Type}

theorem harmless (h : Commit env driver I Q) {x : Upload ε α} (hx : Asks Harmless x.run) (hI : I w) :
    Follows (effectsIn env) (Ends (fun _ => I) fun _ => I) x.run w := by
  refine (hx.keeps (fun w e _ => h.keeps w e) hI).mono ?_
  rintro (err | a) w hI
  · exact hI
  · exact hI

theorem afterFailure (h : Commit env driver I Q) (authRefreshed : Bool) (cls : UploadErrorClass) (hI : I w) :
    AfterFailure (effectsIn env) (fun _ => I) (fun _ => I) authRefreshed cls w := by
  cases cls with
  | PermFail => exact fun _ => hI
  | TempFail => exact hI
  | Auth =>
    change ite _ _ _
    split
    · exact fun _ => hI
    · refine follows_perform_in.mpr ?_
      cases (w.perform env .refresh ()).1 with
      | error message => exact h.keeps w .refresh trivial hI
      | ok newToken => exact h.keeps w .refresh trivial hI

theorem runSave (h : Commit env driver I Q) (uploadId : UInt64) (req : UploadRequest) (auth : String) (hI : I w) :
    Follows (effectsIn env) (Ends (fun _ => Q uploadId) fun _ => I)
      (runStep policy (driver.toUploadDriver.save uploadId req) auth).run w := by
  refine follows_runStep (I := fun _ => I) (Q := fun _ => Q uploadId) (R := fun _ => I)
    (fun authRefreshed auth w hI => ?_) (fun _ _ _ hI => hI) auth hI
  refine (h.save w uploadId auth hI).mono ?_
  rintro (cls | _) w h'
  · exact h.afterFailure authRefreshed cls h'
  · exact h'

variable (policy) in
theorem run (h : Commit env driver I Q) (req : UploadRequest) (turns : Nat) (auth : String) (hI : I w) :
    Follows (effectsIn env) (Ends (fun _ w => ∃ uploadId, Q uploadId w) fun _ => I)
      (run policy driver.toUploadDriver req turns auth).run w := by
  refine follows_ends_bind (h.harmless (asks_begin req auth) hI) ?_
  rintro ⟨uploadId, offset, auth⟩ w hI
  refine follows_ends_bind (h.harmless (asks_writeLoop req uploadId turns offset auth) hI) fun auth w hI => ?_
  refine follows_ends_bind (h.runSave uploadId req auth hI) fun _ w hQ => ?_
  refine follows_store (follows_perform_in.mpr ?_)
  have hQ' := h.quiet w (.deleteRow req.localPath) uploadId trivial hQ
  cases (w.perform env (.deleteRow req.localPath) ()).1 with
  | error _ => exact h.weaken _ uploadId hQ'
  | ok _ => exact ⟨uploadId, hQ'⟩

theorem finish (h : Commit env driver I Q) (req : ChunkedUploadRequest) (text : String)
    {outcome : Except UploadStateError Unit}
    (hend : Ends (fun _ w => ∃ uploadId, Q uploadId w) (fun _ => I) outcome w) :
    Follows (effectsIn env) (Ends (fun _ w => ∃ uploadId, Q uploadId w) fun _ => I)
      (finish req text outcome).run w := by
  rcases outcome with e | _
  · cases e with
    | Permanent attempts =>
      have hcleanUp : Asks Harmless cleanUp := asks_cleanUp trivial fun _ _ => trivial
      refine follows_ends_bind (h.harmless hcleanUp.lift hend) fun _ w hI => ?_
      exact hI
    | _ => exact hend
  · obtain ⟨uploadId, hQ⟩ := hend
    refine follows_ends_bind (follows_lift.mpr (follows_perform_in.mpr ?_)) fun _ w hQ => hQ
    exact ⟨uploadId, h.quiet w .cells uploadId trivial hQ⟩

end Commit

theorem exchanges_perform_of_quiet {e : UploadEffect} (h : Quiet e) :
    (w.perform env e ()).2.exchanges = w.exchanges := by
  cases e with
  | send request => cases h
  | refresh => rfl
  | cacheAuth authToken => rfl
  | setUploadId uploadId => rfl
  | cells => rfl
  | _ =>
    unfold UploadWorld.perform UploadWorld.statement
    dsimp only
    split <;> rfl

theorem reports_of_verdict {uploadId : UInt64} {auth : String} {payload : Buffer} {reply : Option Value}
    (hpayload : payload.bytes.length = driver.req.totalSize)
    (hsha1 : driver.localSha1 = uploadSha1Hex sha1 payload.bytes)
    (h : driver.verdict reply = .ok ()) :
    Reports sha1 payload.bytes uploadId (.info ⟨auth, uploadId, 0⟩, reply) := by
  obtain ⟨hash, hreply, hsize, hdigest, -⟩ := verdict_eq_ok.mp h
  exact ⟨rfl, hash, hreply, hpayload ▸ hsize, hsha1 ▸ hdigest⟩

theorem commit_reported {payload : Buffer} (hpayload : payload.bytes.length = driver.req.totalSize)
    (hsha1 : driver.localSha1 = uploadSha1Hex sha1 payload.bytes) :
    Commit env driver (fun w => SavesReported sha1 payload.bytes w.exchanges) fun uploadId w =>
      SavesReported sha1 payload.bytes w.exchanges ∧ EndsCommitted sha1 payload.bytes uploadId w.exchanges where
  keeps w e he hI := by
    by_cases hquiet : Quiet e
    · rw [exchanges_perform_of_quiet hquiet]
      exact hI
    · cases e with
      | send request =>
        refine hI.concat fun save reply heq => ?_
        cases heq
        exact he.elim
      | _ => exact absurd trivial hquiet
  quiet w e uploadId he hQ := by
    rw [exchanges_perform_of_quiet he]
    exact hQ
  weaken _ _ hQ := hQ.1
  save w uploadId auth hI := by
    let info : ServerRequest × Option Value :=
      (.info ⟨auth, uploadId, 0⟩, (env.respond w.around (.info ⟨auth, uploadId, 0⟩)).1)
    have hinfo : SavesReported sha1 payload.bytes (w.exchanges ++ [info]) :=
      hI.concat fun save reply heq => ServerRequest.noConfusion (congrArg Prod.fst heq)
    refine follows_save rfl (fun cls _ => hinfo) fun hverdict => ?_
    have hreport : Reports sha1 payload.bytes uploadId info := reports_of_verdict hpayload hsha1 hverdict
    generalize hreply : (env.respond _ (.save (driver.commit uploadId auth))).1 = reply
    have hsave : SavesReported sha1 payload.bytes
        (w.exchanges ++ [info] ++ [(.save (driver.commit uploadId auth), reply)]) :=
      hinfo.concat fun save reply' heq => by
        cases heq
        exact ⟨w.exchanges, info, rfl, hreport⟩
    subst hreply
    cases houtcome : outcomeOf (env.respond _ (.save (driver.commit uploadId auth))).1 with
    | error cls => exact hsave
    | ok hash => exact ⟨hsave, w.exchanges, info, _, List.append_assoc .., hreport, rfl, hash, houtcome⟩

/-! ## An honest server -/

section

variable {content : σ → UInt64 → Bytes} {published : σ → Option Bytes} {payload : Buffer}

theorem Honest.perform (h : Honest env sha1 content published) {e : UploadEffect} (he : Harmless e) :
    published (w.perform env e ()).2.around = published w.around := by
  have hstatement : ∀ {α : Type} (answer : α) rows,
      published (w.statement env answer rows).2.around = published w.around := by
    intro α answer rows
    have hstore := h.store w.around
    unfold UploadWorld.statement
    split
    · next hok => rwa [hok] at hstore
    · next hfailed => rwa [hfailed] at hstore
  cases e with
  | send request => exact h.others w.around request fun save heq => by rw [heq] at he; exact he
  | refresh => exact h.refresh w.around
  | cacheAuth authToken => rfl
  | setUploadId uploadId => rfl
  | cells => rfl
  | get localPath => exact hstatement _ _
  | put record => exact hstatement _ _
  | updateOffset localPath offset => exact hstatement _ _
  | deleteRow localPath => exact hstatement _ _

theorem Honest.content_eq (h : Honest env sha1 content published) {uploadId : UInt64} {auth : String} {s : σ}
    (hpayload : payload.bytes.length = driver.req.totalSize)
    (hsha1 : driver.localSha1 = uploadSha1Hex sha1 payload.bytes)
    (hinj : (content s uploadId).length = payload.bytes.length →
      uploadSha1Hex sha1 (content s uploadId) = uploadSha1Hex sha1 payload.bytes → content s uploadId = payload.bytes)
    (hverdict : driver.verdict (env.respond s (.info ⟨auth, uploadId, 0⟩)).1 = .ok ()) :
    content (env.respond s (.info ⟨auth, uploadId, 0⟩)).2 uploadId = payload.bytes := by
  obtain ⟨hash, hreply, hsize, hdigest, -⟩ := verdict_eq_ok.mp hverdict
  obtain ⟨size, hnumber, hsize⟩ := Option.map_eq_some_iff.mp hsize
  rw [h.report s ⟨auth, uploadId, 0⟩]
  apply hinj
  · rw [hpayload, ← hsize, h.size s _ hash hreply size hnumber]
  · rw [← hsha1, h.digest s _ hash hreply _ hdigest]

theorem commit_published (h : Honest env sha1 content published) (before : Option Bytes)
    (hpayload : payload.bytes.length = driver.req.totalSize)
    (hsha1 : driver.localSha1 = uploadSha1Hex sha1 payload.bytes)
    (hinj : ∀ s uploadId, (content s uploadId).length = payload.bytes.length →
      uploadSha1Hex sha1 (content s uploadId) = uploadSha1Hex sha1 payload.bytes → content s uploadId = payload.bytes) :
    Commit env driver (fun w => published w.around = before ∨ published w.around = some payload.bytes)
      fun _ w => published w.around = some payload.bytes where
  keeps w e he hI := by
    rw [h.perform he]
    exact hI
  quiet w e uploadId he hQ := by
    have hharmless : Harmless e := by
      cases e with
      | send request => cases he
      | _ => trivial
    rw [h.perform hharmless]
    exact hQ
  weaken _ _ hQ := .inr hQ
  save w uploadId auth hI := by
    have hinfo : ∀ s, published (env.respond s (.info ⟨auth, uploadId, 0⟩)).2 = published s :=
      fun s => h.others s _ fun save heq => ServerRequest.noConfusion heq
    refine follows_save rfl (fun cls _ => ?_) fun hverdict => ?_
    · show published (env.respond w.around _).2 = before ∨ published (env.respond w.around _).2 = some payload.bytes
      rw [hinfo w.around]
      exact hI
    · have hcontent := h.content_eq hpayload hsha1 (hinj w.around uploadId) hverdict
      let reported := (env.respond w.around (.info ⟨auth, uploadId, 0⟩)).2
      let commit : UploadSaveRequest := driver.commit uploadId auth
      show Ends _ _ ((outcomeOf (env.respond reported (.save commit)).1).map _) _
      cases houtcome : outcomeOf (env.respond reported (.save commit)).1 with
      | error cls =>
        show published (env.respond reported (.save commit)).2 = before ∨
          published (env.respond reported (.save commit)).2 = some payload.bytes
        rcases h.save reported commit with hkept | hsaved
        · rw [hkept, hinfo w.around]
          exact hI
        · exact .inr (hsaved.trans (congrArg some hcontent))
      | ok hash => exact (h.commit reported commit hash houtcome).trans (congrArg some hcontent)

end

/-! ## The call -/

section

variable {call : UploadCall}

variable (env sha1 policy w) in
theorem Commit.upload {I : UploadWorld σ → Prop} {Q : UInt64 → UploadWorld σ → Prop}
    (h : call.payload.bytes.length = call.req.totalSize → Commit env (call.driver sha1) I Q) (hI : I w.newDriver) :
    Ends (fun _ w => ∃ uploadId, Q uploadId w) (fun _ => I) (w.upload env sha1 policy call).1
      (w.upload env sha1 policy call).2 := by
  have hprogram : Follows (effectsIn env) (Ends (fun _ w => ∃ uploadId, Q uploadId w) fun _ => I)
      (uploadBytesChunked sha1 policy call.idempotencyKey call.turns call.authToken call.req call.payload).run
      w.newDriver := by
    unfold uploadBytesChunked
    split
    · exact hI
    · next hsize =>
      have hcommit := h (not_not.mp hsize)
      have hrun := hcommit.run policy call.req.state call.turns call.authToken hI
      refine follows_fallible_bind.mpr (follows_lift.mpr (hrun.mono fun outcome w hend => ?_))
      exact hcommit.finish call.req _ hend
  exact hprogram.exec trivial fun _ _ => trivial

end

/-- Whatever a row says and whatever fails: a session is saved only right after a report that it holds the payload,
a call that returns `Ok` has saved one, and then an honest server has published the payload. -/
theorem upload_committed (sha1 : Bytes → Sha1Digest) (policy : RetryPolicy) (env : Surroundings σ) (w : UploadWorld σ)
    (call : UploadCall) :
    let (outcome, after) := w.upload env sha1 policy call
    SavesReported sha1 call.payload.bytes after.exchanges ∧ ∀ result, outcome = .ok result →
      (∃ uploadId, EndsCommitted sha1 call.payload.bytes uploadId after.exchanges) ∧
      ∀ content published, Honest env sha1 content published →
        (∀ s uploadId, (content s uploadId).length = call.payload.bytes.length →
          uploadSha1Hex sha1 (content s uploadId) = uploadSha1Hex sha1 call.payload.bytes →
          content s uploadId = call.payload.bytes) →
        published after.around = some call.payload.bytes := by
  have hnone : SavesReported sha1 call.payload.bytes w.newDriver.exchanges := by
    intro before request reply rest hsplit
    simp [UploadWorld.newDriver] at hsplit
  have hreported := Commit.upload env w policy sha1 (fun hsize => commit_reported hsize rfl) hnone
  dsimp only
  rcases houtcome : (w.upload env sha1 policy call).1 with e | result
  · rw [houtcome] at hreported
    exact ⟨hreported, fun _ hok => by cases hok⟩
  · rw [houtcome] at hreported
    obtain ⟨uploadId, hsaves, hends⟩ := hreported
    refine ⟨hsaves, fun _ _ => ⟨⟨uploadId, hends⟩, fun content published hhonest hinj => ?_⟩⟩
    have hpublished := Commit.upload env w policy sha1
      (fun hsize => commit_published hhonest (published w.around) hsize rfl hinj) (.inl rfl)
    rw [houtcome] at hpublished
    obtain ⟨-, hpublished⟩ := hpublished
    exact hpublished

end

/-! ## A server with its sessions in a list -/

/-- Of the next requests, those that are lost. -/
structure Shelf where
  sessions : List (Option Bytes) := []
  published : Option Bytes := none
  lost : List Bool := []
deriving DecidableEq

namespace Shelf

variable (sha1 : Bytes → Sha1Digest) (shelf : Shelf)

def stored (uploadId : UInt64) : Option Bytes := (shelf.sessions[uploadId.toNat]?).join

def reply (fields : List (String × Value)) : Option Value := some (.hash (("result", .number 0) :: fields))

def refusal (result : UInt64) : Option Value := some (.hash [("result", .number result)])

def answer : ServerRequest → Option Value × Shelf
  | .create _ =>
    (reply [("uploadid", .number (.ofNat shelf.sessions.length))],
      { shelf with sessions := shelf.sessions ++ [some []] })
  | .write request body =>
    match shelf.stored request.uploadId with
    | some bytes =>
      (reply [],
        { shelf with
          sessions := shelf.sessions.set request.uploadId.toNat (some (writeAt bytes request.uploadOffset body)) })
    | none => (refusal 1067, shelf)
  | .info request =>
    match shelf.stored request.uploadId with
    | some bytes =>
      if bytes.length < UInt64.size then
        (reply [("size", .number (.ofNat bytes.length)), ("sha1", .string (uploadSha1Hex sha1 bytes))], shelf)
      else (refusal 5000, shelf)
    | none => (refusal 1067, shelf)
  | .save request =>
    match shelf.stored request.uploadId with
    | some bytes => (reply [], { shelf with published := some bytes })
    | none => (refusal 1067, shelf)
  | .delete _ uploadId => (reply [], { shelf with sessions := shelf.sessions.set uploadId.toNat none })

def respond (request : ServerRequest) : Option Value × Shelf :=
  let next := { shelf with lost := shelf.lost.tail }
  if shelf.lost.headI then (none, next) else next.answer sha1 request

def surroundings : Surroundings Shelf where
  respond := respond sha1
  refresh shelf := (.ok "renewed", shelf)
  store shelf := (true, shelf)

variable {sha1 shelf}

theorem outcomeOf_reply (fields : List (String × Value)) :
    outcomeOf (reply fields) = .ok (("result", .number 0) :: fields) := rfl

theorem outcomeOf_refusal {result : UInt64} {hash : HashView} (hresult : result ≠ 0) :
    outcomeOf (refusal result) ≠ .ok hash := by
  have hcls : ∃ cls, UploadErrorClass.classify result = some cls := by
    unfold UploadErrorClass.classify
    rw [if_neg hresult]
    split
    · exact ⟨_, rfl⟩
    · split <;> exact ⟨_, rfl⟩
  obtain ⟨cls, hcls⟩ := hcls
  have hclassify : classifyResult [("result", .number result)] = .error cls := by
    unfold classifyResult
    rw [show HashView.getNumber [("result", .number result)] "result" = some result from rfl]
    dsimp only
    rw [hcls]
  unfold outcomeOf
  rw [show (refusal result).bind Value.asHash = some [("result", .number result)] from rfl]
  dsimp only
  rw [hclassify]
  intro hok
  cases hok

/-- What a session holds. -/
def content (shelf : Shelf) (uploadId : UInt64) : Bytes := (shelf.stored uploadId).getD []

theorem respond_cases (shelf : Shelf) (request : ServerRequest) :
    respond sha1 shelf request = (none, { shelf with lost := shelf.lost.tail }) ∨
      respond sha1 shelf request = answer sha1 { shelf with lost := shelf.lost.tail } request := by
  unfold respond
  dsimp only
  split
  · exact .inl rfl
  · exact .inr rfl

theorem answer_info (request : UploadInfoRequest) : (answer sha1 shelf (.info request)).2 = shelf ∧
    ∀ hash, outcomeOf (answer sha1 shelf (.info request)).1 = .ok hash →
      (∀ size, hash.getNumber "size" = some size → size.toNat = (shelf.content request.uploadId).length) ∧
      ∀ text, hash.getString "sha1" = some text → text = uploadSha1Hex sha1 (shelf.content request.uploadId) := by
  unfold answer content
  dsimp only
  cases hstored : shelf.stored request.uploadId with
  | none => exact ⟨rfl, fun hash hok => absurd hok (outcomeOf_refusal (by decide))⟩
  | some bytes =>
    dsimp only
    split
    · next hsize =>
      refine ⟨rfl, fun hash hok => ?_⟩
      rw [outcomeOf_reply] at hok
      cases hok
      refine ⟨fun size hnumber => ?_, fun text htext => ?_⟩
      · cases hnumber
        exact UInt64.toNat_ofNat_of_lt' hsize
      · cases htext
        rfl
    · exact ⟨rfl, fun hash hok => absurd hok (outcomeOf_refusal (by decide))⟩

theorem answer_save (request : UploadSaveRequest) :
    ((answer sha1 shelf (.save request)).2.published = shelf.published ∨
      (answer sha1 shelf (.save request)).2.published = some (shelf.content request.uploadId)) ∧
    ∀ hash, outcomeOf (answer sha1 shelf (.save request)).1 = .ok hash →
      (answer sha1 shelf (.save request)).2.published = some (shelf.content request.uploadId) := by
  unfold answer content
  dsimp only
  cases hstored : shelf.stored request.uploadId with
  | none => exact ⟨.inl rfl, fun hash hok => absurd hok (outcomeOf_refusal (by decide))⟩
  | some bytes => exact ⟨.inr rfl, fun _ _ => rfl⟩

theorem published_answer {request : ServerRequest} (h : ∀ save, request ≠ .save save) :
    (answer sha1 shelf request).2.published = shelf.published := by
  cases request with
  | save request => exact absurd rfl (h request)
  | info request => rw [(answer_info request).1]
  | write request body =>
    unfold answer
    dsimp only
    split <;> rfl
  | _ => rfl

theorem honest : Honest (surroundings sha1) sha1 content published where
  size shelf request hash hok := by
    change outcomeOf (respond sha1 shelf (.info request)).1 = _ at hok
    rcases respond_cases shelf (.info request) with hlost | hanswered
    · rw [hlost] at hok
      cases hok
    · rw [hanswered] at hok
      exact ((answer_info request).2 hash hok).1
  digest shelf request hash hok := by
    change outcomeOf (respond sha1 shelf (.info request)).1 = _ at hok
    rcases respond_cases shelf (.info request) with hlost | hanswered
    · rw [hlost] at hok
      cases hok
    · rw [hanswered] at hok
      exact ((answer_info request).2 hash hok).2
  report shelf request := by
    show content (respond sha1 shelf (.info request)).2 request.uploadId = _
    rcases respond_cases shelf (.info request) with hlost | hanswered
    · rw [hlost]
      rfl
    · rw [hanswered, (answer_info request).1]
      rfl
  save shelf request := by
    show (respond sha1 shelf (.save request)).2.published = _ ∨ (respond sha1 shelf (.save request)).2.published = _
    rcases respond_cases shelf (.save request) with hlost | hanswered
    · exact .inl (by rw [hlost])
    · rw [hanswered]
      exact (answer_save request).1
  commit shelf request hash hok := by
    change outcomeOf (respond sha1 shelf (.save request)).1 = _ at hok
    show (respond sha1 shelf (.save request)).2.published = _
    rcases respond_cases shelf (.save request) with hlost | hanswered
    · rw [hlost] at hok
      cases hok
    · rw [hanswered] at hok ⊢
      exact (answer_save request).2 hash hok
  others shelf request hother := by
    show (respond sha1 shelf request).2.published = _
    rcases respond_cases shelf request with hlost | hanswered
    · rw [hlost]
    · rw [hanswered]
      exact published_answer hother
  refresh _ := rfl
  store _ := rfl

end Shelf

/-! ## One letter -/

/-- SHA-1 of "A", and of "B". -/
def letterSha1 (bytes : Bytes) : Sha1Digest :=
  if bytes = [65] then
    ⟨[109, 205, 76, 226, 61, 136, 226, 238, 149, 104, 186, 84, 108, 0, 124, 99, 217, 19, 28, 27], by decide⟩
  else
    ⟨[174, 79, 40, 29, 245, 165, 208, 255, 60, 173, 99, 113, 247, 109, 92, 41, 182, 217, 83, 236], by decide⟩

def letterRequest : ChunkedUploadRequest where
  localPath := "/home/letter.txt"
  parentFolderId := 0
  fileName := "letter.txt"
  totalSize := 1
  modifiedAtUnix := 0
  ctime := none
  conflict := .CreateIfNew

def letterCall (letter : UInt8) : UploadCall where
  authToken := "token"
  idempotencyKey := "key"
  req := letterRequest
  payload := ⟨[letter], show 1 ≤ isizeMax by decide⟩
  turns := 1

def defaultPolicy : RetryPolicy := ⟨5, fun _ => 2000 * 10 ^ 6, by decide⟩

/-- The reply to the first write is lost, and the report after the second. -/
theorem upload_committed_letter :
    ((UploadWorld.upload (Shelf.surroundings letterSha1) { around := { lost := [false, true, false, true] } } letterSha1
      defaultPolicy (letterCall 65)).2).around.published = some [65] := by
  generalize hw : ({ around := { lost := [false, true, false, true] } } : UploadWorld Shelf) = w
  have hcommitted := upload_committed letterSha1 defaultPolicy (Shelf.surroundings letterSha1) w (letterCall 65)
  have hok : (w.upload (Shelf.surroundings letterSha1) letterSha1 defaultPolicy (letterCall 65)).1 =
      .ok ⟨0, 1, uploadSha1Hex letterSha1 [65]⟩ := by
    rw [← hw]
    rfl
  refine (hcommitted.2 _ hok).2 _ _ Shelf.honest fun shelf uploadId _ hsha1 => ?_
  by_contra hne
  change ¬ shelf.content uploadId = [65] at hne
  rw [uploadSha1Hex, uploadSha1Hex, letterSha1, if_neg hne] at hsha1
  revert hsha1
  decide

end Pcloud.UploadState
