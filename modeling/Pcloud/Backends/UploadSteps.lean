import Pcloud.Backends.UploadState

/-!
# The steps of a chunked upload

One rule for each function of `UploadState`: which effects it asks for, and where it ends.
-/

namespace Pcloud.UploadState

open Program

/-! ## Which requests a step makes -/

section

variable {kind : UploadEffect → Prop} {α : Type} {policy : RetryPolicy} {driver : ChunkedUploadDriver}

theorem asks_orTempFail (a : Option α) : Asks kind (orTempFail a).run := by
  cases a <;> trivial

theorem asks_exchange {request : ServerRequest} (h : kind (.send request)) : Asks kind (exchange request).run := by
  refine Asks.fallible_bind (Asks.lift (asks_perform.mpr h)) fun response => ?_
  refine Asks.fallible_bind (asks_orTempFail _) fun hash => ?_
  split <;> trivial

theorem asks_create (hcache : ∀ auth, kind (.cacheAuth auth)) (hsend : ∀ request, kind (.send (.create request)))
    (hset : ∀ uploadId, kind (.setUploadId uploadId)) (auth : String) : Asks kind (driver.create auth).run := by
  refine Asks.fallible_bind (Asks.lift (asks_perform.mpr (hcache _))) fun _ => ?_
  refine Asks.fallible_bind (asks_exchange (hsend _)) fun hash => ?_
  refine Asks.fallible_bind (asks_orTempFail _) fun uploadId => ?_
  exact Asks.fallible_bind (Asks.lift (asks_perform.mpr (hset _))) fun _ => trivial

theorem asks_cleanUp (hcells : kind .cells) (hdelete : ∀ auth uploadId, kind (.send (.delete auth uploadId))) :
    Asks kind cleanUp := by
  refine Asks.bind (asks_perform.mpr hcells) fun cells => ?_
  rcases cells with ⟨authCache, _ | uploadId⟩
  · trivial
  · exact Asks.bind (asks_perform.mpr (hdelete _ _)) fun _ => trivial

theorem asks_store {statement : Prog UploadEffect UploadEffect.Answer (Except Unit α)} (h : Asks kind statement) :
    Asks kind (store statement).run := by
  refine Asks.fallible_bind (Asks.lift h) fun answer => ?_
  split <;> trivial

theorem asks_runTurns {op : String → Upload UploadErrorClass α} (hrefresh : kind .refresh)
    (hop : ∀ auth, Asks kind (op auth).run) (turns attempts : Nat) (authRefreshed : Bool) (auth : String) :
    Asks kind (runTurns policy op turns attempts authRefreshed auth).run := by
  induction turns generalizing attempts authRefreshed auth with
  | zero => trivial
  | succ turns ih =>
    refine Asks.fallible_bind (Asks.lift (hop auth)) fun result => ?_
    rcases result with cls | value
    · cases cls with
      | PermFail => trivial
      | Auth =>
        dsimp only
        split
        · trivial
        · refine Asks.fallible_bind (Asks.lift (asks_perform.mpr hrefresh)) fun refreshed => ?_
          rcases refreshed with message | newToken
          · trivial
          · exact ih (attempts + 1) true newToken
      | TempFail =>
        dsimp only
        split
        · exact ih (attempts + 1) authRefreshed auth
        · trivial
    · trivial

theorem asks_runStep {op : String → Upload UploadErrorClass α} (hrefresh : kind .refresh)
    (hop : ∀ auth, Asks kind (op auth).run) (auth : String) : Asks kind (runStep policy op auth).run :=
  asks_runTurns hrefresh hop _ _ _ auth

end

/-! ## Where a step ends -/

theorem startOver_some (policy : RetryPolicy) (driver : UploadDriver) (req : UploadRequest)
    (record : UploadResumeRecord) (auth : String) :
    startOver policy driver req (some record) auth =
      store (Prog.perform (UploadEffect.deleteRow req.localPath)) >>= fun _ =>
        startOver policy driver req none auth := rfl

section

variable {σ : Type} {P : Protocol σ UploadEffect UploadEffect.Answer} {α : Type} {policy : RetryPolicy} {s : σ}

/-- What a failed attempt has to leave behind, where `I` holds before every attempt and `R` where the step ends. The
flag says whether the session has been refreshed. -/
def AfterFailure (P : Protocol σ UploadEffect UploadEffect.Answer) (I : Bool → σ → Prop)
    (R : UploadStateError → σ → Prop) (authRefreshed : Bool) : UploadErrorClass → σ → Prop
  | .PermFail, s => ∀ attempts, R (.Permanent attempts) s
  | .Auth, s =>
    if authRefreshed then ∀ attempts, R (.Permanent attempts) s
    else
      Follows P (Ends (fun _ => I true) fun message => R (.AuthRefresh message)) (Prog.perform UploadEffect.refresh) s
  | .TempFail, s => I authRefreshed s

theorem follows_runTurns {op : String → Upload UploadErrorClass α} {I : Bool → σ → Prop} {Q : α → σ → Prop}
    {R : UploadStateError → σ → Prop}
    (hop : ∀ authRefreshed auth s, I authRefreshed s →
      Follows P (Ends Q (AfterFailure P I R authRefreshed)) (op auth).run s)
    (hexhausted : ∀ authRefreshed s attempts, I authRefreshed s → R (.RetriesExhausted attempts) s)
    (turns attempts : Nat) (authRefreshed : Bool) (auth : String) (hI : I authRefreshed s) :
    Follows P (Ends (fun result => Q result.1) R) (runTurns policy op turns attempts authRefreshed auth).run s := by
  induction turns generalizing attempts authRefreshed auth s with
  | zero => exact hexhausted _ _ _ hI
  | succ turns ih =>
    refine follows_fallible_bind.mpr (follows_lift.mpr ((hop authRefreshed auth s hI).mono ?_))
    rintro (cls | value) s h
    · cases cls with
      | PermFail => exact h _
      | TempFail =>
        dsimp only [orElse]
        split
        · exact ih (attempts + 1) authRefreshed auth h
        · exact hexhausted _ _ _ h
      | Auth =>
        dsimp only [orElse]
        change ite _ _ _ at h
        split
        · next hrefreshed =>
          rw [if_pos hrefreshed] at h
          exact h _
        · next hrefreshed =>
          rw [if_neg hrefreshed] at h
          refine follows_fallible_bind.mpr (follows_lift.mpr (h.mono ?_))
          rintro (message | newToken) s h
          · exact h
          · exact ih (attempts + 1) true newToken h
    · exact h

theorem follows_runStep {op : String → Upload UploadErrorClass α} {I : Bool → σ → Prop} {Q : α → σ → Prop}
    {R : UploadStateError → σ → Prop}
    (hop : ∀ authRefreshed auth s, I authRefreshed s →
      Follows P (Ends Q (AfterFailure P I R authRefreshed)) (op auth).run s)
    (hexhausted : ∀ authRefreshed s attempts, I authRefreshed s → R (.RetriesExhausted attempts) s)
    (auth : String) (hI : I false s) :
    Follows P (Ends (fun result => Q result.1) R) (runStep policy op auth).run s :=
  follows_runTurns hop hexhausted _ _ _ auth hI

theorem follows_runStep_of_ok {op : String → Upload UploadErrorClass α} {Q : α → σ → Prop} {auth : String}
    {R : UploadStateError → σ → Prop} (hop : Follows P (Ends Q fun _ _ => False) (op auth).run s) :
    Follows P (Ends (fun result => Q result.1) R) (runStep policy op auth).run s := by
  refine follows_fallible_bind.mpr (follows_lift.mpr (hop.mono ?_))
  rintro (cls | value) s h
  · exact h.elim
  · exact h

theorem follows_store {statement : Prog UploadEffect UploadEffect.Answer (Except Unit α)} {Q : α → σ → Prop}
    {R : UploadStateError → σ → Prop} (h : Follows P (Ends Q fun _ => R .Store) statement s) :
    Follows P (Ends Q R) (store statement).run s := by
  refine follows_fallible_bind.mpr (follows_lift.mpr (h.mono ?_))
  rintro (_ | a) s h
  · exact h
  · exact h

end

/-! ## One request -/

/-- What a reply says: its fields, or how the request failed. -/
def outcomeOf (reply : Option Value) : Except UploadErrorClass HashView :=
  match reply.bind Value.asHash with
  | none => .error .TempFail
  | some hash =>
    match classifyResult hash with
    | .ok () => .ok hash
    | .error cls => .error cls

/-- What the check before the commit makes of a report. -/
def ChunkedUploadDriver.verdict (driver : ChunkedUploadDriver) (report : Option Value) :
    Except UploadErrorClass Unit :=
  match outcomeOf report with
  | .error cls => .error cls
  | .ok hash =>
    match hash.getNumber "size", hash.getString "sha1" with
    | some size, some sha1 =>
      if size.toNat ≠ driver.req.totalSize ∨ (utf8 sha1).length ≠ psyncHashDigestHexlen ∨ sha1 ≠ driver.localSha1 then
        .error .PermFail
      else .ok ()
    | _, _ => .error .TempFail

/-- The effects in a world. -/
abbrev effectsIn {σ : Type} (env : Surroundings σ) :
    Protocol (UploadWorld σ) UploadEffect UploadEffect.Answer :=
  effects (UploadWorld.perform env) fun _ => True

section

variable {σ : Type} {env : Surroundings σ} {w : UploadWorld σ} {driver : ChunkedUploadDriver}

theorem follows_perform_in {e : UploadEffect} {post : e.Answer → UploadWorld σ → Prop} :
    Follows (effectsIn env) post (Prog.perform e) w ↔ post (w.perform env e ()).1 (w.perform env e ()).2 := by
  rw [follows_perform_effects]
  exact ⟨fun h => h () trivial, fun h _ _ => h⟩

theorem follows_exchange {request : ServerRequest} {post : Except UploadErrorClass HashView → UploadWorld σ → Prop} :
    Follows (effectsIn env) post (exchange request).run w ↔
      post (outcomeOf (env.respond w.around request).1) (w.perform env (.send request) ()).2 := by
  unfold exchange outcomeOf
  rw [follows_fallible_bind, follows_lift]
  refine follows_perform_in.trans ?_
  show Follows (effectsIn env) post (orTempFail ((env.respond w.around request).1.bind Value.asHash) >>= _).run _ ↔ _
  cases (env.respond w.around request).1.bind Value.asHash with
  | none => exact Iff.rfl
  | some hash =>
    dsimp only [orTempFail]
    rw [follows_pure_bind]
    cases classifyResult hash with
    | ok _ => exact Iff.rfl
    | error cls => exact Iff.rfl

theorem follows_verify {uploadId : UInt64} {auth : String}
    {post : Except UploadErrorClass Unit → UploadWorld σ → Prop} :
    Follows (effectsIn env) post (driver.verify uploadId auth).run w ↔
      post (driver.verdict (env.respond w.around (.info ⟨auth, uploadId, 0⟩)).1)
        (w.perform env (.send (.info ⟨auth, uploadId, 0⟩)) ()).2 := by
  unfold ChunkedUploadDriver.verify ChunkedUploadDriver.verdict
  rw [follows_fallible_bind, follows_exchange]
  cases outcomeOf (env.respond w.around (.info ⟨auth, uploadId, 0⟩)).1 with
  | error cls => exact Iff.rfl
  | ok hash =>
    dsimp only [orElse]
    cases hash.getNumber "size" with
    | none => exact Iff.rfl
    | some size =>
      dsimp only [orTempFail]
      rw [follows_pure_bind]
      cases hash.getString "sha1" with
      | none => exact Iff.rfl
      | some sha1 =>
        dsimp only [orTempFail]
        rw [follows_pure_bind]
        split
        · exact Iff.rfl
        · exact Iff.rfl

theorem verdict_eq_ok {report : Option Value} : driver.verdict report = .ok () ↔
    ∃ hash, outcomeOf report = .ok hash ∧ (hash.getNumber "size").map UInt64.toNat = some driver.req.totalSize ∧
      hash.getString "sha1" = some driver.localSha1 ∧ (utf8 driver.localSha1).length = psyncHashDigestHexlen := by
  unfold ChunkedUploadDriver.verdict
  cases outcomeOf report with
  | error cls => simp
  | ok hash =>
    simp only [Except.ok.injEq, exists_eq_left']
    cases hash.getNumber "size" with
    | none => simp
    | some size =>
      cases hash.getString "sha1" with
      | none => simp
      | some sha1 =>
        dsimp only [Option.map_some]
        split
        · next hdiffers =>
          simp only [reduceCtorEq, Option.some.injEq, false_iff]
          rintro ⟨hsize, rfl, hlen⟩
          simp [hsize, hlen] at hdiffers
        · next hsame =>
          simp only [not_or, not_not] at hsame
          obtain ⟨hsize, hlen, rfl⟩ := hsame
          exact iff_of_true rfl ⟨congrArg some hsize, rfl, hlen⟩

/-- The request of `save` that commits. -/
def ChunkedUploadDriver.commit (driver : ChunkedUploadDriver) (uploadId : UInt64) (auth : String) :
    UploadSaveRequest where
  authToken := auth
  parentFolderId := driver.req.parentFolderId
  fileName := driver.req.fileName
  uploadId := uploadId
  modifiedAtUnix := driver.req.modifiedAtUnix
  ctime := driver.req.ctime
  conflict := some driver.req.conflict.toParam
  idempotencyKey := some driver.idempotencyKey

theorem follows_save {uploadId : UInt64} {auth : String} {post : Except UploadErrorClass Unit → UploadWorld σ → Prop}
    {reported : UploadWorld σ}
    (hreported :
      reported = ((w.perform env (.cacheAuth auth) ()).2.perform env (.send (.info ⟨auth, uploadId, 0⟩)) ()).2)
    (hrefused : ∀ cls, driver.verdict (env.respond w.around (.info ⟨auth, uploadId, 0⟩)).1 = .error cls →
      post (.error cls) reported)
    (hcommit : driver.verdict (env.respond w.around (.info ⟨auth, uploadId, 0⟩)).1 = .ok () →
      post ((outcomeOf (env.respond reported.around (.save (driver.commit uploadId auth))).1).map fun _ => ())
        (reported.perform env (.send (.save (driver.commit uploadId auth))) ()).2) :
    Follows (effectsIn env) post (driver.save uploadId auth).run w := by
  subst hreported
  refine follows_fallible_bind.mpr (follows_lift.mpr (follows_perform_in.mpr ?_))
  refine follows_fallible_bind.mpr (follows_verify.mpr ?_)
  rcases hverdict : driver.verdict (env.respond w.around (.info ⟨auth, uploadId, 0⟩)).1 with cls | _
  · exact hverdict ▸ hrefused cls hverdict
  · rw [show (w.perform env (.cacheAuth auth) ()).2.around = w.around from rfl, hverdict]
    refine follows_fallible_bind.mpr (follows_exchange.mpr ?_)
    have hpost := hcommit hverdict
    change orElse post _ (outcomeOf (env.respond _ (.save (driver.commit uploadId auth))).1) _
    generalize outcomeOf _ = outcome at hpost ⊢
    cases outcome with
    | error cls => exact hpost
    | ok hash => exact hpost

end

/-! ## Turns -/

section

variable {α : Type} {policy : RetryPolicy}

/-- A turn more than the attempts that are left changes nothing: one of them may have gone to the refresh. -/
theorem runTurns_succ (op : String → Upload UploadErrorClass α) {turns attempts : Nat} {authRefreshed : Bool}
    (auth : String) (hturns : policy.maxAttempts < attempts + turns) (hattempts : attempts ≤ policy.maxAttempts)
    (hfresh : authRefreshed = false → attempts < policy.maxAttempts) :
    runTurns policy op (turns + 1) attempts authRefreshed auth =
      runTurns policy op turns attempts authRefreshed auth := by
  induction turns generalizing attempts authRefreshed auth with
  | zero => omega
  | succ turns ih =>
    unfold runTurns
    refine bind_congr fun outcome => ?_
    rcases outcome with cls | value
    · cases cls with
      | PermFail => rfl
      | Auth =>
        dsimp only
        split
        · rfl
        · next hrefreshed =>
          refine bind_congr fun refreshed => ?_
          have hlt := hfresh (Bool.not_eq_true _ ▸ hrefreshed)
          rcases refreshed with message | newToken
          · rfl
          · exact ih newToken (by omega) hlt fun h => by cases h
      | TempFail =>
        dsimp only
        split
        · next hretry =>
          have hlt := RetryPolicy.lt_of_nextWait hretry
          exact ih auth (by omega) hlt.le fun _ => hlt
        · rfl
    · rfl

theorem runTurns_eq_runStep (op : String → Upload UploadErrorClass α) {turns : Nat} (auth : String)
    (hturns : policy.maxAttempts < turns) : runTurns policy op turns 0 false auth = runStep policy op auth := by
  induction turns, hturns using Nat.le_induction with
  | base => rfl
  | succ turns hturns ih =>
    rw [runTurns_succ op auth (by omega) (Nat.zero_le _) fun _ => policy.attempts_pos]
    exact ih

end

section

variable {σ : Type} {env : Surroundings σ} {w : UploadWorld σ} {driver : ChunkedUploadDriver} {policy : RetryPolicy}
variable {req : UploadRequest}

theorem follows_any {α : Type} (p : Prog UploadEffect UploadEffect.Answer α) (w : UploadWorld σ) :
    Follows (effectsIn env) (fun _ _ => True) p w := by
  induction p generalizing w with
  | ret a => trivial
  | op e k ih => exact ⟨trivial, fun ans w' _ => ih ans w'⟩

theorem ends_any {α ε : Type} (x : Upload ε α) (w : UploadWorld σ) :
    Follows (effectsIn env) (Ends (fun _ _ => True) fun _ _ => True) x.run w := by
  refine (follows_any x.run w).mono ?_
  rintro (err | a) w -
  · trivial
  · trivial

/-- Not for want of turns. -/
def Finished (e : UploadStateError) (_ : UploadWorld σ) : Prop := e ≠ .Unfinished

theorem finished_store {α : Type} (statement : Prog UploadEffect UploadEffect.Answer (Except Unit α)) :
    Follows (effectsIn env) (Ends (fun _ _ => True) Finished) (store statement).run w := by
  refine follows_store ((follows_any statement w).mono ?_)
  rintro (_ | a) w -
  · exact UploadStateError.noConfusion
  · trivial

theorem finished_runStep {α : Type} {op : String → Upload UploadErrorClass α} {Q : α → UploadWorld σ → Prop}
    (hop : ∀ auth w, Follows (effectsIn env) (Ends Q fun _ _ => True) (op auth).run w) (auth : String) :
    Follows (effectsIn env) (Ends (fun result => Q result.1) Finished) (runStep policy op auth).run w := by
  refine follows_runStep (I := fun _ _ => True) (Q := Q) (R := Finished) (fun authRefreshed auth w _ => ?_)
    (fun _ _ _ _ => UploadStateError.noConfusion) auth trivial
  refine (hop auth w).mono ?_
  rintro (cls | a) w h
  · cases cls with
    | PermFail => exact fun _ => UploadStateError.noConfusion
    | TempFail => trivial
    | Auth =>
      change ite _ _ _
      split
      · exact fun _ => UploadStateError.noConfusion
      · refine follows_perform_in.mpr ?_
        cases (w.perform env .refresh ()).1 with
        | error message => exact UploadStateError.noConfusion
        | ok newToken => trivial
  · exact h

theorem written_write (uploadId : UInt64) (offset remaining : Nat) (auth : String) (w : UploadWorld σ) :
    Follows (effectsIn env)
      (Ends (fun newOffset _ => newOffset = offset + min remaining psyncCopyBufferSize) fun _ _ => True)
      (driver.write uploadId offset remaining auth).run w := by
  refine follows_fallible_bind.mpr (follows_lift.mpr (follows_perform_in.mpr ?_))
  dsimp only [orElse]
  split
  · trivial
  · refine follows_fallible_bind.mpr (follows_exchange.mpr ?_)
    show orElse _ _ (outcomeOf _) _
    cases outcomeOf _ with
    | error cls => trivial
    | ok hash => rfl

theorem finished_writeLoop {uploadId : UInt64} {turns offset : Nat} (hturns : req.totalSize ≤ offset + turns)
    (auth : String) :
    Follows (effectsIn env) (Ends (fun _ _ => True) Finished)
      (writeLoop policy driver.toUploadDriver req uploadId turns offset auth).run w := by
  induction turns generalizing offset auth w with
  | zero =>
    unfold writeLoop
    rw [if_pos (by omega)]
    trivial
  | succ turns ih =>
    unfold writeLoop
    split
    · trivial
    · refine follows_ends_bind (finished_runStep (written_write uploadId offset _) auth) ?_
      rintro ⟨newOffset, auth⟩ w rfl
      have hchunk : 0 < min (req.totalSize - offset) psyncCopyBufferSize := Nat.lt_min.mpr ⟨by omega, by decide⟩
      exact follows_ends_bind (finished_store _) fun _ w _ => ih (by omega) auth

theorem finished_begin (auth : String) :
    Follows (effectsIn env) (Ends (fun _ _ => True) Finished) (begin policy driver.toUploadDriver req auth).run w := by
  have hstart : ∀ w : UploadWorld σ, Follows (effectsIn env) (Ends (fun _ _ => True) Finished)
      (startOver policy driver.toUploadDriver req none auth).run w := by
    intro w
    refine follows_ends_bind (finished_runStep (fun auth => ends_any (driver.create auth)) auth) fun created w _ => ?_
    exact follows_ends_bind (finished_store _) fun _ w _ => trivial
  refine follows_ends_bind (finished_store _) fun existing w _ => ?_
  cases existing with
  | none => exact hstart w
  | some record =>
    dsimp only
    split
    · trivial
    · rw [startOver_some]
      exact follows_ends_bind (finished_store _) fun _ w _ => hstart w

theorem finished_run {turns : Nat} (hturns : req.totalSize ≤ turns) (auth : String) :
    Follows (effectsIn env) (Ends (fun _ _ => True) Finished)
      (run policy driver.toUploadDriver req turns auth).run w := by
  refine follows_ends_bind (finished_begin auth) ?_
  rintro ⟨uploadId, offset, auth⟩ w -
  refine follows_ends_bind (finished_writeLoop (by omega) auth) fun auth w _ => ?_
  refine follows_ends_bind (finished_runStep (fun auth => ends_any (driver.save uploadId auth)) auth) fun _ w _ => ?_
  exact finished_store _

theorem finished_upload {sha1 : Bytes → Sha1Digest} {call : UploadCall} (hturns : call.req.totalSize ≤ call.turns) :
    (w.upload env sha1 policy call).1 ≠ .error (.State .Unfinished) := by
  have hprogram : Follows (effectsIn env) (Ends (fun _ _ => True) fun e _ => e ≠ .State .Unfinished)
      (uploadBytesChunked sha1 policy call.idempotencyKey call.turns call.authToken call.req call.payload).run
      w.newDriver := by
    unfold uploadBytesChunked
    split
    · exact ChunkedUploadError.noConfusion
    · have hran : Follows (effectsIn env) (Ends (fun _ _ => True) Finished)
          (run policy (call.driver sha1).toUploadDriver call.req.state call.turns call.authToken).run w.newDriver :=
        finished_run hturns call.authToken
      refine follows_fallible_bind.mpr (follows_lift.mpr (hran.mono ?_))
      rintro (e | _) w hend
      · have hstate : ChunkedUploadError.State e ≠ .State .Unfinished := fun heq => hend (by simpa using heq)
        cases e with
        | Permanent attempts =>
          exact follows_fallible_bind.mpr (follows_lift.mpr ((follows_any cleanUp w).mono fun _ _ _ => hstate))
        | _ => exact hstate
      · exact follows_fallible_bind.mpr (follows_lift.mpr (follows_perform_in.mpr trivial))
  have hend : Ends (fun _ _ => True) (fun e _ => e ≠ .State .Unfinished) (w.upload env sha1 policy call).1
      (w.upload env sha1 policy call).2 := hprogram.exec trivial fun _ _ => trivial
  intro hunfinished
  rw [hunfinished] at hend
  exact hend rfl

end

end Pcloud.UploadState
