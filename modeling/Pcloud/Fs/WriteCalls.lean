import Pcloud.Fs.WritePath

/-!
# The calls of the write path, and what they ask for

A chunked session asks for nothing that touches a blob or a handle, and no other call asks for
anything that touches a session.
-/

namespace Pcloud

open Program

/-- The calls of the service. `stageWrite` is a `write` before its flush triggers, and `chunkedFlush`, which only
`write` calls, may follow it. -/
inductive WriteCall
  | openForWrite (ino : Nat) (path : String) (appendMode oTrunc : Bool)
  | seedBlob (ino : Nat) (bytes : Bytes)
  | create (ino : Nat) (parentPath name : String)
  | stageWrite (ino offset : Nat) (data : Bytes)
  | write (ino offset : Nat) (data : Bytes)
  | chunkedFlush (ino : Nat)
  | flush (ino : Nat)
  | truncate (ino newSize : Nat)
  | unlink (ino : Option Nat) (path : String)
  | rename (source target : String)
  | tick
  | drainAll
  | release (ino : Nat)
  | replayUploadSidecars (timeout : Nat)
deriving DecidableEq, Repr

/-- It neither writes, transfers nor replays. -/
def WriteCall.IsPlain : WriteCall → Prop
  | .stageWrite _ _ _ | .write _ _ _ | .chunkedFlush _ | .replayUploadSidecars _ => False
  | _ => True

namespace WritePathService

variable (options : WritePathOptions)

/-- What a call does, without what it returns. -/
def program : WriteCall → WriteProg Unit
  | .openForWrite ino path appendMode oTrunc => openForWrite ino path appendMode oTrunc
  | .seedBlob ino bytes => seedBlob ino bytes
  | .create ino parentPath name => create ino parentPath name
  | .stageWrite ino offset data => do let _ ← stageWrite options ino offset data
  | .write ino offset data => do let _ ← write options ino offset data
  | .chunkedFlush ino => chunkedFlush options ino
  | .flush ino => flush options ino
  | .truncate ino newSize => truncate ino newSize
  | .unlink ino path => unlink ino path
  | .rename source target => rename source target
  | .tick => tick options
  | .drainAll => do let _ ← drainAll options
  | .release ino => release options ino
  | .replayUploadSidecars timeout => do let _ ← replayUploadSidecars timeout

/-- A call from its start to its end, with the fates of its effects. -/
def performCall (w : World) (call : WriteCall × List Fate) : World :=
  (exec World.perform (program options call.1).run call.2 w).2

end WritePathService

namespace Effect

/-- What a chunked session asks for. -/
def Transfers (parent name : String) : Effect → Prop
  | now | openBlob _ | readBlobAt _ _ _ | loadProgress _ | saveProgress _ _ | removeProgress _ | uploadWrite _ _ _ => True
  | uploadCreate parent' name' | uploadSave _ _ parent' name' _ => parent' = parent ∧ name' = name
  | journalAppend (.chunkAck path _ _ _) => path = joinPath parent name
  | _ => False

/-- What leaves the sessions and the sidecars alone. A handle comes with the name of its blob. -/
def Staging : Effect → Prop
  | saveProgress _ _ | removeProgress _ | uploadCreate _ _ | uploadWrite _ _ _ | uploadSave _ _ _ _ _ => False
  | insertHandle ino handle => handle.blobName = ino ∧ handle.dirtyBytes = 0
  | _ => True

/-- The same without what only a `write` asks for. -/
def Plain : Effect → Prop
  | writeBlobAt _ _ _ | fetchAdd _ | fetchSub _ => False
  | e => e.Staging

theorem Plain.staging {e : Effect} (h : e.Plain) : e.Staging := by
  cases e
  all_goals first | exact h | exact h.elim

/-- The steps on handles, blobs and the journal of an open, a create or a truncate. -/
def Local : Effect → Prop
  | getHandle _ | readHandle _ | now | blobExists _ | writeBlobFull _ _ | truncateBlob _ _ | journalAppend _ => True
  | insertHandle ino handle => handle.blobName = ino ∧ handle.dirtyBytes = 0
  | _ => False

theorem Local.plain {e : Effect} (h : e.Local) : e.Plain := by
  cases e
  case insertHandle => exact h
  all_goals first | exact h.elim | trivial

/-- Everything but what only a `write` asks for. -/
def Unstaged : Effect → Prop
  | writeBlobAt _ _ _ | fetchAdd _ | fetchSub _ => False
  | insertHandle ino handle => handle.blobName = ino ∧ handle.dirtyBytes = 0
  | _ => True

theorem Plain.unstaged {e : Effect} (h : e.Plain) : e.Unstaged := by
  cases e
  all_goals first | exact h | exact h.elim

theorem Transfers.unstaged {parent name : String} {e : Effect} (h : e.Transfers parent name) : e.Unstaged := by
  cases e
  all_goals first | exact h.elim | trivial

theorem Staging.keeps {e : Effect} (h : e.Staging) (w : World) (fate : Fate) :
    (w.perform e fate).2.sidecars = w.sidecars ∧ (w.perform e fate).2.sessions = w.sessions := by
  cases e
  case saveProgress => exact h.elim
  case removeProgress => exact h.elim
  case uploadCreate => exact h.elim
  case uploadWrite => exact h.elim
  case uploadSave => exact h.elim
  all_goals
    simp only [World.perform, World.unlessRefused, World.unlessDisk, World.setHandle, World.setBlob]
    repeat' split
    all_goals simp

end Effect

namespace WritePathService

variable {options : WritePathOptions} {ino : Nat}

/-! ## A chunked session -/

section Transfers

variable {parent name : String} {blobName totalSize uploadId : Nat}

theorem asks_uploadChunk {maxAttempts offset : Nat} {chunk : Bytes} (attempts : Nat) :
    Asks (Effect.Transfers parent name) (uploadChunk maxAttempts uploadId offset chunk attempts).run := by
  have hwrite : Asks (Effect.Transfers parent name)
      (outcome (attempt (effect (.uploadWrite uploadId offset chunk)))).run :=
    asks_outcome (asks_attempt (asks_perform.mpr trivial))
  induction attempts with
  | zero =>
    apply Asks.fallible_bind hwrite
    rintro (error | ⟨⟩)
    · cases error <;> trivial
    · trivial
  | succ attempts ih =>
    apply Asks.fallible_bind hwrite
    rintro (error | ⟨⟩)
    · cases error
      case uploadTransient message => exact ih
      all_goals trivial
    · trivial

theorem asks_uploadChunks (turns offset : Nat) :
    Asks (Effect.Transfers parent name)
      (uploadChunks options ino (joinPath parent name) blobName totalSize uploadId turns offset).run := by
  induction turns generalizing offset with
  | zero => trivial
  | succ turns ih =>
    unfold uploadChunks
    split
    · apply Asks.fallible_bind (asks_orUpload (asks_attempt (asks_perform.mpr trivial)))
      intro chunk
      apply Asks.fallible_bind (asks_uploadChunk _)
      intro _
      apply Asks.fallible_bind (asks_attempt (asks_perform.mpr (by rfl)))
      intro _
      apply Asks.fallible_bind (asks_ask trivial)
      intro now
      apply Asks.fallible_bind (asks_attempt (asks_perform.mpr trivial))
      intro _
      exact ih _
    · trivial

theorem asks_startSession : Asks (Effect.Transfers parent name) (startSession ino parent name blobName totalSize).run := by
  apply Asks.fallible_bind (asks_attempt (asks_perform.mpr ⟨rfl, rfl⟩))
  intro uploadId
  apply Asks.fallible_bind (asks_ask trivial)
  intro now
  apply Asks.fallible_bind (asks_attempt (asks_perform.mpr trivial))
  intro _
  trivial

theorem asks_runChunkedSession :
    Asks (Effect.Transfers parent name) (runChunkedSession options ino parent name blobName totalSize).run := by
  apply Asks.fallible_bind
  · apply Asks.fallible_bind (asks_attempt (asks_perform.mpr trivial))
    rintro (_ | progress)
    · exact asks_startSession
    · dsimp only
      split
      · trivial
      · exact asks_startSession
  rintro ⟨uploadId, resumeOffset⟩
  apply Asks.fallible_bind (asks_orUpload (asks_attempt (asks_perform.mpr trivial)))
  intro _
  apply Asks.fallible_bind (asks_uploadChunks _ _)
  intro _
  apply Asks.fallible_bind (asks_attempt (asks_perform.mpr ⟨rfl, rfl⟩))
  intro _
  exact asks_ask trivial

theorem asks_runSessions (restarts : Nat) :
    Asks (Effect.Transfers parent name) (runSessions options ino parent name blobName totalSize restarts).run := by
  induction restarts with
  | zero => exact asks_runChunkedSession
  | succ restarts ih =>
    apply Asks.fallible_bind (asks_outcome asks_runChunkedSession)
    rintro (error | ⟨⟩)
    · cases error
      case uploadPermanent message =>
        apply Asks.fallible_bind (asks_ask trivial)
        intro _
        exact ih
      all_goals trivial
    · trivial

end Transfers

/-! ## The other calls -/

theorem asks_getHandle {kind : Effect → Prop} (h : kind (.getHandle ino)) : Asks kind (getHandle ino).run := by
  apply Asks.fallible_bind (asks_ask h)
  rintro (_ | id) <;>
  trivial

theorem asks_openForWrite {path : String} {appendMode oTrunc : Bool} :
    Asks Effect.Local (openForWrite ino path appendMode oTrunc).run := by
  have hinsert : Asks Effect.Local (do
      let now ← ask .now
      ask (.insertHandle ino { path, blobName := ino, dirtyBytes := 0, lastFlush := now, appendMode }) :
        WriteProg Unit).run := by
    apply Asks.fallible_bind (asks_ask trivial)
    intro now
    exact asks_ask ⟨rfl, rfl⟩
  unfold openForWrite
  split
  · apply Asks.fallible_bind (asks_attempt (asks_perform.mpr trivial))
    intro _
    exact hinsert
  · apply Asks.fallible_bind (asks_ask trivial)
    intro found
    split
    · apply Asks.fallible_bind (asks_attempt (asks_perform.mpr trivial))
      intro _
      exact hinsert
    · exact hinsert

theorem asks_create {parentPath name : String} : Asks Effect.Local (create ino parentPath name).run := by
  have hopen : Asks Effect.Local (do
      openForWrite ino (joinPath parentPath name) false true
      let _ ← attempt (effect (.journalAppend (.create parentPath name))) : WriteProg Unit).run := by
    apply Asks.fallible_bind asks_openForWrite
    intro _
    apply Asks.fallible_bind (asks_attempt (asks_perform.mpr trivial))
    intro _
    trivial
  unfold create
  split
  · trivial
  · exact hopen

theorem asks_flush : Asks Effect.Plain (flush options ino).run := by
  apply Asks.fallible_bind (asks_getHandle trivial)
  intro id
  apply Asks.fallible_bind (asks_ask trivial)
  intro h
  apply Asks.fallible_bind (asks_attempt (asks_perform.mpr trivial))
  intro _
  rcases splitParentName h.path with _ | ⟨parent, name⟩
  · trivial
  apply Asks.fallible_bind (asks_attempt (asks_perform.mpr trivial))
  intro _
  apply Asks.fallible_bind (asks_ask trivial)
  intro now
  exact asks_ask trivial

theorem asks_effectiveOffset {kind : Effect → Prop} {h : WriteHandle} {offset : Nat}
    (hlen : kind (.blobLen h.blobName)) : Asks kind (effectiveOffset h offset).run := by
  unfold effectiveOffset
  split
  · apply Asks.fallible_bind (asks_ask hlen)
    intro size
    trivial
  · trivial

theorem checkCeilings_eq (offset : Nat) (data : Bytes) :
    checkCeilings options offset data =
      if options.maxStagingBytes < usizeMax ∧ satAdd offset data.length > options.maxStagingBytes then
        throw (.invalid "write would exceed max_staging_bytes ceiling")
      else if options.maxGlobalStagingBytes < usizeMax then do
        let prev ← ask (.fetchAdd data.length)
        if satAdd prev data.length > options.maxGlobalStagingBytes then
          ask (.fetchSub data.length)
          throw (.invalid "write would exceed process-wide max_global_staging_bytes ceiling")
      else pure () := by
  unfold checkCeilings
  split_ifs <;>
  rfl

theorem asks_checkCeilings {kind : Effect → Prop} {offset : Nat} {data : Bytes} (hadd : kind (.fetchAdd data.length))
    (hsub : kind (.fetchSub data.length)) : Asks kind (checkCeilings options offset data).run := by
  rw [checkCeilings_eq]
  split_ifs
  · trivial
  · apply Asks.fallible_bind (asks_ask hadd)
    intro prev
    split
    · apply Asks.fallible_bind (asks_ask hsub)
      intro _
      trivial
    · trivial
  · trivial

theorem asks_checkCeilings_counter {offset : Nat} {data : Bytes} :
    Asks (fun e => e = .fetchAdd data.length ∨ e = .fetchSub data.length) (checkCeilings options offset data).run :=
  asks_checkCeilings (.inl rfl) (.inr rfl)

theorem asks_stageWrite {offset : Nat} {data : Bytes} :
    Asks Effect.Staging (stageWrite options ino offset data).run := by
  apply Asks.fallible_bind (asks_getHandle trivial)
  intro id
  apply Asks.fallible_bind (asks_ask trivial)
  intro h
  apply Asks.fallible_bind (asks_effectiveOffset trivial)
  intro offset
  apply Asks.fallible_bind (asks_checkCeilings trivial trivial)
  intro _
  apply Asks.fallible_bind (asks_attempt (asks_perform.mpr trivial))
  intro _
  apply Asks.fallible_bind (asks_attempt (asks_perform.mpr trivial))
  intro _
  apply Asks.fallible_bind (asks_ask trivial)
  intro _
  trivial

theorem asks_truncate {newSize : Nat} : Asks Effect.Local (truncate ino newSize).run := by
  apply Asks.fallible_bind (asks_getHandle trivial)
  intro id
  apply Asks.fallible_bind (asks_ask trivial)
  intro h
  apply Asks.fallible_bind (asks_attempt (asks_perform.mpr trivial))
  intro _
  apply Asks.fallible_bind (asks_attempt (asks_perform.mpr trivial))
  intro _
  trivial

theorem asks_unlink {ino : Option Nat} {path : String} : Asks Effect.Plain (unlink ino path).run := by
  apply Asks.fallible_bind (asks_attempt (asks_perform.mpr trivial))
  intro _
  rcases ino with _ | ino
  · exact asks_attempt (asks_perform.mpr trivial)
  · apply Asks.fallible_bind (asks_ask trivial)
    intro _
    apply Asks.fallible_bind (asks_ask trivial)
    intro _
    exact asks_attempt (asks_perform.mpr trivial)

theorem asks_rename {source target : String} : Asks Effect.Plain (rename source target).run := by
  apply Asks.fallible_bind (asks_attempt (asks_perform.mpr trivial))
  intro _
  apply Asks.fallible_bind (asks_attempt (asks_perform.mpr trivial))
  intro _
  exact asks_ask trivial

theorem asks_tick : Asks Effect.Plain (tick options).run := by
  have heach : ∀ inos, Asks Effect.Plain (flushEach options inos).run := by
    intro inos
    induction inos with
    | nil => trivial
    | cons ino inos ih =>
      apply Asks.fallible_bind asks_flush
      intro _
      exact ih
  apply Asks.fallible_bind (asks_ask trivial)
  intro now
  apply Asks.fallible_bind (asks_ask trivial)
  intro handles
  exact heach _

theorem asks_drainEach (inos : List Nat) : Asks Effect.Plain (drainEach options inos).run := by
  induction inos with
  | nil => trivial
  | cons ino inos ih =>
    apply Asks.fallible_bind (asks_outcome asks_flush)
    intro result
    apply Asks.fallible_bind ih
    intro _
    trivial

theorem asks_drainAll : Asks Effect.Plain (drainAll options).run := by
  apply Asks.fallible_bind (asks_ask trivial)
  intro handles
  exact asks_drainEach _

/-! ## The calls that transfer -/

theorem asks_chunkedFlush : Asks Effect.Unstaged (chunkedFlush options ino).run := by
  apply Asks.fallible_bind (asks_getHandle trivial)
  intro id
  apply Asks.fallible_bind (asks_ask trivial)
  intro h
  rcases splitParentName h.path with _ | ⟨parent, name⟩
  · trivial
  apply Asks.fallible_bind (asks_attempt (asks_perform.mpr trivial))
  intro _
  apply Asks.fallible_bind (asks_ask trivial)
  rintro (_ | totalSize)
  · trivial
  apply Asks.fallible_bind ((asks_runSessions 1).mono fun _ => Effect.Transfers.unstaged)
  intro _
  apply Asks.fallible_bind (asks_ask trivial)
  intro now
  exact asks_ask trivial

theorem asks_flushIfDue {dirty lastFlush : Nat} :
    Asks Effect.Unstaged (flushIfDue options ino dirty lastFlush).run := by
  have hflush : Asks Effect.Unstaged (flush options ino).run := asks_flush.mono fun _ => Effect.Plain.unstaged
  apply Asks.fallible_bind (asks_ask trivial)
  intro now
  split_ifs
  · apply Asks.fallible_bind (asks_outcome asks_chunkedFlush)
    rintro (error | ⟨⟩)
    · cases error
      case upload message =>
        dsimp only
        split_ifs
        · exact hflush
        · trivial
      all_goals trivial
    · trivial
  · exact hflush
  · trivial

theorem asks_replayUploadSidecar {timeout now : Nat} :
    Asks Effect.Unstaged (replayUploadSidecar timeout now ino).run := by
  have hremove : ∀ result, Asks Effect.Unstaged (do
      ask (.removeProgress ino)
      return result : WriteProg (Option ResumeOutcome)).run := by
    intro result
    apply Asks.fallible_bind (asks_ask trivial)
    intro _
    trivial
  have hreconcile : ∀ serverBytes progress done, Asks Effect.Unstaged (reconcile ino now serverBytes progress done).run := by
    intro serverBytes progress done
    apply Asks.fallible_bind (asks_outcome (asks_attempt (asks_perform.mpr trivial)))
    rintro (error | ⟨⟩) <;>
    trivial
  apply Asks.fallible_bind (asks_outcome (asks_attempt (asks_perform.mpr trivial)))
  rintro (error | _ | progress)
  · trivial
  · trivial
  apply Asks.fallible_bind (asks_outcome (asks_attempt (asks_perform.mpr trivial)))
  rintro (error | serverBytes | _)
  · dsimp only
    split_ifs
    · rcases idleForIfStalled progress now timeout with _ | idle
      · trivial
      · exact hremove _
    · trivial
  · dsimp only
    split_ifs
    · exact hremove _
    · trivial
    · exact hreconcile _ _ _
    · exact hreconcile _ _ _
  · exact hremove _

theorem asks_replayUploadSidecars {timeout : Nat} : Asks Effect.Unstaged (replayUploadSidecars timeout).run := by
  have hfrom : ∀ now inos, Asks Effect.Unstaged (replayUploadSidecarsFrom timeout now inos).run := by
    intro now inos
    induction inos with
    | nil => trivial
    | cons ino inos ih =>
      apply Asks.fallible_bind asks_replayUploadSidecar
      intro result
      apply Asks.fallible_bind ih
      intro _
      trivial
  apply Asks.fallible_bind (asks_ask trivial)
  intro now
  apply Asks.fallible_bind (asks_ask trivial)
  intro inos
  exact hfrom now inos

theorem asks_program {call : WriteCall} (hcall : call.IsPlain) : Asks Effect.Plain (program options call).run := by
  cases call with
  | openForWrite ino path appendMode oTrunc => exact asks_openForWrite.mono fun _ => Effect.Local.plain
  | seedBlob ino bytes => exact asks_attempt (asks_perform.mpr trivial)
  | create ino parentPath name => exact asks_create.mono fun _ => Effect.Local.plain
  | stageWrite ino offset data => exact hcall.elim
  | write ino offset data => exact hcall.elim
  | chunkedFlush ino => exact hcall.elim
  | flush ino => exact asks_flush
  | truncate ino newSize => exact asks_truncate.mono fun _ => Effect.Local.plain
  | unlink ino path => exact asks_unlink
  | rename source target => exact asks_rename
  | tick => exact asks_tick
  | drainAll => exact asks_drainAll.fallible_bind fun _ => trivial
  | release ino => exact asks_ask trivial
  | replayUploadSidecars timeout => exact hcall.elim

end WritePathService

/-! ## The rule of a flush -/

namespace Effect

/-- What a flush of a handle asks for up to its reset. -/
def Flushing (id : Nat) : Effect → Prop
  | readHandle id' => id' = id
  | now | blobLen _ | journalAppend _ | uploadFile _ _ _ | openBlob _ | readBlobAt _ _ _ | loadProgress _
  | saveProgress _ _ | removeProgress _ | uploadCreate _ _ | uploadWrite _ _ _ | uploadSave _ _ _ _ _ => True
  | _ => False

theorem Transfers.flushing {parent name : String} {e : Effect} (id : Nat) (h : e.Transfers parent name) :
    e.Flushing id := by
  cases e <;> first | exact h.elim | trivial

end Effect

/-- A flush keeps `I` if its steps do. From its handle to its reset it has `J` of the handle. -/
structure FlushRule {σ : Type} (P : Protocol σ Effect Effect.Answer) (options : WritePathOptions) (ino : Nat)
    (I : σ → Prop) (J : Nat → σ → Prop) : Prop where
  get : ∀ s, I s → P.allowed s (.getHandle ino) ∧ ∀ ans s', P.moves s (.getHandle ino) ans s' →
    I s' ∧ ∀ id, ans = some id → J id s'
  between : ∀ id s e, J id s → e.Flushing id → P.allowed s e ∧ ∀ ans s', P.moves s e ans s' → J id s'
  reset : ∀ id s now, J id s → P.allowed s (.resetDirty id options.maxGlobalStagingBytes now) ∧
    ∀ ans s', P.moves s (.resetDirty id options.maxGlobalStagingBytes now) ans s' → I s'
  clock : ∀ s, I s → P.allowed s .now ∧ ∀ ans s', P.moves s .now ans s' → I s'
  weaken : ∀ id s, J id s → I s

namespace FlushRule

open WritePathService

variable {σ α β : Type} {P : Protocol σ Effect Effect.Answer} {options : WritePathOptions} {ino : Nat} {I : σ → Prop}
  {J : Nat → σ → Prop} (rule : FlushRule P options ino I J) {s : σ} {id : Nat}
include rule

theorem follows_bind {x : WriteProg α} {f : α → WriteProg β} (hx : Asks (Effect.Flushing id) x.run) (hs : J id s)
    (hf : ∀ a s, J id s → Follows P (fun _ => I) (f a).run s) : Follows P (fun _ => I) (x >>= f).run s := by
  rw [follows_fallible_bind]
  have hfollow : Follows P (fun _ => J id) x.run s := by
    apply hx.follows _ _ hs
    · exact fun s e hs he => (rule.between id s e hs he).1
    · exact fun s e ans s' hs he => (rule.between id s e hs he).2 ans s'
  apply hfollow.mono
  rintro (error | a) s hs
  · exact rule.weaken id s hs
  · exact hf a s hs

theorem follows_handle {f : Nat → WriteHandle → WriteProg β} (hs : I s)
    (hf : ∀ id h s, J id s → Follows P (fun _ => I) (f id h).run s) :
    Follows P (fun _ => I) (do
      let id ← getHandle ino
      let h ← ask (.readHandle id)
      f id h : WriteProg β).run s := by
  obtain ⟨hallowed, hmoves⟩ := rule.get s hs
  rw [follows_fallible_bind, getHandle, follows_fallible_bind]
  refine ⟨hallowed, ?_⟩
  rintro (_ | id) s' hmove
  · exact (hmoves none s' hmove).1
  · exact rule.follows_bind (asks_ask (by rfl)) ((hmoves (some id) s' hmove).2 id rfl) (hf id)

theorem follows_reset (hs : J id s) :
    Follows P (fun _ => I) (do
      let now ← ask .now
      ask (.resetDirty id options.maxGlobalStagingBytes now) : WriteProg Unit).run s := by
  apply rule.follows_bind (asks_ask (e := .now) trivial) hs
  intro now s hs
  exact rule.reset id s now hs

theorem follows_flush (hs : I s) : Follows P (fun _ => I) (flush options ino).run s := by
  apply rule.follows_handle hs
  intro id h s hs
  apply rule.follows_bind (asks_attempt (asks_perform.mpr trivial)) hs
  intro _ s hs
  rcases splitParentName h.path with _ | ⟨parent, name⟩
  · exact rule.weaken id s hs
  apply rule.follows_bind (asks_attempt (asks_perform.mpr trivial)) hs
  intro _ s hs
  exact rule.follows_reset hs

theorem follows_chunkedFlush (hs : I s) : Follows P (fun _ => I) (chunkedFlush options ino).run s := by
  apply rule.follows_handle hs
  intro id h s hs
  rcases splitParentName h.path with _ | ⟨parent, name⟩
  · exact rule.weaken id s hs
  apply rule.follows_bind (asks_attempt (asks_perform.mpr trivial)) hs
  intro _ s hs
  apply rule.follows_bind (asks_ask (e := .blobLen h.blobName) trivial) hs
  rintro (_ | totalSize) s hs
  · exact rule.weaken id s hs
  apply rule.follows_bind ((asks_runSessions 1).mono fun _ => Effect.Transfers.flushing id) hs
  intro _ s hs
  exact rule.follows_reset hs

theorem follows_flushIfDue {dirty lastFlush : Nat} (hs : I s) :
    Follows P (fun _ => I) (flushIfDue options ino dirty lastFlush).run s := by
  obtain ⟨hallowed, hmoves⟩ := rule.clock s hs
  rw [flushIfDue, follows_fallible_bind]
  refine ⟨hallowed, ?_⟩
  intro now s hmove
  have hs := hmoves now s hmove
  show Follows _ _ (ExceptT.run (ite _ _ _)) _
  split_ifs
  · rw [follows_fallible_bind, follows_outcome]
    apply (rule.follows_chunkedFlush hs).mono
    rintro (error | ⟨⟩) s hs
    · cases error
      case upload message =>
        dsimp only [orElse]
        split_ifs
        · exact rule.follows_flush hs
        · exact hs
      all_goals exact hs
    · exact hs
  · exact rule.follows_flush hs
  · exact hs

end FlushRule

end Pcloud
