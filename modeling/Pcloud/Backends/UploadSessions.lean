import Mathlib.Data.List.Chain
import Mathlib.Logic.Function.Basic
import Pcloud.Lib.Runs
import Pcloud.Model.OsPath

/-!
# Upload sessions as the operator sees them (`pcloud-backends/src/upload_sessions.rs`)

The registry of a daemon: each session has an id of its own, a state and a log of its transitions. Times are the
seconds of the clock, and every call comes with its own.
-/

namespace Pcloud.UploadSessions

/-! ## The registry -/

inductive ConflictMode
  | Error
  | Overwrite
  | Skip
  | Rename
deriving DecidableEq, Repr

inductive UploadState
  | Pending
  | InProgress
  | Paused
  | Cancelled
  | Completed
  | Failed (reason : String)
deriving DecidableEq, Repr

namespace UploadState

def isTerminal : UploadState → Bool
  | .Cancelled | .Completed | .Failed _ => true
  | _ => false

def label : UploadState → String
  | .Pending => "pending"
  | .InProgress => "in_progress"
  | .Paused => "paused"
  | .Cancelled => "cancelled"
  | .Completed => "completed"
  | .Failed _ => "failed"

end UploadState

structure UploadStateTransition where
  state : String
  at' : Int
deriving DecidableEq, Repr

structure UploadSession where
  id : UInt64
  path : OsPath
  remoteName : String
  parentFolderId : Option UInt64
  state : UploadState
  conflictMode : ConflictMode
  offset : UInt64
  totalBytes : UInt64
  createdAt : Int
  updatedAt : Int
  history : List UploadStateTransition
deriving DecidableEq

inductive SessionError
  | NotFound (id : UInt64)
  | InvalidTransition (id : UInt64) (current requested : String)
deriving DecidableEq, Repr

/-- `created` is for the record: the ids that `create` has given out, the first one first. -/
structure SessionRegistry where
  byId : UInt64 → Option UploadSession
  nextId : UInt64
  created : List UInt64

/-- What `create` is asked for. -/
structure NewUpload where
  path : OsPath
  remoteName : String
  parentFolderId : Option UInt64
  totalBytes : UInt64
  conflictMode : ConflictMode

namespace SessionRegistry

def new : SessionRegistry where
  byId _ := none
  nextId := 1
  created := []

/-- The new state of a session, or the label of the error. -/
abbrev Target := UploadState → Except String UploadState

abbrev Reply := Except SessionError UploadSession × SessionRegistry

section

variable (registry : SessionRegistry) (id : UInt64) (now : Int)

/-- The counter wraps. -/
def create (upload : NewUpload) : Reply :=
  let id := registry.nextId
  let session : UploadSession :=
    { id, path := upload.path, remoteName := upload.remoteName, parentFolderId := upload.parentFolderId
      state := .Pending, conflictMode := upload.conflictMode, offset := 0, totalBytes := upload.totalBytes
      createdAt := now, updatedAt := now, history := [⟨"pending", now⟩] }
  (.ok session,
    { byId := Function.update registry.byId id (some session)
      nextId := id + 1
      created := registry.created ++ [id] })

def transition (f : Target) : Reply :=
  match registry.byId id with
  | none => (.error (.NotFound id), registry)
  | some session =>
    match f session.state with
    | .error requested => (.error (.InvalidTransition id session.state.label requested), registry)
    | .ok next =>
      if next ≠ session.state then
        let session :=
          { session with
            state := next, updatedAt := now, history := session.history ++ [⟨next.label, now⟩] }
        (.ok session, { registry with byId := Function.update registry.byId id (some session) })
      else (.ok session, registry)

def toInProgress : Target
  | .Pending | .Paused | .InProgress => .ok .InProgress
  | .Cancelled => .error "cancelled"
  | .Completed => .error "completed"
  | .Failed _ => .error "failed"

def markInProgress : Reply := registry.transition id now toInProgress

def toPaused : Target
  | .Pending | .InProgress | .Paused => .ok .Paused
  | .Cancelled => .error "cancelled"
  | .Completed => .error "completed"
  | .Failed _ => .error "failed"

def pause : Reply := registry.transition id now toPaused

def toResumed : Target
  | .Paused => .ok .InProgress
  | .Pending => .error "pending"
  | .InProgress => .error "in_progress"
  | .Cancelled => .error "cancelled"
  | .Completed => .error "completed"
  | .Failed _ => .error "failed"

def resume : Reply := registry.transition id now toResumed

def toCancelled : Target
  | .Pending | .InProgress | .Paused | .Cancelled => .ok .Cancelled
  | .Completed => .error "completed"
  | .Failed _ => .error "failed"

def cancel : Reply := registry.transition id now toCancelled

def toCompleted : Target
  | .Pending | .InProgress => .ok .Completed
  | .Paused => .error "paused"
  | .Cancelled => .error "cancelled"
  | .Completed => .error "completed"
  | .Failed _ => .error "failed"

def complete : Reply := registry.transition id now toCompleted

def toFailed (reason : String) : Target
  | .Pending | .InProgress | .Paused => .ok (.Failed reason)
  | .Cancelled => .error "cancelled"
  | .Completed => .error "completed"
  | .Failed _ => .error "failed"

def fail (reason : String) : Reply := registry.transition id now (toFailed reason)

/-- It asks for no state. -/
def recordProgress (offset : UInt64) : Reply :=
  match registry.byId id with
  | none => (.error (.NotFound id), registry)
  | some session =>
    let session := { session with offset := min offset session.totalBytes, updatedAt := now }
    (.ok session, { registry with byId := Function.update registry.byId id (some session) })

end

/-! ## Calls -/

inductive Operation
  | create (upload : NewUpload)
  | markInProgress (id : UInt64)
  | pause (id : UInt64)
  | resume (id : UInt64)
  | cancel (id : UInt64)
  | complete (id : UInt64)
  | fail (id : UInt64) (reason : String)
  | recordProgress (id : UInt64) (offset : UInt64)

/-- With the clock at its time. -/
structure Call where
  operation : Operation
  now : Int

def reply (registry : SessionRegistry) (call : Call) : Reply :=
  match call.operation with
  | .create upload => registry.create call.now upload
  | .markInProgress id => registry.markInProgress id call.now
  | .pause id => registry.pause id call.now
  | .resume id => registry.resume id call.now
  | .cancel id => registry.cancel id call.now
  | .complete id => registry.complete id call.now
  | .fail id reason => registry.fail id call.now reason
  | .recordProgress id offset => registry.recordProgress id call.now offset

def step (registry : SessionRegistry) (call : Call) : SessionRegistry := (registry.reply call).2

/-! ## What a call can do -/

/-- The transitions that the operations document, by their labels. -/
def documented : List (String × String) :=
  [("pending", "in_progress"), ("paused", "in_progress"),
    ("pending", "paused"), ("in_progress", "paused"),
    ("pending", "cancelled"), ("in_progress", "cancelled"), ("paused", "cancelled"),
    ("in_progress", "completed"), ("pending", "completed"),
    ("pending", "failed"), ("in_progress", "failed"), ("paused", "failed")]

/-- A session moves only where it may, and never from a terminal state. -/
def Target.Documented (f : Target) : Prop :=
  ∀ state next, f state = .ok next → next ≠ state →
    state.isTerminal = false ∧ (state.label, next.label) ∈ documented

theorem documented_toInProgress : toInProgress.Documented := by
  intro state next hnext hne
  cases state <;> cases hnext <;> first | exact absurd rfl hne | exact ⟨rfl, by decide⟩

theorem documented_toPaused : toPaused.Documented := by
  intro state next hnext hne
  cases state <;> cases hnext <;> first | exact absurd rfl hne | exact ⟨rfl, by decide⟩

theorem documented_toResumed : toResumed.Documented := by
  intro state next hnext _
  cases state <;> cases hnext
  exact ⟨rfl, by decide⟩

theorem documented_toCancelled : toCancelled.Documented := by
  intro state next hnext hne
  cases state <;> cases hnext <;> first | exact absurd rfl hne | exact ⟨rfl, by decide⟩

theorem documented_toCompleted : toCompleted.Documented := by
  intro state next hnext _
  cases state <;> cases hnext <;> exact ⟨rfl, by decide⟩

theorem documented_toFailed (reason : String) : (toFailed reason).Documented := by
  intro state next hnext _
  cases state <;> cases hnext <;> exact ⟨rfl, by show (_, "failed") ∈ _; decide⟩

variable {registry : SessionRegistry} {call : Call}

/-- A session after `create`. -/
def fresh (id : UInt64) (upload : NewUpload) (now : Int) : UploadSession where
  id := id
  path := upload.path
  remoteName := upload.remoteName
  parentFolderId := upload.parentFolderId
  state := .Pending
  conflictMode := upload.conflictMode
  offset := 0
  totalBytes := upload.totalBytes
  createdAt := now
  updatedAt := now
  history := [⟨"pending", now⟩]

/-- A session after a transition. -/
def moved (session : UploadSession) (next : UploadState) (now : Int) : UploadSession :=
  { session with state := next, updatedAt := now, history := session.history ++ [⟨next.label, now⟩] }

/-- A session after `record_progress`. -/
def progressed (session : UploadSession) (offset : UInt64) (now : Int) : UploadSession :=
  { session with offset := min offset session.totalBytes, updatedAt := now }

def put (registry : SessionRegistry) (id : UInt64) (session : UploadSession) : SessionRegistry :=
  { registry with byId := Function.update registry.byId id (some session) }

theorem byId_put_self (registry : SessionRegistry) (id : UInt64) (session : UploadSession) :
    (registry.put id session).byId id = some session := Function.update_self ..

theorem byId_put_of_ne (registry : SessionRegistry) {id id' : UInt64} (session : UploadSession) (h : id' ≠ id) :
    (registry.put id session).byId id' = registry.byId id' := Function.update_of_ne h ..

theorem create_eq (registry : SessionRegistry) (now : Int) (upload : NewUpload) :
    registry.create now upload =
      (.ok (fresh registry.nextId upload now),
        { registry.put registry.nextId (fresh registry.nextId upload now) with
          nextId := registry.nextId + 1, created := registry.created ++ [registry.nextId] }) := rfl

/-- A call on a session, other than `record_progress`: it changes nothing, or the session moves. -/
inductive Transits (registry : SessionRegistry) (now : Int) : Reply → Prop
  | rejected (e : SessionError) : Transits registry now (.error e, registry)
  | stays (session : UploadSession) : Transits registry now (.ok session, registry)
  | moves {id : UInt64} {session : UploadSession} {next : UploadState} (hsession : registry.byId id = some session)
      (hactive : session.state.isTerminal = false) (hedge : (session.state.label, next.label) ∈ documented) :
      Transits registry now (.ok (moved session next now), registry.put id (moved session next now))

theorem transits_transition {f : Target} (hf : f.Documented) (id : UInt64) (now : Int) :
    Transits registry now (registry.transition id now f) := by
  rcases hsession : registry.byId id with _ | session
  · rw [transition, hsession]
    exact .rejected _
  · rcases htarget : f session.state with requested | next
    · rw [transition, hsession]
      simp only [htarget]
      exact .rejected _
    · by_cases hne : next ≠ session.state
      · obtain ⟨hactive, hedge⟩ := hf _ _ htarget hne
        rw [transition, hsession]
        simp only [htarget, if_pos hne]
        exact .moves hsession hactive hedge
      · rw [transition, hsession]
        simp only [htarget, if_neg hne]
        exact .stays session

theorem recordProgress_eq {id : UInt64} {session : UploadSession} (hsession : registry.byId id = some session)
    (now : Int) (offset : UInt64) :
    registry.recordProgress id now offset =
      (.ok (progressed session offset now), registry.put id (progressed session offset now)) := by
  rw [recordProgress, hsession]
  rfl

theorem reply_cases (registry : SessionRegistry) (call : Call) :
    (∃ upload, call.operation = .create upload ∧ registry.reply call = registry.create call.now upload) ∨
      (∃ id offset session, call.operation = .recordProgress id offset ∧ registry.byId id = some session ∧
        registry.reply call =
          (.ok (progressed session offset call.now), registry.put id (progressed session offset call.now))) ∨
      ((∀ upload, call.operation ≠ .create upload) ∧
        (∀ id offset, call.operation = .recordProgress id offset → registry.byId id = none) ∧
        Transits registry call.now (registry.reply call)) := by
  rcases call with ⟨upload | id | id | id | id | id | ⟨id, reason⟩ | ⟨id, offset⟩, now⟩
  · exact .inl ⟨upload, rfl, rfl⟩
  · exact .inr (.inr ⟨by simp, by simp, transits_transition documented_toInProgress id now⟩)
  · exact .inr (.inr ⟨by simp, by simp, transits_transition documented_toPaused id now⟩)
  · exact .inr (.inr ⟨by simp, by simp, transits_transition documented_toResumed id now⟩)
  · exact .inr (.inr ⟨by simp, by simp, transits_transition documented_toCancelled id now⟩)
  · exact .inr (.inr ⟨by simp, by simp, transits_transition documented_toCompleted id now⟩)
  · exact .inr (.inr ⟨by simp, by simp, transits_transition (documented_toFailed reason) id now⟩)
  · rcases hsession : registry.byId id with _ | session
    · refine .inr (.inr ⟨by simp, by simp [hsession], ?_⟩)
      show Transits registry now (registry.recordProgress id now offset)
      rw [recordProgress, hsession]
      exact .rejected _
    · exact .inr (.inl ⟨id, offset, session, rfl, hsession, recordProgress_eq hsession now offset⟩)

/-! ## The lifecycle -/

/-- The log is a path of documented transitions from `Pending` to the state of the session. -/
structure Sound (session : UploadSession) : Prop where
  offset : session.offset ≤ session.totalBytes
  starts : session.history.head?.map UploadStateTransition.state = some "pending"
  path : session.history.IsChain fun a b => (a.state, b.state) ∈ documented
  ends : session.history.getLast?.map UploadStateTransition.state = some session.state.label

theorem Sound.fresh (id : UInt64) (upload : NewUpload) (now : Int) : Sound (fresh id upload now) :=
  ⟨UInt64.zero_le, rfl, .singleton _, rfl⟩

theorem Sound.moved {session : UploadSession} (h : Sound session) {next : UploadState} {now : Int}
    (hedge : (session.state.label, next.label) ∈ documented) : Sound (moved session next now) := by
  refine ⟨h.offset, ?_, ?_, ?_⟩
  · obtain ⟨first, hfirst, hpending⟩ := Option.map_eq_some_iff.mp h.starts
    rw [SessionRegistry.moved, List.head?_append, hfirst]
    exact congrArg some hpending
  · refine List.isChain_append.mpr ⟨h.path, .singleton _, ?_⟩
    rintro last hlast _ ⟨⟩
    have hends := h.ends
    rw [hlast] at hends
    rwa [Option.some_inj.mp hends]
  · rw [SessionRegistry.moved, List.getLast?_append]
    rfl

theorem Sound.progressed {session : UploadSession} (h : Sound session) (offset : UInt64) (now : Int) :
    Sound (progressed session offset now) := by
  refine ⟨?_, h.starts, h.path, h.ends⟩
  show (if offset ≤ session.totalBytes then offset else session.totalBytes) ≤ session.totalBytes
  split
  · assumption
  · exact UInt64.le_refl _

/-- Under each id is its session, and the counter is one ahead of the last id. -/
structure Keyed (registry : SessionRegistry) : Prop where
  session : ∀ id session, registry.byId id = some session → session.id = id ∧ id ∈ registry.created ∧ Sound session
  nextId : registry.nextId = registry.created.getLast?.elim 1 (· + 1)

theorem keyed_new : Keyed new := by
  refine ⟨fun id session h => ?_, rfl⟩
  cases h

theorem Keyed.put (h : Keyed registry) {id : UInt64} {old session : UploadSession} (hold : registry.byId id = some old)
    (hid : session.id = old.id) (hsound : Sound session) : Keyed (registry.put id session) := by
  refine ⟨fun id' session' hsession' => ?_, h.nextId⟩
  obtain ⟨hkey, hcreated, -⟩ := h.session id old hold
  by_cases hid' : id' = id
  · subst hid'
    rw [byId_put_self, Option.some_inj] at hsession'
    subst hsession'
    exact ⟨hid.trans hkey, hcreated, hsound⟩
  · rw [byId_put_of_ne _ _ hid'] at hsession'
    exact h.session id' session' hsession'

theorem Keyed.create (h : Keyed registry) (now : Int) (upload : NewUpload) :
    Keyed (registry.create now upload).2 := by
  rw [create_eq]
  refine ⟨fun id session hsession => ?_, by simp⟩
  by_cases hid : id = registry.nextId
  · subst hid
    obtain rfl := Option.some_inj.mp ((byId_put_self registry _ _).symm.trans hsession)
    exact ⟨rfl, by simp, .fresh _ upload now⟩
  · obtain ⟨hkey, hcreated, hsound⟩ := h.session id session ((byId_put_of_ne registry _ hid).symm.trans hsession)
    exact ⟨hkey, List.mem_append_left _ hcreated, hsound⟩

theorem keyed_step (h : Keyed registry) (call : Call) : Keyed (registry.step call) := by
  rw [step]
  rcases reply_cases registry call with ⟨upload, -, hreply⟩ | ⟨id, offset, session, -, hsession, hreply⟩ | ⟨-, -, h'⟩
  · rw [hreply]
    exact h.create call.now upload
  · rw [hreply]
    exact h.put hsession rfl ((h.session id session hsession).2.2.progressed offset call.now)
  · generalize registry.reply call = reply at h'
    rcases h' with e | session | ⟨hsession, _, hedge⟩
    · exact h
    · exact h
    · exact h.put hsession rfl ((h.session _ _ hsession).2.2.moved hedge)

/-- What holds of the registry between two calls. -/
structure InOrder (registry : SessionRegistry) : Prop where
  increasing : registry.created.Pairwise (· < ·)
  session : ∀ id session, registry.byId id = some session → session.id = id ∧ id ∈ registry.created ∧ Sound session

/-- What holds of a call: an error changes nothing, and no call changes a session that has come to its end. -/
structure Respected (registry : SessionRegistry) (call : Call) : Prop where
  error : ∀ e, (registry.reply call).1 = .error e → registry.step call = registry
  terminal : ∀ id session, registry.byId id = some session → session.state.isTerminal = true →
    (registry.step call).byId id = some session

def Lifecycle (calls : List Call) : Prop :=
  Runs.AllStates step InOrder new calls ∧ Runs.AllSteps step Respected new calls

theorem terminal_stays {calls : List Call} (h : Runs.AllSteps step Respected registry calls) {id : UInt64}
    {session : UploadSession} (hsession : registry.byId id = some session)
    (hterminal : session.state.isTerminal = true) :
    (Runs.run step registry calls).byId id = some session :=
  h.invariant (I := fun registry => registry.byId id = some session) hsession
    fun _ _ hsession hcall => hcall.terminal id session hsession hterminal

/-- The counter has not wrapped, and progress is recorded of a session that has come to its end only as it stands. -/
def Allowed (registry : SessionRegistry) (call : Call) : Prop :=
  match call.operation with
  | .create _ => registry.nextId ≠ 0
  | .recordProgress id offset =>
    ∀ session, registry.byId id = some session → session.state.isTerminal = true →
      min offset session.totalBytes = session.offset ∧ call.now = session.updatedAt
  | _ => True

theorem lt_add_one_iff (id : UInt64) : id < id + 1 ↔ id + 1 ≠ 0 := by
  rw [UInt64.lt_iff_toNat_lt, Ne, ← UInt64.toNat_inj, UInt64.toNat_add]
  have hlt := id.toNat_lt
  simp only [UInt64.reduceToNat]
  omega

theorem increasing_create_iff (h : Keyed registry) (hin : registry.created.Pairwise (· < ·)) :
    (registry.created ++ [registry.nextId]).Pairwise (· < ·) ↔ registry.nextId ≠ 0 := by
  have hnext := h.nextId
  rcases List.eq_nil_or_concat' registry.created with hnil | ⟨earlier, last, hconcat⟩
  · rw [hnil] at hnext ⊢
    rw [hnext]
    exact iff_of_true (List.pairwise_singleton _ _) (by decide)
  · rw [hconcat, List.getLast?_append] at hnext
    rw [hconcat] at hin ⊢
    have hnext : registry.nextId = last + 1 := hnext
    rw [hnext, ← lt_add_one_iff, List.pairwise_append]
    have hlast := (List.pairwise_append.mp hin).2.2
    constructor
    · rintro ⟨-, -, hall⟩
      exact hall last (by simp) _ (by simp)
    · intro hlt
      refine ⟨hin, List.pairwise_singleton _ _, fun id hid next hnext => ?_⟩
      rw [List.mem_singleton.mp hnext]
      rcases List.mem_append.mp hid with hid | hid
      · exact UInt64.lt_trans (hlast id hid last (by simp)) hlt
      · rwa [List.mem_singleton.mp hid]

theorem byId_nextId (h : Keyed registry) (hin : registry.created.Pairwise (· < ·)) (hnext : registry.nextId ≠ 0) :
    registry.byId registry.nextId = none := by
  rw [Option.eq_none_iff_forall_ne_some]
  intro session hsession
  obtain ⟨-, hcreated, -⟩ := h.session _ session hsession
  have hlt := (List.pairwise_append.mp ((increasing_create_iff h hin).mpr hnext)).2.2 _ hcreated
  exact UInt64.lt_irrefl _ (hlt registry.nextId (by simp))

theorem terminal_put {id : UInt64} {old session : UploadSession} (hold : registry.byId id = some old) :
    (∀ id' session', registry.byId id' = some session' → session'.state.isTerminal = true →
      (registry.put id session).byId id' = some session') ↔ (old.state.isTerminal = true → session = old) := by
  constructor
  · intro h hterminal
    have hkept := h id old hold hterminal
    rwa [byId_put_self, Option.some_inj] at hkept
  · intro h id' session' hsession' hterminal
    by_cases hid : id' = id
    · subst hid
      rw [hsession', Option.some_inj] at hold
      subst hold
      rw [h hterminal, byId_put_self]
    · rwa [byId_put_of_ne _ _ hid]

theorem respected_of_transits (h : Transits registry call.now (registry.reply call)) :
    (registry.step call).created = registry.created ∧ Respected registry call := by
  rcases hreply : registry.reply call with ⟨outcome, registry'⟩
  have hstep : registry.step call = registry' := by rw [step, hreply]
  rw [hreply] at h
  cases h with
  | rejected e =>
    rw [hstep]
    exact ⟨rfl, fun _ _ => hstep, fun id session hsession _ => by rwa [hstep]⟩
  | stays session =>
    rw [hstep]
    exact ⟨rfl, fun _ _ => hstep, fun id session hsession _ => by rwa [hstep]⟩
  | moves hsession hactive hedge =>
    rw [hstep]
    refine ⟨rfl, fun e he => ?_, ?_⟩
    · rw [hreply] at he
      cases he
    · rw [hstep, terminal_put hsession, hactive]
      exact fun h => by cases h

theorem progressed_eq_iff (session : UploadSession) (offset : UInt64) (now : Int) :
    progressed session offset now = session ↔
      min offset session.totalBytes = session.offset ∧ now = session.updatedAt := by
  cases session
  simp [progressed]

theorem step_create_iff (hkeyed : Keyed registry) (hin : InOrder registry) {call : Call} {upload : NewUpload}
    (hreply : registry.reply call = registry.create call.now upload) :
    InOrder (registry.step call) ∧ Respected registry call ↔ registry.nextId ≠ 0 := by
  have hcreated : (registry.step call).created = registry.created ++ [registry.nextId] := by rw [step, hreply]; rfl
  rw [← increasing_create_iff hkeyed hin.increasing]
  constructor
  · rintro ⟨hin', -⟩
    exact hcreated ▸ hin'.increasing
  · intro hincreasing
    refine ⟨⟨by rw [hcreated]; exact hincreasing, (keyed_step hkeyed call).session⟩, ?_, ?_⟩
    · intro e he
      rw [hreply] at he
      cases he
    · intro id session hsession _
      have hnone := byId_nextId hkeyed hin.increasing ((increasing_create_iff hkeyed hin.increasing).mp hincreasing)
      have hid : id ≠ registry.nextId := by
        rintro rfl
        rw [hnone] at hsession
        cases hsession
      rw [step, hreply]
      exact (byId_put_of_ne registry _ hid).trans hsession

theorem step_put_iff (hkeyed : Keyed registry) (hin : InOrder registry) {call : Call} {id : UInt64}
    {old session : UploadSession} (hold : registry.byId id = some old)
    (hreply : registry.reply call = (.ok session, registry.put id session)) :
    InOrder (registry.step call) ∧ Respected registry call ↔ (old.state.isTerminal = true → session = old) := by
  have hstep : registry.step call = registry.put id session := by rw [step, hreply]
  rw [← terminal_put hold, ← hstep]
  constructor
  · rintro ⟨-, hrespected⟩
    exact hrespected.terminal
  · intro hterminal
    refine ⟨⟨by rw [hstep]; exact hin.increasing, (keyed_step hkeyed call).session⟩, ?_, hterminal⟩
    intro e he
    rw [hreply] at he
    cases he

theorem step_iff (hkeyed : Keyed registry) (hin : InOrder registry) (call : Call) :
    InOrder (registry.step call) ∧ Respected registry call ↔ Allowed registry call := by
  rcases reply_cases registry call with
    ⟨upload, hcall, hreply⟩ | ⟨id, offset, session, hcall, hsession, hreply⟩ | ⟨hcreate, hprogress, htransits⟩
  · rw [step_create_iff hkeyed hin hreply, Allowed, hcall]
  · rw [step_put_iff hkeyed hin hsession hreply, Allowed, hcall, progressed_eq_iff]
    simp [hsession]
  · have hallowed : Allowed registry call := by
      rw [Allowed]
      -- Only the calls with a condition of their own are not transitions.
      rcases hoperation : call.operation with upload | id | id | id | id | id | ⟨id, reason⟩ | ⟨id, offset⟩
      · exact absurd hoperation (hcreate upload)
      · trivial
      · trivial
      · trivial
      · trivial
      · trivial
      · trivial
      · intro session hsession
        rw [hprogress id offset hoperation] at hsession
        cases hsession
    obtain ⟨hcreated, hrespected⟩ := respected_of_transits htransits
    exact iff_of_true ⟨⟨hcreated ▸ hin.increasing, (keyed_step hkeyed call).session⟩, hrespected⟩ hallowed

theorem lifecycle_iff (calls : List Call) : Lifecycle calls ↔ Runs.AllSteps step Allowed new calls :=
  Runs.allStates_and_allSteps_iff (fun _ call h => keyed_step h call)
    (fun _ call hkeyed hin => step_iff hkeyed hin call) keyed_new ⟨.nil, fun _ _ h => by cases h⟩

/-- Progress of a session that has been cancelled. -/
theorem not_lifecycle : ¬∀ calls, Lifecycle calls := by
  intro h
  obtain ⟨-, -, -, hprogress, -⟩ := h
    [⟨.create ⟨[], "report.pdf", none, 4096, .Error⟩, 100⟩, ⟨.cancel 1, 101⟩, ⟨.recordProgress 1 1024, 102⟩]
  have hkept := congrArg (Option.map UploadSession.offset) (hprogress.terminal 1 _ rfl rfl)
  revert hkept
  decide

end SessionRegistry

end Pcloud.UploadSessions
