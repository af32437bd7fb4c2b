import Pcloud.Ipc.Exchange
import Pcloud.Lib.Threads

/-!
# The serve loop and its signals (`pcloud-daemon/src/{serve,signals}.rs`)

The loop serves one connection at a time and looks at the flags in between. Signal handlers set
the flags at any moment, each store a step of its own.
-/

namespace Pcloud.ServeLoop

open Ipc Runs Threads

/-! ## Requests and the runtime -/

def shouldRejectDuringDrain {π : Type} : Request π → Bool
  | .plain .drainStatus | .plain .shutdown | .plain .getHealth | .plain .health => false
  | .plain .haStatus | .plain (.other _) | .carrying _ => true

/-- What a request has to do with the runtime: it may ask for the shutdown, and anything else. -/
structure Runtime (σ : Type) where
  shutdownRequested : Bool
  rest : σ

structure Daemon (σ π : Type) where
  json : Codec (Request π)
  ownerUid : UInt32
  refreshEnabled : Bool
  drainTimeout : Nat
  dispatch : Runtime σ → PeerIdentity → Request π → Runtime σ × Response
  quiesce : Runtime σ → Runtime σ
  reload : Runtime σ → Runtime σ
  refreshTick : Runtime σ → Runtime σ

inductive DrainState
  | running
  | draining
  | stopped
deriving DecidableEq, Repr

/-- The signal flags, the runtime that only the loop touches, and the requests that reached it, the
latest first. -/
structure Shared (σ π : Type) where
  shutdownRequested : Bool := false
  reloadRequested : Bool := false
  drainState : DrainState := .running
  external : Option Bool := none
  inFlight : Nat := 0
  runtime : Runtime σ
  dispatched : List (PeerIdentity × Request π) := []

/-! ## The loop -/

/-- How a call of `accept` ends. -/
inductive Accepted
  | failed (kind : ErrorKind)
  | noCredentials
  | capped
  | connected (peer : PeerIdentity) (stream : Stream)

/-- What a step of the loop reads from outside. -/
structure Input where
  now : Nat := 0
  accepted : Accepted := .failed .timedOut

inductive Loop (π : Type) where
  | checking
  | observing (externalFlagged : Bool)
  | stopping
  | beginning
  | settling
  | reloading
  | accepting
  | gating (peer : PeerIdentity) (request : Request π)
  | entering (peer : PeerIdentity) (request : Request π)
  | dispatching (peer : PeerIdentity) (request : Request π)
  | leaving
  | ticking
  | returned (result : Except ErrorKind Unit)

/-- The loop with its deadline, or one of the handlers. -/
inductive Thread (π : Type) where
  | loop (deadline : Option Nat) (at_ : Loop π)
  | handleTerm
  | handleTermDrain
  | handleHup
  | stopExternal
  | handled

inductive Signal
  | term
  | hup
  | external

section
variable {σ π : Type} (daemon : Daemon σ π) (shared : Shared σ π)

def beginDrain : Bool × Shared σ π :=
  if shared.drainState = .running then (true, { shared with drainState := .draining }) else (false, shared)

/-- Where the loop goes after `serve_once_with_peer` without a handler call. -/
def afterServe : Except IpcTransportError Unit → Loop π
  | .ok () => .ticking
  | .error (.io .interrupted) => .checking
  | .error (.io .wouldBlock) | .error (.io .timedOut) => .ticking
  | .error (.io kind) => .returned (.error kind)
  | .error (.protocol _) | .error (.requestTooLarge _ _) => .returned (.error .other)

def accept : Accepted → Loop π
  | .failed kind => afterServe (.error (.io kind))
  | .noCredentials | .capped => .ticking
  | .connected peer stream =>
    match receive daemon.json daemon.ownerUid peer stream with
    | .request request _ => .gating peer request
    | .ended result _ => afterServe result

/-- One step of the loop. In `gating` the drain state is read, from `entering` to `leaving` the
request counts as in flight. -/
def nextLoop (deadline : Option Nat) (input : Input) : Loop π → Shared σ π × Option Nat × Loop π
  | .checking => (shared, deadline, .observing (shared.external.getD false))
  | .observing externalFlagged =>
    if shared.runtime.shutdownRequested || shared.shutdownRequested || externalFlagged then
      (shared, deadline, .stopping)
    else (shared, deadline, .reloading)
  | .stopping =>
    ({ shared with
      runtime := { shared.runtime with shutdownRequested := true }
      external := shared.external.map fun _ => true }, deadline, .beginning)
  | .beginning =>
    let (fresh, shared) := beginDrain shared
    if fresh then
      ({ shared with runtime := daemon.quiesce shared.runtime }, some (input.now + daemon.drainTimeout), .settling)
    else (shared, some (deadline.getD (input.now + daemon.drainTimeout)), .settling)
  | .settling =>
    if shared.inFlight = 0 ∨ deadline.getD (input.now + 1) ≤ input.now then (shared, deadline, .returned (.ok ()))
    else (shared, deadline, .reloading)
  | .reloading =>
    if shared.reloadRequested then
      ({ shared with reloadRequested := false, runtime := daemon.reload shared.runtime }, deadline, .accepting)
    else (shared, deadline, .accepting)
  | .accepting => (shared, deadline, accept daemon input.accepted)
  | .gating peer request =>
    if shared.drainState = .draining ∧ shouldRejectDuringDrain request then (shared, deadline, .ticking)
    else (shared, deadline, .entering peer request)
  | .entering peer request =>
    ({ shared with inFlight := (shared.inFlight + 1) % 2 ^ 32 }, deadline, .dispatching peer request)
  | .dispatching peer request =>
    ({ shared with
      runtime := (daemon.dispatch shared.runtime peer request).1
      dispatched := (peer, request) :: shared.dispatched }, deadline, .leaving)
  | .leaving => ({ shared with inFlight := shared.inFlight - 1 }, deadline, .ticking)
  | .ticking =>
    if daemon.refreshEnabled then
      ({ shared with runtime := daemon.refreshTick shared.runtime }, deadline, .checking)
    else (shared, deadline, .checking)
  | .returned result => (shared, deadline, .returned result)

def next (thread : Thread π) (input : Input) : Shared σ π × Thread π :=
  match thread with
  | .loop deadline at_ =>
    let (shared, deadline, at_) := nextLoop daemon shared deadline input at_
    (shared, .loop deadline at_)
  | .handleTerm => ({ shared with shutdownRequested := true }, .handleTermDrain)
  | .handleTermDrain => ((beginDrain shared).2, .handled)
  | .handleHup => ({ shared with reloadRequested := true }, .handled)
  | .stopExternal => ({ shared with external := shared.external.map fun _ => true }, .handled)
  | .handled => (shared, .handled)

end

def enter {π : Type} : Signal → Thread π
  | .term => .handleTerm
  | .hup => .handleHup
  | .external => .stopExternal

def serve {σ π : Type} (daemon : Daemon σ π) : Program (Shared σ π) (Thread π) Signal Input := ⟨enter, next daemon⟩

/-- The daemon as the loop begins. -/
def fresh {σ π : Type} (runtime : Runtime σ) (external : Option Bool) : System (Shared σ π) (Thread π) :=
  ⟨{ runtime, external }, [.loop none .checking]⟩

def after {σ π : Type} (daemon : Daemon σ π) (system : System (Shared σ π) (Thread π)) (moves : List (Move Signal Input)) :
    System (Shared σ π) (Thread π) :=
  run (System.step (serve daemon)) system moves

/-- The request that a connection carries up to the drain gate. -/
def Input.request? {σ π : Type} (daemon : Daemon σ π) (input : Input) : Option (PeerIdentity × Request π) :=
  match input.accepted with
  | .failed _ | .noCredentials | .capped => none
  | .connected peer stream =>
    match receive daemon.json daemon.ownerUid peer stream with
    | .request request _ => some (peer, request)
    | .ended _ _ => none

def arrival {σ π : Type} (daemon : Daemon σ π) : Move Signal Input → Option (PeerIdentity × Request π)
  | .run 0 input => input.request? daemon
  | .run (_ + 1) _ | .start _ => none

def ofLoop : Move Signal Input → Bool
  | .run 0 _ => true
  | .run (_ + 1) _ | .start _ => false

/-! ## Steps of the loop and of the handlers -/

variable {σ π : Type} {daemon : Daemon σ π} {shared shared' : Shared σ π} {deadline : Option Nat} {at_ : Loop π}
  {handlers : List (Thread π)}

namespace Loop

def busy : Loop π → Nat
  | .dispatching _ _ | .leaving => 1
  | .checking | .observing _ | .stopping | .beginning | .settling | .reloading | .accepting | .gating _ _ |
    .entering _ _ | .ticking | .returned _ => 0

/-- How many steps the loop has left once the shutdown is requested. -/
def rank : Loop π → Nat
  | .reloading => 12
  | .accepting => 11
  | .gating _ _ => 10
  | .entering _ _ => 9
  | .dispatching _ _ => 8
  | .leaving => 7
  | .ticking => 6
  | .checking => 5
  | .observing _ => 4
  | .stopping => 3
  | .beginning => 2
  | .settling => 1
  | .returned _ => 0

/-- The request the loop holds, on its way to the runtime. -/
def pending : Loop π → List (PeerIdentity × Request π)
  | .gating peer request | .entering peer request | .dispatching peer request => [(peer, request)]
  | .checking | .observing _ | .stopping | .beginning | .settling | .reloading | .accepting | .leaving | .ticking |
    .returned _ => []

/-- The request that the drain gate has let pass. -/
def admitted : Loop π → Option (PeerIdentity × Request π)
  | .entering peer request | .dispatching peer request => some (peer, request)
  | .checking | .observing _ | .stopping | .beginning | .settling | .reloading | .accepting | .gating _ _ |
    .leaving | .ticking | .returned _ => none

end Loop

def Thread.admitted : Thread π → Option (PeerIdentity × Request π)
  | .loop _ at_ => at_.admitted
  | .handleTerm | .handleTermDrain | .handleHup | .stopExternal | .handled => none

/-- A handler begins the drain once the flag of its signal is set. -/
def Thread.Handles (shared : Shared σ π) : Thread π → Prop
  | .loop _ _ => False
  | .handleTermDrain => shared.shutdownRequested
  | .handleTerm | .handleHup | .stopExternal | .handled => True

/-- What a step of a handler does to the flags. -/
structure Signalled (shared shared' : Shared σ π) : Prop where
  shutdownRequested : shared.shutdownRequested → shared'.shutdownRequested
  drainState : shared'.drainState = shared.drainState ∨ shared'.drainState = .draining ∧ shared.shutdownRequested
  inFlight : shared'.inFlight = shared.inFlight
  dispatched : shared'.dispatched = shared.dispatched

theorem Thread.Handles.mono {thread : Thread π} (h : thread.Handles shared)
    (hrequested : shared.shutdownRequested → shared'.shutdownRequested) : thread.Handles shared' := by
  cases thread with
  | loop => exact h
  | handleTermDrain => exact hrequested h
  | handleTerm | handleHup | stopExternal | handled => trivial

theorem beginDrain_drainState (shared : Shared σ π) :
    (beginDrain shared).2.drainState = shared.drainState ∨ (beginDrain shared).2.drainState = .draining := by
  unfold beginDrain
  split
  · exact .inr rfl
  · exact .inl rfl

theorem beginDrain_eq (shared : Shared σ π) :
    (beginDrain shared).2 = { shared with drainState := (beginDrain shared).2.drainState } := by
  unfold beginDrain
  split <;> rfl

theorem next_handler {thread : Thread π} (h : thread.Handles shared) (input : Input) :
    (next daemon shared thread input).2.Handles (next daemon shared thread input).1 ∧
      Signalled shared (next daemon shared thread input).1 := by
  cases thread with
  | loop => cases h
  | handleTerm => exact ⟨rfl, fun _ => rfl, .inl rfl, rfl, rfl⟩
  | handleTermDrain =>
    refine ⟨trivial, ?_, ?_, ?_, ?_⟩
    · intro hrequested
      simp only [next]
      rw [beginDrain_eq]
      exact hrequested
    · exact (beginDrain_drainState shared).imp_right fun hdraining => ⟨hdraining, h⟩
    · simp only [next]
      rw [beginDrain_eq]
    · simp only [next]
      rw [beginDrain_eq]
  | handleHup => exact ⟨trivial, id, .inl rfl, rfl, rfl⟩
  | stopExternal => exact ⟨trivial, id, .inl rfl, rfl, rfl⟩
  | handled => exact ⟨trivial, id, .inl rfl, rfl, rfl⟩

theorem step_cases (hhandlers : ∀ thread ∈ handlers, thread.Handles shared) (move : Move Signal Input) :
    (∃ input, move = .run 0 input ∧
      System.step (serve daemon) ⟨shared, .loop deadline at_ :: handlers⟩ move =
        ⟨(nextLoop daemon shared deadline input at_).1,
          .loop (nextLoop daemon shared deadline input at_).2.1 (nextLoop daemon shared deadline input at_).2.2 ::
            handlers⟩) ∨
    (∀ input, move ≠ .run 0 input) ∧ ∃ shared' handlers', (∀ thread ∈ handlers', thread.Handles shared') ∧
      Signalled shared shared' ∧
      System.step (serve daemon) ⟨shared, .loop deadline at_ :: handlers⟩ move =
        ⟨shared', .loop deadline at_ :: handlers'⟩ := by
  cases move with
  | start signal =>
    refine .inr ⟨by simp, shared, handlers ++ [enter signal], ?_, ⟨id, .inl rfl, rfl, rfl⟩, rfl⟩
    intro thread hmem
    rcases List.mem_append.mp hmem with hold | hnew
    · exact hhandlers thread hold
    · obtain rfl := List.mem_singleton.mp hnew
      cases signal <;> trivial
  | run index input =>
    cases index with
    | zero => exact .inl ⟨input, rfl, rfl⟩
    | succ index =>
      refine .inr ⟨by simp, ?_⟩
      cases hthread : handlers[index]? with
      | none =>
        refine ⟨shared, handlers, hhandlers, ⟨id, .inl rfl, rfl, rfl⟩, ?_⟩
        simp [System.step, hthread]
      | some thread =>
        obtain ⟨hhandles, hsignalled⟩ := @next_handler _ _ daemon shared _ (hhandlers thread (List.mem_of_getElem? hthread)) input
        refine ⟨_, handlers.set index (next daemon shared thread input).2, ?_, hsignalled, ?_⟩
        · intro other hmem
          rcases List.mem_or_eq_of_mem_set hmem with hold | rfl
          · exact (hhandlers other hold).mono hsignalled.shutdownRequested
          · exact hhandles
        · simp [System.step, serve, hthread]

/-! ## One step of the loop -/

section
variable (daemon : Daemon σ π) (shared : Shared σ π) (deadline : Option Nat) (input : Input) (at_ : Loop π)

theorem nextLoop_beginning : ∃ runtime deadline', nextLoop daemon shared deadline input .beginning =
    ({ shared with drainState := (beginDrain shared).2.drainState, runtime }, deadline', .settling) := by
  have hrest := beginDrain_eq shared
  cases h : beginDrain shared with
  | mk fresh begun =>
    rw [h] at hrest
    simp only at hrest
    simp only [nextLoop, h]
    rw [hrest]
    cases fresh with
    | true => exact ⟨_, _, rfl⟩
    | false => exact ⟨_, _, rfl⟩

theorem accept_cases (accepted : Accepted) :
    (∃ peer stream request stream', accepted = .connected peer stream ∧
      receive daemon.json daemon.ownerUid peer stream = .request request stream' ∧
      accept daemon accepted = .gating peer request) ∨
    accept daemon accepted = .ticking ∨ accept daemon accepted = .checking ∨
    ∃ result, accept daemon accepted = .returned result := by
  have hserved : ∀ result : Except IpcTransportError Unit,
      (afterServe result : Loop π) = .ticking ∨ (afterServe result : Loop π) = .checking ∨
      ∃ ended, (afterServe result : Loop π) = .returned ended := by
    intro result
    unfold afterServe
    split
    · exact .inl rfl
    · exact .inr (.inl rfl)
    · exact .inl rfl
    · exact .inl rfl
    · exact .inr (.inr ⟨_, rfl⟩)
    · exact .inr (.inr ⟨_, rfl⟩)
    · exact .inr (.inr ⟨_, rfl⟩)
  cases accepted with
  | failed kind => exact .inr (hserved _)
  | noCredentials => exact .inr (.inl rfl)
  | capped => exact .inr (.inl rfl)
  | connected peer stream =>
    simp only [accept]
    cases h : receive daemon.json daemon.ownerUid peer stream with
    | request request stream' => exact .inl ⟨peer, stream, request, stream', rfl, h, rfl⟩
    | ended result stream' => exact .inr (hserved result)

theorem nextLoop_shutdownRequested :
    (nextLoop daemon shared deadline input at_).1.shutdownRequested = shared.shutdownRequested := by
  cases at_ with
  | beginning =>
    obtain ⟨runtime, deadline', hnext⟩ := nextLoop_beginning daemon shared deadline input
    rw [hnext]
  | observing | settling | reloading | gating | ticking =>
    simp only [nextLoop]
    split <;> rfl
  | checking | stopping | accepting | entering | dispatching | leaving | returned => rfl

theorem nextLoop_drainState :
    (nextLoop daemon shared deadline input at_).1.drainState = shared.drainState ∨
      (nextLoop daemon shared deadline input at_).1.drainState = .draining ∧
        (nextLoop daemon shared deadline input at_).2.2 = .settling := by
  cases at_ with
  | beginning =>
    obtain ⟨runtime, deadline', hnext⟩ := nextLoop_beginning daemon shared deadline input
    rw [hnext]
    exact (beginDrain_drainState shared).imp_right fun hdraining => ⟨hdraining, rfl⟩
  | observing | settling | reloading | gating | ticking =>
    simp only [nextLoop]
    split <;> exact .inl rfl
  | checking | stopping | accepting | entering | dispatching | leaving | returned => exact .inl rfl

theorem nextLoop_inFlight (h : shared.inFlight = at_.busy) :
    (nextLoop daemon shared deadline input at_).1.inFlight =
      (nextLoop daemon shared deadline input at_).2.2.busy := by
  cases at_ with
  | beginning =>
    obtain ⟨runtime, deadline', hnext⟩ := nextLoop_beginning daemon shared deadline input
    rw [hnext]
    exact h
  | observing | settling | reloading | gating | ticking =>
    simp only [nextLoop]
    split <;> exact h
  | accepting =>
    rcases accept_cases daemon input.accepted with ⟨peer, stream, request, stream', -, -, haccept⟩ | haccept |
      haccept | ⟨result, haccept⟩ <;>
    · simp only [nextLoop, haccept]
      exact h
  | entering =>
    simp only [Loop.busy] at h
    simp only [nextLoop, h]
    rfl
  | leaving =>
    simp only [Loop.busy] at h
    simp only [nextLoop, h]
    rfl
  | checking | stopping | dispatching | returned => exact h

/-- The shutdown is requested, or the loop has begun to settle without a signal. -/
def Ending (shared : Shared σ π) (at_ : Loop π) : Prop := shared.shutdownRequested ∨ at_.rank ≤ 1

theorem nextLoop_rank (hending : Ending shared at_) (h : shared.inFlight = at_.busy) :
    (nextLoop daemon shared deadline input at_).2.2.rank ≤ at_.rank - 1 := by
  cases at_ with
  | beginning =>
    obtain ⟨runtime, deadline', hnext⟩ := nextLoop_beginning daemon shared deadline input
    rw [hnext]
    simp [Loop.rank]
  | observing externalFlagged =>
    have hrequested : shared.shutdownRequested := hending.resolve_right (by simp [Loop.rank])
    have hobserved : (shared.runtime.shutdownRequested || shared.shutdownRequested || externalFlagged) = true := by
      simp [hrequested]
    simp only [nextLoop, if_pos hobserved]
    simp [Loop.rank]
  | settling =>
    simp only [nextLoop]
    rw [if_pos (.inl h)]
    simp [Loop.rank]
  | reloading | gating | ticking =>
    simp only [nextLoop]
    split <;> simp [Loop.rank]
  | accepting =>
    rcases accept_cases daemon input.accepted with ⟨peer, stream, request, stream', -, -, haccept⟩ | haccept |
      haccept | ⟨result, haccept⟩ <;> simp [nextLoop, haccept, Loop.rank]
  | checking | stopping | entering | dispatching | leaving | returned => simp [nextLoop, Loop.rank]

theorem nextLoop_ending (hending : Ending shared at_) (h : shared.inFlight = at_.busy) :
    Ending (nextLoop daemon shared deadline input at_).1 (nextLoop daemon shared deadline input at_).2.2 := by
  have hrank := nextLoop_rank daemon shared deadline input at_ hending h
  rcases hending with hrequested | hnear
  · left
    rw [nextLoop_shutdownRequested]
    exact hrequested
  · exact .inr (by omega)

theorem nextLoop_pending :
    ((nextLoop daemon shared deadline input at_).2.2.pending ++
      (nextLoop daemon shared deadline input at_).1.dispatched).Sublist
    ((input.request? daemon).toList ++ (at_.pending ++ shared.dispatched)) := by
  have hkept : (at_.pending ++ shared.dispatched).Sublist
      ((input.request? daemon).toList ++ (at_.pending ++ shared.dispatched)) := List.sublist_append_right _ _
  cases at_ with
  | beginning =>
    obtain ⟨runtime, deadline', hnext⟩ := nextLoop_beginning daemon shared deadline input
    rw [hnext]
    exact hkept
  | observing | settling | reloading | ticking =>
    simp only [nextLoop]
    split <;> exact hkept
  | gating peer request =>
    simp only [nextLoop]
    split
    · exact (List.sublist_append_right [(peer, request)] shared.dispatched).trans hkept
    · exact hkept
  | accepting =>
    rcases accept_cases daemon input.accepted with ⟨peer, stream, request, stream', hconnected, hreceive, haccept⟩ |
      haccept | haccept | ⟨result, haccept⟩
    · have hrequest : input.request? daemon = some (peer, request) := by
        simp only [Input.request?, hconnected, hreceive]
      simp only [nextLoop, haccept, hrequest]
      exact List.Sublist.refl _
    all_goals
      simp only [nextLoop, haccept]
      exact hkept
  | checking | stopping | entering | dispatching | leaving | returned => exact hkept

theorem nextLoop_dispatched :
    ((nextLoop daemon shared deadline input at_).1.dispatched = shared.dispatched ∧
      ∀ entry, at_.admitted = some entry →
        (nextLoop daemon shared deadline input at_).2.2.admitted = some entry) ∨
    ∃ peer request, at_ = .dispatching peer request ∧
      (nextLoop daemon shared deadline input at_).1.dispatched = (peer, request) :: shared.dispatched := by
  cases at_ with
  | dispatching peer request => exact .inr ⟨peer, request, rfl, rfl⟩
  | beginning =>
    obtain ⟨runtime, deadline', hnext⟩ := nextLoop_beginning daemon shared deadline input
    rw [hnext]
    exact .inl ⟨rfl, fun entry hentry => by cases hentry⟩
  | observing | settling | reloading | gating | ticking =>
    refine .inl ⟨?_, fun entry hentry => by cases hentry⟩
    simp only [nextLoop]
    split <;> rfl
  | entering peer request => exact .inl ⟨rfl, fun entry hentry => hentry⟩
  | checking | stopping | accepting | leaving | returned => exact .inl ⟨rfl, fun entry hentry => by cases hentry⟩

theorem nextLoop_admitted {entry : PeerIdentity × Request π}
    (h : (nextLoop daemon shared deadline input at_).2.2.admitted = some entry) :
    at_.admitted = some entry ∨ (shared.drainState = .draining → shouldRejectDuringDrain entry.2 = false) := by
  cases at_ with
  | gating peer request =>
    right
    intro hdraining
    simp only [nextLoop] at h
    split at h
    · cases h
    · rename_i hopen
      obtain rfl := Option.some.inj h
      cases hreject : shouldRejectDuringDrain request with
      | true => exact absurd ⟨hdraining, hreject⟩ hopen
      | false => rfl
  | entering peer request => exact .inl h
  | beginning =>
    obtain ⟨runtime, deadline', hnext⟩ := nextLoop_beginning daemon shared deadline input
    rw [hnext] at h
    cases h
  | observing | settling | reloading | ticking =>
    simp only [nextLoop] at h
    split at h <;> cases h
  | accepting =>
    rcases accept_cases daemon input.accepted with ⟨peer, stream, request, stream', -, -, haccept⟩ | haccept |
      haccept | ⟨result, haccept⟩ <;>
    · simp only [nextLoop, haccept] at h
      cases h
  | checking | stopping | dispatching | leaving | returned => cases h

end

/-! ## Whole schedules -/

/-- What the steps of the loop and the steps of the handlers keep. The invariant may look at the
moves that are still to come. -/
theorem after_loop {Inv : List (Move Signal Input) → Shared σ π → Loop π → Prop}
    (hloop : ∀ input later shared deadline at_, Inv (.run 0 input :: later) shared at_ →
      Inv later (nextLoop daemon shared deadline input at_).1 (nextLoop daemon shared deadline input at_).2.2)
    (hsignal : ∀ move later shared shared' at_, (∀ input, move ≠ .run 0 input) → Signalled shared shared' →
      Inv (move :: later) shared at_ → Inv later shared' at_)
    {moves : List (Move Signal Input)} (hhandlers : ∀ thread ∈ handlers, thread.Handles shared)
    (h : Inv moves shared at_) :
    ∃ shared' deadline' at_' handlers',
      after daemon ⟨shared, .loop deadline at_ :: handlers⟩ moves = ⟨shared', .loop deadline' at_' :: handlers'⟩ ∧
      (∀ thread ∈ handlers', thread.Handles shared') ∧ Inv [] shared' at_' := by
  induction moves generalizing shared deadline at_ handlers with
  | nil => exact ⟨shared, deadline, at_, handlers, rfl, hhandlers, h⟩
  | cons move later ih =>
    unfold after at ih ⊢
    rw [run_cons]
    rcases @step_cases _ _ daemon shared deadline at_ _ hhandlers move with
      ⟨input, rfl, hstep⟩ | ⟨hother, shared', handlers', hhandlers', hsignalled, hstep⟩
    · rw [hstep]
      refine ih (fun thread hmem => (hhandlers thread hmem).mono ?_) (hloop input later shared deadline at_ h)
      rw [nextLoop_shutdownRequested]
      exact id
    · rw [hstep]
      exact ih hhandlers' (hsignal move later shared shared' at_ hother hsignalled h)

theorem after_fresh {Inv : List (Move Signal Input) → Shared σ π → Loop π → Prop}
    (hloop : ∀ input later shared deadline at_, Inv (.run 0 input :: later) shared at_ →
      Inv later (nextLoop daemon shared deadline input at_).1 (nextLoop daemon shared deadline input at_).2.2)
    (hsignal : ∀ move later shared shared' at_, (∀ input, move ≠ .run 0 input) → Signalled shared shared' →
      Inv (move :: later) shared at_ → Inv later shared' at_)
    (runtime : Runtime σ) (external : Option Bool) {moves : List (Move Signal Input)}
    (h : Inv moves { runtime, external } .checking) :
    ∃ shared' deadline' at_' handlers',
      after daemon (fresh runtime external) moves = ⟨shared', .loop deadline' at_' :: handlers'⟩ ∧
      (∀ thread ∈ handlers', thread.Handles shared') ∧ Inv [] shared' at_' :=
  after_loop hloop hsignal (fun _ hmem => by cases hmem) h

theorem arrivals_cons (daemon : Daemon σ π) (move : Move Signal Input) (later : List (Move Signal Input)) :
    (move :: later).filterMap (arrival daemon) = (arrival daemon move).toList ++ later.filterMap (arrival daemon) := by
  rw [List.filterMap_cons]
  cases arrival daemon move <;> rfl

theorem arrival_owner {move : Move Signal Input} {entry : PeerIdentity × Request π}
    (h : arrival daemon move = some entry) : entry.1.uid = daemon.ownerUid := by
  cases move with
  | start signal => cases h
  | run index input =>
    cases index with
    | succ index => cases h
    | zero =>
      simp only [arrival, Input.request?] at h
      split at h
      · cases h
      · cases h
      · cases h
      · rename_i peer stream _
        split at h
        · rename_i request stream' hreceive
          obtain rfl := Option.some.inj h
          exact (receive_eq_request hreceive).1
        · cases h

/-- The requests that reached the runtime, the one on its way and those still to arrive, in this
order, are among the requests that all the connections carry. -/
def Arrives (daemon : Daemon σ π) (carried : List (PeerIdentity × Request π)) (later : List (Move Signal Input))
    (shared : Shared σ π) (at_ : Loop π) : Prop :=
  ((at_.pending ++ shared.dispatched).reverse ++ later.filterMap (arrival daemon)).Sublist carried

theorem arrives_loop {carried : List (PeerIdentity × Request π)} (input : Input) (later : List (Move Signal Input))
    (shared : Shared σ π) (deadline : Option Nat) (at_ : Loop π)
    (h : Arrives daemon carried (.run 0 input :: later) shared at_) :
    Arrives daemon carried later (nextLoop daemon shared deadline input at_).1
      (nextLoop daemon shared deadline input at_).2.2 := by
  refine List.Sublist.trans ?_ h
  rw [arrivals_cons, ← List.append_assoc]
  apply List.Sublist.append_right
  have hone : (input.request? daemon).toList.reverse = (arrival daemon (.run 0 input)).toList := by
    cases hrequest : input.request? daemon <;> simp [arrival, hrequest]
  have hpending := (nextLoop_pending daemon shared deadline input at_).reverse
  have hcarried : ((input.request? daemon).toList ++ (at_.pending ++ shared.dispatched)).reverse =
      (at_.pending ++ shared.dispatched).reverse ++ (arrival daemon (.run 0 input)).toList := by
    rw [List.reverse_append, hone]
  rwa [hcarried] at hpending

theorem arrives_signal {carried : List (PeerIdentity × Request π)} (move : Move Signal Input)
    (later : List (Move Signal Input)) (shared shared' : Shared σ π) (at_ : Loop π) (_ : ∀ input, move ≠ .run 0 input)
    (hsignalled : Signalled shared shared') (h : Arrives daemon carried (move :: later) shared at_) :
    Arrives daemon carried later shared' at_ := by
  refine List.Sublist.trans ?_ h
  rw [hsignalled.dispatched]
  exact ((List.sublist_cons_self move later).filterMap _).append_left _

/-- Whatever clients and signals do: the requests that reach the runtime are, in their order, requests
that connections carried, none of them twice, and all of them are the owner's. -/
theorem dispatched_arrived (daemon : Daemon σ π) (runtime : Runtime σ) (external : Option Bool)
    (moves : List (Move Signal Input)) :
    (after daemon (fresh runtime external) moves).shared.dispatched.reverse.Sublist
      (moves.filterMap (arrival daemon)) ∧
    ∀ entry ∈ (after daemon (fresh runtime external) moves).shared.dispatched, entry.1.uid = daemon.ownerUid := by
  obtain ⟨shared, deadline, at_, handlers, hafter, -, harrives⟩ :=
    @after_fresh _ _ daemon (Arrives daemon (moves.filterMap (arrival daemon))) arrives_loop
      arrives_signal runtime external moves (List.Sublist.refl _)
  rw [hafter]
  have harrived : shared.dispatched.reverse.Sublist (moves.filterMap (arrival daemon)) := by
    unfold Arrives at harrives
    rw [List.filterMap_nil, List.append_nil] at harrives
    exact (List.sublist_append_right at_.pending shared.dispatched).reverse.trans harrives
  refine ⟨harrived, ?_⟩
  intro entry hmem
  obtain ⟨move, -, hentry⟩ := List.mem_filterMap.mp (harrived.subset (List.mem_reverse.mpr hmem))
  exact arrival_owner hentry

/-! ## The shutdown -/

/-- The loop's request is counted, and a daemon that drains is ending. -/
structure Counted (shared : Shared σ π) (at_ : Loop π) : Prop where
  counted : shared.inFlight = at_.busy
  ending : shared.drainState = .draining → Ending shared at_

theorem counted_loop (input : Input) (shared : Shared σ π) (deadline : Option Nat) (at_ : Loop π)
    (h : Counted shared at_) : Counted (nextLoop daemon shared deadline input at_).1
      (nextLoop daemon shared deadline input at_).2.2 where
  counted := nextLoop_inFlight daemon shared deadline input at_ h.counted
  ending hdraining := by
    rcases nextLoop_drainState daemon shared deadline input at_ with hsame | ⟨-, hsettling⟩
    · exact nextLoop_ending daemon shared deadline input at_ (h.ending (hsame ▸ hdraining)) h.counted
    · rw [hsettling]
      exact .inr (Nat.le_refl 1)

theorem counted_signal (hsignalled : Signalled shared shared') (h : Counted shared at_) : Counted shared' at_ where
  counted := hsignalled.inFlight.trans h.counted
  ending hdraining := by
    rcases hsignalled.drainState with hsame | ⟨-, hrequested⟩
    · exact (h.ending (hsame ▸ hdraining)).imp_left hsignalled.shutdownRequested
    · exact .inl (hsignalled.shutdownRequested hrequested)

theorem after_fresh_counted (daemon : Daemon σ π) (runtime : Runtime σ) (external : Option Bool)
    (moves : List (Move Signal Input)) : ∃ shared deadline at_ handlers,
      after daemon (fresh runtime external) moves = ⟨shared, .loop deadline at_ :: handlers⟩ ∧
      (∀ thread ∈ handlers, thread.Handles shared) ∧ Counted shared at_ :=
  @after_fresh _ _ daemon (fun _ shared at_ => Counted shared at_)
    (fun input _ shared deadline at_ h => counted_loop input shared deadline at_ h)
    (fun _ _ _ _ _ _ hsignalled h => counted_signal hsignalled h) runtime external moves
    ⟨rfl, fun hdraining => by cases hdraining⟩

/-- The loop on its way out: it gets there within as many steps as are still to come, and the
requests that were admitted before are with the runtime by then. -/
structure Leaves (admitted : Option (PeerIdentity × Request π)) (later : List (Move Signal Input))
    (shared : Shared σ π) (at_ : Loop π) : Prop where
  requested : shared.shutdownRequested
  counted : shared.inFlight = at_.busy
  near : at_.rank ≤ later.countP ofLoop
  served : ∀ entry, admitted = some entry → at_.admitted = some entry ∨ entry ∈ shared.dispatched

theorem leaves_loop {admitted : Option (PeerIdentity × Request π)} (input : Input) (later : List (Move Signal Input))
    (shared : Shared σ π) (deadline : Option Nat) (at_ : Loop π)
    (h : Leaves admitted (.run 0 input :: later) shared at_) :
    Leaves admitted later (nextLoop daemon shared deadline input at_).1
      (nextLoop daemon shared deadline input at_).2.2 where
  requested := by rw [nextLoop_shutdownRequested]; exact h.requested
  counted := nextLoop_inFlight daemon shared deadline input at_ h.counted
  near := by
    have hnear := h.near
    rw [List.countP_cons_of_pos rfl] at hnear
    have hrank := nextLoop_rank daemon shared deadline input at_ (.inl h.requested) h.counted
    omega
  served entry hentry := by
    rcases nextLoop_dispatched daemon shared deadline input at_ with ⟨hsame, hadmitted⟩ | ⟨peer, request, rfl, hmore⟩
    · rw [hsame]
      exact (h.served entry hentry).imp_left (hadmitted entry)
    · right
      rw [hmore]
      rcases h.served entry hentry with hhere | hbefore
      · obtain rfl := Option.some.inj hhere
        exact List.mem_cons_self
      · exact List.mem_cons_of_mem _ hbefore

theorem leaves_signal {admitted : Option (PeerIdentity × Request π)} (move : Move Signal Input)
    (later : List (Move Signal Input)) (shared shared' : Shared σ π) (at_ : Loop π) (hother : ∀ input, move ≠ .run 0 input)
    (hsignalled : Signalled shared shared') (h : Leaves admitted (move :: later) shared at_) :
    Leaves admitted later shared' at_ where
  requested := hsignalled.shutdownRequested h.requested
  counted := hsignalled.inFlight.trans h.counted
  near := by
    have hnear := h.near
    have hnot : ¬ ofLoop move = true := by
      intro hloop
      cases move with
      | start signal => cases hloop
      | run index input =>
        cases index with
        | zero => exact hother input rfl
        | succ index => cases hloop
    rwa [List.countP_cons_of_neg hnot] at hnear
  served entry hentry := by
    rw [hsignalled.dispatched]
    exact h.served entry hentry

/-- Once a signal has requested the shutdown, the loop ends after twelve more of its own steps at the
latest, whatever clients and handlers do meanwhile. A request that was past the drain gate is
served before. -/
theorem loop_returns (daemon : Daemon σ π) (runtime : Runtime σ) (external : Option Bool)
    (moves later : List (Move Signal Input))
    (hrequested : (after daemon (fresh runtime external) moves).shared.shutdownRequested)
    (hsteps : 12 ≤ later.countP ofLoop) :
    (∃ deadline result, (after daemon (after daemon (fresh runtime external) moves) later).threads.head? =
      some (.loop deadline (.returned result))) ∧
    ∀ thread ∈ (after daemon (fresh runtime external) moves).threads, ∀ entry, thread.admitted = some entry →
      entry ∈ (after daemon (after daemon (fresh runtime external) moves) later).shared.dispatched := by
  obtain ⟨shared, deadline, at_, handlers, hafter, hhandlers, hcounted⟩ :=
    after_fresh_counted daemon runtime external moves
  rw [hafter] at hrequested ⊢
  have hrank : at_.rank ≤ 12 := by
    cases at_ <;> simp [Loop.rank]
  obtain ⟨shared', deadline', at_', handlers', hlater, hhandlers', hleaves⟩ :=
    @after_loop _ _ daemon shared deadline at_ handlers (Leaves at_.admitted) leaves_loop leaves_signal later hhandlers
      ⟨hrequested, hcounted.counted, hrank.trans hsteps, fun entry hentry => .inl hentry⟩
  rw [hlater]
  have hended : ∃ result, at_' = .returned result := by
    have hnear := hleaves.near
    rw [List.countP_nil] at hnear
    cases at_' with
    | returned result => exact ⟨result, rfl⟩
    | checking | observing | stopping | beginning | settling | reloading | accepting | gating | entering |
      dispatching | leaving | ticking => simp [Loop.rank] at hnear
  obtain ⟨result, rfl⟩ := hended
  refine ⟨⟨deadline', result, rfl⟩, ?_⟩
  intro thread hmem entry hentry
  rcases List.mem_cons.mp hmem with rfl | hhandler
  · rcases hleaves.served entry hentry with hhere | hserved
    · cases hhere
    · exact hserved
  · have hhandles := hhandlers thread hhandler
    cases thread with
    | loop => cases hhandles
    | handleTerm | handleTermDrain | handleHup | stopExternal | handled => cases hentry

/-- A daemon that knows `GetHealth`. -/
def healthDaemon : Daemon Unit Unit where
  json := healthCodec (.plain .getHealth)
  ownerUid := 501
  refreshEnabled := true
  drainTimeout := 30
  dispatch runtime _ _ := (runtime, ⟨.ok, "ok"⟩)
  quiesce := id
  reload := id
  refreshTick := id

/-- The loop waits for a connection when the signal comes. -/
def terminated : List (Move Signal Input) :=
  [.run 0 {}, .run 0 {}, .run 0 {}, .start .term, .run 1 {}, .run 1 {}]

/-- Every connection asks for the health. -/
def healthMoves : List (Move Signal Input) :=
  List.replicate 12 (.run 0
    { accepted := .connected ⟨501, 4242⟩
        { incoming := LittleEndian.digits 4 healthRequest.length ++ LittleEndian.digits 2 1 ++
            LittleEndian.digits 2 1 ++ healthRequest } })

theorem loop_returns_health :
    ∃ deadline result,
      (after healthDaemon (after healthDaemon (fresh ⟨false, ()⟩ none) terminated) healthMoves).threads.head? =
        some (.loop deadline (.returned result)) :=
  (loop_returns healthDaemon ⟨false, ()⟩ none terminated healthMoves rfl (by decide)).1

/-- The runtime since the drain began, with what it had served before. -/
structure Drains (before : List (PeerIdentity × Request π)) (admitted : Option (PeerIdentity × Request π))
    (shared : Shared σ π) (at_ : Loop π) : Prop where
  ending : Ending shared at_
  draining : shared.drainState = .draining
  counted : shared.inFlight = at_.busy
  -- From `leaving` on the loop is too near its end to accept another connection.
  served : (shared.dispatched = before ∧ ∀ entry, at_.admitted = some entry →
      shouldRejectDuringDrain entry.2 = false ∨ admitted = some entry) ∨
    ∃ entry, shared.dispatched = entry :: before ∧ at_.rank < 8 ∧
      (shouldRejectDuringDrain entry.2 = false ∨ admitted = some entry)

theorem drains_loop {before : List (PeerIdentity × Request π)} {admitted : Option (PeerIdentity × Request π)}
    (input : Input) (shared : Shared σ π) (deadline : Option Nat) (at_ : Loop π) (h : Drains before admitted shared at_) :
    Drains before admitted (nextLoop daemon shared deadline input at_).1
      (nextLoop daemon shared deadline input at_).2.2 where
  ending := nextLoop_ending daemon shared deadline input at_ h.ending h.counted
  draining := (nextLoop_drainState daemon shared deadline input at_).elim (fun hsame => hsame.trans h.draining) (·.1)
  counted := nextLoop_inFlight daemon shared deadline input at_ h.counted
  served := by
    have hrank := nextLoop_rank daemon shared deadline input at_ h.ending h.counted
    rcases nextLoop_dispatched daemon shared deadline input at_ with ⟨hsame, -⟩ | ⟨peer, request, rfl, hmore⟩
    · rw [hsame]
      rcases h.served with ⟨hnone, hgated⟩ | ⟨entry, hone, hnear, hgated⟩
      · refine .inl ⟨hnone, fun entry hentry => ?_⟩
        rcases nextLoop_admitted daemon shared deadline input at_ hentry with hhere | hopen
        · exact hgated entry hhere
        · exact .inl (hopen h.draining)
      · exact .inr ⟨entry, hone, by omega, hgated⟩
    · rcases h.served with ⟨hnone, hgated⟩ | ⟨entry, -, hnear, -⟩
      · exact .inr ⟨(peer, request), by rw [hmore, hnone], by simp [nextLoop, Loop.rank],
          hgated (peer, request) rfl⟩
      · simp [Loop.rank] at hnear

/-- Once the drain has begun, at most one more request reaches the runtime, and it is one that the
drain gate lets pass or has let pass before. -/
theorem drain_serves_one (daemon : Daemon σ π) (runtime : Runtime σ) (external : Option Bool)
    (moves later : List (Move Signal Input))
    (hdraining : (after daemon (fresh runtime external) moves).shared.drainState = .draining) :
    (after daemon (after daemon (fresh runtime external) moves) later).shared.dispatched =
      (after daemon (fresh runtime external) moves).shared.dispatched ∨
    ∃ entry, (after daemon (after daemon (fresh runtime external) moves) later).shared.dispatched =
        entry :: (after daemon (fresh runtime external) moves).shared.dispatched ∧
      (shouldRejectDuringDrain entry.2 = false ∨
        ∃ thread ∈ (after daemon (fresh runtime external) moves).threads, thread.admitted = some entry) := by
  obtain ⟨shared, deadline, at_, handlers, hafter, hhandlers, hcounted⟩ :=
    after_fresh_counted daemon runtime external moves
  rw [hafter] at hdraining ⊢
  obtain ⟨shared', deadline', at_', handlers', hlater, -, hdrains⟩ :=
    @after_loop _ _ daemon shared deadline at_ handlers (fun _ => Drains shared.dispatched at_.admitted)
      (fun input _ shared deadline at_ h => drains_loop input shared deadline at_ h)
      (fun _ _ shared shared' at_ _ hsignalled h =>
        ⟨h.ending.imp_left hsignalled.shutdownRequested,
          hsignalled.drainState.elim (fun hsame => hsame.trans h.draining) (·.1), hsignalled.inFlight.trans h.counted, by rw [hsignalled.dispatched]; exact h.served⟩)
      later hhandlers
      ⟨hcounted.ending hdraining, hdraining, hcounted.counted, .inl ⟨rfl, fun entry hentry => .inr hentry⟩⟩
  rw [hlater]
  rcases hdrains.served with ⟨hnone, -⟩ | ⟨entry, hone, -, hgated⟩
  · exact .inl hnone
  · refine .inr ⟨entry, hone, hgated.imp_right fun hhere => ?_⟩
    exact ⟨.loop deadline at_, List.mem_cons_self, hhere⟩

theorem drain_serves_one_health :
    ∃ entry, (after healthDaemon (after healthDaemon (fresh ⟨false, ()⟩ none) terminated) healthMoves).shared.dispatched =
      [entry] ∧ shouldRejectDuringDrain entry.2 = false := by
  rcases drain_serves_one healthDaemon ⟨false, ()⟩ none terminated healthMoves rfl with
    hnone | ⟨entry, hone, hgated⟩
  · exact absurd hnone (by decide)
  · refine ⟨entry, hone, hgated.elim id ?_⟩
    rintro ⟨thread, hmem, hadmitted⟩
    have hfree : ∀ thread ∈ (after healthDaemon (fresh ⟨false, ()⟩ none) terminated).threads, thread.admitted = none := by
      decide
    rw [hfree thread hmem] at hadmitted
    cases hadmitted

end Pcloud.ServeLoop
