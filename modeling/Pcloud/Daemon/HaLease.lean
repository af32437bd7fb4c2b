import Pcloud.Ipc.Protocol
import Pcloud.Lib.Threads

/-!
# The lease of the primary (`pcloud-daemon/src/ha_lease.rs`)

Daemons with one state directory run side by side, and the one that holds the lock of the lease
file is the primary. Each call of the system is a step of its own. A daemon may die before any of
them, and any of them may fail.
-/

namespace Pcloud.HaLease

open Runs Threads
open Ipc (Request Response)

/-! ## The lease file -/

def HEARTBEAT_INTERVAL_MS : Nat := 30000

def TICK_MS : Nat := 200

structure LeaseOwner where
  hostname : String
  pid : UInt32
  startTsUnix : Nat
  instanceId : String
  lastHeartbeatUnix : Nat
deriving DecidableEq, Repr

structure Json where
  toVecPretty : LeaseOwner → Bytes
  fromStr : Bytes → Option LeaseOwner

/-- An object ends at its brace: what comes behind it is white space or an error. -/
structure Json.Lawful (json : Json) : Prop where
  read : ∀ owner, json.fromStr (json.toVecPretty owner) = some owner
  behind : ∀ owner rest, json.fromStr (json.toVecPretty owner ++ rest) = none ∨
    json.fromStr (json.toVecPretty owner ++ rest) = some owner

/-- Who the owner is, whatever its last heartbeat. -/
def LeaseOwner.Same (owner owner' : LeaseOwner) : Prop :=
  owner.hostname = owner'.hostname ∧ owner.pid = owner'.pid ∧ owner.startTsUnix = owner'.startTsUnix ∧
    owner.instanceId = owner'.instanceId

/-- An empty file and one that does not parse tell nothing. -/
def readLeaseMetadata (json : Json) (file : Option Bytes) : Option LeaseOwner := file.bind json.fromStr

/-- Bytes written from the start of the file on. -/
def overwrite (bytes : Bytes) (file : Option Bytes) : Option Bytes := some (bytes ++ (file.getD []).drop bytes.length)

def setLen (len : Nat) (file : Option Bytes) : Option Bytes := some ((file.getD []).take len)

/-! ## A daemon -/

inductive HaContendedMode
  | refuse
  | passive
deriving DecidableEq, Repr

/-- Where a daemon is in `bootstrap_with_config`, `try_promote` and the drop of its holder. A number
is the open file the daemon works on. -/
inductive Main
  | opening
  | locking (file : Nat)
  | starting (file : Nat)
  | writing (file : Nat)
  | resizing (file : Nat)
  | spawning (file : Nat)
  | dropping (file : Nat)
  | reading
  | primary (file : Nat)
  | passive
  | joining (file : Nat)
  | unlocking (file : Nat)
  | ended
deriving DecidableEq, Repr

/-- Where `heartbeat_loop` is. -/
inductive Worker
  | sleeping (remaining : Nat)
  | firing
  | writing (owner : LeaseOwner)
  | resizing (owner : LeaseOwner)
  | updating (owner : LeaseOwner)
  | exited
deriving DecidableEq, Repr

/-- `owner` is the metadata that both threads share. -/
structure Daemon where
  owner : LeaseOwner
  mode : HaContendedMode
  up : Bool := false
  main : Main := .opening
  worker : Worker := .exited
  stop : Bool := false
deriving DecidableEq, Repr

structure Task where
  hostname : String
  pid : UInt32
  instanceId : String
  mode : HaContendedMode

/-- The lease file, the open file that holds its lock, and how many were opened. -/
structure Shared where
  file : Option Bytes := none
  lock : Option Nat := none
  opened : Nat := 0
deriving DecidableEq, Repr

inductive Part
  | main
  | worker
  | die
deriving DecidableEq

/-- What the rest of the daemon asks for. -/
inductive Call
  | serve
  | promote
  | leave
deriving DecidableEq

/-- A write or a resize that fails has `cut`, and a write is then cut off there. -/
structure Input where
  part : Part := .main
  call : Call := .serve
  now : Nat := 0
  nowAgain : Nat := 0
  refused : Bool := false
  cut : Option Nat := none

namespace Shared

variable (shared : Shared)

/-- The kernel drops the lock with the open file that holds it. -/
def close (file : Nat) : Shared := if shared.lock = some file then { shared with lock := none } else shared

end Shared

namespace Daemon

variable (json : Json) (shared : Shared) (daemon : Daemon) (input : Input)

/-- An error ends the start of a daemon, and leaves a passive one as it is. -/
def gaveUp : Main := if daemon.up then .passive else .ended

def at_ (main : Main) : Daemon := { daemon with main }

def file? : Option Nat :=
  match daemon.main with
  | .locking file | .starting file | .writing file | .resizing file | .spawning file | .dropping file |
    .primary file | .joining file | .unlocking file => some file
  | .opening | .reading | .passive | .ended => none

def nextMain : Shared × Daemon :=
  match daemon.main with
  | .opening =>
    if input.refused then (shared, daemon.at_ daemon.gaveUp)
    else ({ shared with file := some (shared.file.getD []), opened := shared.opened + 1 },
      daemon.at_ (.locking shared.opened))
  | .locking file =>
    if shared.lock = none ∧ input.refused = false then
      ({ shared with lock := some file }, daemon.at_ (.starting file))
    else (shared.close file, daemon.at_ .reading)
  | .starting file =>
    (shared, { daemon with
      owner := { daemon.owner with startTsUnix := input.now, lastHeartbeatUnix := input.nowAgain }
      main := .writing file })
  | .writing file =>
    match input.cut with
    | none =>
      ({ shared with file := overwrite (json.toVecPretty daemon.owner) shared.file }, daemon.at_ (.resizing file))
    | some n => ({ shared with file := overwrite ((json.toVecPretty daemon.owner).take n) shared.file },
        daemon.at_ (.dropping file))
  | .resizing file =>
    match input.cut with
    | none => ({ shared with file := setLen (json.toVecPretty daemon.owner).length shared.file },
        daemon.at_ (.spawning file))
    | some _ => (shared, daemon.at_ (.dropping file))
  | .spawning file =>
    if input.refused then (shared, daemon.at_ (.dropping file))
    else (shared, { daemon with
      up := true
      main := .primary file
      worker := .sleeping HEARTBEAT_INTERVAL_MS
      stop := false })
  | .dropping file => (shared.close file, daemon.at_ daemon.gaveUp)
  | .reading =>
    match daemon.up, daemon.mode with
    | true, _ | false, .passive => (shared, { daemon with up := true, main := .passive })
    | false, .refuse => (shared, daemon.at_ .ended)
  | .primary file =>
    match input.call with
    | .leave => (shared, { daemon with stop := true, main := .joining file })
    | .serve | .promote => (shared, daemon)
  | .passive =>
    match input.call with
    | .leave => (shared, daemon.at_ .ended)
    | .promote => (shared, daemon.at_ .opening)
    | .serve => (shared, daemon)
  | .joining file =>
    match daemon.worker with
    | .exited => (shared, daemon.at_ (.unlocking file))
    | .sleeping _ | .firing | .writing _ | .resizing _ | .updating _ => (shared, daemon)
  | .unlocking file => (shared.close file, daemon.at_ .ended)
  | .ended => (shared, daemon)

def nextWorker : Shared × Daemon :=
  match daemon.worker with
  | .sleeping remaining =>
    if daemon.stop then (shared, { daemon with worker := .exited })
    else
      let remaining := remaining - min TICK_MS remaining
      (shared, { daemon with worker := if remaining = 0 then .firing else .sleeping remaining })
  | .firing => (shared, { daemon with worker := .writing { daemon.owner with lastHeartbeatUnix := input.now } })
  | .writing owner =>
    match input.cut with
    | none => ({ shared with file := overwrite (json.toVecPretty owner) shared.file },
        { daemon with worker := .resizing owner })
    | some n => ({ shared with file := overwrite ((json.toVecPretty owner).take n) shared.file },
        { daemon with worker := .sleeping HEARTBEAT_INTERVAL_MS })
  | .resizing owner =>
    match input.cut with
    | none => ({ shared with file := setLen (json.toVecPretty owner).length shared.file },
        { daemon with worker := .updating owner })
    | some _ => (shared, { daemon with worker := .sleeping HEARTBEAT_INTERVAL_MS })
  | .updating owner => (shared, { daemon with owner, worker := .sleeping HEARTBEAT_INTERVAL_MS })
  | .exited => (shared, daemon)

/-- The kernel closes the files of a process that dies. -/
def die : Shared × Daemon :=
  (match daemon.file? with
    | none => shared
    | some file => shared.close file,
    { daemon with main := .ended, worker := .exited })

def next : Shared × Daemon :=
  match input.part with
  | .main => daemon.nextMain json shared input
  | .worker => daemon.nextWorker json shared input
  | .die => daemon.die shared

end Daemon

def enter (task : Task) : Daemon where
  owner := ⟨task.hostname, task.pid, 0, task.instanceId, 0⟩
  mode := task.mode

def host (json : Json) : Program Shared Daemon Task Input :=
  ⟨enter, fun shared daemon input => daemon.next json shared input⟩

/-! ## Requests to a passive daemon -/

structure HaStatusPayload where
  leaseOwner : Option LeaseOwner
  leaseAgeS : Option Nat

def fromPassive (json : Json) (file : Option Bytes) (now : Nat) : HaStatusPayload where
  leaseOwner := readLeaseMetadata json file
  leaseAgeS := (readLeaseMetadata json file).map fun owner => now - owner.lastHeartbeatUnix

def passiveRejectionMessage (payload : HaStatusPayload) : String :=
  match payload.leaseOwner with
  | some o =>
    s!"this daemon is passive; primary is {o.hostname}/pid={o.pid} (age={payload.leaseAgeS.getD 0}s, " ++
      s!"instance={o.instanceId})"
  | none => "this daemon is passive; primary metadata is currently unavailable"

def passiveAllows {π : Type} : Request π → Bool
  | .plain .haStatus | .plain .getHealth | .plain .health | .plain .shutdown => true
  | .plain .drainStatus | .plain (.other _) | .carrying _ => false

/-- The start of `handle_request_dispatch`: the answer of a passive daemon, where it has one. -/
def passiveGate {π : Type} (json : Json) (file : Option Bytes) (main : Main) (now : Nat) (request : Request π) :
    Option Response :=
  match main with
  | .passive =>
    if passiveAllows request then none
    else some ⟨.unavailable, passiveRejectionMessage (fromPassive json file now)⟩
  | .opening | .locking _ | .starting _ | .writing _ | .resizing _ | .spawning _ | .dropping _ | .reading |
    .primary _ | .joining _ | .unlocking _ | .ended => none

/-! ## What a step does -/

namespace Daemon

/-- The kernel lets the daemon have the lock. -/
def holds (daemon : Daemon) : Bool :=
  match daemon.main with
  | .starting _ | .writing _ | .resizing _ | .spawning _ | .dropping _ | .primary _ | .joining _ | .unlocking _ => true
  | .opening | .locking _ | .reading | .passive | .ended => false

/-- The heartbeat lives between its spawn and its join. -/
def Joined (daemon : Daemon) : Prop :=
  daemon.worker = .exited ∨ ∃ file, daemon.main = .primary file ∨ daemon.main = .joining file

end Daemon

variable {json : Json} {shared : Shared} {daemon : Daemon} {input : Input}

theorem lock_close (shared : Shared) (file : Nat) :
    (shared.close file).lock = if shared.lock = some file then none else shared.lock := by
  unfold Shared.close
  split <;> rfl

theorem file_close (shared : Shared) (file : Nat) : (shared.close file).file = shared.file := by
  unfold Shared.close
  split <;> rfl

theorem opened_close (shared : Shared) (file : Nat) : (shared.close file).opened = shared.opened := by
  unfold Shared.close
  split <;> rfl

theorem exists_file_of_holds (h : daemon.holds = true) : ∃ file, daemon.file? = some file := by
  unfold Daemon.holds at h
  unfold Daemon.file?
  split at h <;> simp_all

theorem Joined.holds (h : daemon.Joined) (hworker : daemon.worker ≠ .exited) : daemon.holds = true := by
  rcases h with hexited | ⟨file, hmain | hmain⟩
  · exact absurd hexited hworker
  · simp [Daemon.holds, hmain]
  · simp [Daemon.holds, hmain]

/-- All that a step does to the lock. -/
inductive LockStep (shared : Shared) (daemon : Daemon) (shared' : Shared) (daemon' : Daemon) : Prop
  | keeps (hlock : shared'.lock = shared.lock) (hopened : shared'.opened = shared.opened)
      (hfile : daemon'.file? = daemon.file?) (hholds : daemon'.holds = daemon.holds)
  | opens (hlock : shared'.lock = shared.lock) (hopened : shared'.opened = shared.opened + 1)
      (hnone : daemon.file? = none) (hfile : daemon'.file? = some shared.opened) (hholds : daemon'.holds = false)
  | locks (file : Nat) (hfree : shared.lock = none) (hlock : shared'.lock = some file)
      (hopened : shared'.opened = shared.opened) (hhere : daemon.file? = some file)
      (hfile : daemon'.file? = some file) (hholds : daemon'.holds = true)
  | closes (file : Nat) (hlock : shared'.lock = (shared.close file).lock) (hopened : shared'.opened = shared.opened)
      (hhere : daemon.file? = some file) (hfile : daemon'.file? = none) (hholds : daemon'.holds = false)

theorem file?_gaveUp (daemon : Daemon) : (daemon.at_ daemon.gaveUp).file? = none := by
  unfold Daemon.at_ Daemon.gaveUp
  cases daemon.up <;> rfl

theorem holds_gaveUp (daemon : Daemon) : (daemon.at_ daemon.gaveUp).holds = false := by
  unfold Daemon.at_ Daemon.gaveUp
  cases daemon.up <;> rfl

theorem nextMain_lockStep : LockStep shared daemon (daemon.nextMain json shared input).1
    (daemon.nextMain json shared input).2 := by
  have hfile := @Daemon.file?.eq_def daemon
  have hholds := @Daemon.holds.eq_def daemon
  cases hmain : daemon.main with
  | opening =>
    simp only [hmain] at hfile hholds
    simp only [Daemon.nextMain, hmain]
    split
    · exact .keeps rfl rfl ((file?_gaveUp daemon).trans hfile.symm) ((holds_gaveUp daemon).trans hholds.symm)
    · exact .opens rfl rfl hfile rfl rfl
  | locking file =>
    simp only [hmain] at hfile
    simp only [Daemon.nextMain, hmain]
    split
    · rename_i hfree
      exact .locks file hfree.1 rfl rfl hfile rfl rfl
    · exact .closes file rfl (opened_close shared file) hfile rfl rfl
  | starting file | spawning file | primary file =>
    simp only [hmain] at hfile hholds
    simp only [Daemon.nextMain, hmain]
    first
      | exact .keeps rfl rfl hfile.symm hholds.symm
      | (split <;> first | exact .keeps rfl rfl hfile.symm hholds.symm | exact .keeps rfl rfl rfl rfl)
  | writing file | resizing file =>
    simp only [hmain] at hfile hholds
    simp only [Daemon.nextMain, hmain]
    split <;> exact .keeps rfl rfl hfile.symm hholds.symm
  | dropping file =>
    simp only [hmain] at hfile
    simp only [Daemon.nextMain, hmain]
    exact .closes file rfl (opened_close shared file) hfile (file?_gaveUp daemon) (holds_gaveUp daemon)
  | unlocking file =>
    simp only [hmain] at hfile
    simp only [Daemon.nextMain, hmain]
    exact .closes file rfl (opened_close shared file) hfile rfl rfl
  | reading =>
    simp only [hmain] at hfile hholds
    simp only [Daemon.nextMain, hmain]
    split <;> exact .keeps rfl rfl hfile.symm hholds.symm
  | passive =>
    simp only [hmain] at hfile hholds
    simp only [Daemon.nextMain, hmain]
    split <;> first | exact .keeps rfl rfl hfile.symm hholds.symm | exact .keeps rfl rfl rfl rfl
  | joining file =>
    simp only [hmain] at hfile hholds
    simp only [Daemon.nextMain, hmain]
    split <;> first | exact .keeps rfl rfl hfile.symm hholds.symm | exact .keeps rfl rfl rfl rfl
  | ended =>
    simp only [Daemon.nextMain, hmain]
    exact .keeps rfl rfl rfl rfl

theorem nextWorker_frame : (daemon.nextWorker json shared input).1.lock = shared.lock ∧
    (daemon.nextWorker json shared input).1.opened = shared.opened ∧
    (daemon.nextWorker json shared input).2.main = daemon.main := by
  cases hworker : daemon.worker with
  | sleeping remaining =>
    simp only [Daemon.nextWorker, hworker]
    split <;> exact ⟨rfl, rfl, rfl⟩
  | writing owner | resizing owner =>
    simp only [Daemon.nextWorker, hworker]
    split <;> exact ⟨rfl, rfl, rfl⟩
  | firing | updating owner | exited => simp [Daemon.nextWorker, hworker]

theorem file?_of_main {daemon' : Daemon} (h : daemon'.main = daemon.main) : daemon'.file? = daemon.file? := by
  unfold Daemon.file?
  rw [h]

theorem holds_of_main {daemon' : Daemon} (h : daemon'.main = daemon.main) : daemon'.holds = daemon.holds := by
  unfold Daemon.holds
  rw [h]

theorem next_lockStep : LockStep shared daemon (daemon.next json shared input).1 (daemon.next json shared input).2 := by
  unfold Daemon.next
  cases input.part with
  | main => exact nextMain_lockStep
  | worker =>
    obtain ⟨hlock, hopened, hmain⟩ := @nextWorker_frame json shared daemon input
    exact .keeps hlock hopened (file?_of_main hmain) (holds_of_main hmain)
  | die =>
    simp only [Daemon.die]
    cases hfile : daemon.file? with
    | none =>
      have hholds : daemon.holds = false := by
        cases hheld : daemon.holds with
        | false => rfl
        | true =>
          obtain ⟨file, hsome⟩ := exists_file_of_holds hheld
          rw [hfile] at hsome
          cases hsome
      exact .keeps rfl rfl hfile.symm hholds.symm
    | some file => exact .closes file rfl (opened_close shared file) hfile rfl rfl

theorem joined_next (h : daemon.Joined) : (daemon.next json shared input).2.Joined := by
  unfold Daemon.next
  cases input.part with
  | die => exact .inl rfl
  | worker =>
    obtain ⟨-, -, hmain⟩ := @nextWorker_frame json shared daemon input
    rcases h with hexited | hlives
    · refine .inl ?_
      simp only [Daemon.nextWorker, hexited]
    · exact .inr (hlives.imp fun file => Or.imp hmain.trans hmain.trans)
  | main =>
    rcases h with hexited | ⟨file, hmain | hmain⟩
    · cases hmain : daemon.main with
      | spawning file =>
        simp only [Daemon.nextMain, hmain]
        split
        · exact .inl hexited
        · exact .inr ⟨file, .inl rfl⟩
      | opening | locking | writing | resizing | reading | primary | passive | joining =>
        simp only [Daemon.nextMain, hmain]
        split <;> exact .inl hexited
      | starting | dropping | unlocking | ended =>
        simp only [Daemon.nextMain, hmain]
        exact .inl hexited
    · simp only [Daemon.nextMain, hmain]
      split
      · exact .inr ⟨file, .inr rfl⟩
      · exact .inr ⟨file, .inl hmain⟩
      · exact .inr ⟨file, .inl hmain⟩
    · simp only [Daemon.nextMain, hmain]
      split
      · rename_i hexited
        exact .inl hexited
      all_goals exact .inr ⟨file, .inr hmain⟩

/-- Past its creation, nobody changes the file without the lock. -/
theorem next_file (h : daemon.Joined) (hholds : daemon.holds = false) :
    (daemon.next json shared input).1.file = shared.file ∨ shared.file = none := by
  unfold Daemon.next
  cases input.part with
  | die =>
    simp only [Daemon.die]
    split
    · exact .inl rfl
    · exact .inl (file_close _ _)
  | worker =>
    have hexited : daemon.worker = .exited := by
      by_contra hlives
      rw [Joined.holds h hlives] at hholds
      cases hholds
    refine .inl ?_
    simp only [Daemon.nextWorker, hexited]
  | main =>
    have hheld := @Daemon.holds.eq_def daemon
    rw [hholds] at hheld
    cases hmain : daemon.main with
    | opening =>
      simp only [Daemon.nextMain, hmain]
      split
      · exact .inl rfl
      · cases hfile : shared.file with
        | none => exact .inr rfl
        | some bytes => exact .inl rfl
    | locking file =>
      simp only [Daemon.nextMain, hmain]
      split
      · exact .inl rfl
      · exact .inl (file_close _ _)
    | reading | passive =>
      simp only [Daemon.nextMain, hmain]
      split <;> exact .inl rfl
    | ended =>
      refine .inl ?_
      simp only [Daemon.nextMain, hmain]
    | starting | writing | resizing | spawning | dropping | primary | joining | unlocking =>
      simp [hmain] at hheld

/-! ## One holder at a time -/

def opens (file : Nat) (daemon : Daemon) : Nat := if daemon.file? = some file then 1 else 0

/-- Each daemon works on an open file of its own, and the lock is with the one of the daemon that
holds it. -/
structure Exclusive (system : System Shared Daemon) : Prop where
  below : ∀ daemon ∈ system.threads, ∀ file, daemon.file? = some file → file < system.shared.opened
  single : ∀ file, tally (opens file) system.threads ≤ 1
  locked : ∀ daemon ∈ system.threads, ∀ file, daemon.file? = some file →
    (daemon.holds = true ↔ system.shared.lock = some file)
  owned : ∀ file, system.shared.lock = some file → ∃ daemon ∈ system.threads, daemon.file? = some file
  joined : ∀ daemon ∈ system.threads, daemon.Joined

namespace Exclusive

variable {before after : List Daemon} {other : Daemon} {file : Nat}

theorem apart (h : Exclusive ⟨shared, before ++ daemon :: after⟩) (hmem : other ∈ before ++ after)
    (hother : other.file? = some file) : daemon.file? ≠ some file := by
  intro hhere
  have hle := (le_tally_rest (opens file) daemon hmem).trans (h.single file)
  simp [opens, hother, hhere] at hle

theorem moved {shared' : Shared} {daemon' : Daemon} (h : Exclusive ⟨shared, before ++ daemon :: after⟩)
    (hopened : shared.opened ≤ shared'.opened)
    (hfile : ∀ file, daemon'.file? = some file → daemon.file? = some file ∨ file = shared.opened ∧ file < shared'.opened)
    (hlocked : ∀ file, daemon'.file? = some file → (daemon'.holds = true ↔ shared'.lock = some file))
    (hothers : ∀ file, daemon.file? ≠ some file → file < shared.opened →
      (shared'.lock = some file ↔ shared.lock = some file))
    (howned : ∀ file, shared'.lock = some file → daemon'.file? = some file ∨
      shared.lock = some file ∧ daemon.file? ≠ some file)
    (hjoined : daemon'.Joined) : Exclusive ⟨shared', before ++ daemon' :: after⟩ where
  below := forall_mem_moved h.below
    (fun hbelow file hhere => by
      rcases hfile file hhere with hsame | ⟨-, hnew⟩
      · exact (hbelow file hsame).trans_le hopened
      · exact hnew)
    (fun other _ hbelow file hhere => (hbelow file hhere).trans_le hopened)
  single file := by
    have hsingle := h.single file
    rw [tally_append, tally_cons] at hsingle ⊢
    by_cases hhere : daemon'.file? = some file
    · rcases hfile file hhere with hsame | ⟨rfl, -⟩
      · simpa [opens, hhere, hsame] using hsingle
      · have hnone : tally (opens shared.opened) (before ++ after) = 0 := by
          apply tally_eq_zero
          intro other hmem
          have hother : other ∈ before ++ daemon :: after := by
            rcases List.mem_append.mp hmem with hbefore | hafter
            · exact List.mem_append_left _ hbefore
            · exact List.mem_append_right _ (List.mem_cons_of_mem _ hafter)
          refine if_neg fun hopen => ?_
          exact Nat.lt_irrefl _ (h.below other hother shared.opened hopen)
        rw [tally_append] at hnone
        have hone : opens shared.opened daemon' = 1 := if_pos hhere
        omega
    · have hzero : opens file daemon' = 0 := if_neg hhere
      omega
  locked := forall_mem_moved (fun _ hmem => hmem) (fun _ => hlocked) (fun other hmem hold file hhere => by
    rw [h.locked other hold file hhere, hothers file (h.apart hmem hhere) (h.below other hold file hhere)])
  owned file hlock := by
    rcases howned file hlock with hhere | ⟨hheld, hnot⟩
    · exact ⟨daemon', by simp, hhere⟩
    · obtain ⟨other, hmem, hother⟩ := h.owned file hheld
      rcases List.mem_append.mp hmem with hbefore | htail
      · exact ⟨other, List.mem_append_left _ hbefore, hother⟩
      · rcases List.mem_cons.mp htail with rfl | hafter
        · exact absurd hother hnot
        · exact ⟨other, List.mem_append_right _ (List.mem_cons_of_mem _ hafter), hother⟩
  joined := forall_mem_moved h.joined (fun _ => hjoined) (fun _ _ hold => hold)

theorem run (h : Exclusive ⟨shared, before ++ daemon :: after⟩) (input : Input) :
    Exclusive ⟨(daemon.next json shared input).1, before ++ (daemon.next json shared input).2 :: after⟩ := by
  have hmem : daemon ∈ before ++ daemon :: after := by simp
  have hjoined := @joined_next json shared daemon input (h.joined daemon hmem)
  cases @next_lockStep json shared daemon input with
  | keeps hlock hopened hfile hholds =>
    refine h.moved hopened.ge ?_ ?_ ?_ ?_ hjoined
    · intro file hhere
      exact .inl (hfile ▸ hhere)
    · intro file hhere
      rw [hholds, hlock]
      exact h.locked daemon hmem file (hfile ▸ hhere)
    · intro file _ _
      rw [hlock]
    · intro file hheld
      rw [hfile]
      by_cases hhere : daemon.file? = some file
      · exact .inl hhere
      · exact .inr ⟨hlock ▸ hheld, hhere⟩
  | opens hlock hopened hnone hfile hholds =>
    have hfresh : shared.lock ≠ some shared.opened := by
      intro hheld
      obtain ⟨other, hother, hopen⟩ := h.owned _ hheld
      exact Nat.lt_irrefl _ (h.below other hother _ hopen)
    refine h.moved (by omega) ?_ ?_ ?_ ?_ hjoined
    · intro file hhere
      rw [hfile] at hhere
      obtain rfl := Option.some.inj hhere
      exact .inr ⟨rfl, by omega⟩
    · intro file hhere
      rw [hfile] at hhere
      obtain rfl := Option.some.inj hhere
      rw [hholds, hlock]
      simp [hfresh]
    · intro file _ _
      rw [hlock]
    · intro file hheld
      refine .inr ⟨hlock ▸ hheld, ?_⟩
      rw [hnone]
      exact Option.some_ne_none file |>.symm
  | locks mine hfree hlock hopened hhere hfile hholds =>
    refine h.moved hopened.ge ?_ ?_ ?_ ?_ hjoined
    · intro file hopen
      exact .inl (hhere.trans (hfile.symm.trans hopen))
    · intro file hopen
      rw [hholds, hlock, ← hopen, hfile]
      simp
    · intro file hother _
      rw [hlock, hfree]
      constructor
      · intro hsame
        exact absurd (hhere.trans hsame) hother
      · intro hnone
        cases hnone
    · intro file hheld
      exact .inl (hfile.trans (hlock.symm.trans hheld))
  | closes mine hlock hopened hhere hfile hholds =>
    have hothers : ∀ file, daemon.file? ≠ some file →
        ((daemon.next json shared input).1.lock = some file ↔ shared.lock = some file) := by
      intro file hother
      rw [hlock, lock_close]
      split
      · rename_i hmine
        rw [hmine, ← hhere]
        constructor
        · intro hnone
          cases hnone
        · intro hsame
          exact absurd hsame hother
      · rfl
    refine h.moved hopened.ge ?_ ?_ (fun file hother _ => hothers file hother) ?_ hjoined
    · intro file hopen
      rw [hfile] at hopen
      cases hopen
    · intro file hopen
      rw [hfile] at hopen
      cases hopen
    · intro file hheld
      refine .inr ?_
      by_cases hsame : daemon.file? = some file
      · exfalso
        rw [hhere] at hsame
        obtain rfl := Option.some.inj hsame
        rw [hlock, lock_close] at hheld
        split at hheld
        · cases hheld
        · rename_i hnot
          exact hnot hheld
      · exact ⟨(hothers file hsame).mp hheld, hsame⟩

theorem start (h : Exclusive ⟨shared, before⟩) (task : Task) : Exclusive ⟨shared, before ++ [enter task]⟩ where
  below d hmem file hopen := by
    rcases List.mem_append.mp hmem with hold | hnew
    · exact h.below d hold file hopen
    · obtain rfl := List.mem_singleton.mp hnew
      cases hopen
  single file := by
    have hsingle := h.single file
    rw [tally_append, tally_cons, tally_nil]
    have hzero : opens file (enter task) = 0 := rfl
    simp only at hsingle
    omega
  locked d hmem file hopen := by
    rcases List.mem_append.mp hmem with hold | hnew
    · exact h.locked d hold file hopen
    · obtain rfl := List.mem_singleton.mp hnew
      cases hopen
  owned file hheld := by
    obtain ⟨other, hmem, hother⟩ := h.owned file hheld
    exact ⟨other, List.mem_append_left _ hmem, hother⟩
  joined d hmem := by
    rcases List.mem_append.mp hmem with hold | hnew
    · exact h.joined d hold
    · obtain rfl := List.mem_singleton.mp hnew
      exact .inl rfl

theorem step {system : System Shared Daemon} (h : Exclusive system) (move : Move Task Input) :
    Exclusive (System.step (host json) system move) := by
  cases move with
  | start task => exact h.start task
  | run index input =>
    rcases @System.step_run_cases _ _ _ _ (host json) system index input with
      hsame | ⟨before, daemon, after, hthreads, -, hstep⟩
    · rw [hsame]
      exact h
    · rw [hstep]
      obtain ⟨shared, threads⟩ := system
      subst hthreads
      exact h.run input

theorem holder_lock {system : System Shared Daemon} (h : Exclusive system) (hmem : daemon ∈ system.threads)
    (hholds : daemon.holds = true) : ∃ file, daemon.file? = some file ∧ system.shared.lock = some file := by
  obtain ⟨file, hfile⟩ := exists_file_of_holds hholds
  exact ⟨file, hfile, (h.locked daemon hmem file hfile).mp hholds⟩

theorem countP_holds_le {system : System Shared Daemon} (h : Exclusive system) :
    system.threads.countP Daemon.holds ≤ 1 := by
  cases hlock : system.shared.lock with
  | none =>
    rw [List.countP_eq_zero.mpr]
    · exact Nat.zero_le 1
    · intro daemon hmem hholds
      obtain ⟨file, -, hheld⟩ := h.holder_lock hmem hholds
      rw [hlock] at hheld
      cases hheld
  | some file =>
    refine (countP_le_tally fun daemon hmem hholds => ?_).trans (h.single file)
    obtain ⟨file', hfile, hheld⟩ := h.holder_lock hmem hholds
    rw [hlock] at hheld
    obtain rfl := Option.some.inj hheld
    exact (if_pos hfile).ge

end Exclusive

/-- A state directory in which no daemon runs. The lease file may be there from earlier days. -/
def stateDir (file : Option Bytes) : System Shared Daemon := ⟨{ file }, []⟩

theorem exclusive_stateDir (file : Option Bytes) : Exclusive (stateDir file) where
  below _ hmem := by cases hmem
  single _ := Nat.zero_le 1
  locked _ hmem := by cases hmem
  owned _ hheld := by cases hheld
  joined _ hmem := by cases hmem

/-- The move leaves the lease file alone or creates it, or it is the move of the daemon that has the
lock. -/
def Fenced (json : Json) (system : System Shared Daemon) (move : Move Task Input) : Prop :=
  (System.step (host json) system move).shared.file = system.shared.file ∨ system.shared.file = none ∨
  ∃ index input daemon file, move = .run index input ∧ system.threads[index]? = some daemon ∧
    daemon.file? = some file ∧ system.shared.lock = some file

theorem fenced {system : System Shared Daemon} (h : Exclusive system) (move : Move Task Input) :
    Fenced json system move := by
  cases move with
  | start task => exact .inl rfl
  | run index input =>
    rcases @System.step_run_cases _ _ _ _ (host json) system index input with
      hsame | ⟨before, daemon, after, hthreads, hindex, hstep⟩
    · exact .inl (congrArg (fun system => system.shared.file) hsame)
    · have hmem : daemon ∈ system.threads := by simp [hthreads]
      cases hholds : daemon.holds with
      | false =>
        rcases @next_file json system.shared daemon input (h.joined daemon hmem) hholds with hsame | hnone
        · exact .inl ((congrArg (fun system => system.shared.file) hstep).trans hsame)
        · exact .inr (.inl hnone)
      | true =>
        obtain ⟨file, hfile, hlock⟩ := h.holder_lock hmem hholds
        exact .inr (.inr ⟨index, input, daemon, file, rfl, by simp [hthreads, ← hindex], hfile, hlock⟩)

/-- However daemons start, beat, promote themselves, leave and die, at most one of them holds the
lease at a time, and past its creation the file is only changed by the one that holds it. -/
theorem one_holder (json : Json) (file : Option Bytes) (moves : List (Move Task Input)) :
    AllStates (System.step (host json)) (fun system => system.threads.countP Daemon.holds ≤ 1) (stateDir file) moves ∧
    AllSteps (System.step (host json)) (Fenced json) (stateDir file) moves := by
  constructor
  · exact allStates_of_invariant (exclusive_stateDir file) (fun _ move h => h.step move) (fun _ h => h.countP_holds_le)
  · exact @allSteps_of_invariant _ _ _ _ _ _ _ (fun _ => True) (fun _ _ => trivial) (exclusive_stateDir file)
      (fun _ move _ h => ⟨fenced h move, h.step move⟩)

/-! ## What the file shows -/

namespace Daemon

/-- The metadata that the daemon last wrote. -/
def text (daemon : Daemon) : LeaseOwner :=
  match daemon.worker with
  | .resizing owner | .updating owner => owner
  | .sleeping _ | .firing | .writing _ | .exited => daemon.owner

def written (daemon : Daemon) : Bool :=
  match daemon.main with
  | .resizing _ | .spawning _ | .primary _ | .joining _ | .unlocking _ => true
  | .opening | .locking _ | .starting _ | .writing _ | .dropping _ | .reading | .passive | .ended => false

/-- Between a write and the resize that follows it. -/
def Rewriting (daemon : Daemon) : Prop :=
  (∃ file, daemon.main = .resizing file) ∨ ∃ owner, daemon.worker = .resizing owner

end Daemon

/-- The file has what its daemon wrote, and until the resize what was there behind it. -/
def Shows (json : Json) (file : Option Bytes) (daemon : Daemon) : Prop :=
  ∃ rest, file = some (json.toVecPretty daemon.text ++ rest) ∧ (rest = [] ∨ daemon.Rewriting)

structure Named (json : Json) (file : Option Bytes) (daemon : Daemon) : Prop where
  same : ∀ owner, daemon.worker = .writing owner ∨ daemon.worker = .resizing owner ∨ daemon.worker = .updating owner →
    owner.Same daemon.owner
  shows : daemon.written = true → Shows json file daemon

theorem LeaseOwner.Same.refl (owner : LeaseOwner) : owner.Same owner := ⟨rfl, rfl, rfl, rfl⟩

theorem Named.text_same {file : Option Bytes} (h : Named json file daemon) : daemon.text.Same daemon.owner := by
  unfold Daemon.text
  split
  · rename_i owner hworker
    exact h.same owner (.inr (.inl hworker))
  · rename_i owner hworker
    exact h.same owner (.inr (.inr hworker))
  all_goals exact LeaseOwner.Same.refl _

theorem text_of_exited (h : daemon.worker = .exited) : daemon.text = daemon.owner := by
  unfold Daemon.text
  rw [h]

theorem setLen_shows (text rest : Bytes) : setLen text.length (some (text ++ rest)) = some text := by
  simp [setLen]

theorem Daemon.Joined.exited (h : daemon.Joined)
    (hmain : ∀ file, daemon.main ≠ .primary file ∧ daemon.main ≠ .joining file) :
    daemon.worker = .exited := by
  rcases h with hexited | ⟨file, hprimary | hjoining⟩
  · exact hexited
  · exact absurd hprimary (hmain file).1
  · exact absurd hjoining (hmain file).2

theorem Shows.at_ {file : Option Bytes} (h : Shows json file daemon) (hmain : ∀ open_, daemon.main ≠ .resizing open_)
    {daemon' : Daemon} (howner : daemon'.owner = daemon.owner) (hworker : daemon'.worker = daemon.worker) :
    Shows json file daemon' := by
  obtain ⟨rest, hfile, hrest⟩ := h
  have htext : daemon'.text = daemon.text := by
    unfold Daemon.text
    rw [hworker, howner]
  refine ⟨rest, htext ▸ hfile, hrest.imp_right fun hrewriting => ?_⟩
  rcases hrewriting with ⟨open_, hresizing⟩ | ⟨owner, hresizing⟩
  · exact absurd hresizing (hmain open_)
  · exact .inr ⟨owner, hworker.trans hresizing⟩

theorem Named.of_exited {file : Option Bytes} (hworker : daemon.worker = .exited) (hwritten : daemon.written = false) :
    Named json file daemon where
  same owner howner := by simp [hworker] at howner
  shows h := by simp [hwritten] at h

theorem written_gaveUp (daemon : Daemon) : (daemon.at_ daemon.gaveUp).written = false := by
  unfold Daemon.at_ Daemon.gaveUp
  cases daemon.up <;> rfl

theorem named_nextMain (hcut : input.cut = none) (hjoined : daemon.Joined) (h : Named json shared.file daemon) :
    Named json (daemon.nextMain json shared input).1.file (daemon.nextMain json shared input).2 := by
  cases hmain : daemon.main with
  | writing file =>
    have hworker := hjoined.exited (by simp [hmain])
    simp only [Daemon.nextMain, hmain, hcut]
    refine ⟨fun owner howner => by simp [Daemon.at_, hworker] at howner, fun _ => ?_⟩
    have htext : (daemon.at_ (.resizing file)).text = daemon.owner := text_of_exited hworker
    exact ⟨_, by rw [htext]; rfl, .inr (.inl ⟨file, rfl⟩)⟩
  | resizing file =>
    have hworker := hjoined.exited (by simp [hmain])
    obtain ⟨rest, hfile, -⟩ := h.shows (by simp [Daemon.written, hmain])
    rw [text_of_exited hworker] at hfile
    simp only [Daemon.nextMain, hmain, hcut]
    refine ⟨fun owner howner => by simp [Daemon.at_, hworker] at howner, fun _ => ⟨[], ?_, .inl rfl⟩⟩
    have htext : (daemon.at_ (.spawning file)).text = daemon.owner := text_of_exited hworker
    rw [htext, hfile, setLen_shows, List.append_nil]
  | spawning file =>
    have hworker := hjoined.exited (by simp [hmain])
    obtain ⟨rest, hfile, hrest⟩ := h.shows (by simp [Daemon.written, hmain])
    rw [text_of_exited hworker] at hfile
    simp only [Daemon.nextMain, hmain]
    split
    · exact .of_exited hworker rfl
    · refine ⟨fun owner howner => by simp at howner, fun _ => ⟨rest, hfile, .inl ?_⟩⟩
      exact hrest.resolve_right (by simp [Daemon.Rewriting, hmain, hworker])
  | primary file | joining file =>
    have hshows := h.shows (by simp [Daemon.written, hmain])
    simp only [Daemon.nextMain, hmain]
    split
    · exact ⟨h.same, fun _ => hshows.at_ (by simp [hmain]) rfl rfl⟩
    all_goals exact h
  | opening =>
    have hworker := hjoined.exited (by simp [hmain])
    simp only [Daemon.nextMain, hmain]
    split
    · exact .of_exited hworker (written_gaveUp daemon)
    · exact .of_exited hworker rfl
  | passive =>
    have hworker := hjoined.exited (by simp [hmain])
    simp only [Daemon.nextMain, hmain]
    split
    · exact .of_exited hworker rfl
    · exact .of_exited hworker rfl
    · exact h
  | locking file | reading =>
    have hworker := hjoined.exited (by simp [hmain])
    simp only [Daemon.nextMain, hmain]
    split <;> exact .of_exited hworker rfl
  | dropping file =>
    have hworker := hjoined.exited (by simp [hmain])
    simp only [Daemon.nextMain, hmain]
    exact .of_exited hworker (written_gaveUp daemon)
  | starting file | unlocking file =>
    have hworker := hjoined.exited (by simp [hmain])
    simp only [Daemon.nextMain, hmain]
    exact .of_exited hworker rfl
  | ended =>
    simp only [Daemon.nextMain, hmain]
    exact h

theorem Shows.exact {file : Option Bytes} (h : Shows json file daemon) (hnot : ¬ daemon.Rewriting) :
    file = some (json.toVecPretty daemon.text) := by
  obtain ⟨rest, hfile, hrest⟩ := h
  rw [hfile, hrest.resolve_right hnot, List.append_nil]

theorem Shows.of_exact {file : Option Bytes} (h : file = some (json.toVecPretty daemon.text)) :
    Shows json file daemon := ⟨[], by rw [h, List.append_nil], .inl rfl⟩

theorem named_nextWorker (hcut : input.cut = none) (hjoined : daemon.Joined) (h : Named json shared.file daemon) :
    Named json (daemon.nextWorker json shared input).1.file (daemon.nextWorker json shared input).2 := by
  have hsettled : daemon.worker ≠ .exited → (∀ owner, daemon.worker ≠ .resizing owner) → ¬ daemon.Rewriting := by
    rintro hlives hnot (⟨file, hmain⟩ | ⟨owner, hworker⟩)
    · rcases hjoined with hexited | ⟨file', hprimary | hjoining⟩
      · exact hlives hexited
      · simp [hmain] at hprimary
      · simp [hmain] at hjoining
    · exact hnot owner hworker
  cases hworker : daemon.worker with
  | exited =>
    simp only [Daemon.nextWorker, hworker]
    exact h
  | sleeping remaining =>
    have hexact : daemon.written = true → shared.file = some (json.toVecPretty daemon.owner) := by
      intro hwritten
      have htext : daemon.text = daemon.owner := by simp [Daemon.text, hworker]
      rw [← htext]
      exact (h.shows hwritten).exact (hsettled (by simp [hworker]) (by simp [hworker]))
    simp only [Daemon.nextWorker, hworker]
    split
    · exact ⟨fun owner howner => by simp at howner, fun hwritten => .of_exact (hexact hwritten)⟩
    · by_cases hzero : remaining - min TICK_MS remaining = 0
      · simp only [hzero, if_true]
        exact ⟨fun owner howner => by simp at howner, fun hwritten => .of_exact (hexact hwritten)⟩
      · simp only [hzero, if_false]
        exact ⟨fun owner howner => by simp at howner, fun hwritten => .of_exact (hexact hwritten)⟩
  | firing =>
    have htext : daemon.text = daemon.owner := by simp [Daemon.text, hworker]
    simp only [Daemon.nextWorker, hworker]
    refine ⟨fun owner howner => ?_, fun hwritten => .of_exact ?_⟩
    · simp only [reduceCtorEq, or_false, Worker.writing.injEq] at howner
      rw [← howner]
      exact ⟨rfl, rfl, rfl, rfl⟩
    · rw [(h.shows hwritten).exact (hsettled (by simp [hworker]) (by simp [hworker])), htext]
      rfl
  | writing owner =>
    simp only [Daemon.nextWorker, hworker, hcut]
    refine ⟨fun owner' howner => ?_, fun _ => ⟨_, rfl, .inr (.inr ⟨owner, rfl⟩)⟩⟩
    simp only [reduceCtorEq, false_or, or_false, Worker.resizing.injEq] at howner
    rw [← howner]
    exact h.same owner (.inl hworker)
  | resizing owner =>
    have htext : daemon.text = owner := by simp [Daemon.text, hworker]
    simp only [Daemon.nextWorker, hworker, hcut]
    refine ⟨fun owner' howner => ?_, fun hwritten => .of_exact ?_⟩
    · simp only [reduceCtorEq, false_or, Worker.updating.injEq] at howner
      rw [← howner]
      exact h.same owner (.inr (.inl hworker))
    · obtain ⟨rest, hfile, -⟩ := h.shows hwritten
      rw [hfile, htext, setLen_shows]
      rfl
  | updating owner =>
    have htext : daemon.text = owner := by simp [Daemon.text, hworker]
    simp only [Daemon.nextWorker, hworker]
    refine ⟨fun owner' howner => by simp at howner, fun hwritten => .of_exact ?_⟩
    rw [(h.shows hwritten).exact (hsettled (by simp [hworker]) (by simp [hworker])), htext]
    rfl

theorem named_next (hcut : input.cut = none) (hjoined : daemon.Joined) (h : Named json shared.file daemon) :
    Named json (daemon.next json shared input).1.file (daemon.next json shared input).2 := by
  unfold Daemon.next
  cases input.part with
  | main => exact named_nextMain hcut hjoined h
  | worker => exact named_nextWorker hcut hjoined h
  | die => exact .of_exited rfl rfl

/-- The lease is with one daemon at most, and the file tells which. -/
structure Told (json : Json) (system : System Shared Daemon) : Prop where
  exclusive : Exclusive system
  named : ∀ daemon ∈ system.threads, Named json system.shared.file daemon

theorem holds_of_written (h : daemon.written = true) : daemon.holds = true := by
  unfold Daemon.written at h
  unfold Daemon.holds
  split at h <;> simp_all

theorem told_run {before after : List Daemon} (hcut : input.cut = none)
    (h : Told json ⟨shared, before ++ daemon :: after⟩) :
    Told json ⟨(daemon.next json shared input).1, before ++ (daemon.next json shared input).2 :: after⟩ where
  exclusive := h.exclusive.run input
  named := by
    have hmem : daemon ∈ before ++ daemon :: after := by simp
    refine forall_mem_moved (fun other hother => And.intro hother (h.named other hother))
      (fun hnamed => named_next hcut (h.exclusive.joined daemon hmem) hnamed.2) ?_
    rintro other hmem' ⟨hother, hnamed⟩
    refine ⟨hnamed.same, fun hwritten => ?_⟩
    have hshows := hnamed.shows hwritten
    obtain ⟨file, hopen, hlock⟩ := h.exclusive.holder_lock hother (holds_of_written hwritten)
    have hholds : daemon.holds = false := by
      cases hheld : daemon.holds with
      | false => rfl
      | true =>
        obtain ⟨file', hopen', hlock'⟩ := h.exclusive.holder_lock hmem hheld
        rw [hlock] at hlock'
        exact absurd (hopen'.trans hlock'.symm) (h.exclusive.apart hmem' hopen)
    rcases @next_file json shared daemon input (h.exclusive.joined daemon hmem) hholds with hsame | hnone
    · simp only
      rw [hsame]
      exact hshows
    · obtain ⟨rest, hfile, -⟩ := hshows
      rw [hnone] at hfile
      cases hfile

theorem told_step {system : System Shared Daemon} {move : Move Task Input}
    (hcut : ∀ index input, move = .run index input → input.cut = none) (h : Told json system) :
    Told json (System.step (host json) system move) := by
  cases move with
  | start task =>
    refine ⟨h.exclusive.start task, fun daemon hmem => ?_⟩
    rcases List.mem_append.mp hmem with hold | hnew
    · exact h.named daemon hold
    · obtain rfl := List.mem_singleton.mp hnew
      exact .of_exited rfl rfl
  | run index input =>
    rcases @System.step_run_cases _ _ _ _ (host json) system index input with
      hsame | ⟨before, daemon, after, hthreads, -, hstep⟩
    · rw [hsame]
      exact h
    · rw [hstep]
      obtain ⟨shared, threads⟩ := system
      subst hthreads
      exact told_run (hcut index input rfl) h

theorem read_primary (hlawful : json.Lawful) {system : System Shared Daemon} (h : Told json system)
    (hmem : daemon ∈ system.threads) {open_ : Nat} (hprimary : daemon.main = .primary open_) :
    (∃ owner, readLeaseMetadata json system.shared.file = some owner ∧ owner.Same daemon.owner) ∨
    readLeaseMetadata json system.shared.file = none ∧ ∃ owner, daemon.worker = .resizing owner := by
  have hnamed := h.named daemon hmem
  obtain ⟨rest, hfile, hrest⟩ := hnamed.shows (by simp [Daemon.written, hprimary])
  rw [hfile]
  rcases hrest with rfl | hrewriting
  · rw [List.append_nil]
    exact .inl ⟨daemon.text, hlawful.read daemon.text, hnamed.text_same⟩
  · rcases hlawful.behind daemon.text rest with hnone | hsome
    · refine .inr ⟨hnone, hrewriting.resolve_left ?_⟩
      simp [hprimary]
    · exact .inl ⟨daemon.text, hsome, hnamed.text_same⟩

/-- As long as no write is cut off, a passive daemon that turns a request away names the daemon that is
the primary, or says that it cannot tell while the primary rewrites the file. -/
theorem passive_names_primary {π : Type} (hlawful : json.Lawful) (file : Option Bytes) (moves : List (Move Task Input))
    (hcut : ∀ index input, Move.run index input ∈ moves → input.cut = none) :
    AllStates (System.step (host json)) (fun system => ∀ primary ∈ system.threads, ∀ open_, primary.main = .primary open_ →
      ∀ passive ∈ system.threads, passive.main = .passive → ∀ now, ∀ request : Request π, passiveAllows request = false →
        (∃ owner : LeaseOwner, owner.Same primary.owner ∧
          passiveGate json system.shared.file passive.main now request =
            some ⟨.unavailable, passiveRejectionMessage ⟨some owner, some (now - owner.lastHeartbeatUnix)⟩⟩) ∨
        (∃ owner, primary.worker = .resizing owner) ∧
          passiveGate json system.shared.file passive.main now request =
            some ⟨.unavailable, "this daemon is passive; primary metadata is currently unavailable"⟩)
      (stateDir file) moves := by
  have hsteps : AllSteps (System.step (host json)) (fun _ move => ∀ index input, move = .run index input → input.cut = none)
      (stateDir file) moves :=
    allSteps_of_calls fun move hmem index input hmove => hcut index input (hmove ▸ hmem)
  refine hsteps.allStates (I := Told json) ⟨exclusive_stateDir file, fun _ hmem => by cases hmem⟩
    (fun _ _ h hcut => told_step hcut h) ?_
  intro system h primary hmem open_ hprimary passive _ hpassive now request hasks
  have hgate : passiveGate json system.shared.file passive.main now request =
      some ⟨.unavailable, passiveRejectionMessage (fromPassive json system.shared.file now)⟩ := by
    simp [passiveGate, hpassive, hasks]
  rw [hgate]
  rcases read_primary hlawful h hmem hprimary with ⟨owner, hread, hsame⟩ | ⟨hread, hresizing⟩
  · exact .inl ⟨owner, hsame, by simp [fromPassive, hread]⟩
  · exact .inr ⟨hresizing, by simp [fromPassive, hread, passiveRejectionMessage]⟩

/-! ## The lease of the dead -/

/-- What a daemon is once it is the primary. -/
def primaryOf (task : Task) (now file : Nat) : Daemon where
  owner := ⟨task.hostname, task.pid, now, task.instanceId, now⟩
  mode := task.mode
  up := true
  main := .primary file
  worker := .sleeping HEARTBEAT_INTERVAL_MS

theorem start_free {system : System Shared Daemon} (hfree : system.shared.lock = none) (task : Task) (now : Nat) :
    run (System.step (host json)) system
      (.start task :: List.replicate 6 (.run system.threads.length { now, nowAgain := now })) =
      ⟨{ file := some (json.toVecPretty (primaryOf task now system.shared.opened).owner)
         lock := some system.shared.opened
         opened := system.shared.opened + 1 },
        system.threads ++ [primaryOf task now system.shared.opened]⟩ := by
  obtain ⟨⟨file, lock, opened⟩, threads⟩ := system
  simp only at hfree
  subst hfree
  have hstart : System.step (host json) ⟨⟨file, none, opened⟩, threads⟩ (.start task) =
      ⟨⟨file, none, opened⟩, threads ++ [enter task]⟩ := rfl
  rw [run_cons, hstart, System.run_replicate]
  have hwritten : ∀ text : Bytes, setLen text.length (overwrite text (some (file.getD []))) = some text := by
    intro text
    exact setLen_shows text _
  have hsteps : (fun moving => (host json).next moving.1 moving.2 { now, nowAgain := now })^[6]
      (⟨file, none, opened⟩, enter task) =
      (⟨setLen (json.toVecPretty (primaryOf task now opened).owner).length
          (overwrite (json.toVecPretty (primaryOf task now opened).owner) (some (file.getD []))), some opened, opened + 1⟩,
        primaryOf task now opened) := rfl
  rw [hsteps, hwritten]

/-- Whatever has happened: where a daemon holds the lease, its death frees it, and a daemon that then
starts and runs by itself becomes the primary, with its name in the file. -/
theorem takes_over (json : Json) (file : Option Bytes) (moves : List (Move Task Input)) (task : Task) (now : Nat) :
    ∃ crash, (crash = [] ∧ (run (System.step (host json)) (stateDir file) moves).shared.lock = none ∨
        ∃ index daemon, (run (System.step (host json)) (stateDir file) moves).threads[index]? = some daemon ∧
          daemon.holds = true ∧ crash = [Move.run index { part := .die }]) ∧
      ∃ threads open_, run (System.step (host json)) (run (System.step (host json)) (stateDir file) moves)
          (crash ++ .start task :: List.replicate 6
            (.run (run (System.step (host json)) (stateDir file) moves).threads.length { now, nowAgain := now })) =
        ⟨{ file := some (json.toVecPretty (primaryOf task now open_).owner), lock := some open_, opened := open_ + 1 },
          threads ++ [primaryOf task now open_]⟩ := by
  have hexclusive : Exclusive (run (System.step (host json)) (stateDir file) moves) :=
    run_invariant (exclusive_stateDir file) (fun _ move h => h.step move)
  generalize run (System.step (host json)) (stateDir file) moves = system at hexclusive
  cases hlock : system.shared.lock with
  | none => exact ⟨[], .inl ⟨rfl, rfl⟩, system.threads, system.shared.opened, start_free hlock task now⟩
  | some held =>
    obtain ⟨daemon, hmem, hopen⟩ := hexclusive.owned held hlock
    have hholds := (hexclusive.locked daemon hmem held hopen).mpr hlock
    obtain ⟨index, hindex⟩ := List.getElem?_of_mem hmem
    refine ⟨_, .inr ⟨index, daemon, hindex, hholds, rfl⟩, ?_⟩
    have hdead : System.step (host json) system (.run index { part := .die }) =
        ⟨{ system.shared with lock := none },
          system.threads.set index { daemon with main := .ended, worker := .exited }⟩ := by
      have hclosed : system.shared.close held = { system.shared with lock := none } := by
        simp [Shared.close, hlock]
      simp only [System.step, hindex, host, Daemon.next, Daemon.die, hopen, hclosed]
    have hlength : system.threads.length =
        (system.threads.set index { daemon with main := .ended, worker := .exited }).length := by simp
    rw [List.singleton_append, run_cons, hdead, hlength]
    exact ⟨_, _, start_free rfl task now⟩

/-! ## A text of the lease -/

def unary (n : Nat) : Bytes := List.replicate n 1 ++ [0]

def readUnary : Bytes → Option (Nat × Bytes)
  | [] => none
  | byte :: rest => if byte = 0 then some (0, rest) else (readUnary rest).map fun found => (found.1 + 1, found.2)

theorem readUnary_unary (n : Nat) (rest : Bytes) : readUnary (unary n ++ rest) = some (n, rest) := by
  induction n with
  | zero => rfl
  | succ n ih =>
    have hcons : unary (n + 1) ++ rest = 1 :: (unary n ++ rest) := rfl
    rw [hcons, readUnary, if_neg (by decide), ih]
    rfl

def readMany : Nat → Bytes → Option (List Nat × Bytes)
  | 0, bytes => some ([], bytes)
  | count + 1, bytes => do
    let (n, bytes) ← readUnary bytes
    let (ns, bytes) ← readMany count bytes
    return (n :: ns, bytes)

theorem readMany_unary (ns : List Nat) (rest : Bytes) :
    readMany ns.length (ns.flatMap unary ++ rest) = some (ns, rest) := by
  induction ns with
  | nil => rfl
  | cons n ns ih =>
    rw [List.flatMap_cons, List.append_assoc, List.length_cons, readMany, readUnary_unary]
    simp [ih]

def numbers (owner : LeaseOwner) : List Nat :=
  owner.pid.toNat :: owner.startTsUnix :: owner.lastHeartbeatUnix :: owner.hostname.toList.length ::
    (owner.hostname.toList ++ owner.instanceId.toList).map Char.toNat

def ofNumbers : List Nat → Option LeaseOwner
  | pid :: startTsUnix :: lastHeartbeatUnix :: length :: chars => some
    { hostname := String.ofList ((chars.map Char.ofNat).take length)
      pid := UInt32.ofNat pid
      startTsUnix
      instanceId := String.ofList ((chars.map Char.ofNat).drop length)
      lastHeartbeatUnix }
  | [] | [_] | [_, _] | [_, _, _] => none

theorem ofNumbers_numbers (owner : LeaseOwner) : ofNumbers (numbers owner) = some owner := by
  have hchars : ((owner.hostname.toList ++ owner.instanceId.toList).map Char.toNat).map Char.ofNat =
      owner.hostname.toList ++ owner.instanceId.toList := by
    simp [Function.comp_def]
  simp only [numbers, ofNumbers, hchars, List.take_left, List.drop_left]
  simp

def tabby : LeaseOwner := ⟨"tabby", 4242, 100, "/srv/pcloud", 100⟩

/-- The object starts with its brace. -/
def tabbyText : Bytes :=
  123 :: ("\n  \"hostname\": \"tabby\",\n  \"pid\": 4242,\n  \"start_ts_unix\": 100,\n" ++
    "  \"instance_id\": \"/srv/pcloud\",\n  \"last_heartbeat_unix\": 100\n\x7d").toList.map fun c =>
      UInt8.ofNat c.toNat

/-- The JSON of `tabby`, and for the other owners a text of numbers. -/
def tabbyJson : Json where
  toVecPretty owner :=
    if owner = tabby then tabbyText else unary (numbers owner).length ++ (numbers owner).flatMap unary
  fromStr bytes :=
    if bytes.head? = tabbyText.head? then (if bytes = tabbyText then some tabby else none)
    else do
      let (count, bytes) ← readUnary bytes
      let (ns, bytes) ← readMany count bytes
      if bytes = [] then ofNumbers ns else none

theorem fromStr_tabbyJson (owner : LeaseOwner) (rest : Bytes) :
    tabbyJson.fromStr (tabbyJson.toVecPretty owner ++ rest) = if rest = [] then some owner else none := by
  by_cases htabby : owner = tabby
  · have hhead : (tabbyText ++ rest).head? = tabbyText.head? :=
      List.head?_append_of_ne_nil tabbyText (List.cons_ne_nil _ _)
    simp only [tabbyJson, htabby, if_true, hhead, List.append_right_eq_self]
  · have hhead : ((unary (numbers owner).length ++ (numbers owner).flatMap unary) ++ rest).head? = some 1 := rfl
    have hother : ¬ some 1 = tabbyText.head? := by
      rw [tabbyText]
      decide
    simp only [tabbyJson, if_neg htabby, hhead, if_neg hother]
    rw [List.append_assoc, readUnary_unary]
    simp [readMany_unary, ofNumbers_numbers]

theorem tabbyJson_lawful : tabbyJson.Lawful where
  read owner := by
    have h := fromStr_tabbyJson owner []
    rwa [List.append_nil, if_pos rfl] at h
  behind owner rest := by
    rw [fromStr_tabbyJson]
    split
    · exact .inr rfl
    · exact .inl rfl

/-- The second daemon finds the lease taken. -/
def tabbyMoves : List (Move Task Input) :=
  .start ⟨"tabby", 4242, "/srv/pcloud", .refuse⟩ :: List.replicate 6 (.run 0 { now := 100, nowAgain := 100 }) ++
    .start ⟨"tabby", 4300, "/srv/pcloud", .passive⟩ :: List.replicate 3 (.run 1 {})

theorem passive_names_primary_tabby :
    ∃ owner : LeaseOwner, owner.Same tabby ∧
      passiveGate tabbyJson (run (System.step (host tabbyJson)) (stateDir none) tabbyMoves).shared.file .passive 105
          (.plain .drainStatus : Request Unit) =
        some ⟨.unavailable, passiveRejectionMessage ⟨some owner, some (105 - owner.lastHeartbeatUnix)⟩⟩ := by
  have hthreads : (run (System.step (host tabbyJson)) (stateDir none) tabbyMoves).threads =
      [{ owner := tabby, mode := .refuse, up := true, main := .primary 0, worker := .sleeping 30000 },
        { owner := ⟨"tabby", 4300, 0, "/srv/pcloud", 0⟩, mode := .passive, up := true, main := .passive }] := rfl
  have hcut : ∀ index input, Move.run index input ∈ tabbyMoves → input.cut = none := by
    intro index input hmem
    simp only [tabbyMoves, List.cons_append, List.mem_cons, List.mem_append, List.mem_replicate, reduceCtorEq,
      Move.run.injEq, false_or] at hmem
    rcases hmem with ⟨-, -, rfl⟩ | ⟨-, -, rfl⟩ <;> rfl
  have hnames := (passive_names_primary (π := Unit) tabbyJson_lawful none tabbyMoves hcut).run
  rw [hthreads] at hnames
  rcases hnames _ List.mem_cons_self 0 rfl _ (List.mem_cons_of_mem _ List.mem_cons_self) rfl 105 (.plain .drainStatus) rfl
    with hnamed | ⟨⟨owner, hresizing⟩, -⟩
  · exact hnamed
  · cases hresizing

end Pcloud.HaLease
