import Pcloud.Fs.FsWatcher
import Pcloud.Lib.Coalesce

/-!
# The debounce loop of the watcher

What `notify` reports waits in a map by path until the path has been quiet for the debounce window.
While the consumer is there, what the watcher sends in the end are the paths that it does not filter.
-/

open Coalesce

namespace Pcloud.FsWatcher

/-- `notify::EventKind`. -/
inductive NotifyKind where
  | Any
  | Access
  | Create
  | Modify
  | Remove
  | Other
  deriving DecidableEq, Repr

def classifyEventKind : NotifyKind → Option FsEventKind
  | .Create => some .Create
  | .Modify => some .Write
  | .Remove => some .Remove
  | _ => none

/-- A path of an event: what is left of it below the root, if it is there, and what `is_dir` says. -/
structure EventPath where
  below : Option OsPath
  isDir : Bool

/-- The text under which the path is taken up. -/
def EventPath.text (path : EventPath) : Option String := path.below.bind watched

structure NotifyEvent where
  kind : NotifyKind
  paths : List EventPath

structure Pending where
  path : String
  kind : FsEventKind
  entryKind : EntryKind
  seen : Nat

/-- `remaining` is how many events the consumer still takes before it is dropped, if it ever is. -/
structure Debounce where
  pending : List Pending := []
  sent : List FsEvent := []
  remaining : Option Nat := none

inductive Received where
  | event (event : NotifyEvent)
  | timeout
  | disconnected

/-- One pass of the loop, with the time of its inserts and that of its flushes. -/
structure Pass where
  received : Received
  insertedAt : Nat
  flushedAt : Nat

section Loop

variable (syncId : SyncId) (debounce : Nat)

def takePath (kind : FsEventKind) (now : Nat) (pending : List Pending) (path : EventPath) : List Pending :=
  match path.text with
  | some rel => put Pending.path ⟨rel, kind, if path.isDir then .Folder else .File, now⟩ pending
  | none => pending

/-- The loop over the paths of an event. -/
def takeEvent (kind : FsEventKind) (now : Nat) (event : NotifyEvent) (s : Debounce) : Debounce :=
  { s with pending := event.paths.foldl (takePath kind now) s.pending }

def matured (window now : Nat) (pending : Pending) : Bool := window ≤ now - pending.seen

def eventOf (pending : Pending) : FsEvent := ⟨syncId, pending.path, pending.entryKind, pending.kind⟩

/-- A send that fails clears what is pending. -/
def flushPending (window now : Nat) (s : Debounce) : Debounce :=
  let events := (s.pending.filter (matured window now)).map (eventOf syncId)
  let kept := s.pending.filter fun pending => !matured window now pending
  match s.remaining with
  | none => { s with pending := kept, sent := s.sent ++ events }
  | some n =>
    if events.length ≤ n then
      { pending := kept, sent := s.sent ++ events, remaining := some (n - events.length) }
    else { pending := [], sent := s.sent ++ events.take n, remaining := some 0 }

def debounceLoop (s : Debounce) : List Pass → Debounce
  | [] => s
  | pass :: rest =>
    match pass.received with
    | .event event =>
      match classifyEventKind event.kind with
      | none => debounceLoop s rest
      | some kind =>
        let taken := takeEvent kind pass.insertedAt event s
        debounceLoop (flushPending syncId debounce pass.flushedAt taken) rest
    | .timeout =>
      let flushed := flushPending syncId debounce pass.flushedAt s
      debounceLoop (flushPending syncId debounce pass.flushedAt flushed) rest
    | .disconnected => flushPending syncId 0 pass.flushedAt s

end Loop

/-! ## What is waiting or sent -/

/-- The paths that are pending or sent. -/
def Debounce.paths (s : Debounce) : List String := s.pending.map (·.path) ++ s.sent.map (·.path)

/-- The texts of the paths of an event that pass the filter. -/
def NotifyEvent.texts (event : NotifyEvent) : List String :=
  if (classifyEventKind event.kind).isSome then event.paths.filterMap EventPath.text else []

def Pass.texts (pass : Pass) : List String :=
  match pass.received with
  | .event event => event.texts
  | _ => []

section Paths

variable {syncId : SyncId} {debounce : Nat} {s : Debounce} {text : String}

theorem mem_put_paths {pending : Pending} {kept : List Pending} :
    text ∈ (put Pending.path pending kept).map (·.path) ↔ text = pending.path ∨ text ∈ kept.map (·.path) := by
  by_cases hpending : pending.path ∈ kept.map Pending.path
  · rw [map_put_of_mem hpending]
    refine ⟨.inr, ?_⟩
    rintro (rfl | h)
    · exact hpending
    · exact h
  · rw [put_of_notMem hpending, List.map_append, List.mem_append, List.map_singleton, List.mem_singleton, or_comm]

theorem mem_foldl_takePath {kind : FsEventKind} {now : Nat} {paths : List EventPath} {pending : List Pending} :
    text ∈ (paths.foldl (takePath kind now) pending).map (·.path) ↔
      text ∈ paths.filterMap EventPath.text ∨ text ∈ pending.map (·.path) := by
  induction paths generalizing pending with
  | nil => simp
  | cons path rest ih =>
    rw [List.foldl_cons, ih, takePath]
    cases htext : path.text with
    | none => rw [List.filterMap_cons_none htext]
    | some rel =>
      rw [List.filterMap_cons_some htext, mem_put_paths, List.mem_cons]
      tauto

theorem mem_paths_takeEvent {kind : FsEventKind} {event : NotifyEvent}
    (hkind : classifyEventKind event.kind = some kind) (now : Nat) :
    text ∈ (takeEvent kind now event s).paths ↔ text ∈ event.texts ∨ text ∈ s.paths := by
  rw [takeEvent, Debounce.paths, List.mem_append, mem_foldl_takePath, Debounce.paths, List.mem_append, or_assoc,
    NotifyEvent.texts, hkind]
  rfl

theorem mem_paths_flushPending (hconsumer : s.remaining = none) (window now : Nat) :
    text ∈ (flushPending syncId window now s).paths ↔ text ∈ s.paths := by
  simp only [flushPending, hconsumer, Debounce.paths, List.map_append, List.map_map, List.mem_append, List.mem_map,
    List.mem_filter, Bool.not_eq_true']
  constructor
  · rintro (⟨p, ⟨hp, -⟩, rfl⟩ | ⟨p, hp, rfl⟩ | ⟨p, ⟨hp, -⟩, rfl⟩)
    · exact .inl ⟨p, hp, rfl⟩
    · exact .inr ⟨p, hp, rfl⟩
    · exact .inl ⟨p, hp, rfl⟩
  · rintro (⟨p, hp, rfl⟩ | ⟨p, hp, rfl⟩)
    · cases hmatured : matured window now p with
      | false => exact .inl ⟨p, ⟨hp, hmatured⟩, rfl⟩
      | true => exact .inr (.inr ⟨p, ⟨hp, hmatured⟩, rfl⟩)
    · exact .inr (.inl ⟨p, hp, rfl⟩)

theorem remaining_flushPending (hconsumer : s.remaining = none) (window now : Nat) :
    (flushPending syncId window now s).remaining = none := by
  simp only [flushPending, hconsumer]

theorem pending_flushPending_zero (hconsumer : s.remaining = none) (now : Nat) :
    (flushPending syncId 0 now s).pending = [] := by
  simp [flushPending, hconsumer, matured]

theorem mem_sent_iff (hconsumer : s.remaining = none) {passes : List Pass}
    (hopen : ∀ pass ∈ passes, pass.received ≠ .disconnected) (insertedAt flushedAt : Nat) :
    text ∈ (debounceLoop syncId debounce s (passes ++ [⟨.disconnected, insertedAt, flushedAt⟩])).sent.map (·.path) ↔
      text ∈ s.paths ∨ ∃ pass ∈ passes, text ∈ pass.texts := by
  induction passes generalizing s with
  | nil =>
    have hpaths : text ∈ (flushPending syncId 0 flushedAt s).paths ↔ text ∈ s.paths :=
      mem_paths_flushPending hconsumer 0 flushedAt
    rw [Debounce.paths, pending_flushPending_zero hconsumer, List.map_nil, List.nil_append] at hpaths
    simpa [debounceLoop] using hpaths
  | cons pass rest ih =>
    obtain ⟨hpass, hrest⟩ := List.forall_mem_cons.mp hopen
    rw [List.cons_append, List.exists_mem_cons_iff]
    obtain ⟨received, inserted, flushed⟩ := pass
    cases received with
    | disconnected => exact absurd rfl hpass
    | timeout =>
      have hfirst : (flushPending syncId debounce flushed s).remaining = none :=
        remaining_flushPending hconsumer debounce flushed
      rw [debounceLoop, ih (remaining_flushPending hfirst debounce flushed) hrest, mem_paths_flushPending hfirst,
        mem_paths_flushPending hconsumer]
      simp [Pass.texts]
    | event event =>
      cases hkind : classifyEventKind event.kind with
      | none =>
        simp only [debounceLoop, hkind]
        rw [ih hconsumer hrest]
        simp [Pass.texts, NotifyEvent.texts, hkind]
      | some kind =>
        have htaken : (takeEvent kind inserted event s).remaining = none := hconsumer
        simp only [debounceLoop, hkind]
        rw [ih (remaining_flushPending htaken debounce flushed) hrest, mem_paths_flushPending htaken,
          mem_paths_takeEvent hkind]
        simp only [Pass.texts]
        tauto

end Paths

end Pcloud.FsWatcher
