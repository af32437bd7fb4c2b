import Pcloud.Lib.Runs
import Pcloud.Daemon.Attribution

/-!
# Directions

The type of a root says which way its changes flow. The sync loop does not poll `UploadOnly`
roots and does not scan `DownloadOnly` roots, but it polls `BackupArchive` roots, and whatever
root is polled, the changes go to root 1.
-/

open Runs

namespace Pcloud

def SyncType.pullsRemote : SyncType → Bool
  | .DownloadOnly | .Full => true
  | .UploadOnly | .BackupArchive => false

def SyncType.pushesLocal : SyncType → Bool
  | .DownloadOnly => false
  | .UploadOnly | .Full | .BackupArchive => true

section Direction

variable (roots : List SyncRootRecord)

def FollowsType (op : PlannedOperation) : Prop :=
  ∀ root ∈ roots, root.syncId = op.syncId →
    (op.writesLocal = true → root.syncType.pullsRemote = true) ∧
    (op.writesRemote = true → root.syncType.pushesLocal = true)

def Directed (rt : Runtime) : Prop :=
  ∀ op ∈ rt.engine.scheduler.queuedOperations, FollowsType roots op

def RootOnePulls : Prop :=
  ∀ root ∈ roots, root.syncId = ⟨1⟩ → root.syncType.pullsRemote = true

/-- No remote change under the cap becomes its own operation: each one meets a local change that
makes it a conflict, or the policy suppresses it. -/
def Withholds (s : EngineShell) (policy : DeletePolicy) (combined : List SyncCandidate) : Prop :=
  ∀ r, lastAt .Remote r.path combined = some r →
    Due s.planner.maxOperationsPerTick combined r.path →
      (∃ l, lastAt .Local r.path combined = some l ∧ ¬ BothDelete l r) ∨
        policy.suppresses (planSingle r) = true

def RemoteWithheld (rt : Runtime) (call : SyncCall) : Prop :=
  ∀ policy candidates, rt.ingests call = some (policy, candidates) →
    Withholds rt.engine policy (rt.engine.plannerOverflow ++ candidates)

/-- Remote changes carry id 1. Local ones come from roots that push. -/
def Sourced (c : SyncCandidate) : Prop :=
  match c.source with
  | .Remote => c.syncId = ⟨1⟩
  | .Local => ∀ root ∈ roots, root.syncId = c.syncId → root.syncType.pushesLocal = true

def AllSourced (rt : Runtime) : Prop := ∀ c ∈ rt.engine.plannerOverflow, Sourced roots c

variable {roots}

/-! ## One operation -/

theorem planSingle_writesLocal {c : SyncCandidate} :
    (planSingle c).writesLocal = true ↔ c.source = .Remote := by
  obtain ⟨s, src, p, ek, ck, f, d⟩ := c
  cases src <;> cases ek <;> cases ck <;> simp [planSingle, PlannedOperation.writesLocal]

theorem planSingle_writesRemote {c : SyncCandidate} :
    (planSingle c).writesRemote = true ↔ c.source = .Local := by
  obtain ⟨s, src, p, ek, ck, f, d⟩ := c
  cases src <;> cases ek <;> cases ck <;> simp [planSingle, PlannedOperation.writesRemote]

theorem followsType_remote {c : SyncCandidate} (hsource : c.source = .Remote)
    (hc : Sourced roots c) : FollowsType roots (planSingle c) ↔ RootOnePulls roots := by
  have hid : c.syncId = ⟨1⟩ := by simpa [Sourced, hsource] using hc
  simp [FollowsType, RootOnePulls, planSingle_syncId, planSingle_writesLocal, planSingle_writesRemote,
    hsource, hid]

theorem followsType_local {c : SyncCandidate} (hsource : c.source = .Local) (hc : Sourced roots c) :
    FollowsType roots (planSingle c) := by
  intro root hroot hid
  rw [planSingle_syncId] at hid
  have hpush : ∀ root ∈ roots, root.syncId = c.syncId → root.syncType.pushesLocal = true := by
    simpa [Sourced, hsource] using hc
  refine ⟨fun hwrites => ?_, fun _ => hpush root hroot hid⟩
  rw [planSingle_writesLocal, hsource] at hwrites
  cases hwrites

theorem followsType_conflict (c : SyncCandidate) (kind : ConflictKind) :
    FollowsType roots (conflict c kind) := by
  intro root _ _
  constructor <;> intro h <;> cases h

/-! ## One ingest -/

theorem planned_followsType_iff {s : EngineShell} {candidates : List SyncCandidate}
    (policy : DeletePolicy) (hsourced : ∀ c ∈ s.plannerOverflow ++ candidates, Sourced roots c) :
    (∀ op ∈ s.planned candidates policy, FollowsType roots op) ↔
      RootOnePulls roots ∨ Withholds s policy (s.plannerOverflow ++ candidates) := by
  constructor
  · intro hall
    rw [or_iff_not_imp_left]
    intro hpulls r hr hdue
    obtain ⟨hmem, -, hsource⟩ := lastAt_mem hr
    rcases planPair_remote_cases (l := lastAt .Local r.path (s.plannerOverflow ++ candidates)) hsource with
      ⟨-, hown⟩ | ⟨x, kind, hx, hnot, -⟩
    · right
      rw [← Bool.not_eq_false]
      intro hallowed
      have hplanned : planSingle r ∈ s.planned candidates policy :=
        EngineShell.mem_planned.mpr
          ⟨hallowed, r.path, mem_pathsOf.mpr ⟨r, hmem, rfl⟩, hdue, by rw [hr]; exact hown⟩
      exact hpulls ((followsType_remote hsource (hsourced r hmem)).mp (hall _ hplanned))
    · exact .inl ⟨x, hx, hnot⟩
  · intro hcond op hop
    obtain ⟨hallowed, p, -, hdue, hplan⟩ := EngineShell.mem_planned.mp hop
    rcases planPair_lastAt_cases hplan with
      ⟨l, hl, -, rfl⟩ | ⟨r, hr, hboth, rfl⟩ | ⟨l, r, kind, -, -, -, rfl⟩
    · obtain ⟨hmem, -, hsource⟩ := lastAt_mem hl
      exact followsType_local hsource (hsourced l hmem)
    · obtain ⟨hmem, rfl, hsource⟩ := lastAt_mem hr
      rcases hcond with hpulls | hwithheld
      · exact (followsType_remote hsource (hsourced r hmem)).mpr hpulls
      · rcases hwithheld r hr hdue with ⟨l, hl, hnot⟩ | hsup
        · exact absurd (hboth l hl) hnot
        · rw [hallowed] at hsup
          cases hsup
    · exact followsType_conflict l kind

/-! ## The calls of a turn -/

/-- The call is for a root of the list, and only roots that push are scanned. -/
def CallFor (roots : List SyncRootRecord) : SyncCall → Prop
  | .pollRemoteDiff root _ => root ∈ roots
  | .runLocalScan root _ => root ∈ roots ∧ root.syncType.pushesLocal = true
  | _ => True

theorem callFor_syncOneRoot {root : SyncRootRecord} (hroot : root ∈ roots) (input : TurnInput)
    {call : SyncCall} (h : call ∈ syncOneRoot root input) : CallFor roots call := by
  unfold syncOneRoot at h
  simp only [List.mem_append, List.mem_ite_nil_right, List.mem_singleton] at h
  rcases h with (((⟨-, rfl⟩ | ⟨htype, rfl⟩) | rfl) | ⟨-, rfl⟩) | ⟨-, rfl⟩
  · exact hroot
  · refine ⟨hroot, ?_⟩
    cases hsync : root.syncType <;> simp_all [SyncType.pushesLocal]
  · trivial
  · trivial
  · trivial

variable {rt : Runtime} {call : SyncCall}

theorem sourced_of_ingests (hdistinct : (roots.map (·.syncId)).Nodup) (hcall : CallFor roots call)
    {policy : DeletePolicy} {candidates : List SyncCandidate}
    (h : rt.ingests call = some (policy, candidates)) {c : SyncCandidate} (hc : c ∈ candidates) :
    Sourced roots c := by
  rcases Runtime.ingests_cases h with
    ⟨root, answer, rfl, -, hpolled, -⟩ | ⟨root, input, tracker, rfl, -, hfound, -⟩
  · obtain ⟨-, rfl⟩ := pollCandidates_eq_some.mp hpolled
    obtain ⟨hsource, hid⟩ := mem_remoteCandidates hc
    simpa [Sourced, hsource] using hid
  · obtain ⟨hroot, hpush⟩ := hcall
    obtain ⟨hsource, hid⟩ := rt.mem_scanCandidates hfound hc
    simp only [Sourced, hsource]
    intro other hother hsame
    rw [List.inj_on_of_nodup_map hdistinct hother hroot (hsame.trans hid)]
    exact hpush

theorem allSourced_step (hdistinct : (roots.map (·.syncId)).Nodup) (hcall : CallFor roots call)
    (hI : AllSourced roots rt) : AllSourced roots (rt.step call) := by
  intro c hc
  rcases hin : rt.ingests call with _ | ⟨policy, candidates⟩
  · rw [(Runtime.step_of_no_ingest hin).2.1] at hc
    exact hI c hc
  · rw [Runtime.step_of_ingests hin] at hc
    rcases List.mem_append.mp (EngineShell.ingest_overflow_subset hc) with hold | hnew
    · exact hI c hold
    · exact sourced_of_ingests hdistinct hcall hin hnew

theorem directed_step_iff (hdistinct : (roots.map (·.syncId)).Nodup) (hcall : CallFor roots call)
    (hI : AllSourced roots rt) (hd : Directed roots rt) :
    Directed roots (rt.step call) ↔ RootOnePulls roots ∨ RemoteWithheld rt call := by
  unfold RemoteWithheld
  rcases hin : rt.ingests call with _ | ⟨policy, candidates⟩
  · constructor
    · intro _
      exact .inr (fun _ _ h => by cases h)
    · intro _ op hop
      exact hd op ((Runtime.step_of_no_ingest hin).2.2 op hop)
  · have hsourced : ∀ c ∈ rt.engine.plannerOverflow ++ candidates, Sourced roots c := by
      intro c hc
      rcases List.mem_append.mp hc with hold | hnew
      · exact hI c hold
      · exact sourced_of_ingests hdistinct hcall hin hnew
    have hplanned := planned_followsType_iff policy hsourced
    unfold Directed
    simp only [Runtime.step_of_ingests hin, EngineShell.mem_ingest_queue, Option.some.injEq,
      Prod.mk.injEq, and_imp, forall_apply_eq_imp_iff, forall_eq']
    rw [← hplanned]
    constructor
    · intro hall op hop
      exact hall op (.inr hop)
    · rintro hall op (⟨-, -, hop, -⟩ | hop)
      · exact hd op hop
      · exact hall op hop

/-! ## Runs of turns -/

def turnCalls (turns : List (SyncRootRecord × TurnInput)) : List SyncCall :=
  turns.flatMap fun turn => syncOneRoot turn.1 turn.2

theorem callFor_turnCalls {turns : List (SyncRootRecord × TurnInput)}
    (hturns : ∀ turn ∈ turns, turn.1 ∈ roots) : ∀ call ∈ turnCalls turns, CallFor roots call := by
  intro call hcall
  obtain ⟨turn, hturn, hcall⟩ := List.mem_flatMap.mp hcall
  exact callFor_syncOneRoot (hturns turn hturn) turn.2 hcall

theorem allSteps_rootOnePulls_or {cs : List SyncCall} :
    AllSteps Runtime.step (fun rt call => RootOnePulls roots ∨ RemoteWithheld rt call) rt cs ↔
      RootOnePulls roots ∨ AllSteps Runtime.step RemoteWithheld rt cs := by
  induction cs generalizing rt with
  | nil => simp [AllSteps]
  | cons c cs ih =>
    simp only [AllSteps, ih]
    exact or_and_left.symm

theorem directed_turns_iff (hdistinct : (roots.map (·.syncId)).Nodup) (fullScanInterval : Nat)
    (propagateDeletes : Bool) {turns : List (SyncRootRecord × TurnInput)}
    (hturns : ∀ turn ∈ turns, turn.1 ∈ roots) :
    AllStates Runtime.step (Directed roots)
        (Runtime.new roots {} fullScanInterval propagateDeletes) (turnCalls turns) ↔
      AllSteps Runtime.step (fun rt call => RootOnePulls roots ∨ RemoteWithheld rt call)
        (Runtime.new roots {} fullScanInterval propagateDeletes) (turnCalls turns) := by
  refine allStates_iff_allSteps_of_invariant (I := AllSourced roots) (callFor_turnCalls hturns)
    (fun rt call hcall hI => allSourced_step hdistinct hcall hI)
    (fun rt call hcall hI hd => directed_step_iff hdistinct hcall hI hd) ?_ ?_
  · intro c hc
    rw [Runtime.new_overflow] at hc
    cases hc
  · intro op hop
    rw [Runtime.mem_new_queue] at hop
    cases hop

/-- In every state of a run of turns each queued operation follows the type of its root,
exactly when root 1 pulls, or every ingest of the run withholds the remote changes. -/
theorem directed_run_iff (roots : List SyncRootRecord) (hdistinct : (roots.map (·.syncId)).Nodup)
    (fullScanInterval : Nat) (propagateDeletes : Bool) (turns : List (SyncRootRecord × TurnInput))
    (hturns : ∀ turn ∈ turns, turn.1 ∈ roots) :
    AllStates Runtime.step (Directed roots)
        (Runtime.new roots {} fullScanInterval propagateDeletes) (turnCalls turns) ↔
      RootOnePulls roots ∨ AllSteps Runtime.step RemoteWithheld
        (Runtime.new roots {} fullScanInterval propagateDeletes) (turnCalls turns) := by
  rw [directed_turns_iff hdistinct fullScanInterval propagateDeletes hturns, allSteps_rootOnePulls_or]

end Direction

/-- A full sync with id 1 beside a backup. Both are polled, and the directions hold. -/
theorem directed_full_before_backup :
    let full : SyncRootRecord := { syncId := ⟨1⟩, syncType := .Full }
    let backup : SyncRootRecord := { syncId := ⟨2⟩, syncType := .BackupArchive }
    let input : TurnInput :=
      { response := some ⟨7, false, [⟨none, ⟨"a", false, some 5, none, some 0, false⟩⟩]⟩
        scan := { walk := .ok [⟨"b", .File, some ⟨0⟩⟩] }
        downloads := fun _ => none
        uploads := fun _ => none }
    AllStates Runtime.step (Directed [full, backup]) (Runtime.new [full, backup] {} 300 true)
      (turnCalls [(full, input), (backup, input)]) := by
  intro full backup input
  refine (directed_run_iff [full, backup] (by decide) 300 true _ ?_).mpr (.inl ?_)
  · simp
  · unfold RootOnePulls
    decide

/-- A backup with id 1 is polled, and a file of the remote is queued for download. -/
theorem backup_downloads :
    let root : SyncRootRecord := { syncId := ⟨1⟩, syncType := .BackupArchive }
    let entry : DiffEntry := ⟨none, ⟨"a", false, some 5, none, some 0, false⟩⟩
    let input : TurnInput :=
      { response := some ⟨7, false, [entry]⟩
        scan := {}
        downloads := fun _ => none
        uploads := fun _ => none }
    ¬ AllStates Runtime.step (Directed [root]) (Runtime.new [root] {} 300 true) (turnCalls [(root, input)]) := by
  intro root entry input h
  have hpolled : Directed [root] ((Runtime.new [root] {} 300 true).step
      (.pollRemoteDiff root (some ⟨7, false, [entry]⟩))) := h.2.head
  have hdownload := hpolled (.DownloadFile ⟨1⟩ "a" (some ⟨5⟩)) (by decide +kernel) root (by simp) rfl
  exact absurd (hdownload.1 rfl) (by decide)

/-! ## Which lists of roots are safe -/

section Always

variable {roots : List SyncRootRecord} {rt : Runtime} {call : SyncCall}

def LocalOnly (rt : Runtime) : Prop := ∀ c ∈ rt.engine.plannerOverflow, c.source = .Local

def NotPoll : SyncCall → Prop
  | .pollRemoteDiff .. => False
  | _ => True

theorem notPoll_syncOneRoot {root : SyncRootRecord} (htype : root.syncType = .UploadOnly)
    (input : TurnInput) (h : call ∈ syncOneRoot root input) : NotPoll call := by
  simp only [syncOneRoot, htype, ne_eq, not_true_eq_false, if_false, reduceCtorEq, not_false_eq_true,
    if_true, List.nil_append, List.append_nil, List.mem_append, List.mem_singleton] at h
  rcases h with (rfl | rfl) | rfl <;> trivial

theorem local_of_notPoll (hcall : NotPoll call) (hI : LocalOnly rt) {policy : DeletePolicy}
    {candidates : List SyncCandidate} (h : rt.ingests call = some (policy, candidates)) :
    ∀ c ∈ rt.engine.plannerOverflow ++ candidates, c.source = .Local := by
  intro c hc
  rcases List.mem_append.mp hc with hold | hnew
  · exact hI c hold
  · rcases Runtime.ingests_cases h with ⟨root, answer, rfl, -⟩ | ⟨root, input, tracker, rfl, -, hfound, -⟩
    · exact hcall.elim
    · exact (rt.mem_scanCandidates hfound hnew).1

theorem localOnly_step (hcall : NotPoll call) (hI : LocalOnly rt) :
    RemoteWithheld rt call ∧ LocalOnly (rt.step call) := by
  refine ⟨fun policy candidates hin r hr _ => ?_, fun c hc => ?_⟩
  · obtain ⟨hmem, -, hsource⟩ := lastAt_mem hr
    rw [local_of_notPoll hcall hI hin r hmem] at hsource
    cases hsource
  · rcases hin : rt.ingests call with _ | ⟨policy, candidates⟩
    · rw [(Runtime.step_of_no_ingest hin).2.1] at hc
      exact hI c hc
    · rw [Runtime.step_of_ingests hin] at hc
      exact local_of_notPoll hcall hI hin c (EngineShell.ingest_overflow_subset hc)

theorem not_remoteWithheld_poll (root : SyncRootRecord) (fullScanInterval : Nat)
    (propagateDeletes : Bool) :
    ¬ RemoteWithheld (Runtime.new roots {} fullScanInterval propagateDeletes)
      (.pollRemoteDiff root (some ⟨1, false, [⟨none, ⟨"a", false, some 5, none, some 0, false⟩⟩]⟩)) := by
  intro h
  let entry : DiffEntry := ⟨none, ⟨"a", false, some 5, none, some 0, false⟩⟩
  have hpolled : Runtime.pollCandidates (some ⟨1, false, [entry]⟩) = some [remoteCandidate entry] := by
    decide +kernel
  have hwithheld := h _ _ (by rw [Runtime.ingests, hpolled]; rfl)
  rw [Runtime.new_overflow] at hwithheld
  have hdue : Due (Runtime.new roots {} fullScanInterval propagateDeletes).engine.planner.maxOperationsPerTick
      [remoteCandidate entry] "a" := by
    rw [Runtime.new_planner]
    decide +kernel
  rcases hwithheld (remoteCandidate entry) (by decide +kernel) hdue with ⟨l, hl, -⟩ | hsup
  · have hnone : lastAt .Local "a" [remoteCandidate entry] = none := by decide +kernel
    cases hnone.symm.trans hl
  · cases hsup

theorem directed_always_iff (hdistinct : (roots.map (·.syncId)).Nodup) (fullScanInterval : Nat)
    (propagateDeletes : Bool) :
    (∀ turns : List (SyncRootRecord × TurnInput), (∀ turn ∈ turns, turn.1 ∈ roots) →
      AllStates Runtime.step (Directed roots)
        (Runtime.new roots {} fullScanInterval propagateDeletes) (turnCalls turns)) ↔
      RootOnePulls roots ∨ ∀ root ∈ roots, root.syncType = .UploadOnly := by
  constructor
  · intro hall
    rw [or_iff_not_imp_left]
    intro hpulls root hroot
    by_contra htype
    let input : TurnInput :=
      { response := some ⟨1, false, [⟨none, ⟨"a", false, some 5, none, some 0, false⟩⟩]⟩
        scan := {}, downloads := fun _ => none, uploads := fun _ => none }
    have hturns : ∀ turn ∈ [(root, input)], turn.1 ∈ roots := by simpa using hroot
    have hsteps := (directed_turns_iff hdistinct fullScanInterval propagateDeletes hturns).mp
      (hall _ hturns)
    rw [turnCalls, List.flatMap_singleton, syncOneRoot, if_pos htype] at hsteps
    rcases hsteps.1 with h | h
    · exact hpulls h
    · exact not_remoteWithheld_poll root fullScanInterval propagateDeletes h
  · intro hcond turns hturns
    rw [directed_turns_iff hdistinct fullScanInterval propagateDeletes hturns, allSteps_rootOnePulls_or]
    refine hcond.imp_right fun hupload => ?_
    have hcalls : ∀ call ∈ turnCalls turns, NotPoll call := by
      intro call hcall
      obtain ⟨turn, hturn, hcall⟩ := List.mem_flatMap.mp hcall
      exact notPoll_syncOneRoot (hupload _ (hturns turn hturn)) turn.2 hcall
    refine allSteps_of_invariant (I := LocalOnly) hcalls ?_ fun rt call hcall hI => localOnly_step hcall hI
    intro c hc
    rw [Runtime.new_overflow] at hc
    cases hc

end Always

end Pcloud
