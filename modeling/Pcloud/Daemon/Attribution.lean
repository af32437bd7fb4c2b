import Pcloud.Daemon.Runtime

/-!
# Whose changes a poll reports

`convert_diff_batch` gives every batch the sync id 1 and every entry its bare name as its path.
Both are right only in special cases, which are spelled out here.
-/

namespace Pcloud

def SameObject (a b : DiffEntry) : Prop :=
  a.metadata.fileId = b.metadata.fileId ∧ a.metadata.folderId = b.metadata.folderId

/-- What a poll of `root` hands to the planner, and what is planned at its paths, is `root`'s. -/
def PollAttributes (rt : Runtime) (root : SyncRootRecord) (answer : DiffBatch) : Prop :=
  ∀ candidates, Runtime.pollCandidates (some answer) = some candidates →
    (∀ c ∈ candidates, c.syncId = root.syncId) ∧
    ∀ op ∈ rt.engine.planned candidates (rt.deletePolicy root), op.path ∈ pathsOf candidates →
      op.syncId = root.syncId

/-- Distinct objects of different folders get different paths. -/
def PathsApart (answer : DiffBatch) : Prop :=
  ∀ a ∈ answer.entries, ∀ b ∈ answer.entries, ¬ SameObject a b →
    a.metadata.parentFolderId ≠ b.metadata.parentFolderId →
      (remoteCandidate a).path ≠ (remoteCandidate b).path

def NamesApart (answer : DiffBatch) : Prop :=
  ∀ a ∈ answer.entries, ∀ b ∈ answer.entries, ¬ SameObject a b →
    a.metadata.parentFolderId ≠ b.metadata.parentFolderId → a.metadata.name ≠ b.metadata.name

/-- A local change of another root that waits at a path of the batch meets a remote change
there only if both are deletes. -/
def TwinsAgree (rt : Runtime) (answer : DiffBatch) : Prop :=
  ∀ r l, lastAt .Remote r.path (answer.entries.map remoteCandidate) = some r →
    Due rt.engine.planner.maxOperationsPerTick
      (rt.engine.plannerOverflow ++ answer.entries.map remoteCandidate) r.path →
    lastAt .Local r.path rt.engine.plannerOverflow = some l → l.syncId = ⟨1⟩ ∨ BothDelete l r

theorem pollCandidates_eq_some {answer : DiffBatch} {candidates : List SyncCandidate} :
    Runtime.pollCandidates (some answer) = some candidates ↔
      (∀ e ∈ answer.entries, isValidRelativePath e.metadata.name = true) ∧
        candidates = answer.entries.map remoteCandidate := by
  rw [Runtime.pollCandidates_some, normalize_convert_eq_ok]

theorem mem_remoteCandidates {entries : List DiffEntry} {c : SyncCandidate}
    (h : c ∈ entries.map remoteCandidate) : c.source = .Remote ∧ c.syncId = ⟨1⟩ := by
  obtain ⟨e, -, rfl⟩ := List.mem_map.mp h
  exact ⟨rfl, rfl⟩

/-! ## The sides of a batch path -/

section Sides

variable {overflow : List SyncCandidate} {entries : List DiffEntry} {path : String}

theorem lastAt_local_polled :
    lastAt .Local path (overflow ++ entries.map remoteCandidate) = lastAt .Local path overflow := by
  have hnone : lastAt .Local path (entries.map remoteCandidate) = none := by
    rw [lastAt_eq_none]
    intro c hc _ hlocal
    rw [(mem_remoteCandidates hc).1] at hlocal
    cases hlocal
  rw [lastAt_append, hnone, Option.none_or]

theorem lastAt_remote_polled (overflow : List SyncCandidate)
    (h : path ∈ pathsOf (entries.map remoteCandidate)) :
    ∃ r, lastAt .Remote path (entries.map remoteCandidate) = some r ∧
      lastAt .Remote path (overflow ++ entries.map remoteCandidate) = some r := by
  obtain ⟨c, hc, hpath⟩ := mem_pathsOf.mp h
  rcases hr : lastAt .Remote path (entries.map remoteCandidate) with _ | r
  · exact absurd (mem_remoteCandidates hc).1 (lastAt_eq_none.mp hr c hc hpath)
  · exact ⟨r, rfl, by rw [lastAt_append, hr, Option.some_or]⟩

end Sides

/-! ## The ids -/

theorem planned_ids_iff {rt : Runtime} {root : SyncRootRecord} {answer : DiffBatch} :
    (∀ op ∈ rt.engine.planned (answer.entries.map remoteCandidate) (rt.deletePolicy root),
      op.path ∈ pathsOf (answer.entries.map remoteCandidate) → op.syncId = ⟨1⟩) ↔
        TwinsAgree rt answer := by
  unfold TwinsAgree
  constructor
  · intro hids r l hr hdue hl
    obtain ⟨hmem, -, hsource⟩ := lastAt_mem hr
    have hpath : r.path ∈ pathsOf (answer.entries.map remoteCandidate) :=
      mem_pathsOf.mpr ⟨r, hmem, rfl⟩
    have hremote : lastAt .Remote r.path (rt.engine.plannerOverflow ++ answer.entries.map remoteCandidate) =
        some r := by rw [lastAt_append, hr, Option.some_or]
    rcases planPair_remote_cases (l := some l) hsource with ⟨hboth, -⟩ | ⟨x, kind, hx, -, hconflict⟩
    · exact .inr (hboth l rfl)
    · obtain rfl := Option.some.inj hx
      obtain ⟨-, hlpath, -⟩ := lastAt_mem hl
      have hplanned : conflict l kind ∈ rt.engine.planned (answer.entries.map remoteCandidate)
          (rt.deletePolicy root) := by
        refine EngineShell.mem_planned.mpr ⟨rfl, r.path, ?_, hdue, ?_⟩
        · exact mem_pathsOf.mpr ⟨r, List.mem_append_right _ hmem, rfl⟩
        · rw [lastAt_local_polled, hl, hremote, hconflict]
      exact .inl (hids _ hplanned (by rw [show (conflict l kind).path = r.path from hlpath]; exact hpath))
  · intro htwins op hop hpath
    obtain ⟨-, p, -, hdue, hplan⟩ := EngineShell.mem_planned.mp hop
    rw [(planPair_lastAt_from hplan).1] at hpath
    obtain ⟨r, hr, hremote⟩ := lastAt_remote_polled rt.engine.plannerOverflow hpath
    obtain ⟨hmem, rfl, hsource⟩ := lastAt_mem hr
    have hid := (mem_remoteCandidates hmem).2
    rw [lastAt_local_polled, hremote] at hplan
    rcases planPair_remote_cases (l := lastAt .Local r.path rt.engine.plannerOverflow) hsource with
      ⟨-, hown⟩ | ⟨x, kind, hx, hnot, hconflict⟩
    · rw [Option.some.inj (hplan.symm.trans hown), planSingle_syncId, hid]
    · rw [Option.some.inj (hplan.symm.trans hconflict)]
      rcases htwins r x hr hdue hx with hx1 | hboth
      · exact hx1
      · exact absurd hboth hnot

theorem pollAttributes_iff {rt : Runtime} {root : SyncRootRecord} {answer : DiffBatch} :
    PollAttributes rt root answer ↔
      answer.entries = [] ∨ (∃ e ∈ answer.entries, isValidRelativePath e.metadata.name = false) ∨
        root.syncId = ⟨1⟩ ∧ TwinsAgree rt answer := by
  unfold PollAttributes
  simp only [pollCandidates_eq_some, and_imp, forall_eq_apply_imp_iff]
  constructor
  · intro hall
    rcases hentries : answer.entries with _ | ⟨e, es⟩
    · exact .inl rfl
    · rw [← hentries]
      right
      rcases Classical.em (∀ e ∈ answer.entries, isValidRelativePath e.metadata.name = true) with hv | hv
      · right
        obtain ⟨hids, hops⟩ := hall hv
        have hroot : root.syncId = ⟨1⟩ :=
          (hids (remoteCandidate e) (List.mem_map_of_mem (by rw [hentries]; exact List.mem_cons_self))).symm
        rw [hroot] at hops
        exact ⟨hroot, planned_ids_iff.mp hops⟩
      · left
        push Not at hv
        obtain ⟨x, hx, hinvalid⟩ := hv
        exact ⟨x, hx, by simpa using hinvalid⟩
  · intro hcases hv
    rcases hcases with hnil | ⟨e, he, hinvalid⟩ | ⟨hroot, htwins⟩
    · simp [hnil, pathsOf]
    · rw [hv e he] at hinvalid
      cases hinvalid
    · rw [hroot]
      exact ⟨fun c hc => (mem_remoteCandidates hc).2, planned_ids_iff.mpr htwins⟩

/-- A poll attributes its changes to the polled root, under paths of their own, exactly when
the root has id 1 (or nothing is ingested), no other root's local change turns up at one of the
paths, and no two objects of different folders share a name. -/
theorem poll_attribution_iff (rt : Runtime) (root : SyncRootRecord) (answer : DiffBatch) :
    PollAttributes rt root answer ∧ PathsApart answer ↔
      (answer.entries = [] ∨ (∃ e ∈ answer.entries, isValidRelativePath e.metadata.name = false) ∨
        root.syncId = ⟨1⟩ ∧ TwinsAgree rt answer) ∧ NamesApart answer := by
  rw [pollAttributes_iff]
  -- The path of an entry is its name.
  exact Iff.rfl

/-- Root 2 is polled, and two folders hold a `report.txt`. -/
theorem poll_misattributes :
    let root : SyncRootRecord := { syncId := ⟨2⟩, syncType := .Full }
    let rt := Runtime.new [root] {} 300 true
    let file (id parent : UInt64) : DiffEntry :=
      ⟨none, ⟨"report.txt", false, some id, none, some parent, false⟩⟩
    ¬ PollAttributes rt root ⟨7, false, [file 11 3]⟩ ∧
      ¬ PathsApart ⟨8, false, [file 11 3, file 12 4]⟩ := by
  intro root rt file
  refine ⟨fun h => ?_, fun h => ?_⟩
  · have hpolled : Runtime.pollCandidates (some ⟨7, false, [file 11 3]⟩) =
        some [remoteCandidate (file 11 3)] := by decide +kernel
    have hid := (h _ hpolled).1 _ List.mem_cons_self
    revert hid
    decide
  · have happart := h (file 11 3) (by simp) (file 12 4) (by simp)
    exact happart (by simp [SameObject, file]) (by simp [file]) rfl

end Pcloud
