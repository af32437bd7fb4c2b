import Pcloud.Cache.Staging
import Pcloud.Lib.Runs
import Pcloud.Model.Bytes

/-!
# Writeback (`pcloud-fs/src/writeback.rs`, `journal.rs`)

A staged write has its payload in the staging buffer and an entry in the journal until a flush
drains the entry. The journal holds `maxPendingOperations` entries and refuses more, the buffer
`maxOpenFiles` payloads and drops the oldest.
-/

open Runs

namespace Pcloud

/-! ## The journal -/

structure JournalEntry where
  path : String
  operation : String
  bytes : Nat
deriving DecidableEq

inductive JournalError
  | full (pending capacity : Nat)
deriving DecidableEq

structure WritebackJournal where
  maxPendingOperations : Nat := 4096
  pending : List JournalEntry := []
deriving DecidableEq

namespace WritebackJournal

variable (journal : WritebackJournal)

def append (entry : JournalEntry) : Except JournalError WritebackJournal :=
  if journal.maxPendingOperations ≤ journal.pending.length then
    .error (.full journal.pending.length journal.maxPendingOperations)
  else .ok { journal with pending := journal.pending ++ [entry] }

/-- The loop of `drain`: what it drains and what it leaves. -/
def drainLoop : Nat → List JournalEntry → List JournalEntry × List JournalEntry
  | 0, pending => ([], pending)
  | _ + 1, [] => ([], [])
  | limit + 1, entry :: pending =>
    let (drained, rest) := drainLoop limit pending
    (entry :: drained, rest)

def drain (limit : Nat) : List JournalEntry × WritebackJournal :=
  let (drained, pending) := drainLoop limit journal.pending
  (drained, { journal with pending })

theorem drainLoop_eq (limit : Nat) (pending : List JournalEntry) :
    drainLoop limit pending = (pending.take limit, pending.drop limit) := by
  induction limit generalizing pending with
  | zero => rfl
  | succ limit ih =>
    rcases pending with _ | ⟨entry, pending⟩
    · rfl
    · simp [drainLoop, ih]

end WritebackJournal

/-! ## The service -/

namespace StagingCache

variable {α : Type} (c : StagingCache α) (path : String)

/-- What `stage_write` and `flush` both do to a path. -/
def unstage : StagingCache α :=
  { c with files := c.files.erase path, openOrder := c.openOrder.filter (· ≠ path) }

end StagingCache

structure WritebackService where
  staging : StagingCache Buffer := {}
  completedWrites : Nat := 0

namespace WritebackService

variable (service : WritebackService) (journal : WritebackJournal)

def stageWrite (path : String) (bytes : Buffer) : Except JournalError Unit × WritebackService × WritebackJournal :=
  let staging := service.staging.stage path bytes
  match journal.append { path, operation := "write", bytes := bytes.bytes.length } with
  | .ok journal => (.ok (), { service with staging }, journal)
  | .error e => (.error e, { service with staging := staging.unstage path }, journal)

def flush (maxEntries : Nat) : List JournalEntry × WritebackService × WritebackJournal :=
  let (drained, journal) := journal.drain maxEntries
  let staging := drained.foldl (fun staging entry => staging.unstage entry.path) service.staging
  (drained, { staging, completedWrites := service.completedWrites + drained.length }, journal)

end WritebackService

/-! ## What the buffer does to a path -/

namespace StagingCache

variable {α : Type} {c : StagingCache α} {path other : String} {bytes : α}

/-- The order lists the staged paths, and they are within the limit. -/
structure Listed (c : StagingCache α) : Prop where
  perm : c.files.keys.Perm c.openOrder
  bound : c.openOrder.length ≤ c.maxOpenFiles

/-- Two buffers that hold the same, in the same order. -/
structure Same (c c' : StagingCache α) : Prop where
  order : c.openOrder = c'.openOrder
  get : ∀ path, c.get path = c'.get path

/-- The order with `path` staged last. -/
def orderAfter (c : StagingCache α) (path : String) : List String := c.openOrder.filter (· ≠ path) ++ [path]

theorem erase_eq_filter {order : List String} (h : order.Nodup) (path : String) :
    order.erase path = order.filter (· ≠ path) := by
  rw [h.erase_eq_filter]
  apply List.filter_congr
  intro x _
  simp [bne, beq_eq_decide]

theorem Listed.nodup (h : c.Listed) : c.openOrder.Nodup := h.perm.nodup_iff.mp c.files.keys_nodup

theorem Listed.get_isSome (h : c.Listed) : (c.get path).isSome ↔ path ∈ c.openOrder := by
  rw [← h.perm.mem_iff, ← AList.mem_keys]
  exact AList.lookup_isSome

theorem Listed.get_eq_none (h : c.Listed) : c.get path = none ↔ path ∉ c.openOrder := by
  rw [← h.get_isSome]
  simp

theorem Listed.orderAfter_perm (h : c.Listed) (path : String) (bytes : α) :
    (c.files.insert path bytes).keys.Perm (c.orderAfter path) := by
  rw [AList.keys_insert, orderAfter, ← erase_eq_filter h.nodup]
  exact ((h.perm.erase path).cons path).trans (List.perm_append_singleton path _).symm

theorem Listed.nodup_orderAfter (h : c.Listed) (path : String) (bytes : α) : (c.orderAfter path).Nodup :=
  (h.orderAfter_perm path bytes).nodup_iff.mp (AList.keys_nodup _)

theorem Listed.stage (h : c.Listed) (path : String) (bytes : α) :
    (c.stage path bytes).openOrder = (c.orderAfter path).drop ((c.orderAfter path).length - c.maxOpenFiles) ∧
      ∀ other, (c.stage path bytes).get other =
        if other ∈ (c.stage path bytes).openOrder then (if other = path then some bytes else c.get other)
        else none := by
  have horder : (if (c.files.lookup path).isSome then c.openOrder.filter (· ≠ path) else c.openOrder) ++ [path] =
      c.orderAfter path := by
    unfold orderAfter
    split
    · rfl
    · rename_i hnone
      have habsent : path ∉ c.openOrder := fun hmem => hnone (h.get_isSome.mpr hmem)
      congr 1
      symm
      rw [List.filter_eq_self]
      intro x hx
      exact decide_eq_true fun heq => habsent (heq ▸ hx)
  obtain ⟨hcut, hget⟩ := evictIfNeeded_eq c.maxOpenFiles (h.orderAfter_perm path bytes)
  have hstage : (c.stage path bytes).openOrder = (c.orderAfter path).drop
      ((c.orderAfter path).length - c.maxOpenFiles) := by
    simp only [StagingCache.stage, horder]
    exact hcut
  refine ⟨hstage, fun other => ?_⟩
  rw [hstage]
  simp only [StagingCache.stage, StagingCache.get, horder]
  rw [hget]
  split_ifs with hmem hsame
  · rw [hsame, AList.lookup_insert]
  · rw [AList.lookup_insert_ne hsame]
  · rfl

theorem Listed.cut (h : c.Listed) (bytes : α) (hcut : c.maxOpenFiles < (c.orderAfter path).length) :
    ∃ oldest order, c.orderAfter path = oldest :: order ∧ oldest ∉ (c.stage path bytes).openOrder := by
  have hnodup := h.nodup_orderAfter path bytes
  rw [(h.stage path bytes).1]
  obtain ⟨oldest, order, horder⟩ := List.exists_cons_of_length_pos (Nat.zero_lt_of_lt hcut)
  refine ⟨oldest, order, horder, fun hmem => ?_⟩
  rw [horder] at hnodup hcut hmem
  rw [List.length_cons, show order.length + 1 - c.maxOpenFiles = order.length - c.maxOpenFiles + 1 by
    rw [List.length_cons] at hcut; omega, List.drop_succ_cons] at hmem
  exact (List.nodup_cons.mp hnodup).1 (List.mem_of_mem_drop hmem)

theorem Listed.stage_of_fits (h : c.Listed) (bytes : α) (hfits : (c.orderAfter path).length ≤ c.maxOpenFiles) :
    (c.stage path bytes).openOrder = c.orderAfter path := by
  rw [(h.stage path bytes).1, Nat.sub_eq_zero_of_le hfits, List.drop_zero]

theorem Listed.listed_stage (h : c.Listed) (path : String) (bytes : α) : (c.stage path bytes).Listed := by
  obtain ⟨horder, hget⟩ := h.stage path bytes
  have hnodup : (c.stage path bytes).openOrder.Nodup := by
    rw [horder]
    exact (h.nodup_orderAfter path bytes).sublist (List.drop_sublist _ _)
  constructor
  · rw [List.perm_ext_iff_of_nodup (AList.keys_nodup _) hnodup]
    intro other
    rw [← AList.mem_keys, ← AList.lookup_isSome]
    show ((c.stage path bytes).get other).isSome ↔ _
    rw [hget]
    constructor
    · intro hsome
      by_contra habsent
      simp [habsent] at hsome
    · intro hmem
      have hafter : other ∈ c.orderAfter path := List.mem_of_mem_drop (horder ▸ hmem)
      rw [if_pos hmem]
      split_ifs with hsame
      · rfl
      · apply h.get_isSome.mpr
        simpa [orderAfter, hsame] using hafter
  · rw [horder]
    simp only [List.length_drop, StagingCache.stage]
    omega

theorem get_unstage (c : StagingCache α) (path other : String) :
    (c.unstage path).get other = if other = path then none else c.get other := by
  simp only [unstage, StagingCache.get]
  split_ifs with hsame
  · rw [hsame, AList.lookup_erase]
  · rw [AList.lookup_erase_ne hsame]

theorem Listed.unstage (h : c.Listed) (path : String) : (c.unstage path).Listed := by
  constructor
  · simp only [StagingCache.unstage, AList.keys_erase]
    rw [← erase_eq_filter h.nodup]
    exact h.perm.erase path
  · exact Nat.le_trans (List.length_filter_le _ _) h.bound

/-- What `flush` does to the drained paths. -/
def unstageAll (c : StagingCache α) (drained : List JournalEntry) : StagingCache α :=
  drained.foldl (fun staging entry => staging.unstage entry.path) c

theorem Listed.unstageAll (h : c.Listed) (drained : List JournalEntry) : (c.unstageAll drained).Listed := by
  induction drained generalizing c with
  | nil => exact h
  | cons entry drained ih => exact ih (h.unstage entry.path)

theorem get_unstageAll (c : StagingCache α) (drained : List JournalEntry) (path : String) :
    (c.unstageAll drained).get path = if path ∈ drained.map JournalEntry.path then none else c.get path := by
  induction drained generalizing c with
  | nil => simp [StagingCache.unstageAll]
  | cons entry drained ih =>
    refine (ih (c.unstage entry.path)).trans ?_
    rw [get_unstage]
    by_cases hdrained : path ∈ drained.map JournalEntry.path
    · simp only [List.map_cons, List.mem_cons, hdrained, or_true, if_true]
    · simp only [List.map_cons, List.mem_cons, hdrained, or_false, if_false]

/-! ### What it can hold -/

theorem of_evictIfNeeded (maxOpenFiles : Nat) {files : AList fun _ : String => α} {order : List String} {staged : α}
    (h : (evictIfNeeded maxOpenFiles files order).1.lookup path = some staged) : files.lookup path = some staged := by
  induction order generalizing files with
  | nil => exact h
  | cons oldest order ih =>
    unfold evictIfNeeded at h
    split_ifs at h
    · have herased := ih h
      by_cases hpath : path = oldest
      · rw [hpath, AList.lookup_erase] at herased
        cases herased
      · rwa [AList.lookup_erase_ne hpath] at herased
    · exact h

theorem get_stage {staged : α} (h : (c.stage path bytes).get other = some staged) :
    other = path ∧ staged = bytes ∨ c.get other = some staged := by
  have hinsert := of_evictIfNeeded c.maxOpenFiles h
  by_cases hother : other = path
  · rw [hother, AList.lookup_insert, Option.some.injEq] at hinsert
    exact .inl ⟨hother, hinsert.symm⟩
  · rw [AList.lookup_insert_ne hother] at hinsert
    exact .inr hinsert

theorem of_get_unstage {staged : α} (h : (c.unstage path).get other = some staged) : c.get other = some staged := by
  rw [get_unstage] at h
  split_ifs at h
  exact h

theorem of_get_unstageAll {drained : List JournalEntry} {staged : α}
    (h : (c.unstageAll drained).get path = some staged) : c.get path = some staged := by
  rw [get_unstageAll] at h
  split_ifs at h
  exact h

end StagingCache

theorem WritebackService.get_stageWrite {service : WritebackService} {journal : WritebackJournal} {path other : String}
    {bytes staged : Buffer} (h : (service.stageWrite journal path bytes).2.1.staging.get other = some staged) :
    other = path ∧ staged = bytes ∨ service.staging.get other = some staged := by
  unfold stageWrite at h
  split at h
  · exact StagingCache.get_stage h
  · exact StagingCache.get_stage (StagingCache.of_get_unstage h)

/-! ## Runs -/

/-- The service with its journal. `accepted` is the payload last accepted for a path. -/
structure Writeback where
  service : WritebackService := {}
  journal : WritebackJournal := {}
  accepted : String → Option Buffer := fun _ => none

namespace Writeback

inductive Call
  | stageWrite (path : String) (bytes : Buffer)
  | flush (maxEntries : Nat)

def step (w : Writeback) : Call → Writeback
  | .stageWrite path bytes =>
    match w.service.stageWrite w.journal path bytes with
    | (.ok _, service, journal) => { service, journal, accepted := Function.update w.accepted path (some bytes) }
    | (.error _, service, journal) => { w with service, journal }
  | .flush maxEntries =>
    let (_, service, journal) := w.service.flush w.journal maxEntries
    { w with service, journal }

def new (maxOpenFiles maxPendingOperations : Nat) : Writeback where
  service := { staging := { maxOpenFiles } }
  journal := { maxPendingOperations }

/-- Each path with a pending entry has the payload last accepted for it in staging. -/
def KeepsPayloads (w : Writeback) : Prop :=
  ∀ entry ∈ w.journal.pending, ∃ bytes, w.accepted entry.path = some bytes ∧
    w.service.staging.get entry.path = some bytes

/-- A write refused because the journal is full leaves staging and journal as they were. -/
def RefusalChangesNothing (w : Writeback) : Call → Prop
  | .stageWrite path bytes => ∀ pending capacity,
    (w.service.stageWrite w.journal path bytes).1 = .error (.full pending capacity) →
      (w.step (.stageWrite path bytes)).service.staging.Same w.service.staging ∧
        (w.step (.stageWrite path bytes)).journal = w.journal
  | .flush _ => True

/-- The calls after which nothing pending has lost its payload. A path staged for the first time
finds room, a path already staged is not written to a full journal, and a flush takes a path's entries
all or none. -/
def Keeping (w : Writeback) : Call → Prop
  | .stageWrite path _ =>
    if w.journal.pending.length < w.journal.maxPendingOperations then
      path ∈ w.service.staging.openOrder ∨ w.service.staging.openOrder.length < w.service.staging.maxOpenFiles
    else
      path ∉ w.service.staging.openOrder ∧
        (w.service.staging.openOrder = [] ∨ w.service.staging.openOrder.length < w.service.staging.maxOpenFiles)
  | .flush maxEntries =>
    ∀ entry ∈ w.journal.pending.take maxEntries, ∀ later ∈ w.journal.pending.drop maxEntries,
      entry.path ≠ later.path

variable {w : Writeback}

/-- What every call keeps: what is staged is pending, and what is pending was accepted. -/
structure Wf (w : Writeback) : Prop where
  listed : w.service.staging.Listed
  pending : ∀ path ∈ w.service.staging.openOrder, ∃ entry ∈ w.journal.pending, entry.path = path
  accepted : ∀ entry ∈ w.journal.pending, ∃ bytes, w.accepted entry.path = some bytes

theorem wf_new (maxOpenFiles maxPendingOperations : Nat) : (new maxOpenFiles maxPendingOperations).Wf := by
  refine ⟨⟨List.Perm.refl _, Nat.zero_le _⟩, ?_, ?_⟩
  · intro path hpath
    exact absurd hpath List.not_mem_nil
  · intro entry hentry
    exact absurd hentry List.not_mem_nil

/-! ### What a call does -/

theorem step_accepted (h : w.journal.pending.length < w.journal.maxPendingOperations) (path : String) (bytes : Buffer) :
    w.step (.stageWrite path bytes) =
      { service := { w.service with staging := w.service.staging.stage path bytes }
        journal := { w.journal with
          pending := w.journal.pending ++ [{ path, operation := "write", bytes := bytes.bytes.length }] }
        accepted := Function.update w.accepted path (some bytes) } := by
  simp [step, WritebackService.stageWrite, WritebackJournal.append, Nat.not_le.mpr h]

theorem step_refused (h : w.journal.maxPendingOperations ≤ w.journal.pending.length) (path : String) (bytes : Buffer) :
    w.step (.stageWrite path bytes) =
      { w with service := { w.service with staging := (w.service.staging.stage path bytes).unstage path } } := by
  simp [step, WritebackService.stageWrite, WritebackJournal.append, h]

theorem step_flush (w : Writeback) (maxEntries : Nat) :
    w.step (.flush maxEntries) =
      { w with
        service :=
          { staging := w.service.staging.unstageAll (w.journal.pending.take maxEntries)
            completedWrites := w.service.completedWrites + (w.journal.pending.take maxEntries).length }
        journal := { w.journal with pending := w.journal.pending.drop maxEntries } } := by
  simp [step, WritebackService.flush, WritebackJournal.drain, WritebackJournal.drainLoop_eq,
    StagingCache.unstageAll]

theorem refused_iff {path : String} {bytes : Buffer} :
    (∃ pending capacity, (w.service.stageWrite w.journal path bytes).1 = .error (.full pending capacity)) ↔
      w.journal.maxPendingOperations ≤ w.journal.pending.length := by
  by_cases h : w.journal.maxPendingOperations ≤ w.journal.pending.length
  · simp [WritebackService.stageWrite, WritebackJournal.append, h]
  · simp [WritebackService.stageWrite, WritebackJournal.append, h]

/-! ### What every call keeps -/

theorem Wf.step (h : w.Wf) (c : Call) : (w.step c).Wf := by
  rcases c with ⟨path, bytes⟩ | maxEntries
  · have hlisted := h.listed.listed_stage path bytes
    have horder : ∀ other ∈ (w.service.staging.stage path bytes).openOrder,
        other = path ∨ other ∈ w.service.staging.openOrder := by
      intro other hother
      rw [(h.listed.stage path bytes).1] at hother
      have hafter := List.mem_of_mem_drop hother
      simp only [StagingCache.orderAfter, List.mem_append, List.mem_filter, List.mem_singleton] at hafter
      exact hafter.symm.imp_right And.left
    rcases Nat.lt_or_ge w.journal.pending.length w.journal.maxPendingOperations with hroom | hfull
    · rw [step_accepted hroom]
      refine ⟨hlisted, fun other hother => ?_, fun entry hentry => ?_⟩
      · rcases horder other hother with rfl | hother
        · exact ⟨_, List.mem_append_right _ (List.mem_singleton_self _), rfl⟩
        · obtain ⟨entry, hentry, hpath⟩ := h.pending other hother
          exact ⟨entry, List.mem_append_left _ hentry, hpath⟩
      · by_cases hpath : entry.path = path
        · exact ⟨bytes, by simp [hpath]⟩
        · rcases List.mem_append.mp hentry with hentry | hentry
          · obtain ⟨accepted, haccepted⟩ := h.accepted entry hentry
            exact ⟨accepted, by simp [hpath, haccepted]⟩
          · exact absurd (congrArg JournalEntry.path (List.mem_singleton.mp hentry)) hpath
    · rw [step_refused hfull]
      refine ⟨hlisted.unstage path, fun other hother => ?_, h.accepted⟩
      obtain ⟨hother, hne⟩ := List.mem_filter.mp hother
      rcases horder other hother with rfl | hother
      · simp at hne
      · exact h.pending other hother
  · rw [step_flush]
    refine ⟨h.listed.unstageAll _, fun path hpath => ?_,
      fun entry hentry => h.accepted entry (List.mem_of_mem_drop hentry)⟩
    rw [← (h.listed.unstageAll _).get_isSome, StagingCache.get_unstageAll] at hpath
    split_ifs at hpath with hdrained
    · simp at hpath
    · obtain ⟨entry, hentry, hentrypath⟩ := h.pending path (h.listed.get_isSome.mp hpath)
      rw [← List.take_append_drop maxEntries w.journal.pending, List.mem_append] at hentry
      rcases hentry with hentry | hentry
      · exact absurd (List.mem_map.mpr ⟨entry, hentry, hentrypath⟩) hdrained
      · exact ⟨entry, hentry, hentrypath⟩

/-! ### What a call may lose -/

theorem length_orderAfter (h : w.service.staging.Listed) (path : String) :
    (w.service.staging.orderAfter path).length ≤ w.service.staging.maxOpenFiles ↔
      path ∈ w.service.staging.openOrder ∨ w.service.staging.openOrder.length < w.service.staging.maxOpenFiles := by
  have hbound := h.bound
  have hlength : (w.service.staging.orderAfter path).length = (w.service.staging.openOrder.erase path).length + 1 := by
    simp [StagingCache.orderAfter, StagingCache.erase_eq_filter h.nodup]
  by_cases hmem : path ∈ w.service.staging.openOrder
  · have := List.length_erase_of_mem hmem
    have := List.length_pos_of_mem hmem
    simp only [hmem, true_or, iff_true]
    omega
  · have := List.erase_of_not_mem hmem
    simp only [hmem, false_or]
    rw [hlength, this]
    omega

theorem keeps_accepted (h : w.Wf) (hkeeps : w.KeepsPayloads)
    (hroom : w.journal.pending.length < w.journal.maxPendingOperations) (path : String) (bytes : Buffer) :
    (w.step (.stageWrite path bytes)).KeepsPayloads ↔
      path ∈ w.service.staging.openOrder ∨ w.service.staging.openOrder.length < w.service.staging.maxOpenFiles := by
  obtain ⟨-, hget⟩ := h.listed.stage path bytes
  rw [← length_orderAfter h.listed, step_accepted hroom]
  constructor
  · intro hstep
    by_contra hcut
    obtain ⟨oldest, order, horder, hgone⟩ := h.listed.cut bytes (Nat.lt_of_not_le hcut)
    -- The path that is dropped is the one written, or was staged and so is pending.
    have hpending : ∃ entry ∈ w.journal.pending ++ [{ path, operation := "write", bytes := bytes.bytes.length }],
        entry.path = oldest := by
      have hmem : oldest ∈ w.service.staging.orderAfter path := by simp [horder]
      rcases List.mem_append.mp hmem with hmem | hmem
      · obtain ⟨entry, hentry, hpath⟩ := h.pending oldest (List.mem_of_mem_filter hmem)
        exact ⟨entry, List.mem_append_left _ hentry, hpath⟩
      · exact ⟨_, List.mem_append_right _ (List.mem_singleton_self _), (List.mem_singleton.mp hmem).symm⟩
    obtain ⟨entry, hentry, rfl⟩ := hpending
    obtain ⟨payload, -, hpayload⟩ := hstep entry hentry
    simp [hget, hgone] at hpayload
  · intro hfits entry hentry
    have horder := h.listed.stage_of_fits bytes hfits
    by_cases hpath : entry.path = path
    · have hmem : path ∈ w.service.staging.orderAfter path := by simp [StagingCache.orderAfter]
      exact ⟨bytes, by simp [hpath], by simp [hget, horder, hpath, hmem]⟩
    · have hold : entry ∈ w.journal.pending := by
        rcases List.mem_append.mp hentry with hentry | hentry
        · exact hentry
        · exact absurd (congrArg JournalEntry.path (List.mem_singleton.mp hentry)) hpath
      obtain ⟨payload, haccepted, hpayload⟩ := hkeeps entry hold
      have hmem : entry.path ∈ w.service.staging.orderAfter path := by
        have hstaged := h.listed.get_isSome.mp (Option.isSome_iff_exists.mpr ⟨payload, hpayload⟩)
        simp [StagingCache.orderAfter, hstaged, hpath]
      exact ⟨payload, by simp [hpath, haccepted], by simp [hget, horder, hmem, hpath, hpayload]⟩

theorem same_refused (h : w.Wf) (path : String) (bytes : Buffer) :
    ((w.service.staging.stage path bytes).unstage path).Same w.service.staging ↔
      path ∉ w.service.staging.openOrder ∧
        (w.service.staging.openOrder = [] ∨ w.service.staging.openOrder.length < w.service.staging.maxOpenFiles) := by
  obtain ⟨horder, hget⟩ := h.listed.stage path bytes
  have hafter (hnot : path ∉ w.service.staging.openOrder) :
      w.service.staging.orderAfter path = w.service.staging.openOrder ++ [path] := by
    rw [StagingCache.orderAfter, ← StagingCache.erase_eq_filter h.listed.nodup, List.erase_of_not_mem hnot]
  constructor
  · intro hsame
    have hnot : path ∉ w.service.staging.openOrder := by
      rw [← h.listed.get_eq_none, ← hsame.get, StagingCache.get_unstage, if_pos rfl]
    refine ⟨hnot, ?_⟩
    by_contra hfull
    rw [not_or, Nat.not_lt] at hfull
    have hcut : w.service.staging.maxOpenFiles < (w.service.staging.orderAfter path).length := by
      rw [hafter hnot, List.length_append, List.length_singleton]
      omega
    obtain ⟨oldest, order, hcons, hgone⟩ := h.listed.cut bytes hcut
    have hstaged : oldest ∈ w.service.staging.openOrder := by
      rw [hafter hnot] at hcons
      rcases hopen : w.service.staging.openOrder with _ | ⟨first, others⟩
      · exact absurd hopen hfull.1
      · rw [hopen, List.cons_append, List.cons.injEq] at hcons
        simp [hcons.1]
    rw [← hsame.order] at hstaged
    exact hgone (List.mem_of_mem_filter hstaged)
  · rintro ⟨hnot, hfits⟩
    have hrest : (w.service.staging.stage path bytes).openOrder.filter (· ≠ path) = w.service.staging.openOrder := by
      rcases hfits with hempty | hroom
      · rw [horder, hafter hnot, hempty]
        rcases w.service.staging.maxOpenFiles with _ | maxOpenFiles <;> simp
      · have hall : w.service.staging.openOrder.filter (· ≠ path) = w.service.staging.openOrder := by
          rw [← StagingCache.erase_eq_filter h.listed.nodup, List.erase_of_not_mem hnot]
        rw [h.listed.stage_of_fits bytes ((length_orderAfter h.listed path).mpr (.inr hroom)), hafter hnot,
          List.filter_append, hall]
        simp
    refine ⟨hrest, fun other => ?_⟩
    rw [StagingCache.get_unstage]
    by_cases hsame : other = path
    · rw [if_pos hsame, hsame, h.listed.get_eq_none.mpr hnot]
    · have hmem : other ∈ (w.service.staging.stage path bytes).openOrder ↔ other ∈ w.service.staging.openOrder := by
        rw [← hrest, List.mem_filter]
        simp [hsame]
      rw [if_neg hsame, hget, if_neg hsame]
      split_ifs with hstaged
      · rfl
      · exact (h.listed.get_eq_none.mpr fun hopen => hstaged (hmem.mpr hopen)).symm

theorem keeps_of_same {w' : Writeback} (hkeeps : w.KeepsPayloads) (hpending : w'.journal.pending = w.journal.pending)
    (haccepted : w'.accepted = w.accepted) (hsame : w'.service.staging.Same w.service.staging) : w'.KeepsPayloads := by
  intro entry hentry
  obtain ⟨bytes, hbytes, hget⟩ := hkeeps entry (hpending ▸ hentry)
  exact ⟨bytes, by rw [haccepted, hbytes], by rw [hsame.get, hget]⟩

theorem keeps_flush (hkeeps : w.KeepsPayloads) (maxEntries : Nat) :
    (w.step (.flush maxEntries)).KeepsPayloads ↔
      ∀ entry ∈ w.journal.pending.take maxEntries, ∀ later ∈ w.journal.pending.drop maxEntries,
        entry.path ≠ later.path := by
  rw [step_flush]
  constructor
  · intro hstep entry hentry later hlater heq
    obtain ⟨bytes, -, hget⟩ := hstep later hlater
    rw [StagingCache.get_unstageAll, if_pos (List.mem_map.mpr ⟨entry, hentry, heq⟩)] at hget
    cases hget
  · intro hapart later hlater
    obtain ⟨bytes, haccepted, hget⟩ := hkeeps later (List.mem_of_mem_drop hlater)
    refine ⟨bytes, haccepted, ?_⟩
    rw [StagingCache.get_unstageAll, if_neg, hget]
    intro hdrained
    obtain ⟨entry, hentry, heq⟩ := List.mem_map.mp hdrained
    exact hapart entry hentry later hlater heq

theorem keeping_iff (h : w.Wf) (hkeeps : w.KeepsPayloads) (c : Call) :
    (w.step c).KeepsPayloads ∧ w.RefusalChangesNothing c ↔ w.Keeping c := by
  rcases c with ⟨path, bytes⟩ | maxEntries
  · rcases Nat.lt_or_ge w.journal.pending.length w.journal.maxPendingOperations with hroom | hfull
    · simp only [Keeping, if_pos hroom]
      rw [keeps_accepted h hkeeps hroom]
      refine and_iff_left fun pending capacity hfull => ?_
      exact absurd (refused_iff.mp ⟨pending, capacity, hfull⟩) (Nat.not_le.mpr hroom)
    · simp only [Keeping, if_neg (Nat.not_lt.mpr hfull)]
      rw [← same_refused h path bytes]
      constructor
      · rintro ⟨-, hrefused⟩
        obtain ⟨pending, capacity, herror⟩ := refused_iff.mpr hfull
        have := (hrefused pending capacity herror).1
        rwa [step_refused hfull] at this
      · intro hsame
        have hstep := step_refused hfull path bytes
        refine ⟨?_, fun _ _ _ => ⟨by rwa [hstep], by rw [hstep]⟩⟩
        rw [hstep]
        exact keeps_of_same hkeeps rfl rfl hsame
  · rw [keeps_flush hkeeps]
    exact and_iff_left trivial

/-- Pending payloads are kept, and refused writes change nothing, in exactly the runs of `Keeping` calls. -/
theorem keepsPayloads_iff (maxOpenFiles maxPendingOperations : Nat) (calls : List Call) :
    AllStates step KeepsPayloads (new maxOpenFiles maxPendingOperations) calls ∧
        AllSteps step RefusalChangesNothing (new maxOpenFiles maxPendingOperations) calls ↔
      AllSteps step Keeping (new maxOpenFiles maxPendingOperations) calls := by
  apply allStates_and_allSteps_iff (I := Wf)
  · intro w c h
    exact h.step c
  · intro w c h hkeeps
    exact keeping_iff h hkeeps c
  · exact wf_new maxOpenFiles maxPendingOperations
  · intro entry hentry
    exact absurd hentry List.not_mem_nil

/-- A path is written twice and one entry is flushed: the later write is still pending, and its payload is gone. -/
theorem not_keepsPayloads :
    ¬ (AllStates step KeepsPayloads (new 64 4096)
        [.stageWrite "docs/report.txt" ⟨[1], by decide⟩, .stageWrite "docs/report.txt" ⟨[2], by decide⟩, .flush 1] ∧
      AllSteps step RefusalChangesNothing (new 64 4096)
        [.stageWrite "docs/report.txt" ⟨[1], by decide⟩, .stageWrite "docs/report.txt" ⟨[2], by decide⟩, .flush 1]) := by
  rintro ⟨hstates, -⟩
  obtain ⟨bytes, haccepted, hget⟩ := hstates.run ⟨"docs/report.txt", "write", 1⟩ (by decide)
  have hgone : (run step (new 64 4096)
      [.stageWrite "docs/report.txt" ⟨[1], by decide⟩, .stageWrite "docs/report.txt" ⟨[2], by decide⟩,
        .flush 1]).service.staging.get "docs/report.txt" = none := by decide
  rw [hgone] at hget
  cases hget

end Writeback

end Pcloud
