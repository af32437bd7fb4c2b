import Pcloud.Fs.Inode

/-!
# Lookup replies against `forget`

A lookup is answered in three critical sections: the insertion of the path, the bootstrap of its count,
which together are `insert_with_lookup`, and `increment_lookup`, with which the reply goes out. Lookups and
`forget` messages run side by side, and nothing is invalidated.
-/

open Runs

namespace Pcloud

/-- How far a lookup is. -/
inductive Stage
  | inserted
  | tracked
  | replied
deriving DecidableEq

structure Lookup where
  path : String
  ino : Nat
  stage : Stage
deriving DecidableEq

structure Lookups where
  table : InodeTable := .new
  lookups : List Lookup := []
  forgotten : Nat → Nat := fun _ => 0

namespace Lookups

variable (s : Lookups)

/-- The replies that name `ino`. -/
def replied (ino : Nat) : Nat := s.lookups.countP fun l => l.ino = ino ∧ l.stage = .replied

/-- A lookup goes on to another stage. -/
def advance (i : Nat) (l : Lookup) (stage : Stage) : Lookups :=
  { s with lookups := s.lookups.set i { l with stage } }

def insert (path : String) (kind : FsEntryKind) : Lookups :=
  match s.table.insertOrGet path kind with
  | (.ok (ino, _), table) => { s with table, lookups := s.lookups ++ [{ path, ino, stage := .inserted }] }
  | (.error _, table) => { s with table }

def track (i : Nat) : Lookups :=
  match s.lookups[i]? with
  | some l => if l.stage = .inserted then { s.advance i l .tracked with table := s.table.bootstrapLookup l.ino } else s
  | none => s

def increment (i : Nat) : Lookups :=
  match s.lookups[i]? with
  | some l => if l.stage = .tracked then { s.advance i l .replied with table := s.table.incrementLookup l.ino } else s
  | none => s

/-- The kernel forgets replies that it got: a message for more than those is none. -/
def forget (ino nlookup : Nat) : Lookups :=
  if s.forgotten ino + nlookup ≤ s.replied ino then
    { s with
      table := s.table.forget ino nlookup
      forgotten := Function.update s.forgotten ino (s.forgotten ino + nlookup) }
  else s

/-- The next critical section of a lookup, or a message of the kernel. -/
inductive Event
  | insert (path : String) (kind : FsEntryKind)
  | track (i : Nat)
  | increment (i : Nat)
  | forget (ino nlookup : Nat)

def step : Event → Lookups
  | .insert path kind => s.insert path kind
  | .track i => s.track i
  | .increment i => s.increment i
  | .forget ino nlookup => s.forget ino nlookup

/-- A number of which the kernel holds replies resolves to the path it was given for. -/
def Resolves : Prop :=
  ∀ l ∈ s.lookups, l.stage = .replied → s.forgotten l.ino < s.replied l.ino →
    ∃ generation kind, s.table.resolve l.ino = some (l.path, generation, kind)

/-- Where a reply goes out, no `forget` has evicted its number since the insertion. -/
def Undisturbed : Event → Prop
  | .increment i => ∀ l ∈ s.lookups[i]?, l.stage = .tracked → (s.table.inoForPath l.path) = some l.ino
  | _ => True

/-- What every event keeps. -/
structure Wf : Prop where
  table : s.table.Bijective
  given : ∀ l ∈ s.lookups, l.ino < s.table.nextIno
  bound : ∀ l ∈ s.lookups, ∀ path, s.table.pathOf l.ino = some path → path = l.path
  counted : ∀ ino count, s.table.lookupCounts.lookup ino = some count → ino < s.table.nextIno
  forgotten : ∀ ino, s.forgotten ino ≤ s.replied ino
  counts : ∀ ino path, ino ≠ rootInode → s.table.pathOf ino = some path →
    (s.table.lookupCounts.lookup ino).getD 0 + s.forgotten ino = s.replied ino

variable {s}

theorem Wf.new : ({} : Lookups).Wf := by
  refine ⟨InodeTable.bijective_new, ?_, ?_, ?_, ?_, ?_⟩
  · intro l hl
    cases hl
  · intro l hl
    cases hl
  · intro ino count hcount
    cases hcount
  · intro ino
    exact Nat.le_refl 0
  · intro ino path hroot hbound
    rfl

theorem Wf.replied_next (h : s.Wf) : s.replied s.table.nextIno = 0 := by
  unfold replied
  rw [List.countP_eq_zero]
  intro l hl
  have := h.given l hl
  simp only [decide_eq_true_eq, not_and]
  omega

theorem Wf.change (h : s.Wf) {table : InodeTable} (hchange : InodeTable.Change s.table table)
    (hcounts : table.lookupCounts = s.table.lookupCounts) : ({ s with table } : Lookups).Wf := by
  have hle := hchange.nextIno_le
  refine ⟨h.table.change hchange, ?_, ?_, ?_, h.forgotten, ?_⟩
  · intro l hl
    exact Nat.lt_of_lt_of_le (h.given l hl) hle
  · intro l hl path hpath
    rcases hchange with ⟨hsame, -, -⟩ | ⟨_, -, hbind, -, -⟩ | ⟨ino, _, -, -, hevict, -, -⟩
    · exact h.bound l hl path (hsame ▸ hpath)
    · have hother : l.ino ≠ s.table.nextIno := Nat.ne_of_lt (h.given l hl)
      apply h.bound l hl path
      simpa [hbind, hother] using hpath
    · rcases eq_or_ne l.ino ino with heq | hother
      · simp [hevict, heq] at hpath
      · apply h.bound l hl path
        simpa [hevict, hother] using hpath
  · intro ino count hcount
    exact Nat.lt_of_lt_of_le (h.counted ino count (hcounts ▸ hcount)) hle
  · intro ino path hroot hpath
    show (table.lookupCounts.lookup ino).getD 0 + s.forgotten ino = s.replied ino
    rw [hcounts]
    rcases hchange with ⟨hsame, -, -⟩ | ⟨_, -, hbind, -, -⟩ | ⟨evicted, _, -, -, hevict, -, -⟩
    · exact h.counts ino path hroot (hsame ▸ hpath)
    · rcases eq_or_ne ino s.table.nextIno with rfl | hother
      · have hforgotten := h.forgotten s.table.nextIno
        rcases hcount : s.table.lookupCounts.lookup s.table.nextIno with _ | count
        · simp only [Option.getD_none]
          have := h.replied_next
          omega
        · exact absurd (h.counted _ _ hcount) (Nat.lt_irrefl _)
      · exact h.counts ino path hroot (by simpa [hbind, hother] using hpath)
    · rcases eq_or_ne ino evicted with rfl | hother
      · simp [hevict] at hpath
      · exact h.counts ino path hroot (by simpa [hevict, hother] using hpath)

/-! ## The insertion -/

theorem insertOrGet_lookupCounts (t : InodeTable) (path : String) (kind : FsEntryKind) :
    (t.insertOrGet path kind).2.lookupCounts = t.lookupCounts := by
  unfold InodeTable.insertOrGet InodeTable.allocate
  split
  · split
    · rfl
    · dsimp only
      split_ifs <;> rfl
  · dsimp only
    split_ifs <;> rfl

theorem pathOf_insertOrGet {t t' : InodeTable} (h : t.Bijective) {path : String} {kind : FsEntryKind}
    {ino generation : Nat}
    (hinsert : t.insertOrGet path kind = (.ok (ino, generation), t')) : t'.pathOf ino = some path := by
  unfold InodeTable.insertOrGet at hinsert
  rcases hpath : t.byPath.lookup path with _ | bound
  · simp only [hpath, InodeTable.allocate] at hinsert
    split_ifs at hinsert
    · simp at hinsert
    · simp only [Prod.mk.injEq, Except.ok.injEq] at hinsert
      obtain ⟨⟨rfl, -⟩, rfl⟩ := hinsert
      simp [InodeTable.pathOf]
  · have hbound : t.pathOf bound = some path := (h.inverse bound path).mpr hpath
    obtain ⟨entry, hentry, hentrypath⟩ := Option.map_eq_some_iff.mp hbound
    simp only [hpath, hentry, Prod.mk.injEq, Except.ok.injEq] at hinsert
    obtain ⟨⟨rfl, -⟩, rfl⟩ := hinsert
    simp [InodeTable.pathOf, hentrypath]

theorem keeps_insertOrGet {t : InodeTable} (h : t.Bijective) {ino : Nat} {bound : String}
    (hbound : t.pathOf ino = some bound)
    (path : String) (kind : FsEntryKind) : (t.insertOrGet path kind).2.pathOf ino = some bound := by
  unfold InodeTable.insertOrGet InodeTable.allocate
  rcases hpath : t.byPath.lookup path with _ | found
  · dsimp only
    split_ifs
    · exact hbound
    · have hother : ino ≠ t.nextIno := Nat.ne_of_lt (h.below ino bound hbound)
      rw [InodeTable.pathOf_eq, InodeTable.pathOf_insert, Function.update_of_ne hother]
      exact hbound
  · have hfound : t.pathOf found = some path := (h.inverse found path).mpr hpath
    obtain ⟨entry, hentry, -⟩ := Option.map_eq_some_iff.mp hfound
    simp only [hentry]
    have hpath : ({ entry with kind } : InodeEntry).path = entry.path := rfl
    rw [← hbound, ← InodeTable.pathOf_refresh hentry hpath]

theorem replied_append (lookups : List Lookup) (l : Lookup) (hl : l.stage ≠ .replied) (table : InodeTable)
    (forgotten : Nat → Nat) (ino : Nat) :
    ({ table, lookups := lookups ++ [l], forgotten } : Lookups).replied ino =
      ({ table, lookups, forgotten } : Lookups).replied ino := by
  simp [replied, List.countP_append, hl]

theorem Wf.insert (h : s.Wf) (path : String) (kind : FsEntryKind) : (s.insert path kind).Wf := by
  have hchange := h.table.insertOrGet path kind
  have hcounts := insertOrGet_lookupCounts s.table path kind
  unfold Lookups.insert
  split
  · rename_i ino generation table hinsert
    rw [hinsert] at hchange hcounts
    have hbound := pathOf_insertOrGet h.table hinsert
    have hold := h.change hchange hcounts
    have hnew : ({ path, ino, stage := .inserted } : Lookup).stage ≠ .replied := by simp
    refine ⟨hold.table, ?_, ?_, hold.counted, ?_, ?_⟩
    · intro l hl
      rcases List.mem_append.mp hl with hl | hl
      · exact hold.given l hl
      · rw [List.mem_singleton.mp hl]
        exact hold.table.below ino path hbound
    · intro l hl path' hpath'
      rcases List.mem_append.mp hl with hl | hl
      · exact hold.bound l hl path' hpath'
      · rw [List.mem_singleton.mp hl] at hpath' ⊢
        exact Option.some.inj (hpath'.symm.trans hbound)
    · intro ino
      rw [replied_append _ _ hnew]
      exact hold.forgotten ino
    · intro ino path hroot hpath
      rw [replied_append _ _ hnew]
      exact hold.counts ino path hroot hpath
  · rename_i e table hinsert
    rw [hinsert] at hchange hcounts
    exact h.change hchange hcounts

/-! ## The later sections of a lookup -/

theorem replied_advance {i : Nat} {l : Lookup} (hl : s.lookups[i]? = some l) (hstage : l.stage ≠ .replied)
    (stage : Stage) (ino : Nat) :
    (s.advance i l stage).replied ino = s.replied ino + if l.ino = ino ∧ stage = .replied then 1 else 0 := by
  obtain ⟨hi, rfl⟩ := List.getElem?_eq_some_iff.mp hl
  unfold replied advance
  rw [List.countP_set hi]
  simp [hstage]

theorem mem_advance {i : Nat} {l l' : Lookup} (hl : s.lookups[i]? = some l) {stage : Stage}
    (hl' : l' ∈ (s.advance i l stage).lookups) : ∃ old ∈ s.lookups, l'.path = old.path ∧ l'.ino = old.ino := by
  rcases List.mem_or_eq_of_mem_set hl' with hl' | rfl
  · exact ⟨l', hl', rfl, rfl⟩
  · exact ⟨l, List.mem_of_getElem? hl, rfl, rfl⟩

theorem Wf.advance (h : s.Wf) {i : Nat} {l : Lookup} (hl : s.lookups[i]? = some l) (hstage : l.stage ≠ .replied)
    {stage : Stage} {table : InodeTable} (hpath : table.pathOf = s.table.pathOf)
    (hino : table.inoForPath = s.table.inoForPath) (hnext : table.nextIno = s.table.nextIno)
    (hkeys : ∀ ino count, table.lookupCounts.lookup ino = some count →
      (∃ count, s.table.lookupCounts.lookup ino = some count) ∨ ino = l.ino)
    (hcounts : ∀ ino, (table.lookupCounts.lookup ino).getD 0 =
      (s.table.lookupCounts.lookup ino).getD 0 + if l.ino = ino ∧ stage = .replied then 1 else 0) :
    ({ s.advance i l stage with table } : Lookups).Wf := by
  have hreplied (ino : Nat) : ({ s.advance i l stage with table } : Lookups).replied ino =
      s.replied ino + if l.ino = ino ∧ stage = .replied then 1 else 0 := replied_advance hl hstage stage ino
  refine ⟨h.table.change (.same hpath hino hnext), ?_, ?_, ?_, ?_, ?_⟩
  · intro l' hl'
    obtain ⟨old, hold, -, hsame⟩ := mem_advance hl hl'
    show l'.ino < table.nextIno
    rw [hsame, hnext]
    exact h.given old hold
  · intro l' hl' path hbound
    obtain ⟨old, hold, holdpath, hsame⟩ := mem_advance hl hl'
    rw [holdpath]
    apply h.bound old hold
    rwa [← hsame, ← hpath]
  · intro ino count hcount
    show ino < table.nextIno
    rw [hnext]
    rcases hkeys ino count hcount with ⟨count, hold⟩ | rfl
    · exact h.counted ino count hold
    · exact h.given l (List.mem_of_getElem? hl)
  · intro ino
    rw [hreplied]
    exact Nat.le_trans (h.forgotten ino) (Nat.le_add_right _ _)
  · intro ino path hroot hbound
    have hold := h.counts ino path hroot (hpath ▸ hbound)
    show (table.lookupCounts.lookup ino).getD 0 + s.forgotten ino = _
    rw [hreplied, hcounts]
    omega

theorem Wf.track (h : s.Wf) (i : Nat) : (s.track i).Wf := by
  unfold Lookups.track
  split
  · rename_i l hl
    split_ifs with hstage
    · have hnot : l.stage ≠ .replied := by rw [hstage]; decide
      have heq := InodeTable.bootstrapLookup_eq s.table l.ino
      apply h.advance hl hnot
      · rw [heq]
        rfl
      · rw [heq]
        rfl
      · rw [heq]
      · intro ino count hcount
        unfold InodeTable.bootstrapLookup at hcount
        split at hcount
        · exact .inl ⟨count, hcount⟩
        · rcases eq_or_ne ino l.ino with rfl | hother
          · exact .inr rfl
          · exact .inl ⟨count, by simpa [hother] using hcount⟩
      · intro ino
        unfold InodeTable.bootstrapLookup
        split
        · simp
        · rename_i hnone
          rcases eq_or_ne ino l.ino with rfl | hother
          · simp [hnone]
          · simp [hother]
    · exact h
  · exact h

theorem Wf.increment (h : s.Wf) (i : Nat) : (s.increment i).Wf := by
  unfold Lookups.increment
  split
  · rename_i l hl
    split_ifs with hstage
    · have hnot : l.stage ≠ .replied := by rw [hstage]; decide
      apply h.advance hl hnot
      · rfl
      · rfl
      · rfl
      · intro ino count hcount
        rcases eq_or_ne ino l.ino with rfl | hother
        · exact .inr rfl
        · exact .inl ⟨count, by simpa [InodeTable.incrementLookup, hother] using hcount⟩
      · intro ino
        rcases eq_or_ne ino l.ino with rfl | hother
        · simp [InodeTable.incrementLookup]
        · simp [InodeTable.incrementLookup, hother, Ne.symm hother]
    · exact h
  · exact h

/-! ## The messages of the kernel -/

theorem pathOf_evict (t : InodeTable) (ino : Nat) : (t.evict ino).pathOf = Function.update t.pathOf ino none := by
  unfold InodeTable.evict
  split
  · rename_i hnone
    symm
    apply Function.update_eq_self_iff.mpr
    simp [InodeTable.pathOf, hnone]
  · exact InodeTable.pathOf_erase _ _

theorem lookupCounts_evict (t : InodeTable) (ino : Nat) : (t.evict ino).lookupCounts = t.lookupCounts := by
  unfold InodeTable.evict
  split <;> rfl

theorem forget_cases {t : InodeTable} {ino : Nat} (hroot : ino ≠ rootInode) (nlookup : Nat) :
    ((t.lookupCounts.lookup ino).getD 0 ≤ nlookup ∧ (t.forget ino nlookup).pathOf = Function.update t.pathOf ino none ∧
        ∀ other, (t.forget ino nlookup).lookupCounts.lookup other =
          if other = ino then none else t.lookupCounts.lookup other) ∨
      (nlookup < (t.lookupCounts.lookup ino).getD 0 ∧ (t.forget ino nlookup).pathOf = t.pathOf ∧
        ∀ other, (t.forget ino nlookup).lookupCounts.lookup other =
          if other = ino then some ((t.lookupCounts.lookup ino).getD 0 - nlookup)
          else t.lookupCounts.lookup other) := by
  unfold InodeTable.forget
  rw [if_neg hroot]
  rcases hcount : t.lookupCounts.lookup ino with _ | count
  · refine .inl ⟨Nat.zero_le _, pathOf_evict t ino, fun other => ?_⟩
    simp only [lookupCounts_evict]
    split_ifs with hother
    · rw [hother, hcount]
    · rfl
  · simp only [Option.getD_some]
    split_ifs with hzero
    · refine .inl ⟨by omega, pathOf_evict _ ino, fun other => ?_⟩
      simp only [lookupCounts_evict]
      split_ifs with hother
      · rw [hother, AList.lookup_erase]
      · rw [AList.lookup_erase_ne hother]
    · refine .inr ⟨by omega, rfl, fun other => ?_⟩
      simp only
      split_ifs with hother
      · rw [hother, AList.lookup_insert]
      · rw [AList.lookup_insert_ne hother]

theorem Wf.forget (h : s.Wf) (ino nlookup : Nat) : (s.forget ino nlookup).Wf := by
  unfold Lookups.forget
  split_ifs with hsent
  · have hchange := InodeTable.change_forget (t := s.table) ino nlookup
    have hforgotten (other : Nat) :
        Function.update s.forgotten ino (s.forgotten ino + nlookup) other ≤ s.replied other := by
      rcases eq_or_ne other ino with rfl | hother
      · simpa using hsent
      · simpa [hother] using h.forgotten other
    rcases eq_or_ne ino rootInode with rfl | hroot
    · have hsame : s.table.forget rootInode nlookup = s.table := if_pos rfl
      rw [hsame]
      refine ⟨h.table, h.given, h.bound, h.counted, hforgotten, fun other path hother hbound => ?_⟩
      show _ + Function.update s.forgotten _ _ other = s.replied other
      rw [Function.update_of_ne hother]
      exact h.counts other path hother hbound
    · have hcases := forget_cases (t := s.table) hroot nlookup
      have hbound : ∀ other path, (s.table.forget ino nlookup).pathOf other = some path →
          s.table.pathOf other = some path := by
        intro other path hpath
        rcases hcases with ⟨-, hevicted, -⟩ | ⟨-, hsame, -⟩
        · rcases eq_or_ne other ino with rfl | hother
          · simp [hevicted] at hpath
          · simpa [hevicted, hother] using hpath
        · exact hsame ▸ hpath
      refine ⟨h.table.change hchange, ?_, ?_, ?_, hforgotten, ?_⟩
      · intro l hl
        exact Nat.lt_of_lt_of_le (h.given l hl) hchange.nextIno_le
      · intro l hl path hpath
        exact h.bound l hl path (hbound _ _ hpath)
      · intro other count hcount
        refine Nat.lt_of_lt_of_le ?_ hchange.nextIno_le
        rcases hold : s.table.lookupCounts.lookup other with _ | old
        · rcases eq_or_ne other ino with rfl | hother
          · rcases hcases with ⟨-, -, hcounts⟩ | ⟨hleft, -, -⟩
            · simp [hcounts] at hcount
            · simp [hold] at hleft
          · rcases hcases with ⟨-, -, hcounts⟩ | ⟨-, -, hcounts⟩ <;>
            · rw [hcounts, if_neg hother, hold] at hcount
              cases hcount
        · exact h.counted other old hold
      · intro other path hother hpath
        have hold := h.counts other path hother (hbound _ _ hpath)
        show _ + Function.update s.forgotten ino (s.forgotten ino + nlookup) other = s.replied other
        rcases eq_or_ne other ino with rfl | hne
        · rcases hcases with ⟨-, hevicted, -⟩ | ⟨hleft, -, hcounts⟩
          · simp [hevicted] at hpath
          · rw [hcounts, if_pos rfl, Function.update_self, Option.getD_some]
            omega
        · rw [Function.update_of_ne hne]
          rcases hcases with ⟨-, -, hcounts⟩ | ⟨-, -, hcounts⟩ <;> rwa [hcounts, if_neg hne]
  · exact h

theorem Wf.step (h : s.Wf) (e : Event) : (s.step e).Wf := by
  rcases e with ⟨path, kind⟩ | i | i | ⟨ino, nlookup⟩
  · exact h.insert path kind
  · exact h.track i
  · exact h.increment i
  · exact h.forget ino nlookup

/-! ## What the kernel holds -/

theorem resolves_iff (s : Lookups) :
    s.Resolves ↔ ∀ l ∈ s.lookups, l.stage = .replied → s.forgotten l.ino < s.replied l.ino →
      s.table.pathOf l.ino = some l.path := by
  refine forall₂_congr fun l hl => forall₂_congr fun hstage hheld => ?_
  unfold InodeTable.resolve InodeTable.pathOf
  rcases s.table.byIno.lookup l.ino with _ | entry
  · simp
  · simp

theorem Wf.resolves_insert (h : s.Wf) (hresolves : s.Resolves) (path : String) (kind : FsEntryKind) :
    (s.insert path kind).Resolves := by
  rw [resolves_iff] at hresolves ⊢
  have hkeeps (ino : Nat) (bound : String) (hbound : s.table.pathOf ino = some bound) :=
    keeps_insertOrGet h.table hbound path kind
  unfold Lookups.insert
  split
  · rename_i ino generation table hinsert
    rw [hinsert] at hkeeps
    intro l hl hstage hheld
    rcases List.mem_append.mp hl with hl | hl
    · rw [replied_append _ _ (by simp)] at hheld
      exact hkeeps _ _ (hresolves l hl hstage hheld)
    · rw [List.mem_singleton.mp hl] at hstage
      cases hstage
  · rename_i e table hinsert
    rw [hinsert] at hkeeps
    intro l hl hstage hheld
    exact hkeeps _ _ (hresolves l hl hstage hheld)

theorem resolves_track (hresolves : s.Resolves) (i : Nat) : (s.track i).Resolves := by
  unfold Lookups.track
  split
  · rename_i l hl
    split_ifs with hstage
    · have hnot : l.stage ≠ .replied := by rw [hstage]; decide
      have hpath : (s.table.bootstrapLookup l.ino).pathOf = s.table.pathOf := by
        rw [InodeTable.bootstrapLookup_eq]
        rfl
      have hreplied (ino : Nat) : (s.advance i l .tracked).replied ino = s.replied ino := by
        rw [replied_advance hl hnot]
        simp
      rw [resolves_iff] at hresolves ⊢
      intro l' hl' hstage' hheld
      rcases List.mem_or_eq_of_mem_set hl' with hold | rfl
      · show (s.table.bootstrapLookup l.ino).pathOf l'.ino = _
        rw [hpath]
        exact hresolves l' hold hstage' ((hreplied l'.ino) ▸ hheld)
      · cases hstage'
    · exact hresolves
  · exact hresolves

theorem Wf.resolves_increment (h : s.Wf) (hresolves : s.Resolves) (i : Nat) :
    (s.increment i).Resolves ↔ s.Undisturbed (.increment i) := by
  simp only [Lookups.increment, Undisturbed]
  rcases hl : s.lookups[i]? with _ | l
  · simp [hresolves]
  · simp only [Option.mem_some, forall_eq']
    split_ifs with hstage
    · simp only [hstage, true_imp_iff]
      rw [← h.table.inverse l.ino l.path]
      have hnot : l.stage ≠ .replied := by rw [hstage]; decide
      have hreplied (ino : Nat) :
          ({ s.advance i l .replied with table := s.table.incrementLookup l.ino } : Lookups).replied ino =
            s.replied ino + if l.ino = ino ∧ Stage.replied = .replied then 1 else 0 :=
        replied_advance hl hnot .replied ino
      rw [resolves_iff] at hresolves ⊢
      constructor
      · intro hnext
        have hmem : { l with stage := .replied } ∈ (s.advance i l .replied).lookups :=
          List.mem_set (List.getElem?_eq_some_iff.mp hl).1 _
        apply hnext _ hmem rfl
        rw [hreplied]
        have := h.forgotten l.ino
        simp only [and_true, if_true]
        show s.forgotten l.ino < _
        omega
      · intro hbound l' hl' hreplied' hheld
        rcases List.mem_or_eq_of_mem_set hl' with hold | rfl
        · rcases eq_or_ne l.ino l'.ino with hsame | hother
          · have hpath : s.table.pathOf l'.ino = some l.path := hsame ▸ hbound
            show s.table.pathOf l'.ino = _
            rw [hpath, h.bound l' hold l.path hpath]
          · apply hresolves l' hold hreplied'
            rw [hreplied, if_neg fun hsame => hother hsame.1] at hheld
            exact hheld
        · exact hbound
    · simp [hstage, hresolves]

theorem Wf.resolves_forget (h : s.Wf) (hresolves : s.Resolves) (ino nlookup : Nat) :
    (s.forget ino nlookup).Resolves := by
  unfold Lookups.forget
  split_ifs with hsent
  · rw [resolves_iff] at hresolves ⊢
    intro l hl hstage hheld
    have hheld : Function.update s.forgotten ino (s.forgotten ino + nlookup) l.ino < s.replied l.ino := hheld
    have hbefore : s.forgotten l.ino < s.replied l.ino := by
      rcases eq_or_ne l.ino ino with rfl | hother
      · rw [Function.update_self] at hheld
        omega
      · rwa [Function.update_of_ne hother] at hheld
    have hpath := hresolves l hl hstage hbefore
    show (s.table.forget ino nlookup).pathOf l.ino = some l.path
    rcases eq_or_ne ino rootInode with rfl | hroot
    · exact hpath
    · rcases forget_cases (t := s.table) hroot nlookup with ⟨hlow, hevicted, -⟩ | ⟨-, hsame, -⟩
      · rcases eq_or_ne l.ino ino with rfl | hother
        · -- All its replies are forgotten with this message.
          have hcount := h.counts l.ino l.path hroot hpath
          rw [Function.update_self] at hheld
          omega
        · rw [hevicted, Function.update_of_ne hother]
          exact hpath
      · rw [hsame]
        exact hpath
  · exact hresolves

theorem Wf.resolves_step (h : s.Wf) (hresolves : s.Resolves) (e : Event) : (s.step e).Resolves ↔ s.Undisturbed e := by
  rcases e with ⟨path, kind⟩ | i | i | ⟨ino, nlookup⟩
  · exact iff_of_true (h.resolves_insert hresolves path kind) trivial
  · exact iff_of_true (resolves_track hresolves i) trivial
  · exact h.resolves_increment hresolves i
  · exact iff_of_true (h.resolves_forget hresolves ino nlookup) trivial

/-- What the kernel holds resolves in exactly the runs in which no `forget` evicts a number between the
insertion for a lookup and its reply. -/
theorem resolves_iff_undisturbed (events : List Event) :
    AllStates step Resolves {} events ↔ AllSteps step Undisturbed {} events := by
  have hall : ∀ e ∈ events, (fun _ : Event => True) e := fun _ _ => trivial
  apply allStates_iff_allSteps_of_invariant (I := Wf) hall
  · intro s e _ h
    exact h.step e
  · intro s e _ h hresolves
    exact h.resolves_step hresolves e
  · exact Wf.new
  · intro l hl
    cases hl

/-- A `forget` for the first lookup comes in while the second waits for its increment. -/
theorem not_resolves :
    ¬ AllStates step Resolves {}
      [.insert "/a" .regularFile, .track 0, .increment 0, .insert "/a" .regularFile, .track 1, .forget 2 1,
        .increment 1] := by
  intro h
  obtain ⟨generation, kind, hresolve⟩ := h.run ⟨"/a", 2, .replied⟩ (by decide) rfl (by decide)
  have hgone : (run step {} [.insert "/a" .regularFile, .track 0, .increment 0, .insert "/a" .regularFile, .track 1,
      .forget 2 1, .increment 1]).table.resolve 2 = none := by decide
  rw [hgone] at hresolve
  cases hresolve

end Lookups

end Pcloud
