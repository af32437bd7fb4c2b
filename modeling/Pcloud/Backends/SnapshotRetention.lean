import Mathlib.Data.List.Sort
import Mathlib.Data.String.Basic
import Pcloud.Lib.BestOf
import Pcloud.Lib.Reps

/-!
# Which snapshots stay (`pcloud-backends/src/snapshot.rs`)

The prune of a directory of snapshots, and what a run of one snapshot a day is left with. The buckets move with the
clock: a snapshot gets into an older bucket only if every prune before has kept it.
-/

namespace Pcloud.Snapshot

/-- Nanoseconds since the epoch. -/
abbrev SystemTime := Int

def encryptedPrefix : String := "pcloud-rs-"
def encryptedSuffix : String := ".tar.gpg"
def zstdSuffix : String := ".tar.zst"
def zstdGpgSuffix : String := ".tar.zst.gpg"
def sidecarSuffix : String := ".manifest.json"
def secsPerDay : Nat := 86400

/-! ## The directory -/

/-- An entry whose time cannot be read has none. -/
structure DirEntry where
  name : String
  isFile : Bool
  modified : Option SystemTime
deriving DecidableEq

def startsWith (name start : String) : Bool := start.toList.isPrefixOf name.toList

def endsWith (name ending : String) : Bool := ending.toList.isSuffixOf name.toList

namespace DirEntry

def mtime (entry : DirEntry) : SystemTime := entry.modified.getD 0

/-- The sidecar of an archive has the name of the archive before its own suffix. -/
def isSnapshot (entry : DirEntry) : Bool :=
  entry.isFile && startsWith entry.name encryptedPrefix &&
    (endsWith entry.name encryptedSuffix || endsWith entry.name zstdSuffix || endsWith entry.name zstdGpgSuffix) &&
    !endsWith entry.name sidecarSuffix

end DirEntry

/-- The snapshots with their times, the newest first. -/
def listSnapshotFiles (entries : List DirEntry) : List (String × SystemTime) :=
  ((entries.filter DirEntry.isSnapshot).map fun e => (e.name, e.mtime)).insertionSort fun a b => b.2 ≤ a.2

/-! ## The keep rule -/

/-- The three maps of the source are one, with the tier in the key. -/
inductive Bucket
  | daily (day : Nat)
  | weekly (week : Nat)
  | monthly (month : Nat)
deriving DecidableEq

def asSecs (time : SystemTime) : Nat := (time / 1000000000).toNat

/-- `none` for a time still to come. -/
def ageDays (now mtime : SystemTime) : Option Nat :=
  if asSecs now < asSecs mtime then none else some ((asSecs now - asSecs mtime) / secsPerDay)

def weeklyBuckets : Nat := 8
def monthlyBuckets : Nat := 6

def bucketOf (retentionDays : Nat) (age : Option Nat) : Option Bucket :=
  match age with
  | none => some (.daily 0)
  | some ageDays =>
    if ageDays < retentionDays then some (.daily ageDays)
    else if ageDays < retentionDays + weeklyBuckets * 7 then some (.weekly ((ageDays - retentionDays) / 7))
    else if ageDays < retentionDays + weeklyBuckets * 7 + monthlyBuckets * 30 then
      some (.monthly ((ageDays - retentionDays - weeklyBuckets * 7) / 30))
    else none

/-- The slot a file is offered to. -/
def slotOf (retentionDays : Nat) (now : SystemTime) (file : String × SystemTime) : Option (Bucket × Nat × String) :=
  (bucketOf retentionDays (ageDays now file.2)).map fun bucket => (bucket, asSecs file.2, file.1)

def gfsKeepSet (files : List (String × SystemTime)) (retentionDays : Nat) (now : SystemTime) : List String :=
  let slots := BestOf.collect (slotOf retentionDays now) files
  ((slots.map fun slot => slot.2.2).insertionSort (· ≤ ·)).eraseReps

def sidecarPathFor (archive : String) : String := archive ++ sidecarSuffix

/-- What is removed, and what the directory holds after it. -/
def pruneGfsExecute (entries : List DirEntry) (retentionDays : Nat) (now : SystemTime) :
    List String × List DirEntry :=
  let files := listSnapshotFiles entries
  let keep := gfsKeepSet files retentionDays now
  let removed := (files.map Prod.fst).filter fun path => path ∉ keep
  (removed, entries.filter fun e => e.name ∉ removed ∧ ¬ (e.isFile ∧ e.name ∈ removed.map sidecarPathFor))

/-! ## A snapshot each day -/

/-- A snapshot is taken each day, at any time of it, with a prune after it. What the directory held before is older
than the first one. -/
structure DailyRun (retentionDays : Nat) where
  /-- What each prune finds. -/
  dir : Nat → List DirEntry
  now : Nat → SystemTime
  taken : Nat → String × SystemTime
  /-- The second at which the first day begins. -/
  start : Nat
  distinct : ∀ i, ((dir i).map DirEntry.name).Nodup
  first : taken 0 ∈ listSnapshotFiles (dir 0)
  next : ∀ i file, file ∈ listSnapshotFiles (dir (i + 1)) ↔
    file = taken (i + 1) ∨ file ∈ listSnapshotFiles (pruneGfsExecute (dir i) retentionDays (now i)).2
  day : ∀ i, start + i * secsPerDay ≤ asSecs (taken i).2 ∧ asSecs (taken i).2 ≤ asSecs (now i) ∧
    asSecs (now i) < start + (i + 1) * secsPerDay
  older : ∀ file ∈ listSnapshotFiles (dir 0), file ≠ taken 0 → asSecs file.2 < asSecs (taken 0).2

def buckets (retentionDays : Nat) : List Bucket :=
  (List.range retentionDays).map .daily ++ (List.range weeklyBuckets).map .weekly ++
    (List.range monthlyBuckets).map .monthly

namespace DailyRun

variable {retentionDays : Nat} (run : DailyRun retentionDays)

/-- The snapshots after prune `i`. -/
def survivors (i : Nat) : List (String × SystemTime) :=
  listSnapshotFiles (pruneGfsExecute (run.dir i) retentionDays (run.now i)).2

def bucketAt (i : Nat) (file : String × SystemTime) : Option Bucket :=
  bucketOf retentionDays (ageDays (run.now i) file.2)

/-- Every bucket has a survivor. -/
def Populated (i : Nat) : Prop :=
  ∀ bucket ∈ buckets retentionDays, ∃ file ∈ run.survivors i, run.bucketAt i file = some bucket

/-- The history is there after each prune, once the run is longer than all the buckets together. -/
def KeepsHistory : Prop := ∀ i, retentionDays + 56 + 180 < i → run.Populated i

/-- No prune comes earlier in its day than a snapshot before it did. -/
def Regular : Prop := ∀ i, ∀ j ≤ i, asSecs (run.taken j).2 + (i - j) * secsPerDay ≤ asSecs (run.now i)

end DailyRun

/-! ## One prune -/

section

variable {entries : List DirEntry} {file file' : String × SystemTime} {files : List (String × SystemTime)}
variable {retentionDays : Nat} {now : SystemTime} {bucket : Bucket}

theorem mem_listSnapshotFiles :
    file ∈ listSnapshotFiles entries ↔ ∃ e ∈ entries, e.isSnapshot ∧ (e.name, e.mtime) = file := by
  simp [listSnapshotFiles, and_assoc]

theorem nodup_names (h : (entries.map DirEntry.name).Nodup) : ((listSnapshotFiles entries).map Prod.fst).Nodup := by
  have hperm := (List.perm_insertionSort (fun a b : String × SystemTime => b.2 ≤ a.2)
    ((entries.filter DirEntry.isSnapshot).map fun e => (e.name, e.mtime))).map Prod.fst
  refine hperm.nodup_iff.mpr ?_
  rw [List.map_map]
  exact h.sublist (List.filter_sublist.map _)

theorem mem_gfsKeepSet {path : String} :
    path ∈ gfsKeepSet files retentionDays now ↔
      ∃ slot ∈ BestOf.collect (slotOf retentionDays now) files, slot.2.2 = path := by
  simp [gfsKeepSet]

theorem slotOf_eq_some {slot : Bucket × Nat × String} :
    slotOf retentionDays now file = some slot ↔
      bucketOf retentionDays (ageDays now file.2) = some slot.1 ∧ asSecs file.2 = slot.2.1 ∧ file.1 = slot.2.2 := by
  obtain ⟨bucket, m, path⟩ := slot
  simp [slotOf]

theorem mem_prune :
    file ∈ listSnapshotFiles (pruneGfsExecute entries retentionDays now).2 ↔
      file ∈ listSnapshotFiles entries ∧ file.1 ∈ gfsKeepSet (listSnapshotFiles entries) retentionDays now := by
  rw [mem_listSnapshotFiles, mem_listSnapshotFiles]
  unfold pruneGfsExecute
  simp only [List.mem_filter, decide_eq_true_eq]
  constructor
  · rintro ⟨e, ⟨he, hname, -⟩, hsnapshot, rfl⟩
    refine ⟨⟨e, he, hsnapshot, rfl⟩, ?_⟩
    by_contra hkeep
    refine hname ⟨List.mem_map.mpr ⟨(e.name, e.mtime), mem_listSnapshotFiles.mpr ⟨e, he, hsnapshot, rfl⟩, rfl⟩, ?_⟩
    simpa using hkeep
  · rintro ⟨⟨e, he, hsnapshot, rfl⟩, hkeep⟩
    refine ⟨e, ⟨he, fun hremoved => ?_, fun hsidecar => ?_⟩, hsnapshot, rfl⟩
    · exact hremoved.2 hkeep
    · -- The name of a sidecar is not the name of a snapshot.
      obtain ⟨path, -, hpath⟩ := List.mem_map.mp hsidecar.2
      have hends : endsWith e.name sidecarSuffix = true := by
        rw [← hpath, endsWith, List.isSuffixOf_iff_suffix, sidecarPathFor, String.toList_append]
        exact List.suffix_append _ _
      simp [DirEntry.isSnapshot, hends] at hsnapshot

theorem kept_of_newest (hfile : file ∈ files) (hbucket : bucketOf retentionDays (ageDays now file.2) = some bucket)
    (hnewest : ∀ f ∈ files, bucketOf retentionDays (ageDays now f.2) = some bucket →
      f = file ∨ asSecs f.2 < asSecs file.2) :
    file.1 ∈ gfsKeepSet files retentionDays now := by
  refine mem_gfsKeepSet.mpr ⟨(bucket, asSecs file.2, file.1), ?_, rfl⟩
  refine BestOf.mem_collect_of_best hfile (slotOf_eq_some.mpr ⟨hbucket, rfl, rfl⟩) fun f hf m path hslot hle => ?_
  obtain ⟨hf', hm, hpath⟩ := slotOf_eq_some.mp hslot
  rcases hnewest f hf hf' with rfl | hlt
  · exact ⟨hm.symm, hpath.symm⟩
  · have hlater : asSecs file.2 ≤ asSecs f.2 := hle.trans hm.ge
    exact absurd hlt (Nat.not_lt.mpr hlater)

theorem not_kept_of_newer (hnames : (files.map Prod.fst).Nodup) (hfile : file ∈ files) (hfile' : file' ∈ files)
    (hbucket : bucketOf retentionDays (ageDays now file.2) = some bucket)
    (hbucket' : bucketOf retentionDays (ageDays now file'.2) = some bucket) (hnewer : asSecs file.2 < asSecs file'.2) :
    file.1 ∉ gfsKeepSet files retentionDays now := by
  intro hkeep
  obtain ⟨slot, hslot, hpath⟩ := mem_gfsKeepSet.mp hkeep
  obtain ⟨f, hf, hplace⟩ := BestOf.mem_collect hslot
  obtain ⟨hb, hm, hname⟩ := slotOf_eq_some.mp hplace
  obtain rfl : f = file := List.inj_on_of_nodup_map hnames hf hfile (hname.trans hpath)
  obtain rfl : bucket = slot.1 := Option.some.inj (hbucket.symm.trans hb)
  have hplace' : slotOf retentionDays now file' = some (slot.1, asSecs file'.2, file'.1) :=
    slotOf_eq_some.mpr ⟨hbucket', rfl, rfl⟩
  exact BestOf.notMem_collect_of_lt hfile' hplace' (hm ▸ hnewer) hslot

theorem bucketOf_eq_daily {age day : Nat} :
    bucketOf retentionDays (some age) = some (.daily day) ↔ age < retentionDays ∧ age = day := by
  unfold bucketOf
  dsimp only
  split
  · rename_i h
    simp [h]
  · rename_i h
    split <;> [simp [h]; (split <;> simp [h])]

theorem bucketOf_eq_weekly {age week : Nat} :
    bucketOf retentionDays (some age) = some (.weekly week) ↔
      retentionDays ≤ age ∧ week < weeklyBuckets ∧ (age - retentionDays) / 7 = week := by
  unfold bucketOf weeklyBuckets
  dsimp only
  split
  · rename_i h
    simp [h]
  · rename_i h
    split
    · simp only [Option.some.injEq, Bucket.weekly.injEq]
      omega
    · split
      · simp only [Option.some.injEq, reduceCtorEq, false_iff]
        omega
      · simp only [reduceCtorEq, false_iff]
        omega

theorem bucketOf_eq_none {age : Nat} (h : retentionDays + 236 ≤ age) : bucketOf retentionDays (some age) = none := by
  have hweeks : weeklyBuckets = 8 := rfl
  have hmonths : monthlyBuckets = 6 := rfl
  unfold bucketOf
  dsimp only
  rw [if_neg (by omega), if_neg (by omega), if_neg (by omega)]

end

/-! ## The run -/

namespace DailyRun

variable {retentionDays : Nat} (run : DailyRun retentionDays) {i j : Nat} {file : String × SystemTime}

/-- The days that prune `i` counts for the snapshot of day `j`. -/
def age (i j : Nat) : Nat := (asSecs (run.now i) - asSecs (run.taken j).2) / secsPerDay

/-- What the directory held before the first day. -/
def FromBefore (file : String × SystemTime) : Prop := asSecs file.2 < asSecs (run.taken 0).2

theorem taken_lt (h : j < i) : asSecs (run.taken j).2 < asSecs (run.taken i).2 := by
  have hj := run.day j
  have hi := run.day i
  unfold secsPerDay at hj hi
  omega

theorem taken_le (h : j ≤ i) : asSecs (run.taken j).2 ≤ asSecs (run.taken i).2 := by
  rcases h.lt_or_eq with hlt | rfl
  · exact (run.taken_lt hlt).le
  · exact le_rfl

theorem taken_le_now (h : j ≤ i) : asSecs (run.taken j).2 ≤ asSecs (run.now i) :=
  (run.taken_le h).trans (run.day i).2.1

theorem ageDays_taken (h : j ≤ i) : ageDays (run.now i) (run.taken j).2 = some (run.age i j) :=
  if_neg (Nat.not_lt.mpr (run.taken_le_now h))

theorem bucketAt_taken (h : j ≤ i) : run.bucketAt i (run.taken j) = bucketOf retentionDays (some (run.age i j)) := by
  rw [bucketAt, run.ageDays_taken h]

theorem age_bounds (h : j ≤ i) : run.age i j + j ≤ i ∧ i ≤ run.age i j + j + 1 := by
  have hj := run.day j
  have hi := run.day i
  unfold age
  unfold secsPerDay at *
  omega

variable {run}

theorem FromBefore.bucketAt_eq_none (h : run.FromBefore file) (hlong : retentionDays + 236 < i) :
    run.bucketAt i file = none := by
  have h0 := run.day 0
  have hi := run.day i
  unfold FromBefore at h
  have hpast : ¬ asSecs (run.now i) < asSecs file.2 := by
    unfold secsPerDay at h0 hi
    omega
  rw [bucketAt, ageDays, if_neg hpast, bucketOf_eq_none]
  unfold secsPerDay at *
  omega

theorem mem_dir (hfile : file ∈ listSnapshotFiles (run.dir i)) : run.FromBefore file ∨ ∃ j ≤ i, file = run.taken j := by
  induction i with
  | zero =>
    by_cases hfirst : file = run.taken 0
    · exact .inr ⟨0, le_rfl, hfirst⟩
    · exact .inl (run.older file hfile hfirst)
  | succ i ih =>
    rcases (run.next i file).mp hfile with rfl | hsurvivor
    · exact .inr ⟨i + 1, le_rfl, rfl⟩
    · refine (ih (mem_prune.mp hsurvivor).1).imp_right ?_
      rintro ⟨j, hj, rfl⟩
      exact ⟨j, by omega, rfl⟩

/-! ### Regular times -/

theorem Regular.age_eq (hregular : run.Regular) (h : j ≤ i) : run.age i j = i - j := by
  have hage := run.age_bounds h
  have hwhole := hregular i j h
  have hdays : i - j ≤ run.age i j := (Nat.le_div_iff_mul_le (by decide)).mpr (by omega)
  omega

variable (run)

/-- What a prune leaves: all of the daily window, and of the rest only the last to leave the window. -/
structure Left (i : Nat) : Prop where
  recent : ∀ j ≤ i, i - j < retentionDays → run.taken j ∈ run.survivors i
  old : ∀ j ≤ i, run.taken j ∈ run.survivors i → i - j ≤ retentionDays

/-- What a prune finds. -/
structure Found (i : Nat) : Prop where
  recent : ∀ j ≤ i, i - j ≤ retentionDays → run.taken j ∈ listSnapshotFiles (run.dir i)
  old : ∀ j ≤ i, run.taken j ∈ listSnapshotFiles (run.dir i) → i - j ≤ retentionDays + 1

variable {run}

theorem Found.left (hdays : 1 ≤ retentionDays) (hregular : run.Regular) (h : run.Found i) : run.Left i := by
  constructor
  · intro j hj hrecent
    have hfound := h.recent j hj hrecent.le
    have hday : run.bucketAt i (run.taken j) = some (.daily (i - j)) := by
      rw [run.bucketAt_taken hj, hregular.age_eq hj]
      exact bucketOf_eq_daily.mpr ⟨hrecent, rfl⟩
    refine mem_prune.mpr ⟨hfound, kept_of_newest hfound hday fun f hf hfday => ?_⟩
    rcases mem_dir hf with hbefore | ⟨j', hj', rfl⟩
    · exact .inr (lt_of_lt_of_le hbefore (run.taken_le (Nat.zero_le j)))
    · rw [run.ageDays_taken hj', hregular.age_eq hj', bucketOf_eq_daily] at hfday
      obtain rfl : j' = j := by omega
      exact .inl rfl
  · intro j hj hfile
    obtain ⟨hfound, hkept⟩ := mem_prune.mp hfile
    have hle := h.old j hj hfound
    by_contra hgt
    have hweek : run.bucketAt i (run.taken j) = some (.weekly 0) := by
      rw [run.bucketAt_taken hj, hregular.age_eq hj]
      exact bucketOf_eq_weekly.mpr ⟨by omega, by decide, by omega⟩
    have hnext : j + 1 ≤ i := by omega
    have hweek' : run.bucketAt i (run.taken (j + 1)) = some (.weekly 0) := by
      rw [run.bucketAt_taken hnext, hregular.age_eq hnext]
      exact bucketOf_eq_weekly.mpr ⟨by omega, by decide, by omega⟩
    have hfound' := h.recent (j + 1) hnext (by omega)
    exact not_kept_of_newer (nodup_names (run.distinct i)) hfound hfound' hweek hweek' (run.taken_lt (Nat.lt_succ_self j))
      hkept

theorem found_zero : run.Found 0 := by
  constructor
  · intro j hj _
    obtain rfl : j = 0 := by omega
    exact run.first
  · intro j hj _
    omega

theorem Left.found (h : run.Left i) : run.Found (i + 1) := by
  constructor
  · intro j hj hrecent
    refine (run.next i _).mpr ?_
    rcases Nat.lt_or_ge i j with hnew | hold
    · exact .inl (congrArg run.taken (by omega))
    · exact .inr (h.recent j hold (by omega))
  · intro j hj hfile
    rcases Nat.lt_or_ge i j with hnew | hold
    · omega
    · rcases (run.next i _).mp hfile with htaken | hsurvivor
      · have hlt := run.taken_lt (Nat.lt_succ_of_le hold)
        exact absurd (congrArg (asSecs ·.2) htaken) hlt.ne
      · have hle := h.old j hold hsurvivor
        omega

theorem left (hdays : 1 ≤ retentionDays) (hregular : run.Regular) (i : Nat) : run.Left i := by
  induction i with
  | zero => exact found_zero.left hdays hregular
  | succ i ih => exact ih.found.left hdays hregular

theorem bucket_of_survivor {bucket : Bucket} (hdays : 1 ≤ retentionDays) (hregular : run.Regular)
    (hlong : retentionDays + 56 + 180 < i) (hfile : file ∈ run.survivors i)
    (hbucket : run.bucketAt i file = some bucket) : (∃ day, bucket = .daily day) ∨ bucket = .weekly 0 := by
  rcases mem_dir (mem_prune.mp hfile).1 with hbefore | ⟨j, hj, rfl⟩
  · rw [hbefore.bucketAt_eq_none hlong] at hbucket
    cases hbucket
  · have hle := (left hdays hregular i).old j hj hfile
    rw [run.bucketAt_taken hj, hregular.age_eq hj] at hbucket
    rcases Nat.lt_or_ge (i - j) retentionDays with hrecent | hpast
    · have hday := bucketOf_eq_daily.mpr ⟨hrecent, rfl⟩
      exact .inl ⟨i - j, Option.some.inj (hbucket.symm.trans hday)⟩
    · have hweek := bucketOf_eq_weekly.mpr ⟨hpast, (by decide : 0 < weeklyBuckets), (by omega : _ / 7 = 0)⟩
      exact .inr (Option.some.inj (hbucket.symm.trans hweek))

theorem Regular.not_populated (hregular : run.Regular) (hdays : 1 ≤ retentionDays)
    (hlong : retentionDays + 56 + 180 < i) : ¬ run.Populated i := by
  intro hpopulated
  obtain ⟨file, hfile, hmonth⟩ := hpopulated (.monthly 0) (by simp [buckets, monthlyBuckets])
  rcases bucket_of_survivor hdays hregular hlong hfile hmonth with ⟨day, hday⟩ | hweek
  · cases hday
  · cases hweek

end DailyRun

end Pcloud.Snapshot
