import Pcloud.Backends.SnapshotRetention

/-!
# What a prune keeps (`pcloud-backends/src/snapshot.rs`)

`gfs_keep_set` against the buckets of its rule: the days of the daily window, eight weeks before it, and six months of
thirty days before these.
-/

namespace Pcloud.Snapshot

/-! ## The buckets -/

/-- The day of a snapshot, counted back from now. What is still to come counts as the day of now. -/
def dayOf (now mtime : SystemTime) : Nat :=
  if asSecs now < asSecs mtime then 0 else (asSecs now - asSecs mtime) / secsPerDay

def InBucket (retentionDays : Nat) (bucket : Bucket) (day : Nat) : Prop :=
  match bucket with
  | .daily d => d < retentionDays ∧ day = d
  | .weekly week => week < 8 ∧ retentionDays + 7 * week ≤ day ∧ day < retentionDays + 7 * (week + 1)
  | .monthly month =>
    month < 6 ∧ retentionDays + 56 + 30 * month ≤ day ∧ day < retentionDays + 56 + 30 * (month + 1)

variable {files again : List (String × SystemTime)} {file other : String × SystemTime} {path : String}
variable {retentionDays day : Nat} {now : SystemTime} {bucket : Bucket}

theorem bucketOf_eq_monthly {month : Nat} :
    bucketOf retentionDays (some day) = some (.monthly month) ↔
      retentionDays + 56 ≤ day ∧ month < monthlyBuckets ∧ (day - retentionDays - 56) / 30 = month := by
  unfold bucketOf weeklyBuckets monthlyBuckets
  dsimp only
  split
  · simp only [Option.some.injEq, reduceCtorEq, false_iff]
    omega
  · split
    · simp only [Option.some.injEq, reduceCtorEq, false_iff]
      omega
    · split
      · simp only [Option.some.injEq, Bucket.monthly.injEq]
        omega
      · simp only [reduceCtorEq, false_iff]
        omega

theorem inBucket_iff : InBucket retentionDays bucket day ↔ bucketOf retentionDays (some day) = some bucket := by
  cases bucket with
  | daily d =>
    rw [bucketOf_eq_daily, InBucket]
    omega
  | weekly week =>
    rw [bucketOf_eq_weekly, InBucket, weeklyBuckets]
    omega
  | monthly month =>
    rw [bucketOf_eq_monthly, InBucket, monthlyBuckets]
    omega

theorem exists_inBucket_iff : (∃ bucket, InBucket retentionDays bucket day) ↔ day < retentionDays + 56 + 180 := by
  simp only [inBucket_iff]
  constructor
  · rintro ⟨bucket, hbucket⟩
    by_contra hday
    rw [bucketOf_eq_none (by omega)] at hbucket
    cases hbucket
  · intro hday
    rcases Nat.lt_or_ge day retentionDays with hdaily | hdaily
    · exact ⟨.daily day, bucketOf_eq_daily.mpr ⟨hdaily, rfl⟩⟩
    · rcases Nat.lt_or_ge day (retentionDays + 56) with hweekly | hweekly
      · exact ⟨.weekly _, bucketOf_eq_weekly.mpr ⟨hdaily, by rw [weeklyBuckets]; omega, rfl⟩⟩
      · exact ⟨.monthly _, bucketOf_eq_monthly.mpr ⟨hweekly, by rw [monthlyBuckets]; omega, rfl⟩⟩

theorem inBucket_unique {bucket' : Bucket} (h : InBucket retentionDays bucket day)
    (h' : InBucket retentionDays bucket' day) : bucket = bucket' := by
  rw [inBucket_iff] at h h'
  exact Option.some_inj.mp (h.symm.trans h')

/-! ## The rule -/

/-- The bucket that a file is in. -/
def FileIn (retentionDays : Nat) (now : SystemTime) (bucket : Bucket) (file : String × SystemTime) : Prop :=
  InBucket retentionDays bucket (dayOf now file.2)

/-- The keep rule: of each bucket that has files, one of the newest and no other, and nothing outside the buckets. What
is kept is kept again. -/
structure KeepsNewest (files : List (String × SystemTime)) (retentionDays : Nat) (now : SystemTime) : Prop where
  nodup : (gfsKeepSet files retentionDays now).Nodup
  newest : ∀ bucket, (∃ file ∈ files, FileIn retentionDays now bucket file) →
    ∃ file ∈ files, FileIn retentionDays now bucket file ∧ file.1 ∈ gfsKeepSet files retentionDays now ∧
      ∀ other ∈ files, FileIn retentionDays now bucket other →
        asSecs other.2 ≤ asSecs file.2 ∧ (other.1 ∈ gfsKeepSet files retentionDays now → other = file)
  nothingElse : ∀ path ∈ gfsKeepSet files retentionDays now,
    ∃ file ∈ files, file.1 = path ∧ ∃ bucket, FileIn retentionDays now bucket file
  again : ∀ again : List (String × SystemTime),
    (∀ file, file ∈ again ↔ file ∈ files ∧ file.1 ∈ gfsKeepSet files retentionDays now) →
      ∀ path, path ∈ gfsKeepSet again retentionDays now ↔ path ∈ gfsKeepSet files retentionDays now

/-- The slot of the code that a file is offered to. -/
def slotBucket (retentionDays : Nat) (now : SystemTime) (file : String × SystemTime) : Option Bucket :=
  bucketOf retentionDays (ageDays now file.2)

theorem nodup_gfsKeepSet (files : List (String × SystemTime)) (retentionDays : Nat) (now : SystemTime) :
    (gfsKeepSet files retentionDays now).Nodup := by
  have hsorted := List.pairwise_insertionSort (· ≤ ·)
    ((BestOf.collect (slotOf retentionDays now) files).map fun slot => slot.2.2)
  have hnodup : ((gfsKeepSet files retentionDays now).map id).Nodup :=
    Reps.nodup_eraseRepsBy hsorted (fun _ _ _ => le_trans) (fun _ _ h => le_of_eq h) fun _ _ => le_antisymm
  rwa [List.map_id] at hnodup

theorem mem_gfsKeepSet_iff (hnames : (files.map Prod.fst).Nodup) (hfile : file ∈ files) :
    file.1 ∈ gfsKeepSet files retentionDays now ↔
      ∃ bucket, slotBucket retentionDays now file = some bucket ∧
        (bucket, asSecs file.2, file.1) ∈ BestOf.collect (slotOf retentionDays now) files := by
  rw [mem_gfsKeepSet]
  constructor
  · rintro ⟨slot, hslot, hpath⟩
    obtain ⟨f, hf, hplace⟩ := BestOf.mem_collect hslot
    obtain ⟨hbucket, hsecs, hname⟩ := slotOf_eq_some.mp hplace
    obtain rfl : f = file := List.inj_on_of_nodup_map hnames hf hfile (hname.trans hpath)
    refine ⟨slot.1, hbucket, ?_⟩
    rwa [hsecs, hname]
  · rintro ⟨bucket, -, hslot⟩
    exact ⟨_, hslot, rfl⟩

theorem exists_of_mem_gfsKeepSet (hpath : path ∈ gfsKeepSet files retentionDays now) :
    ∃ file ∈ files, file.1 = path ∧ ∃ bucket, slotBucket retentionDays now file = some bucket := by
  obtain ⟨slot, hslot, hpath⟩ := mem_gfsKeepSet.mp hpath
  obtain ⟨file, hfile, hplace⟩ := BestOf.mem_collect hslot
  obtain ⟨hbucket, -, hname⟩ := slotOf_eq_some.mp hplace
  exact ⟨file, hfile, hname.trans hpath, slot.1, hbucket⟩

theorem kept_of_slot (hnames : (files.map Prod.fst).Nodup) (hfile : file ∈ files)
    (hbucket : slotBucket retentionDays now file = some bucket) :
    ∃ kept ∈ files, slotBucket retentionDays now kept = some bucket ∧ kept.1 ∈ gfsKeepSet files retentionDays now ∧
      ∀ other ∈ files, slotBucket retentionDays now other = some bucket →
        asSecs other.2 ≤ asSecs kept.2 ∧ (other.1 ∈ gfsKeepSet files retentionDays now → other = kept) := by
  obtain ⟨secs, name, hslot, -⟩ := BestOf.exists_collect hfile (slotOf_eq_some.mpr ⟨hbucket, rfl, rfl⟩)
  obtain ⟨kept, hkept, hplace⟩ := BestOf.mem_collect hslot
  obtain ⟨hkeptBucket, rfl, rfl⟩ := slotOf_eq_some.mp hplace
  refine ⟨kept, hkept, hkeptBucket, mem_gfsKeepSet.mpr ⟨_, hslot, rfl⟩, fun other hother hotherBucket => ⟨?_, ?_⟩⟩
  · exact BestOf.le_of_mem_collect hslot hother (slotOf_eq_some.mpr ⟨hotherBucket, rfl, rfl⟩)
  · intro hotherKept
    obtain ⟨bucket', hbucket', hslot'⟩ := (mem_gfsKeepSet_iff hnames hother).mp hotherKept
    rw [hotherBucket, Option.some_inj] at hbucket'
    subst hbucket'
    exact List.inj_on_of_nodup_map hnames hother hkept (BestOf.collect_unique hslot' hslot).2

theorem gfsKeepSet_again (hnames : (files.map Prod.fst).Nodup)
    (hagain : ∀ file, file ∈ again ↔ file ∈ files ∧ file.1 ∈ gfsKeepSet files retentionDays now) (path : String) :
    path ∈ gfsKeepSet again retentionDays now ↔ path ∈ gfsKeepSet files retentionDays now := by
  constructor
  · intro hpath
    obtain ⟨file, hfile, rfl, -⟩ := exists_of_mem_gfsKeepSet hpath
    exact ((hagain file).mp hfile).2
  · intro hpath
    obtain ⟨file, hfile, rfl, bucket, hbucket⟩ := exists_of_mem_gfsKeepSet hpath
    refine kept_of_newest ((hagain file).mpr ⟨hfile, hpath⟩) hbucket fun other hother hotherBucket => .inl ?_
    obtain ⟨kept, -, -, -, hunique⟩ := kept_of_slot hnames hfile hbucket
    obtain ⟨hotherFile, hotherKept⟩ := (hagain other).mp hother
    rw [(hunique file hfile hbucket).2 hpath, (hunique other hotherFile hotherBucket).2 hotherKept]

/-! ## Slots and buckets -/

/-- The condition: with no daily window, there is not a file to come beside one of the last seven days. -/
def NoStrayDay (files : List (String × SystemTime)) (retentionDays : Nat) (now : SystemTime) : Prop :=
  retentionDays = 0 → (∃ file ∈ files, asSecs now < asSecs file.2) →
    ∀ file ∈ files, asSecs file.2 ≤ asSecs now → 7 ≤ (asSecs now - asSecs file.2) / secsPerDay

theorem slotBucket_eq_some_iff (h : asSecs file.2 ≤ asSecs now ∨ 1 ≤ retentionDays) :
    slotBucket retentionDays now file = some bucket ↔ FileIn retentionDays now bucket file := by
  rw [slotBucket, FileIn, inBucket_iff, ageDays, dayOf]
  split
  · next hlater =>
    have hdays : 0 < retentionDays := by omega
    have hday : bucketOf retentionDays (some 0) = some (.daily 0) := bucketOf_eq_daily.mpr ⟨hdays, rfl⟩
    rw [hday]
    rfl
  · rfl

theorem KeepsNewest.of_slots (hnames : (files.map Prod.fst).Nodup)
    (hslot : ∀ bucket, (∃ file ∈ files, FileIn retentionDays now bucket file) →
      ∃ slot, ∀ file ∈ files, slotBucket retentionDays now file = some slot ↔ FileIn retentionDays now bucket file)
    (hbucket : ∀ file ∈ files, ∀ slot, slotBucket retentionDays now file = some slot →
      ∃ bucket, FileIn retentionDays now bucket file) : KeepsNewest files retentionDays now := by
  refine ⟨nodup_gfsKeepSet files retentionDays now, ?_, ?_, fun again hagain => gfsKeepSet_again hnames hagain⟩
  · rintro bucket ⟨file, hfile, hin⟩
    obtain ⟨slot, hiff⟩ := hslot bucket ⟨file, hfile, hin⟩
    obtain ⟨kept, hkept, hkeptSlot, hmem, hbest⟩ := kept_of_slot hnames hfile ((hiff file hfile).mpr hin)
    exact ⟨kept, hkept, (hiff kept hkept).mp hkeptSlot, hmem,
      fun other hother hotherIn => hbest other hother ((hiff other hother).mpr hotherIn)⟩
  · intro path hpath
    obtain ⟨file, hfile, hname, slot, hslot⟩ := exists_of_mem_gfsKeepSet hpath
    exact ⟨file, hfile, hname, hbucket file hfile slot hslot⟩

section

variable (hlater : asSecs now < asSecs file.2)

include hlater

theorem slotBucket_of_later (retentionDays : Nat) : slotBucket retentionDays now file = some (.daily 0) := by
  rw [slotBucket, ageDays, if_pos hlater]
  rfl

theorem fileIn_of_later : FileIn 0 now bucket file ↔ bucket = .weekly 0 := by
  have hweek : bucketOf 0 (some 0) = some (.weekly 0) := rfl
  rw [FileIn, inBucket_iff, dayOf, if_pos hlater, hweek, Option.some_inj, eq_comm]

end

theorem not_fileIn_daily {d : Nat} : ¬FileIn 0 now (.daily d) file := fun h => Nat.not_lt_zero _ h.1

theorem fileIn_weekly_zero (hpast : asSecs file.2 ≤ asSecs now) :
    FileIn 0 now (.weekly 0) file ↔ (asSecs now - asSecs file.2) / secsPerDay < 7 := by
  rw [FileIn, dayOf, if_neg (by omega), InBucket, secsPerDay]
  omega

theorem noStrayDay_of_keepsNewest (hnames : (files.map Prod.fst).Nodup) (h : KeepsNewest files retentionDays now) :
    NoStrayDay files retentionDays now := by
  rintro rfl ⟨later, hlater, hcome⟩ past hpast hpassed
  by_contra hage
  have hweek : FileIn 0 now (.weekly 0) past := (fileIn_weekly_zero hpassed).mpr (by omega)
  obtain ⟨kept, hkept, hkeptSlot, hmem, -⟩ := kept_of_slot hnames hlater (slotBucket_of_later hcome 0)
  obtain ⟨kept', hkept', hkeptSlot', hmem', -⟩ :=
    kept_of_slot hnames hpast ((slotBucket_eq_some_iff (.inl hpassed)).mpr hweek)
  have hkeptIn : FileIn 0 now (.weekly 0) kept := by
    rcases Nat.lt_or_ge (asSecs now) (asSecs kept.2) with hcome' | hpassed'
    · exact (fileIn_of_later hcome').mpr rfl
    · exact absurd ((slotBucket_eq_some_iff (.inl hpassed')).mp hkeptSlot) not_fileIn_daily
  have hkeptIn' : FileIn 0 now (.weekly 0) kept' := by
    rcases Nat.lt_or_ge (asSecs now) (asSecs kept'.2) with hcome' | hpassed'
    · exact (fileIn_of_later hcome').mpr rfl
    · exact (slotBucket_eq_some_iff (.inl hpassed')).mp hkeptSlot'
  obtain ⟨best, -, -, -, hunique⟩ := h.newest (.weekly 0) ⟨past, hpast, hweek⟩
  have hsame : kept = kept' := by rw [(hunique kept hkept hkeptIn).2 hmem, (hunique kept' hkept' hkeptIn').2 hmem']
  rw [hsame, hkeptSlot'] at hkeptSlot
  cases hkeptSlot

theorem keepsNewest_of_noStrayDay (hnames : (files.map Prod.fst).Nodup) (h : NoStrayDay files retentionDays now) :
    KeepsNewest files retentionDays now := by
  by_cases hall : ∀ file ∈ files, asSecs file.2 ≤ asSecs now ∨ 1 ≤ retentionDays
  · exact .of_slots hnames (fun bucket _ => ⟨bucket, fun file hfile => slotBucket_eq_some_iff (hall file hfile)⟩)
      fun file hfile slot hslot => ⟨slot, (slotBucket_eq_some_iff (hall file hfile)).mp hslot⟩
  · push Not at hall
    obtain ⟨later, hlater, hcome, hdays⟩ := hall
    obtain rfl : retentionDays = 0 := by omega
    have hold := h rfl ⟨later, hlater, hcome⟩
    refine .of_slots hnames ?_ ?_
    · rintro bucket ⟨file, hfile, hin⟩
      by_cases hweek : bucket = .weekly 0
      · -- The files of the first week are those to come.
        subst hweek
        refine ⟨.daily 0, fun other hother => ?_⟩
        rcases Nat.lt_or_ge (asSecs now) (asSecs other.2) with hcome' | hpassed'
        · exact iff_of_true (slotBucket_of_later hcome' 0) ((fileIn_of_later hcome').mpr rfl)
        · rw [slotBucket_eq_some_iff (.inl hpassed'), fileIn_weekly_zero hpassed']
          exact iff_of_false not_fileIn_daily (Nat.not_lt.mpr (hold other hother hpassed'))
      · refine ⟨bucket, fun other hother => ?_⟩
        rcases Nat.lt_or_ge (asSecs now) (asSecs other.2) with hcome' | hpassed'
        · rw [slotBucket_of_later hcome' 0, fileIn_of_later hcome', Option.some_inj]
          refine iff_of_false ?_ hweek
          rintro rfl
          exact not_fileIn_daily hin
        · exact slotBucket_eq_some_iff (.inl hpassed')
    · intro file hfile slot hslot
      rcases Nat.lt_or_ge (asSecs now) (asSecs file.2) with hcome' | hpassed'
      · exact ⟨.weekly 0, (fileIn_of_later hcome').mpr rfl⟩
      · exact ⟨slot, (slotBucket_eq_some_iff (.inl hpassed')).mp hslot⟩

theorem keepsNewest_iff (files : List (String × SystemTime)) (retentionDays : Nat) (now : SystemTime)
    (hnames : (files.map Prod.fst).Nodup) :
    KeepsNewest files retentionDays now ↔ NoStrayDay files retentionDays now :=
  ⟨noStrayDay_of_keepsNewest hnames, keepsNewest_of_noStrayDay hnames⟩

/-- One snapshot of yesterday, one of tomorrow, and no daily window. -/
def strayFiles : List (String × SystemTime) :=
  [("pcloud-rs-a.tar.zst", 9 * 86400000000000), ("pcloud-rs-b.tar.zst", 11 * 86400000000000)]

theorem keepsNewest_strayFiles : KeepsNewest strayFiles 7 (10 * 86400000000000) :=
  (keepsNewest_iff strayFiles 7 (10 * 86400000000000) (by decide)).mpr fun h => by cases h

theorem not_keepsNewest : ¬∀ (files : List (String × SystemTime)) (retentionDays : Nat) (now : SystemTime),
    (files.map Prod.fst).Nodup → KeepsNewest files retentionDays now := by
  intro h
  have hstray := noStrayDay_of_keepsNewest (by decide) (h strayFiles 0 (10 * 86400000000000) (by decide))
  have hage := hstray rfl ⟨("pcloud-rs-b.tar.zst", 11 * 86400000000000), by decide, by decide⟩
    ("pcloud-rs-a.tar.zst", 9 * 86400000000000) (by decide) (by decide)
  revert hage
  decide

end Pcloud.Snapshot
