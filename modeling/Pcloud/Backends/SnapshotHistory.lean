import Pcloud.Backends.KeepSet
import Pcloud.Lib.AgeLadder

/-!
# The history of a daily run (`pcloud-backends/src/snapshot.rs`)

The buckets of the keep rule are a ladder, which the snapshots of a daily run climb. A week hands its snapshot on only
when all the younger ones do, so two snapshots that are both to become months old must be less than thirty days apart.
The months need them thirty days apart.
-/

namespace Pcloud.Snapshot

variable {retentionDays level day : Nat}

/-- The youngest age of a level: a day each, then eight weeks, then months. -/
def floorOf (retentionDays level : Nat) : Nat :=
  if level ≤ retentionDays then level
  else if level ≤ retentionDays + 8 then retentionDays + 7 * (level - retentionDays)
  else retentionDays + 56 + 30 * (level - retentionDays - 8)

def bucketAtLevel (retentionDays level : Nat) : Bucket :=
  if level < retentionDays then .daily level
  else if level < retentionDays + 8 then .weekly (level - retentionDays)
  else .monthly (level - retentionDays - 8)

theorem floorOf_day (h : level ≤ retentionDays) : floorOf retentionDays level = level := if_pos h

theorem floorOf_week {week : Nat} (h : week ≤ 8) : floorOf retentionDays (retentionDays + week) =
    retentionDays + 7 * week := by
  unfold floorOf
  split
  · omega
  · rw [if_pos (by omega)]
    omega

theorem floorOf_month {month : Nat} : floorOf retentionDays (retentionDays + 8 + month) =
    retentionDays + 56 + 30 * month := by
  unfold floorOf
  rw [if_neg (by omega)]
  split <;> omega

theorem inBucket_level (h : level < retentionDays + 14) :
    InBucket retentionDays (bucketAtLevel retentionDays level) day ↔
      floorOf retentionDays level ≤ day ∧ day < floorOf retentionDays (level + 1) := by
  unfold bucketAtLevel
  split
  · rename_i hdaily
    rw [floorOf_day hdaily.le, floorOf_day hdaily, InBucket]
    omega
  · split
    · obtain ⟨week, rfl⟩ := Nat.exists_eq_add_of_le (Nat.le_of_not_lt ‹_›)
      rw [floorOf_week (by omega), Nat.add_assoc, floorOf_week (by omega), InBucket]
      omega
    · obtain ⟨month, rfl⟩ := Nat.exists_eq_add_of_le (Nat.le_of_not_lt ‹¬ level < retentionDays + 8›)
      rw [floorOf_month, Nat.add_assoc _ month, floorOf_month, InBucket]
      omega

theorem bucketAtLevel_mem (h : level < retentionDays + 14) :
    bucketAtLevel retentionDays level ∈ buckets retentionDays := by
  unfold bucketAtLevel buckets weeklyBuckets monthlyBuckets
  split
  · simp_all
  · split
    · simp
      omega
    · simp
      omega

namespace DailyRun

variable (run : DailyRun retentionDays) {hdays : 1 ≤ retentionDays} {i j s x y : Nat}

/-- Day `j` has a snapshot after prune `i`. -/
def Survives (i j : Nat) : Prop := j ≤ i ∧ run.taken j ∈ run.survivors i

variable {run}

theorem Survives.before (h : run.Survives (i + 1) j) (hj : j ≤ i) : run.Survives i j := by
  refine ⟨hj, ?_⟩
  rcases (run.next i _).mp (mem_prune.mp h.2).1 with htaken | hsurvivor
  · have hlt := run.taken_lt (Nat.lt_succ_of_le hj)
    exact absurd (congrArg (asSecs ·.2) htaken) hlt.ne
  · exact hsurvivor

theorem Survives.eq {bucket : Bucket} {j' : Nat} (h : run.Survives i j) (h' : run.Survives i j')
    (hbucket : InBucket retentionDays bucket (run.age i j)) (hbucket' : InBucket retentionDays bucket (run.age i j')) :
    j = j' := by
  rw [inBucket_iff, ← run.ageDays_taken h.1] at hbucket
  rw [inBucket_iff, ← run.ageDays_taken h'.1] at hbucket'
  obtain ⟨hfound, hkept⟩ := mem_prune.mp h.2
  obtain ⟨hfound', hkept'⟩ := mem_prune.mp h'.2
  obtain ⟨newest, -, -, -, hunique⟩ := kept_of_slot (nodup_names (run.distinct i)) hfound hbucket
  have hsame : run.taken j = run.taken j' :=
    ((hunique _ hfound hbucket).2 hkept).trans ((hunique _ hfound' hbucket').2 hkept').symm
  rcases Nat.lt_trichotomy j j' with hlt | heq | hlt
  · exact absurd (congrArg (asSecs ·.2) hsame) (run.taken_lt hlt).ne
  · exact heq
  · exact absurd (congrArg (asSecs ·.2) hsame) (run.taken_lt hlt).ne'

variable (run) (hdays)

/-- The snapshots of the run on the ladder of the keep rule. -/
def ladder : AgeLadder where
  floor := floorOf retentionDays
  levels := retentionDays + 14
  age := run.age
  kept := run.Survives
  bottom := floorOf_day (Nat.zero_le _)
  arrives i := by
    have hage := run.age_bounds (le_refl i)
    rw [floorOf_day hdays]
    omega
  past h := h.1
  carried := Survives.before
  older hle _ := Nat.div_le_div_right (Nat.sub_le_sub_left (run.taken_le hle) _)
  grows {i _} _ := by
    have hnow : asSecs (run.now i) ≤ asSecs (run.now (i + 1)) := by
      have hi := run.day i
      have hnext := run.day (i + 1)
      omega
    exact Nat.div_le_div_right (Nat.sub_le_sub_right hnow _)
  unique hlevel h h' habove hbelow habove' hbelow' :=
    h.eq h' ((inBucket_level hlevel).mpr ⟨habove, hbelow⟩) ((inBucket_level hlevel).mpr ⟨habove', hbelow'⟩)

variable {run} {hdays}

theorem holds_ladder : (run.ladder hdays).Holds i level j ↔
    run.Survives i j ∧ floorOf retentionDays level ≤ run.age i j ∧ run.age i j < floorOf retentionDays (level + 1) :=
  ⟨fun h => ⟨h.kept, h.above, h.below⟩, fun ⟨hkept, habove, hbelow⟩ => ⟨hkept, habove, hbelow⟩⟩

theorem Populated.full (hlong : retentionDays + 56 + 180 < i) (h : run.Populated i) : (run.ladder hdays).Full i := by
  intro level hlevel
  obtain ⟨file, hfile, hbucket⟩ := h _ (bucketAtLevel_mem hlevel)
  rcases mem_dir (mem_prune.mp hfile).1 with hbefore | ⟨j, hj, rfl⟩
  · rw [hbefore.bucketAt_eq_none hlong] at hbucket
    cases hbucket
  · rw [run.bucketAt_taken hj, ← inBucket_iff, inBucket_level hlevel] at hbucket
    exact ⟨j, ⟨hj, hfile⟩, hbucket.1, hbucket.2⟩

theorem promoted_span (h : (run.ladder hdays).Promoted i level j) :
    floorOf retentionDays (level + 1) + j ≤ i + 1 ∧ i ≤ floorOf retentionDays (level + 1) + j := by
  have hbefore : run.age i j < floorOf retentionDays (level + 1) := h.1.below
  have hafter : floorOf retentionDays (level + 1) ≤ run.age (i + 1) j := h.2.above
  have hage := run.age_bounds h.1.kept.1
  have hage' := run.age_bounds h.2.kept.1
  omega

variable (run) (hdays)

theorem exists_crossing (x n : Nat) (hn : 1 ≤ n) :
    ∃ e, x + n ≤ e + 1 ∧ e ≤ x + n ∧ run.age e x < n ∧ n ≤ run.age (e + 1) x := by
  rcases Nat.lt_or_ge (run.age (x + n) x) n with hbefore | hafter
  · have hage := run.age_bounds (by omega : x ≤ x + n + 1)
    exact ⟨x + n, by omega, le_rfl, hbefore, by omega⟩
  · have hage := run.age_bounds (by omega : x ≤ x + n - 1)
    refine ⟨x + n - 1, by omega, by omega, by omega, ?_⟩
    rwa [Nat.sub_add_cancel (by omega)]

variable {run} {hdays}

/-- When the older one goes into the sixth week, the younger one has to leave the first. -/
theorem gap_le (hfull : ∀ e, s ≤ e → e ≤ i → (run.ladder hdays).Full e) (hx : run.Survives i x)
    (hy : run.Survives i y) (hs : s ≤ x + retentionDays + 34) (hi : x + retentionDays + 36 ≤ i) (hgap : x + 29 ≤ y)
    (hgap' : y ≤ x + 31) : y ≤ x + 29 := by
  obtain ⟨e, hfrom, hto, hbefore, hafter⟩ := run.exists_crossing x (retentionDays + 35) (by omega)
  have hkept : ∀ {z e' : Nat}, run.Survives i z → z ≤ e' → e' ≤ i → run.Survives e' z :=
    AgeLadder.kept_of_le (L := run.ladder hdays)
  have hpromoted : (run.ladder hdays).Promoted e (retentionDays + 4) x := by
    have hage := run.age_bounds (by omega : x ≤ e)
    have hage' := run.age_bounds (by omega : x ≤ e + 1)
    refine ⟨holds_ladder.mpr ⟨hkept hx (by omega) (by omega), ?_⟩,
      holds_ladder.mpr ⟨hkept hx (by omega) (by omega), ?_⟩⟩
    · rw [floorOf_week (by decide), floorOf_week (by decide : 5 ≤ 8)]
      omega
    · rw [floorOf_week (by decide : 5 ≤ 8), floorOf_week (by decide : 6 ≤ 8)]
      omega
  have hyoung : (run.ladder hdays).Holds e (retentionDays + 0) y := by
    have hage := run.age_bounds (by omega : y ≤ e)
    refine holds_ladder.mpr ⟨hkept hy (by omega) (by omega), ?_⟩
    rw [floorOf_week (by decide), floorOf_week (by decide : 1 ≤ 8)]
    omega
  have hlevels : (run.ladder hdays).levels = retentionDays + 14 := rfl
  obtain ⟨z, hz⟩ := hpromoted.exists_below (hfull e (by omega) (by omega)) (hfull (e + 1) (by omega) (by omega))
    (by omega) (by omega : retentionDays + 0 ≤ retentionDays + 4)
  obtain rfl := hz.1.eq (by omega) hyoung
  have hspan := promoted_span hz
  rw [floorOf_week (by decide : 1 ≤ 8)] at hspan
  omega

theorem exists_not_populated (run : DailyRun retentionDays) (hdays : 1 ≤ retentionDays)
    (hlong : retentionDays + 56 + 180 < s) : ∃ i, s ≤ i ∧ i ≤ s + 113 ∧ ¬ run.Populated i := by
  by_contra hnone
  have hfull : ∀ i, s ≤ i → i ≤ s + 113 → (run.ladder hdays).Full i := by
    intro i hs hi
    by_contra hempty
    exact hnone ⟨i, hs, hi, fun hpopulated => hempty (hpopulated.full (by omega))⟩
  have hlevels : (run.ladder hdays).levels = retentionDays + 14 := rfl
  have hmonth : ∀ month, floorOf retentionDays (retentionDays + 8 + month) = retentionDays + 56 + 30 * month :=
    fun _ => floorOf_month
  -- The third month gets another snapshot within its thirty days.
  obtain ⟨m, hm⟩ := hfull (s + 82) (by omega) (by omega) (retentionDays + 8 + 2) (by omega)
  have hleaves : ¬ (run.ladder hdays).Holds (s + 82 + 31) (retentionDays + 8 + 2) m := by
    intro hstays
    have habove : floorOf retentionDays (retentionDays + 8 + 2) ≤ run.age (s + 82) m := hm.above
    have hbelow : run.age (s + 82 + 31) m < floorOf retentionDays (retentionDays + 8 + 3) := hstays.below
    have hage := run.age_bounds hm.kept.1
    have hage' := run.age_bounds hstays.kept.1
    rw [hmonth] at habove hbelow
    omega
  obtain ⟨q, hq, hheld, x, hne, hnext⟩ :=
    AgeLadder.exists_replaced hm (fun m hm => hfull _ (by omega) (by omega)) (by omega) hleaves
  -- With it the two younger ones go up.
  have hfullq := hfull (s + 82 + q) (by omega) (by omega)
  have hfullq' := hfull (s + 82 + q + 1) (by omega) (by omega)
  have hx := AgeLadder.promoted_of_replaced hfullq hfullq' (by omega) hheld hnext hne
  obtain ⟨y, hy⟩ := hx.exists_below hfullq hfullq' (by omega) (by omega : retentionDays + 8 ≤ retentionDays + 8 + 1)
  obtain ⟨z, hz⟩ := hx.exists_below hfullq hfullq' (by omega) (by omega : retentionDays + 7 ≤ retentionDays + 8 + 1)
  have hxspan := promoted_span hx
  have hyspan := promoted_span hy
  have hzspan := promoted_span hz
  have hhalf : floorOf retentionDays (retentionDays + 7 + 1) = retentionDays + 56 + 30 * 0 := hmonth 0
  rw [show retentionDays + 8 + 1 + 1 = retentionDays + 8 + 2 from rfl, hmonth] at hxspan
  rw [hmonth] at hyspan
  rw [hhalf] at hzspan
  have hfullto : ∀ e, s ≤ e → e ≤ s + 82 + q → (run.ladder hdays).Full e := fun e hs he => hfull e hs (by omega)
  have hxy := gap_le hfullto hx.1.kept hy.1.kept (by omega) (by omega) (by omega) (by omega)
  have hyz := gap_le hfullto hy.1.kept hz.1.kept (by omega) (by omega) (by omega) (by omega)
  omega

end DailyRun

/-- No run keeps its history: some prune in any 114 leaves a bucket empty, and with regular times every prune. -/
theorem history_lost (retentionDays : Nat) (hdays : 1 ≤ retentionDays) (run : DailyRun retentionDays) :
    ¬ run.KeepsHistory ∧
      (∀ s, retentionDays + 56 + 180 < s → ∃ i, s ≤ i ∧ i ≤ s + 113 ∧ ¬ run.Populated i) ∧
      (run.Regular → ∀ i, retentionDays + 56 + 180 < i → ¬ run.Populated i) := by
  refine ⟨?_, ?_, ?_⟩
  · intro hkeeps
    obtain ⟨i, hi, -, hempty⟩ := run.exists_not_populated hdays (Nat.lt_succ_self _)
    exact hempty (hkeeps i hi)
  · intro s hlong
    exact run.exists_not_populated hdays hlong
  · intro hregular i hlong
    exact hregular.not_populated hdays hlong

/-! ## A run from an empty directory -/

/-- Day `i` in the time of the archive; its name grows with the day. -/
def archive (i : Nat) : DirEntry where
  name := encryptedPrefix ++ String.ofList (List.replicate i '0') ++ zstdSuffix
  isFile := true
  modified := some (i * 86400000000000)

/-- The prune comes an hour later. -/
def pruneTime (i : Nat) : SystemTime := i * 86400000000000 + 3600000000000

def archiveDir (retentionDays : Nat) : Nat → List DirEntry
  | 0 => [archive 0]
  | i + 1 => archive (i + 1) :: (pruneGfsExecute (archiveDir retentionDays i) retentionDays (pruneTime i)).2

theorem archive_name_length (i : Nat) : (archive i).name.toList.length = i + 18 := by
  simp [archive, encryptedPrefix, zstdSuffix]

theorem isSnapshot_archive (i : Nat) : (archive i).isSnapshot := by
  have hstart : startsWith (archive i).name encryptedPrefix := by
    rw [startsWith, List.isPrefixOf_iff_prefix]
    simp [archive, List.prefix_append]
  have hends : zstdSuffix.toList <:+ (archive i).name.toList := by
    rw [archive, String.toList_append]
    exact List.suffix_append _ _
  have hzstd : endsWith (archive i).name zstdSuffix := List.isSuffixOf_iff_suffix.mpr hends
  have hsidecar : endsWith (archive i).name sidecarSuffix = false := by
    by_contra hjson
    have hjson := List.isSuffixOf_iff_suffix.mp (Bool.not_eq_false _ ▸ hjson)
    exact absurd (List.suffix_of_suffix_length_le hends hjson (by decide)) (by decide)
  unfold DirEntry.isSnapshot
  rw [hstart, hzstd, hsidecar]
  simp [archive]

theorem asSecs_archive (i : Nat) : asSecs (archive i).mtime = i * secsPerDay := by
  unfold asSecs DirEntry.mtime archive secsPerDay
  simp only [Option.getD_some]
  omega

theorem asSecs_pruneTime (i : Nat) : asSecs (pruneTime i) = i * secsPerDay + 3600 := by
  unfold asSecs pruneTime secsPerDay
  omega

theorem archiveDir_spec (retentionDays i : Nat) :
    ((archiveDir retentionDays i).map DirEntry.name).Nodup ∧
      ∀ e ∈ archiveDir retentionDays i, ∃ j ≤ i, e = archive j := by
  induction i with
  | zero => simp [archiveDir]
  | succ i ih =>
    obtain ⟨hnames, hall⟩ := ih
    have hsub : (pruneGfsExecute (archiveDir retentionDays i) retentionDays (pruneTime i)).2.Sublist
        (archiveDir retentionDays i) := List.filter_sublist
    constructor
    · rw [archiveDir, List.map_cons, List.nodup_cons]
      refine ⟨fun hmem => ?_, hnames.sublist (hsub.map _)⟩
      obtain ⟨e, he, hname⟩ := List.mem_map.mp hmem
      obtain ⟨j, hj, rfl⟩ := hall e (hsub.subset he)
      have := archive_name_length j
      rw [hname, archive_name_length] at this
      omega
    · intro e he
      rcases List.mem_cons.mp he with rfl | he
      · exact ⟨i + 1, le_rfl, rfl⟩
      · obtain ⟨j, hj, rfl⟩ := hall e (hsub.subset he)
        exact ⟨j, by omega, rfl⟩

def archiveRun (retentionDays : Nat) : DailyRun retentionDays where
  dir := archiveDir retentionDays
  now := pruneTime
  taken i := ((archive i).name, (archive i).mtime)
  start := 0
  distinct i := (archiveDir_spec retentionDays i).1
  first := mem_listSnapshotFiles.mpr ⟨archive 0, List.mem_singleton_self _, isSnapshot_archive 0, rfl⟩
  next i file := by
    rw [mem_listSnapshotFiles, mem_listSnapshotFiles, archiveDir]
    constructor
    · rintro ⟨e, he, hsnapshot, rfl⟩
      rcases List.mem_cons.mp he with rfl | he
      · exact .inl rfl
      · exact .inr ⟨e, he, hsnapshot, rfl⟩
    · rintro (rfl | ⟨e, he, hsnapshot, rfl⟩)
      · exact ⟨archive (i + 1), List.mem_cons_self, isSnapshot_archive (i + 1), rfl⟩
      · exact ⟨e, List.mem_cons_of_mem _ he, hsnapshot, rfl⟩
  day i := by
    rw [asSecs_archive, asSecs_pruneTime]
    unfold secsPerDay
    omega
  older file hfile hne := by
    obtain ⟨e, he, -, rfl⟩ := mem_listSnapshotFiles.mp hfile
    obtain rfl := List.mem_singleton.mp he
    exact absurd rfl hne

theorem regular_archiveRun (retentionDays : Nat) : (archiveRun retentionDays).Regular := by
  intro i j hj
  change asSecs (archive j).mtime + (i - j) * secsPerDay ≤ asSecs (pruneTime i)
  rw [asSecs_archive, asSecs_pruneTime]
  unfold secsPerDay
  omega

theorem history_lost_week : ¬ (archiveRun 7).KeepsHistory ∧ ¬ (archiveRun 7).Populated 300 := by
  have hlost := history_lost 7 (by decide) (archiveRun 7)
  exact ⟨hlost.1, hlost.2.2 (regular_archiveRun 7) 300 (by decide)⟩

theorem not_keepsHistory : ¬ ∀ retentionDays ≥ 1, ∀ run : DailyRun retentionDays, run.KeepsHistory := by
  intro hkeeps
  exact (regular_archiveRun 1).not_populated le_rfl (by decide : 1 + 56 + 180 < 238)
    (hkeeps 1 le_rfl (archiveRun 1) 238 (by decide))

end Pcloud.Snapshot
