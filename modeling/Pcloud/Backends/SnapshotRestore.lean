import Mathlib.Logic.Function.Basic
import Pcloud.Backends.SnapshotArchive

/-!
# The restore of a snapshot (`pcloud-backends/src/snapshot.rs`)

The payloads are extracted beside the target and then moved in, one after the other. A call that fails in between
leaves what it has moved.
-/

namespace Pcloud.Snapshot

/-! ## The target -/

/-- `exists` follows a link, so it does not see one that leads nowhere. -/
inductive Node
  | file (bytes : Bytes)
  | directory
  | deadLink
deriving DecidableEq

abbrev TargetDir := String → Option Node

def nodeExists : Option Node → Bool
  | some (.file _) | some .directory => true
  | some .deadLink | none => false

/-- Which calls of the system fail. An entry is read and written under its number. -/
structure Faults where
  createTarget : Bool := false
  staging : Bool := false
  extractDir : Bool := false
  openPlain : Bool := false
  extract : Nat → Bool := fun _ => false
  remove : String → Bool := fun _ => false
  rename : String → Bool := fun _ => false

/-! ## Before the moves -/

def unsafePath (name : String) : Bool :=
  name.toList.tails.any (fun rest => ['.', '.'].isPrefixOf rest) ||
    name.toList.any fun c => c = Char.ofNat 0 || c = '/' || c = '\\'

def check (fault : Bool) : Except SnapshotError Unit := if fault then .error .Io else .ok ()

section

variable (codec : ManifestCodec) (sha256 : Bytes → Bytes) (faults : Faults)

/-- The files of the staging directory after the entries from number `i` on. -/
def extractEntries (i : Nat) (tar : TarFile) (extracted : String → Option Bytes) :
    Except SnapshotError (String → Option Bytes) :=
  match tar with
  | [] => .ok extracted
  | none :: _ => .error .Io
  | some entry :: rest =>
    if unsafePath entry.name then .error .UnsafePath
    else if faults.extract i then .error .Io
    else if entry.name = manifestEntry then extractEntries (i + 1) rest extracted
    else extractEntries (i + 1) rest (Function.update extracted entry.name (some entry.data))

/-- All that comes before the first move. `plain` is what `gpg` makes of the archive. -/
def prepare (plain : Except SnapshotError TarFile) :
    Except SnapshotError (SnapshotManifest × (String → Option Bytes)) := do
  check faults.createTarget
  check faults.staging
  let tar ← plain
  let manifest ← verifyUnencryptedSnapshot codec sha256 tar
  check faults.extractDir
  check faults.openPlain
  let extracted ← extractEntries faults 0 tar fun _ => none
  .ok (manifest, extracted)

/-! ## The moves -/

/-- `remove_file` does not remove a directory. -/
def removeFails (target : TargetDir) (name : String) : Bool :=
  match target name with
  | some (.file _) => faults.remove name
  | some .directory => true
  | some .deadLink | none => false

def moveAll (extracted : String → Option Bytes) (names : List String) (target : TargetDir) :
    Except SnapshotError Unit × TargetDir :=
  match names with
  | [] => (.ok (), target)
  | name :: rest =>
    match extracted name with
    | none => (.error (.MissingFile name), target)
    | some bytes =>
      if removeFails faults target name then (.error .Io, target)
      else
        let target := if nodeExists (target name) then Function.update target name none else target
        if faults.rename name then (.error .Io, target)
        else moveAll extracted rest (Function.update target name (some (.file bytes)))

def restoreEncryptedSnapshot (plain : Except SnapshotError TarFile) (target : TargetDir) :
    Except SnapshotError SnapshotManifest × TargetDir :=
  match prepare codec sha256 faults plain with
  | .error e => (.error e, target)
  | .ok (manifest, extracted) =>
    match moveAll faults extracted payloadEntries target with
    | (.ok (), target) => (.ok manifest, target)
    | (.error e, target) => (.error e, target)

/-! ## What the documentation promises -/

/-- On failure no files of the target are touched. -/
def AllOrNothing (plain : Except SnapshotError TarFile) (target : TargetDir) : Prop :=
  ∀ e, (restoreEncryptedSnapshot codec sha256 faults plain target).1 = .error e →
    (restoreEncryptedSnapshot codec sha256 faults plain target).2 = target

def moveFails (target : TargetDir) (name : String) : Bool := removeFails faults target name || faults.rename name

/-- At the first payload whose move fails, those before it were in the target as the archive has them, and its own
file is not removed: its removal is what fails, or there is none. -/
def FailsInPlace (plain : Except SnapshotError TarFile) (target : TargetDir) : Prop :=
  ∀ tar prepared, plain = .ok tar → prepare codec sha256 faults plain = .ok prepared →
    ∀ moved name rest, payloadEntries = moved ++ name :: rest → (∀ n ∈ moved, moveFails faults target n = false) →
      moveFails faults target name →
        (∀ n ∈ moved, target n = (lastEntry n tar).map .file) ∧
          (removeFails faults target name ∨ nodeExists (target name) = false)

end

section

variable {codec : ManifestCodec} {sha256 : Bytes → Bytes} {faults : Faults} {plain : Except SnapshotError TarFile}
variable {tar : TarFile} {extracted extracted' : String → Option Bytes} {target : TargetDir} {name : String}
variable {moved rest : List String} {bytes : Bytes}

theorem extractEntries_eq_ok {i : Nat} (hname : name ≠ manifestEntry)
    (h : extractEntries faults i tar extracted = .ok extracted') :
    extracted' name = (lastEntry name tar).or (extracted name) := by
  induction tar generalizing i extracted with
  | nil =>
    cases h
    rfl
  | cons entry tar ih =>
    cases entry with
    | none => cases h
    | some entry =>
      rw [extractEntries] at h
      split at h
      · cases h
      split at h
      · cases h
      split at h
      · rename_i hmanifest
        rw [ih h, lastEntry, Option.bind_some, if_neg (hmanifest.trans_ne hname.symm), Option.or_none]
      · rw [ih h, lastEntry, Option.bind_some, Option.or_assoc]
        by_cases heq : entry.name = name
        · subst heq
          rw [Function.update_self, if_pos rfl, Option.some_or]
        · rw [Function.update_of_ne (Ne.symm heq), if_neg heq, Option.none_or]

theorem prepare_eq_ok {prepared : SnapshotManifest × (String → Option Bytes)}
    (h : prepare codec sha256 faults plain = .ok prepared) :
    ∃ tar, plain = .ok tar ∧ ∀ name ∈ payloadEntries,
      prepared.2 name = lastEntry name tar ∧ (lastEntry name tar).isSome := by
  obtain ⟨-, -, h⟩ := bind_eq_ok.mp h
  obtain ⟨-, -, h⟩ := bind_eq_ok.mp h
  obtain ⟨tar, hplain, h⟩ := bind_eq_ok.mp h
  obtain ⟨manifest, hverify, h⟩ := bind_eq_ok.mp h
  obtain ⟨-, -, h⟩ := bind_eq_ok.mp h
  obtain ⟨-, -, h⟩ := bind_eq_ok.mp h
  obtain ⟨extracted, hextract, h⟩ := bind_eq_ok.mp h
  cases h
  refine ⟨tar, hplain, fun name hname => ⟨?_, (verify_eq_ok hverify).1 name hname⟩⟩
  have hnot : manifestEntry ∉ payloadEntries := by decide
  exact (extractEntries_eq_ok (fun h => hnot (h ▸ hname)) hextract).trans Option.or_none

/-! ## The moves, one after the other -/

/-- The target with the files of `moved`. -/
def install (extracted : String → Option Bytes) (moved : List String) (target : TargetDir) : TargetDir :=
  fun name => if name ∈ moved then (extracted name).map .file else target name

/-- What a failing move leaves under its name. -/
def abandon (faults : Faults) (target : TargetDir) (name : String) : TargetDir :=
  if removeFails faults target name then target
  else if nodeExists (target name) then Function.update target name none else target

theorem removeFails_congr {target' : TargetDir} (h : target name = target' name) :
    removeFails faults target name = removeFails faults target' name := by
  unfold removeFails
  rw [h]

theorem moveFails_congr {target' : TargetDir} (h : target name = target' name) :
    moveFails faults target name = moveFails faults target' name := by
  unfold moveFails
  rw [removeFails_congr h]

theorem moveAll_cons_of_fails (hextracted : (extracted name).isSome) (hfails : moveFails faults target name) :
    moveAll faults extracted (name :: rest) target = (.error .Io, abandon faults target name) := by
  obtain ⟨bytes, hbytes⟩ := Option.isSome_iff_exists.mp hextracted
  unfold moveAll abandon
  rw [hbytes]
  dsimp only
  by_cases hremove : removeFails faults target name
  · rw [if_pos hremove, if_pos hremove]
  · have hrename : faults.rename name := by
      simpa [moveFails, hremove] using hfails
    rw [if_neg hremove, if_neg hremove, if_pos hrename]

theorem moveAll_cons_of_not_fails (hextracted : (extracted name).isSome)
    (hfails : moveFails faults target name = false) :
    moveAll faults extracted (name :: rest) target =
      moveAll faults extracted rest (Function.update target name ((extracted name).map .file)) := by
  obtain ⟨bytes, hbytes⟩ := Option.isSome_iff_exists.mp hextracted
  obtain ⟨hremove, hrename⟩ := Bool.or_eq_false_iff.mp hfails
  rw [moveAll, hbytes]
  dsimp only
  rw [hremove, hrename]
  simp only [Bool.false_eq_true, if_false, Option.map_some]
  split
  · rw [Function.update_idem]
  · rfl

theorem moveAll_append (hnodup : moved.Nodup) (hextracted : ∀ n ∈ moved, (extracted n).isSome)
    (hmoved : ∀ n ∈ moved, moveFails faults target n = false) :
    moveAll faults extracted (moved ++ rest) target =
      moveAll faults extracted rest (install extracted moved target) := by
  induction moved generalizing target with
  | nil => rfl
  | cons name moved ih =>
    obtain ⟨hname, hnodup⟩ := List.nodup_cons.mp hnodup
    obtain ⟨hfirst, hothers⟩ := List.forall_mem_cons.mp hmoved
    obtain ⟨hextracted, hextracted'⟩ := List.forall_mem_cons.mp hextracted
    rw [List.cons_append, moveAll_cons_of_not_fails hextracted hfirst, ih hnodup hextracted' ?_]
    · congr 1
      funext n
      simp only [install, List.mem_cons]
      by_cases hn : n = name
      · subst hn
        simp [hname]
      · simp [hn, Function.update_of_ne]
    · intro n hn
      have hne : n ≠ name := fun h => hname (h ▸ hn)
      rw [moveFails_congr (Function.update_of_ne hne _ _)]
      exact hothers n hn

theorem install_of_notMem (h : name ∉ moved) : install extracted moved target name = target name := if_neg h

theorem install_eq_self (h : ∀ n ∈ moved, target n = (extracted n).map .file) :
    install extracted moved target = target := by
  funext n
  by_cases hn : n ∈ moved
  · exact (if_pos hn).trans (h n hn).symm
  · exact install_of_notMem hn

theorem abandon_of_ne {n : String} (h : n ≠ name) : abandon faults target name n = target n := by
  unfold abandon
  split
  · rfl
  · split
    · rw [Function.update_of_ne h]
    · rfl

theorem abandon_eq_iff :
    abandon faults target name = target ↔ removeFails faults target name ∨ nodeExists (target name) = false := by
  unfold abandon
  by_cases hremove : removeFails faults target name
  · simp [hremove]
  · by_cases hexists : nodeExists (target name)
    · rw [if_neg hremove, if_pos hexists]
      simp only [hremove, hexists, Bool.false_eq_true, Bool.true_eq_false, or_self, iff_false]
      intro h
      have hgone := congrFun h name
      rw [Function.update_self] at hgone
      rw [← hgone] at hexists
      cases hexists
    · simp [hremove, hexists]

theorem abandon_install_eq_iff (hname : name ∉ moved) :
    abandon faults (install extracted moved target) name = target ↔
      (∀ n ∈ moved, target n = (extracted n).map .file) ∧
        (removeFails faults target name ∨ nodeExists (target name) = false) := by
  constructor
  · intro h
    have hmoved : ∀ n ∈ moved, target n = (extracted n).map .file := by
      intro n hn
      have hne : n ≠ name := fun heq => hname (heq ▸ hn)
      rw [← congrFun h n, abandon_of_ne hne]
      exact if_pos hn
    rw [install_eq_self hmoved] at h
    exact ⟨hmoved, abandon_eq_iff.mp h⟩
  · rintro ⟨hmoved, hplace⟩
    rw [install_eq_self hmoved]
    exact abandon_eq_iff.mpr hplace

/-! ## The call -/

theorem restore_of_prepare_error {e : SnapshotError} (h : prepare codec sha256 faults plain = .error e) :
    restoreEncryptedSnapshot codec sha256 faults plain target = (.error e, target) := by
  rw [restoreEncryptedSnapshot, h]

theorem notMem_of_split (h : payloadEntries = moved ++ name :: rest) : name ∉ moved := by
  have hnodup : payloadEntries.Nodup := by decide
  rw [h] at hnodup
  intro hmem
  exact (List.nodup_append.mp hnodup).2.2 name hmem name List.mem_cons_self rfl

theorem prepared_isSome {prepared : SnapshotManifest × (String → Option Bytes)}
    (h : prepare codec sha256 faults plain = .ok prepared) : ∀ n ∈ payloadEntries, (prepared.2 n).isSome := by
  obtain ⟨tar, -, hpayloads⟩ := prepare_eq_ok h
  intro n hn
  rw [(hpayloads n hn).1]
  exact (hpayloads n hn).2

theorem restore_of_first_failure {prepared : SnapshotManifest × (String → Option Bytes)}
    (hprepare : prepare codec sha256 faults plain = .ok prepared) (hsplit : payloadEntries = moved ++ name :: rest)
    (hmoved : ∀ n ∈ moved, moveFails faults target n = false) (hfails : moveFails faults target name) :
    restoreEncryptedSnapshot codec sha256 faults plain target =
      (.error .Io, abandon faults (install prepared.2 moved target) name) := by
  have hextracted := prepared_isSome hprepare
  have hnodup : payloadEntries.Nodup := by decide
  rw [hsplit] at hextracted hnodup
  have hmoves : moveAll faults prepared.2 payloadEntries target =
      (.error .Io, abandon faults (install prepared.2 moved target) name) := by
    rw [hsplit, moveAll_append (List.nodup_append.mp hnodup).1
      (fun n hn => hextracted n (List.mem_append_left _ hn)) hmoved]
    refine moveAll_cons_of_fails (hextracted name (List.mem_append_right _ List.mem_cons_self)) ?_
    rw [moveFails_congr (install_of_notMem (notMem_of_split hsplit))]
    exact hfails
  rw [restoreEncryptedSnapshot, hprepare]
  dsimp only
  rw [hmoves]

theorem restore_of_no_failure {prepared : SnapshotManifest × (String → Option Bytes)}
    (hprepare : prepare codec sha256 faults plain = .ok prepared)
    (hmoved : ∀ n ∈ payloadEntries, moveFails faults target n = false) :
    restoreEncryptedSnapshot codec sha256 faults plain target =
      (.ok prepared.1, install prepared.2 payloadEntries target) := by
  have hmoves : moveAll faults prepared.2 (payloadEntries ++ []) target =
      moveAll faults prepared.2 [] (install prepared.2 payloadEntries target) :=
    moveAll_append (by decide) (prepared_isSome hprepare) hmoved
  rw [List.append_nil] at hmoves
  rw [restoreEncryptedSnapshot, hprepare]
  dsimp only
  rw [hmoves]
  rfl

end

/-- A failed restore leaves the target as it was, exactly when it fails before it has changed a file. -/
theorem allOrNothing_iff (codec : ManifestCodec) (sha256 : Bytes → Bytes) (faults : Faults)
    (plain : Except SnapshotError TarFile) (target : TargetDir) :
    AllOrNothing codec sha256 faults plain target ↔ FailsInPlace codec sha256 faults plain target := by
  constructor
  · intro hall tar prepared hplain hprepare moved name rest hsplit hmoved hfails
    have hrestore := restore_of_first_failure hprepare hsplit hmoved hfails
    have hsame := hall .Io (by rw [hrestore])
    rw [hrestore] at hsame
    obtain ⟨hunchanged, hplace⟩ := (abandon_install_eq_iff (notMem_of_split hsplit)).mp hsame
    obtain ⟨tar', hplain', hpayloads⟩ := prepare_eq_ok hprepare
    obtain rfl : tar' = tar := Except.ok.inj (hplain'.symm.trans hplain)
    refine ⟨fun n hn => ?_, hplace⟩
    rw [hunchanged n hn, (hpayloads n (hsplit ▸ List.mem_append_left _ hn)).1]
  · intro hplace e he
    cases hprepare : prepare codec sha256 faults plain with
    | error e' => rw [restore_of_prepare_error hprepare]
    | ok prepared =>
      obtain ⟨tar, hplain, hpayloads⟩ := prepare_eq_ok hprepare
      -- The first payload whose move fails, if there is one.
      cases hfirst : payloadEntries.find? (moveFails faults target) with
      | none =>
        have hmoved : ∀ n ∈ payloadEntries, moveFails faults target n = false := by
          simpa using List.find?_eq_none.mp hfirst
        rw [restore_of_no_failure hprepare hmoved] at he
        cases he
      | some name =>
        obtain ⟨hfails, moved, rest, hsplit, hmoved⟩ := List.find?_eq_some_iff_append.mp hfirst
        have hmoved : ∀ n ∈ moved, moveFails faults target n = false := by simpa using hmoved
        obtain ⟨hunchanged, hkept⟩ := hplace tar prepared hplain hprepare moved name rest hsplit hmoved hfails
        rw [restore_of_first_failure hprepare hsplit hmoved hfails]
        refine (abandon_install_eq_iff (notMem_of_split hsplit)).mpr ⟨fun n hn => ?_, hkept⟩
        rw [hunchanged n hn, (hpayloads n (hsplit ▸ List.mem_append_left _ hn)).1]

/-! ## A directory in the place of the database -/

/-- The token is there, and a directory has the name of the database. -/
def blockedTarget : TargetDir := fun name =>
  if name = "auth_token.bin" then some (.file [9])
  else if name = "store.sqlite3" then some .directory
  else none

def smallExtracted : String → Option Bytes :=
  Function.update (Function.update (Function.update (Function.update (fun _ => none)
    "auth_token.bin" (some smallToken)) "store.sqlite3" (some database)) "audit.ndjson" (some (smallLine ++ [10])))
    "config.toml" (some [])

theorem extractEntries_small (sha256 : Bytes → Bytes) :
    extractEntries {} 0 (smallArchive sha256) (fun _ => none) = .ok smallExtracted := by
  have hsafe : unsafePath "manifest.json" = false ∧ unsafePath "auth_token.bin" = false ∧
      unsafePath "store.sqlite3" = false ∧ unsafePath "audit.ndjson" = false ∧ unsafePath "config.toml" = false := by
    decide
  obtain ⟨hmanifest, hauth, hstore, haudit, hconfig⟩ := hsafe
  simp [smallArchive, archiveEntries, extractEntries, manifestEntry, smallExtracted, hmanifest, hauth, hstore, haudit,
    hconfig]

theorem verify_small (sha256 : Bytes → Bytes) :
    verifyUnencryptedSnapshot (smallCodec sha256) sha256 (smallArchive sha256) = .ok (smallManifest sha256) :=
  verify_archiveEntries (smallCodec_back sha256) rfl

theorem prepare_small (sha256 : Bytes → Bytes) :
    prepare (smallCodec sha256) sha256 {} (.ok (smallArchive sha256)) = .ok (smallManifest sha256, smallExtracted) := by
  refine bind_eq_ok.mpr ⟨(), rfl, bind_eq_ok.mpr ⟨(), rfl, bind_eq_ok.mpr ⟨smallArchive sha256, rfl, ?_⟩⟩⟩
  refine bind_eq_ok.mpr ⟨smallManifest sha256, verify_small sha256, ?_⟩
  refine bind_eq_ok.mpr ⟨(), rfl, bind_eq_ok.mpr ⟨(), rfl, ?_⟩⟩
  exact bind_eq_ok.mpr ⟨smallExtracted, extractEntries_small sha256, rfl⟩

theorem not_allOrNothing : ¬ AllOrNothing (smallCodec Sha256.digest) Sha256.digest {}
    (.ok (smallArchive Sha256.digest)) blockedTarget := by
  intro hall
  have hrestore : restoreEncryptedSnapshot (smallCodec Sha256.digest) Sha256.digest {}
      (.ok (smallArchive Sha256.digest)) blockedTarget =
        (.error .Io, abandon {} (install smallExtracted ["auth_token.bin"] blockedTarget) "store.sqlite3") :=
    restore_of_first_failure (prepare_small Sha256.digest) rfl (by decide) (by decide)
  have hsame :
      abandon {} (install smallExtracted ["auth_token.bin"] blockedTarget) "store.sqlite3" = blockedTarget := by
    have hsame := hall .Io (by rw [hrestore])
    rwa [hrestore] at hsame
  have htoken := congrFun hsame "auth_token.bin"
  rw [abandon_of_ne (by decide)] at htoken
  have htoken : some (Node.file smallToken) = some (Node.file [9]) := htoken
  exact absurd htoken (by decide)

end Pcloud.Snapshot
