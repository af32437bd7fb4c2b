import Mathlib.Data.Set.Function
import Pcloud.Lib.Sha256
import Pcloud.Model.Bytes

/-!
# The archive of a snapshot (`pcloud-backends/src/snapshot.rs`)

An archive is what the `tar` crate yields of it, entry by entry. The manifest has one digest for all the payloads.
`serde_json` and SHA-256 are parameters.
-/

namespace Pcloud.Snapshot

/-- `format_version`, times and the schema are unsigned words of the source. -/
structure SnapshotManifest where
  version : Nat
  createdAt : Nat
  schemaVersion : Nat
  sha256Manifest : String
deriving DecidableEq, Repr

/-- Those of the plain archive and of its restore. -/
inductive SnapshotError
  | Io
  | Store
  | Serde
  | MissingFile (which : String)
  | SchemaReadFailed
  | DigestMismatch
  | GpgUnavailable
  | GpgFailed
  | UnsafePath
deriving DecidableEq, Repr

def snapshotFormatVersion : Nat := 1

def manifestEntry : String := "manifest.json"

def payloadEntries : List String := ["auth_token.bin", "store.sqlite3", "audit.ndjson", "config.toml"]

structure TarEntry where
  name : String
  data : Bytes
deriving DecidableEq

/-- An entry that cannot be read is `none`. -/
abbrev TarFile := List (Option TarEntry)

/-- `serde_json::to_vec_pretty` and `serde_json::from_slice` of a manifest. -/
structure ManifestCodec where
  toJson : SnapshotManifest → Bytes
  fromJson : Bytes → Option SnapshotManifest

def ManifestCodec.parse (codec : ManifestCodec) (bytes : Bytes) : Except SnapshotError SnapshotManifest :=
  match codec.fromJson bytes with
  | some manifest => .ok manifest
  | none => .error .Serde

/-! ## Writing -/

inductive SourceFile
  | missing
  | unreadable
  | file (bytes : Bytes)

/-- What a snapshot is taken of. The database comes as the online backup gives it. -/
structure Sources where
  vault : SourceFile
  audit : SourceFile
  store : Except SnapshotError Bytes
  schemaVersion : Except SnapshotError Nat
  config : Bytes
  now : Nat
  writable : Bool

def readRequired (source : SourceFile) (which : String) : Except SnapshotError Bytes :=
  match source with
  | .missing => .error (.MissingFile which)
  | .unreadable => .error .Io
  | .file bytes => .ok bytes

section

variable (codec : ManifestCodec) (sha256 : Bytes → Bytes)

/-- The entries of an archive in the order they are written. -/
def archiveEntries (manifest : SnapshotManifest) (auth store audit config : Bytes) : TarFile :=
  [some ⟨manifestEntry, codec.toJson manifest⟩, some ⟨"auth_token.bin", auth⟩, some ⟨"store.sqlite3", store⟩,
    some ⟨"audit.ndjson", audit⟩, some ⟨"config.toml", config⟩]

def createUnencryptedSnapshot (sources : Sources) : Except SnapshotError (SnapshotManifest × TarFile) := do
  let auth ← readRequired sources.vault "auth_token.bin"
  let audit ← readRequired sources.audit "audit.ndjson"
  let store ← sources.store
  let schemaVersion ← sources.schemaVersion
  let manifest : SnapshotManifest := {
    version := snapshotFormatVersion
    createdAt := sources.now
    schemaVersion
    sha256Manifest := hexEncode (sha256 (auth ++ store ++ audit ++ sources.config)) }
  if sources.writable then .ok (manifest, archiveEntries codec manifest auth store audit sources.config)
  else .error .Io

/-! ## Reading -/

/-- What the reader has found so far. -/
structure Slots where
  manifest : Option Bytes := none
  payloads : List (Option Bytes) := [none, none, none, none]

/-- A later entry takes the place of an earlier one of its name. -/
def Slots.put (slots : Slots) (entry : TarEntry) : Slots :=
  if entry.name = manifestEntry then { slots with manifest := some entry.data }
  else match payloadEntries.findIdx? (· = entry.name) with
    | some idx => { slots with payloads := slots.payloads.set idx (some entry.data) }
    | none => slots

def readEntries : TarFile → Slots → Except SnapshotError Slots
  | [], slots => .ok slots
  | none :: _, _ => .error .Io
  | some entry :: rest, slots => readEntries rest (slots.put entry)

def required (which : String) (slot : Option Bytes) : Except SnapshotError Bytes :=
  match slot with
  | some bytes => .ok bytes
  | none => .error (.MissingFile which)

def ownedPayloads : List String → List (Option Bytes) → Except SnapshotError (List Bytes)
  | which :: names, slot :: slots => do
    let bytes ← required which slot
    let rest ← ownedPayloads names slots
    .ok (bytes :: rest)
  | _, _ => .ok []

def readAndVerify (tar : TarFile) : Except SnapshotError (SnapshotManifest × List Bytes) := do
  let slots ← readEntries tar {}
  let manifestBytes ← required manifestEntry slots.manifest
  let manifest ← codec.parse manifestBytes
  let owned ← ownedPayloads payloadEntries slots.payloads
  if hexEncode (sha256 owned.flatten) ≠ manifest.sha256Manifest then .error .DigestMismatch
  else .ok (manifest, owned)

def verifyUnencryptedSnapshot (tar : TarFile) : Except SnapshotError SnapshotManifest := do
  let (manifest, _) ← readAndVerify codec sha256 tar
  .ok manifest

end

/-! ## What a reader has of an archive -/

/-- The last entry of a name. -/
def lastEntry (name : String) : TarFile → Option Bytes
  | [] => none
  | entry :: rest => (lastEntry name rest).or (entry.bind fun e => if e.name = name then some e.data else none)

/-- The input of the digest. -/
def payloadBytes (tar : TarFile) : Bytes := payloadEntries.flatMap fun name => (lastEntry name tar).getD []

/-- Two archives have the same payloads. -/
def SamePayloads (tar tar' : TarFile) : Prop := ∀ name ∈ payloadEntries, lastEntry name tar' = lastEntry name tar

/-- The payloads of two archives have the same lengths. -/
def SameLengths (tar tar' : TarFile) : Prop :=
  ∀ name ∈ payloadEntries, (lastEntry name tar').map List.length = (lastEntry name tar).map List.length

/-- An archive that is accepted with the digest of a created one has each of its payloads. -/
def BindsEachPayload (codec : ManifestCodec) (sha256 : Bytes → Bytes) : Prop :=
  ∀ sources manifest tar tar' manifest', createUnencryptedSnapshot codec sha256 sources = .ok (manifest, tar) →
    verifyUnencryptedSnapshot codec sha256 tar' = .ok manifest' → manifest'.sha256Manifest = manifest.sha256Manifest →
    Set.InjOn sha256 {payloadBytes tar, payloadBytes tar'} → SamePayloads tar tar'

section

variable {codec : ManifestCodec} {sha256 : Bytes → Bytes} {tar tar' : TarFile} {manifest manifest' : SnapshotManifest}

theorem bind_eq_ok {ε α β : Type} {x : Except ε α} {f : α → Except ε β} {b : β} :
    x >>= f = .ok b ↔ ∃ a, x = .ok a ∧ f a = .ok b := by
  cases x with
  | error e =>
    constructor
    · intro h
      cases h
    · rintro ⟨a, ha, -⟩
      cases ha
  | ok a =>
    constructor
    · intro h
      exact ⟨a, rfl, h⟩
    · rintro ⟨a', ha, h⟩
      cases ha
      exact h

/-- What an entry has for a name. -/
def TarEntry.named (entry : TarEntry) (name : String) : Option Bytes :=
  if entry.name = name then some entry.data else none

theorem put_eq {slots : Slots} {a b c d : Option Bytes} (entry : TarEntry) (hslots : slots.payloads = [a, b, c, d]) :
    (slots.put entry).manifest = (entry.named manifestEntry).or slots.manifest ∧
      (slots.put entry).payloads = [(entry.named "auth_token.bin").or a, (entry.named "store.sqlite3").or b,
        (entry.named "audit.ndjson").or c, (entry.named "config.toml").or d] := by
  unfold Slots.put TarEntry.named manifestEntry payloadEntries
  simp only [List.findIdx?_cons, List.findIdx?_nil]
  by_cases hmanifest : entry.name = "manifest.json"
  · simp [hmanifest, hslots]
  by_cases hauth : entry.name = "auth_token.bin"
  · simp [hauth, hslots]
  by_cases hstore : entry.name = "store.sqlite3"
  · simp [hstore, hslots]
  by_cases haudit : entry.name = "audit.ndjson"
  · simp [haudit, hslots]
  by_cases hconfig : entry.name = "config.toml"
  · simp [hconfig, hslots]
  · simp [hmanifest, hauth, hstore, haudit, hconfig, Ne.symm hauth, Ne.symm hstore, Ne.symm haudit, Ne.symm hconfig,
      hslots]

theorem readEntries_eq_ok {slots slots' : Slots} {a b c d : Option Bytes} (hslots : slots.payloads = [a, b, c, d])
    (h : readEntries tar slots = .ok slots') :
    slots'.manifest = (lastEntry manifestEntry tar).or slots.manifest ∧
      slots'.payloads = [(lastEntry "auth_token.bin" tar).or a, (lastEntry "store.sqlite3" tar).or b,
        (lastEntry "audit.ndjson" tar).or c, (lastEntry "config.toml" tar).or d] := by
  induction tar generalizing slots a b c d with
  | nil =>
    obtain rfl : slots = slots' := Except.ok.inj h
    exact ⟨rfl, hslots⟩
  | cons entry tar ih =>
    cases entry with
    | none => cases h
    | some entry =>
      obtain ⟨hmanifest, hpayloads⟩ := put_eq entry hslots
      obtain ⟨hmanifest', hpayloads'⟩ := ih hpayloads h
      refine ⟨?_, ?_⟩
      · rw [hmanifest', hmanifest, lastEntry, Option.or_assoc]
        rfl
      · rw [hpayloads', lastEntry, lastEntry, lastEntry, lastEntry]
        simp only [Option.or_assoc]
        rfl

theorem required_eq_ok {which : String} {slot : Option Bytes} {bytes : Bytes} :
    required which slot = .ok bytes ↔ slot = some bytes := by
  cases slot <;> simp [required]

theorem ownedPayloads_eq_ok {names : List String} {slots : List (Option Bytes)} {owned : List Bytes}
    (hlength : slots.length = names.length) (h : ownedPayloads names slots = .ok owned) : slots = owned.map some := by
  induction names generalizing slots owned with
  | nil =>
    obtain rfl := List.length_eq_zero_iff.mp hlength
    cases h
    rfl
  | cons name names ih =>
    cases slots with
    | nil => cases hlength
    | cons slot slots =>
      obtain ⟨bytes, hslot, h⟩ := bind_eq_ok.mp h
      obtain ⟨rest, hrest, howned⟩ := bind_eq_ok.mp h
      cases howned
      rw [List.map_cons, required_eq_ok.mp hslot, ih (Nat.succ.inj hlength) hrest]

theorem readAndVerify_eq_ok {owned : List Bytes} (h : readAndVerify codec sha256 tar = .ok (manifest, owned)) :
    payloadEntries.map (fun name => lastEntry name tar) = owned.map some ∧
      manifest.sha256Manifest = hexEncode (sha256 owned.flatten) := by
  obtain ⟨slots, hread, h⟩ := bind_eq_ok.mp h
  obtain ⟨manifestBytes, -, h⟩ := bind_eq_ok.mp h
  obtain ⟨parsed, -, h⟩ := bind_eq_ok.mp h
  obtain ⟨payloads, howned, h⟩ := bind_eq_ok.mp h
  have hslots := (readEntries_eq_ok rfl hread).2
  simp only [Option.or_none] at hslots
  have hpayloads := ownedPayloads_eq_ok (by rw [hslots]; rfl) howned
  split at h
  · cases h
  · rename_i hdigest
    cases h
    exact ⟨hslots.symm.trans hpayloads, (not_not.mp hdigest).symm⟩

theorem payloadBytes_eq {owned : List Bytes}
    (h : payloadEntries.map (fun name => lastEntry name tar) = owned.map some) :
    payloadBytes tar = owned.flatten := by
  have hflat : payloadBytes tar = (payloadEntries.map fun name => lastEntry name tar).flatMap (Option.getD · []) := by
    rw [payloadBytes, List.flatMap_map]
  rw [hflat, h, List.flatMap_map]
  simp

theorem isSome_of_map_eq {owned : List Bytes}
    (h : payloadEntries.map (fun name => lastEntry name tar) = owned.map some) :
    ∀ name ∈ payloadEntries, (lastEntry name tar).isSome := by
  intro name hname
  obtain ⟨bytes, -, hbytes⟩ := List.mem_map.mp (h ▸ List.mem_map_of_mem (f := fun name => lastEntry name tar) hname)
  rw [← hbytes]
  rfl

theorem verify_eq_ok (h : verifyUnencryptedSnapshot codec sha256 tar = .ok manifest) :
    (∀ name ∈ payloadEntries, (lastEntry name tar).isSome) ∧
      manifest.sha256Manifest = hexEncode (sha256 (payloadBytes tar)) := by
  obtain ⟨⟨parsed, owned⟩, hread, h⟩ := bind_eq_ok.mp h
  cases h
  obtain ⟨hall, hdigest⟩ := readAndVerify_eq_ok hread
  exact ⟨isSome_of_map_eq hall, payloadBytes_eq hall ▸ hdigest⟩

theorem lastEntry_archiveEntries (codec : ManifestCodec) (manifest : SnapshotManifest)
    (auth store audit config : Bytes) :
    payloadEntries.map (fun name => lastEntry name (archiveEntries codec manifest auth store audit config)) =
      [auth, store, audit, config].map some := by
  simp [payloadEntries, lastEntry, archiveEntries, manifestEntry]

theorem create_eq_ok {sources : Sources} (h : createUnencryptedSnapshot codec sha256 sources = .ok (manifest, tar)) :
    ∃ auth store audit config, tar = archiveEntries codec manifest auth store audit config ∧
      manifest.sha256Manifest = hexEncode (sha256 (auth ++ store ++ audit ++ config)) := by
  obtain ⟨auth, -, h⟩ := bind_eq_ok.mp h
  obtain ⟨audit, -, h⟩ := bind_eq_ok.mp h
  obtain ⟨store, -, h⟩ := bind_eq_ok.mp h
  obtain ⟨schemaVersion, -, h⟩ := bind_eq_ok.mp h
  dsimp only at h
  split at h
  · cases h
    exact ⟨auth, store, audit, sources.config, rfl, rfl⟩
  · cases h

theorem verify_archiveEntries {auth store audit config : Bytes}
    (hback : codec.fromJson (codec.toJson manifest) = some manifest)
    (hdigest : manifest.sha256Manifest = hexEncode (sha256 (auth ++ store ++ audit ++ config))) :
    verifyUnencryptedSnapshot codec sha256 (archiveEntries codec manifest auth store audit config) = .ok manifest := by
  refine bind_eq_ok.mpr ⟨(manifest, [auth, store, audit, config]), ?_, rfl⟩
  refine bind_eq_ok.mpr
    ⟨⟨some (codec.toJson manifest), [some auth, some store, some audit, some config]⟩, rfl, ?_⟩
  refine bind_eq_ok.mpr ⟨codec.toJson manifest, rfl, bind_eq_ok.mpr ⟨manifest, ?_, ?_⟩⟩
  · rw [ManifestCodec.parse, hback]
  · refine bind_eq_ok.mpr ⟨[auth, store, audit, config], rfl, ?_⟩
    rw [if_neg]
    simpa [List.append_assoc] using hdigest.symm

theorem verify_created {sources : Sources} (h : createUnencryptedSnapshot codec sha256 sources = .ok (manifest, tar))
    (hback : codec.fromJson (codec.toJson manifest) = some manifest) :
    verifyUnencryptedSnapshot codec sha256 tar = .ok manifest := by
  obtain ⟨auth, store, audit, config, rfl, hdigest⟩ := create_eq_ok h
  exact verify_archiveEntries hback hdigest

theorem created_digest {sources : Sources} (h : createUnencryptedSnapshot codec sha256 sources = .ok (manifest, tar)) :
    (∀ name ∈ payloadEntries, (lastEntry name tar).isSome) ∧
      manifest.sha256Manifest = hexEncode (sha256 (payloadBytes tar)) := by
  obtain ⟨auth, store, audit, config, rfl, hdigest⟩ := create_eq_ok h
  have hall := lastEntry_archiveEntries codec manifest auth store audit config
  refine ⟨isSome_of_map_eq hall, ?_⟩
  rw [payloadBytes_eq hall, hdigest]
  simp [List.append_assoc]

theorem eq_of_flatMap_eq {α β : Type} {l : List α} {f g : α → List β} (h : l.flatMap f = l.flatMap g)
    (hlength : ∀ x ∈ l, (f x).length = (g x).length) : ∀ x ∈ l, f x = g x := by
  induction l with
  | nil => simp
  | cons y l ih =>
    obtain ⟨hy, hl⟩ := List.append_inj h (hlength y List.mem_cons_self)
    exact List.forall_mem_cons.mpr ⟨hy, ih hl fun x hx => hlength x (List.mem_cons_of_mem _ hx)⟩

theorem samePayloads_iff (hall : ∀ name ∈ payloadEntries, (lastEntry name tar).isSome)
    (hall' : ∀ name ∈ payloadEntries, (lastEntry name tar').isSome) (h : payloadBytes tar' = payloadBytes tar) :
    SamePayloads tar tar' ↔ SameLengths tar tar' := by
  constructor
  · intro hsame name hname
    rw [hsame name hname]
  · intro hlengths name hname
    have hparts := eq_of_flatMap_eq h (fun name hname => ?_) name hname
    · obtain ⟨bytes, hbytes⟩ := Option.isSome_iff_exists.mp (hall name hname)
      obtain ⟨bytes', hbytes'⟩ := Option.isSome_iff_exists.mp (hall' name hname)
      rw [hbytes, hbytes'] at hparts ⊢
      exact congrArg some hparts
    · obtain ⟨bytes, hbytes⟩ := Option.isSome_iff_exists.mp (hall name hname)
      obtain ⟨bytes', hbytes'⟩ := Option.isSome_iff_exists.mp (hall' name hname)
      have := hlengths name hname
      rw [hbytes, hbytes'] at this ⊢
      exact Option.some.inj this

end

/-- The digest binds the payloads as one string, and so each of them only with their lengths. -/
theorem same_digest (codec : ManifestCodec) (sha256 : Bytes → Bytes) (sources : Sources)
    (manifest manifest' : SnapshotManifest) (tar tar' : TarFile)
    (hcreate : createUnencryptedSnapshot codec sha256 sources = .ok (manifest, tar))
    (hverify : verifyUnencryptedSnapshot codec sha256 tar' = .ok manifest')
    (hdigest : manifest'.sha256Manifest = manifest.sha256Manifest)
    (hinj : Set.InjOn sha256 {payloadBytes tar, payloadBytes tar'}) :
    payloadBytes tar' = payloadBytes tar ∧ (SamePayloads tar tar' ↔ SameLengths tar tar') := by
  obtain ⟨hall, hcreated⟩ := created_digest hcreate
  obtain ⟨hall', haccepted⟩ := verify_eq_ok hverify
  have hhash : sha256 (payloadBytes tar') = sha256 (payloadBytes tar) :=
    hexEncode_injective (haccepted.symm.trans (hdigest.trans hcreated))
  have hbytes : payloadBytes tar' = payloadBytes tar :=
    hinj (Set.mem_insert_of_mem _ rfl) (Set.mem_insert _ _) hhash
  exact ⟨hbytes, samePayloads_iff hall hall' hbytes⟩

/-! ## A byte between two payloads -/

/-- What `serde_json` writes for a manifest, and what it reads of the text of this one. -/
def prettyJson (manifest : SnapshotManifest) : Bytes :=
  utf8 ("\x7b\n  \"version\": " ++ toString manifest.version ++
    ",\n  \"created_at\": " ++ toString manifest.createdAt ++
    ",\n  \"schema_version\": " ++ toString manifest.schemaVersion ++ ",\n  \"sha256_manifest\": \"" ++
    manifest.sha256Manifest ++ "\"\n\x7d")

def codecOf (manifest : SnapshotManifest) : ManifestCodec where
  toJson := prettyJson
  fromJson bytes := if bytes = prettyJson manifest then some manifest else none

/-- A database of one empty page. -/
def database : Bytes :=
  utf8 "SQLite format 3" ++ [0, 2, 0, 1, 1, 0, 64, 32, 32, 0, 0, 0, 1, 0, 0, 0, 1] ++ List.replicate 28 0 ++
    [0, 0, 0, 1] ++ List.replicate 28 0 ++ [0, 0, 0, 1, 0, 46, 122, 112, 13, 0, 0, 0, 0, 2] ++ List.replicate 406 0

def smallToken : Bytes := utf8 "token"

/-- One line, without its end. -/
def smallLine : Bytes := utf8 "\x7b\x7d"

def smallSources : Sources where
  vault := .file smallToken
  audit := .file (smallLine ++ [10])
  store := .ok database
  schemaVersion := .ok 1
  config := []
  now := 1700000000
  writable := true

section

variable (sha256 : Bytes → Bytes)

def smallManifest : SnapshotManifest where
  version := 1
  createdAt := 1700000000
  schemaVersion := 1
  sha256Manifest := hexEncode (sha256 (smallToken ++ database ++ (smallLine ++ [10]) ++ []))

def smallCodec : ManifestCodec := codecOf (smallManifest sha256)

def smallArchive : TarFile :=
  archiveEntries (smallCodec sha256) (smallManifest sha256) smallToken database (smallLine ++ [10]) []

/-- The end of the line is the first byte of the configuration. -/
def shiftedArchive : TarFile :=
  archiveEntries (smallCodec sha256) (smallManifest sha256) smallToken database smallLine [10]

theorem create_small :
    createUnencryptedSnapshot (smallCodec sha256) sha256 smallSources =
      .ok (smallManifest sha256, smallArchive sha256) := rfl

theorem smallCodec_back : (smallCodec sha256).fromJson ((smallCodec sha256).toJson (smallManifest sha256)) =
    some (smallManifest sha256) := by
  simp [smallCodec, codecOf]

theorem verify_shifted :
    verifyUnencryptedSnapshot (smallCodec sha256) sha256 (shiftedArchive sha256) = .ok (smallManifest sha256) :=
  verify_archiveEntries (smallCodec_back sha256) (by simp [smallManifest, List.append_assoc])

theorem payloadBytes_shifted : payloadBytes (shiftedArchive sha256) = payloadBytes (smallArchive sha256) := by
  unfold shiftedArchive smallArchive
  rw [payloadBytes_eq (lastEntry_archiveEntries ..), payloadBytes_eq (lastEntry_archiveEntries ..)]
  simp

end

theorem same_digest_small :
    payloadBytes (shiftedArchive Sha256.digest) = payloadBytes (smallArchive Sha256.digest) ∧
      (SamePayloads (smallArchive Sha256.digest) (shiftedArchive Sha256.digest) ↔
        SameLengths (smallArchive Sha256.digest) (shiftedArchive Sha256.digest)) :=
  same_digest _ _ _ _ _ _ _ (create_small Sha256.digest) (verify_shifted Sha256.digest) rfl
    (by rw [payloadBytes_shifted]; simp)

theorem not_bindsEachPayload : ¬ BindsEachPayload (smallCodec Sha256.digest) Sha256.digest := by
  intro hbinds
  have hsame := hbinds _ _ _ _ _ (create_small Sha256.digest) (verify_shifted Sha256.digest) rfl
    (by rw [payloadBytes_shifted]; simp)
  have hconfig : lastEntry "config.toml" (shiftedArchive Sha256.digest) =
      lastEntry "config.toml" (smallArchive Sha256.digest) := hsame _ (by decide)
  have hconfig' : some [(10 : UInt8)] = some [] := hconfig
  exact absurd hconfig' (by decide)

end Pcloud.Snapshot
