import Pcloud.Daemon.Walk

/-!
# The walk of the local tree (`pcloud-daemon/src/sync_loop_runtime.rs`)

The walk makes an entry of each node, but enters no directory whose inode number it has seen, on
whatever device. The path of an entry is text: two nodes may have the same.
-/

namespace Pcloud.LocalWalk

structure WalkState where
  entries : List LocalScanEntry := []
  visitedInodes : List UInt64 := []

def WalkState.push (state : WalkState) (entry : LocalScanEntry) : WalkState :=
  { state with entries := state.entries ++ [entry] }

section Walk

variable (rows : FileMetadataRepository) (syncId : SyncId)

def walkRecursive : OsListing → OsPath → Option RemoteFolderId → WalkState → Except String WalkState
  | .nil, _, _, state => .ok state
  | .leaf (.error err) _, _, _, _ => .error err
  | .leaf (.ok file) rest, current, parentRemoteFolderId, state =>
    let relative := OsPath.relative (current ++ [file.name])
    if relative = "" then walkRecursive rest current parentRemoteFolderId state
    else if file.fileType = .symlink then walkRecursive rest current parentRemoteFolderId state
    else
      walkRecursive rest current parentRemoteFolderId
        (state.push ⟨syncId, relative, .File, false, parentRemoteFolderId⟩)
  | .branch directory below rest, current, parentRemoteFolderId, state =>
    let relative := OsPath.relative (current ++ [directory.name])
    if relative = "" then walkRecursive rest current parentRemoteFolderId state
    else
      let leafName := fromUtf8Lossy directory.name.val
      let state := state.push ⟨syncId, relative, .Folder, false, parentRemoteFolderId⟩
      if directory.inode ∈ state.visitedInodes then walkRecursive rest current parentRemoteFolderId state
      else
        let entered := { state with visitedInodes := directory.inode :: state.visitedInodes }
        let childParent := rows.childFolder parentRemoteFolderId leafName
        match walkRecursive below (current ++ [directory.name]) childParent entered with
        | .error err => .error err
        | .ok state => walkRecursive rest current parentRemoteFolderId state

/-- `none` stands for a base that is no directory. -/
def walkLocalTree (localPath remotePath : String) (base : Option OsListing) : Except String (List LocalScanEntry) :=
  match base with
  | none => .error ("sync root path does not exist or is not a directory: " ++ localPath)
  | some listing =>
    (walkRecursive rows syncId listing [] (resolveSyncRootRemoteFolderId rows remotePath) {}).map (·.entries)

end Walk

/-! ## The entries of a tree -/

section Entries

variable (rows : FileMetadataRepository) (syncId : SyncId) (root : Option RemoteFolderId)

/-- The remote folder of a directory by the directories down to it. -/
def folderOf (above : List OsDirectory) : Option RemoteFolderId :=
  rows.folderUnder root (above.map fun directory => fromUtf8Lossy directory.name.val)

def entryOf (node : OsNode) : LocalScanEntry :=
  ⟨syncId, OsPath.relative node.path, entryKindOf node.2, false, folderOf rows root node.1⟩

variable {rows syncId root}

theorem folderOf_snoc (above : List OsDirectory) (directory : OsDirectory) :
    folderOf rows root (above ++ [directory]) =
      rows.childFolder (folderOf rows root above) (fromUtf8Lossy directory.name.val) := by
  rw [folderOf, List.map_append, List.map_singleton, folderUnder_snoc]
  rfl

theorem entryOf_file (above : List OsDirectory) (file : OsFile) :
    entryOf rows syncId root (above, .inl file) =
      ⟨syncId, OsPath.relative (above.map (·.name) ++ [file.name]), .File, false, folderOf rows root above⟩ := rfl

theorem entryOf_directory (above : List OsDirectory) (directory : OsDirectory) :
    entryOf rows syncId root (above, .inr directory) =
      ⟨syncId, OsPath.relative (above.map (·.name) ++ [directory.name]), .Folder, false,
        folderOf rows root above⟩ := rfl

/-- The state after the walk of some nodes. -/
def WalkState.after (state : WalkState) (entries : List LocalScanEntry) (visitedInodes : List UInt64) : WalkState :=
  { entries := state.entries ++ entries, visitedInodes }

theorem walkRecursive_listing (entries : Forest OsFile OsDirectory)
    (hlinks : ∀ file ∈ entries.leaves, file.fileType ≠ .symlink) (above : List OsDirectory) (state : WalkState) :
    walkRecursive rows syncId (entries.mapLeaves .ok) (above.map (·.name)) (folderOf rows root above) state =
      .ok (state.after ((entries.once (·.inode) above state.visitedInodes).1.map (entryOf rows syncId root))
        (entries.once (·.inode) above state.visitedInodes).2) := by
  induction entries generalizing above state with
  | nil => simp [Forest.mapLeaves, walkRecursive, Forest.once, WalkState.after]
  | leaf file rest ih =>
    obtain ⟨hfile, hrest⟩ := List.forall_mem_cons.mp hlinks
    rw [Forest.mapLeaves, walkRecursive]
    simp only [if_neg (OsPath.relative_ne_empty _ _), if_neg hfile]
    rw [ih hrest, ← entryOf_file]
    simp [Forest.once, WalkState.push, WalkState.after]
  | branch directory below rest ihBelow ihRest =>
    obtain ⟨hbelow, hrest⟩ := List.forall_mem_append.mp hlinks
    rw [Forest.mapLeaves, walkRecursive, Forest.once]
    simp only [if_neg (OsPath.relative_ne_empty _ _), ← entryOf_directory]
    by_cases hseen : directory.inode ∈ state.visitedInodes
    · simp only [WalkState.push, hseen, ↓reduceIte]
      rw [ihRest hrest]
      simp [WalkState.after]
    · have hdirectories : above.map (·.name) ++ [directory.name] = (above ++ [directory]).map (·.name) := by simp
      simp only [WalkState.push, hseen, ↓reduceIte]
      rw [hdirectories, ← folderOf_snoc, ihBelow hbelow]
      simp only
      rw [ihRest hrest]
      simp [WalkState.after]

end Entries

theorem walkLocalTree_listing (rows : FileMetadataRepository) (syncId : SyncId) (localPath remotePath : String)
    {tree : DirTree} (hlinks : tree.NoSymlinks) :
    walkLocalTree rows syncId localPath remotePath (some tree.listing) =
      .ok ((tree.entries.once (·.inode) [] []).1.map
        (entryOf rows syncId (resolveSyncRootRemoteFolderId rows remotePath))) := by
  have hwalk : walkRecursive rows syncId tree.listing [] (resolveSyncRootRemoteFolderId rows remotePath) {} = .ok _ :=
    walkRecursive_listing tree.entries hlinks [] {}
  rw [walkLocalTree]
  simp only [hwalk]
  rfl

/-! ## What the walk leaves out and what it merges -/

/-- A directory that has the inode number of an earlier one is empty. -/
def InodesOnce (tree : DirTree) : Prop :=
  tree.entries.branches.Pairwise fun c d => c.1.inode = d.1.inode → d.2 = .nil

/-- No two paths of the tree have the same text. -/
def TextsApart (tree : DirTree) : Prop :=
  ∀ node ∈ tree.nodes, ∀ node' ∈ tree.nodes,
    OsPath.relative node.path = OsPath.relative node'.path → node.path = node'.path

/-- One entry for each file and directory of the tree, each with a path of its own. -/
structure Exact (tree : DirTree) (entries : List LocalScanEntry) : Prop where
  oneEach : (entries.map fun entry => (entry.path, entry.entryKind)).Perm
    (tree.nodes.map fun node => (OsPath.relative node.path, entryKindOf node.2))
  apart : (entries.map (·.path)).Nodup

theorem textsApart_iff (tree : DirTree) :
    TextsApart tree ↔ (tree.nodes.map fun node => OsPath.relative node.path).Nodup := by
  have hpaths := List.nodup_map_iff_inj_on (f := OsPath.relative) tree.nodup_paths
  rw [List.map_map] at hpaths
  simp only [List.mem_map, forall_exists_index, and_imp, forall_apply_eq_imp_iff₂] at hpaths
  exact hpaths.symm

theorem inodesOnce_iff (tree : DirTree) :
    InodesOnce tree ↔ (tree.entries.once (·.inode) [] []).1 = tree.nodes := by
  rw [DirTree.nodes, Forest.once_eq_nodes_iff]
  simp [InodesOnce, Forest.EnteredOnce]

theorem exact_of_once {rows : FileMetadataRepository} {syncId : SyncId} {root : Option RemoteFolderId}
    {tree : DirTree} (honce : InodesOnce tree) (happart : TextsApart tree) :
    Exact tree ((tree.entries.once (·.inode) [] []).1.map (entryOf rows syncId root)) := by
  rw [(inodesOnce_iff tree).mp honce]
  rw [textsApart_iff] at happart
  refine ⟨?_, ?_⟩
  · rw [List.map_map]
    exact List.Perm.refl _
  · rwa [List.map_map]

theorem Exact.inodesOnce {rows : FileMetadataRepository} {syncId : SyncId} {root : Option RemoteFolderId}
    {tree : DirTree} (h : Exact tree ((tree.entries.once (·.inode) [] []).1.map (entryOf rows syncId root))) :
    InodesOnce tree := by
  have hlength := h.oneEach.length_eq
  simp only [List.length_map] at hlength
  exact (inodesOnce_iff tree).mpr ((Forest.once_sublist tree.entries [] []).eq_of_length hlength)

theorem Exact.textsApart {tree : DirTree} {entries : List LocalScanEntry} (h : Exact tree entries) :
    TextsApart tree := by
  have hpaths := h.oneEach.map Prod.fst
  rw [List.map_map, List.map_map] at hpaths
  exact (textsApart_iff tree).mpr (hpaths.nodup_iff.mp h.apart)

/-- The walk of a tree without symlinks gives one entry for each file and directory, each with its own path,
exactly when no inode number that was seen hides anything and no two paths have one text. -/
theorem walkLocalTree_exact_iff (rows : FileMetadataRepository) (syncId : SyncId) (localPath remotePath : String)
    (tree : DirTree) (hlinks : tree.NoSymlinks) :
    (∃ entries, walkLocalTree rows syncId localPath remotePath (some tree.listing) = .ok entries ∧
      Exact tree entries) ↔ InodesOnce tree ∧ TextsApart tree := by
  rw [walkLocalTree_listing rows syncId localPath remotePath hlinks]
  constructor
  · rintro ⟨entries, heq, hexact⟩
    obtain rfl := Except.ok.inj heq
    exact ⟨hexact.inodesOnce, hexact.textsApart⟩
  · rintro ⟨honce, hapart⟩
    exact ⟨_, rfl, exact_of_once honce hapart⟩

/-! ## Where it leaves nothing out -/

theorem inodesOnce_of_oneDevice {tree : DirTree}
    (hdevice : ∀ c ∈ tree.entries.branches, ∀ d ∈ tree.entries.branches, c.1.device = d.1.device)
    (hdistinct : (tree.entries.branches.map fun d => (d.1.device, d.1.inode)).Nodup) : InodesOnce tree := by
  rw [List.Nodup, List.pairwise_map] at hdistinct
  refine hdistinct.imp_of_mem fun hc hd hne heq => ?_
  exact absurd (Prod.ext (hdevice _ hc _ hd) heq) hne

theorem textsApart_of_plain {tree : DirTree} (hplain : ∀ node ∈ tree.nodes, ∀ name ∈ node.path, OsPath.Plain name) :
    TextsApart tree := by
  intro node hnode node' hnode' htext
  exact OsPath.eq_of_relative_eq (List.concat_ne_nil _ _) (List.concat_ne_nil _ _) (hplain node hnode)
    (hplain node' hnode') htext

/-! ## Names in UTF-8

On names that are strings this is the walk of `walkTree`. -/

section Strings

theorem slash_notMem_utf8 {text : String} (h : '/' ∉ text.toList) : 0x2F ∉ utf8 text := by
  rw [utf8_eq_flatMap, List.mem_flatMap]
  rintro ⟨c, hc, hslash⟩
  have hone : String.utf8EncodeChar '/' = [0x2F] := by decide
  rw [Utf8.eq_of_mem_encode hone hslash] at hc
  exact h hc

def osNameOf (name : FileName) : OsName :=
  ⟨utf8 name.val, fun h => name.property.1 (utf8_eq_nil.mp h), slash_notMem_utf8 name.property.2⟩

def osListingOf : Listing → OsListing
  | .done => .nil
  | .fails err => .leaf (.error err) .nil
  | .file name rest => .leaf (.ok ⟨osNameOf name, .file⟩) (osListingOf rest)
  | .symlink name rest => .leaf (.ok ⟨osNameOf name, .symlink⟩) (osListingOf rest)
  | .directory name inode entries rest =>
    .branch ⟨osNameOf name, 0, inode⟩ (osListingOf entries) (osListingOf rest)

theorem segment_osNameOf (name : FileName) : OsPath.segment (osNameOf name) = name.val.toList.map toSlash := by
  rw [OsPath.segment, osNameOf, lossy_utf8]

theorem relative_osNameOf (parents : List FileName) (leaf : FileName) (entryKind : EntryKind)
    (folder : Option RemoteFolderId) :
    OsPath.relative (parents.map osNameOf ++ [osNameOf leaf]) = (Walked.mk parents leaf entryKind folder).path := by
  have hpath : parents.map osNameOf ++ [osNameOf leaf] = (parents ++ [leaf]).map osNameOf := by simp
  apply String.toList_injective
  rw [hpath, OsPath.toList_relative, Walked.path, String.toList_ofList, map_intercalate, List.map_map, List.map_map]
  congr 2
  funext name
  exact segment_osNameOf name

variable {rows : FileMetadataRepository}

/-- The entry that a full scan of a root makes of what is walked. -/
def scanned (syncId : SyncId) (entry : Walked) : LocalScanEntry :=
  ⟨syncId, entry.path, entry.entryKind, false, entry.remoteParentFolderId⟩

theorem map_scanned (root : SyncRootRecord) (walked : List Walked) :
    walked.map (scanned root.syncId) = Runtime.walkLocalTree root (walked.map Walked.toFound) := by
  simp [Runtime.walkLocalTree, scanned, Walked.toFound]

def stateOf (syncId : SyncId) (state : Pcloud.WalkState) : WalkState :=
  { entries := state.entries.map (scanned syncId), visitedInodes := state.visitedInodes }

theorem push_stateOf (syncId : SyncId) (state : Pcloud.WalkState) (entry : Walked) :
    (stateOf syncId state).push (scanned syncId entry) = stateOf syncId (state.push entry) := by
  simp [stateOf, WalkState.push, Pcloud.WalkState.push]

theorem walkRecursive_osListingOf (syncId : SyncId) (listing : Listing) (parents : List FileName)
    (folder : Option RemoteFolderId) (state : Pcloud.WalkState) :
    walkRecursive rows syncId (osListingOf listing) (parents.map osNameOf) folder (stateOf syncId state) =
      (Pcloud.walkRecursive rows listing parents folder state).map (stateOf syncId) := by
  induction listing generalizing parents folder state with
  | done => rfl
  | fails err => rfl
  | file name rest ih =>
    rw [osListingOf, walkRecursive, Pcloud.walkRecursive, ← ih, ← push_stateOf]
    simp only [if_neg (OsPath.relative_ne_empty _ _)]
    rw [relative_osNameOf parents name .File folder]
    rfl
  | symlink name rest ih =>
    rw [osListingOf, walkRecursive, Pcloud.walkRecursive, ← ih]
    simp only [if_neg (OsPath.relative_ne_empty _ _), ↓reduceIte]
  | directory name inode entries rest ihEntries ihRest =>
    have hname : fromUtf8Lossy (osNameOf name).val = name.val := fromUtf8Lossy_utf8 name.val
    have hpath : parents.map osNameOf ++ [osNameOf name] = (parents ++ [name]).map osNameOf := by simp
    rw [osListingOf, walkRecursive, Pcloud.walkRecursive]
    simp only [if_neg (OsPath.relative_ne_empty _ _), hname]
    rw [relative_osNameOf parents name .Folder folder, hpath]
    have hpushed := push_stateOf syncId state ⟨parents, name, .Folder, folder⟩
    rw [scanned] at hpushed
    simp only at hpushed
    rw [hpushed]
    generalize state.push ⟨parents, name, .Folder, folder⟩ = pushed
    have hvisited : (stateOf syncId pushed).visitedInodes = pushed.visitedInodes := rfl
    rw [hvisited]
    by_cases hseen : inode ∈ pushed.visitedInodes
    · simp only [hseen, ↓reduceIte]
      exact ihRest parents folder pushed
    · have hentries := ihEntries (parents ++ [name]) (rows.childFolder folder name.val)
        { pushed with visitedInodes := inode :: pushed.visitedInodes }
      have hentered : stateOf syncId { pushed with visitedInodes := inode :: pushed.visitedInodes } =
          { stateOf syncId pushed with visitedInodes := inode :: pushed.visitedInodes } := rfl
      rw [hentered] at hentries
      simp only [hseen, ↓reduceIte]
      rw [hentries]
      cases Pcloud.walkRecursive rows entries (parents ++ [name]) (rows.childFolder folder name.val)
        { pushed with visitedInodes := inode :: pushed.visitedInodes } with
      | error err => rfl
      | ok inside => exact ihRest parents folder inside

theorem walkLocalTree_osListingOf (root : SyncRootRecord) (localPath remotePath : String) (base : Option Listing) :
    walkLocalTree rows root.syncId localPath remotePath (base.map osListingOf) =
      (walkTree rows localPath remotePath base).map fun walked =>
        Runtime.walkLocalTree root (walked.map Walked.toFound) := by
  cases base with
  | none => rfl
  | some listing =>
    have hwalk : walkRecursive rows root.syncId (osListingOf listing) [] (resolveSyncRootRemoteFolderId rows remotePath)
        {} = _ := walkRecursive_osListingOf root.syncId listing [] _ {}
    rw [Option.map_some, walkLocalTree, walkTree]
    simp only [hwalk]
    cases Pcloud.walkRecursive rows listing [] (resolveSyncRootRemoteFolderId rows remotePath) {} with
    | error err => rfl
    | ok state => exact congrArg Except.ok (map_scanned root state.entries)

end Strings

/-! ## Two mounted file systems, and a backslash

The directories `a` and `b` are the roots of two file systems, where each has the inode number 2. -/

namespace Samples

theorem isName_a : ([0x61] : Bytes) ≠ [] ∧ 0x2F ∉ ([0x61] : Bytes) := by decide

theorem isName_b : ([0x62] : Bytes) ≠ [] ∧ 0x2F ∉ ([0x62] : Bytes) := by decide

theorem isName_backslash : ([0x61, 0x5C, 0x62] : Bytes) ≠ [] ∧ 0x2F ∉ ([0x61, 0x5C, 0x62] : Bytes) := by decide

def a : OsName := ⟨[0x61], isName_a⟩

def b : OsName := ⟨[0x62], isName_b⟩

def inA (rest : Forest OsFile OsDirectory) : Forest OsFile OsDirectory :=
  .branch ⟨a, 1, 2⟩ (.leaf ⟨b, .file⟩ .nil) rest

def mountedEntries : Forest OsFile OsDirectory := inA (.branch ⟨b, 2, 2⟩ (.leaf ⟨b, .file⟩ .nil) .nil)

def backslashEntries : Forest OsFile OsDirectory := inA (.leaf ⟨⟨[0x61, 0x5C, 0x62], isName_backslash⟩, .file⟩ .nil)

theorem distinct_one : (inA .nil).Distinct osName := by
  rw [Forest.Distinct]
  decide

theorem distinct_mounted : mountedEntries.Distinct osName := by
  rw [Forest.Distinct]
  decide

theorem distinct_backslash : backslashEntries.Distinct osName := by
  rw [Forest.Distinct]
  decide

def one : DirTree := ⟨inA .nil, distinct_one⟩

def mounted : DirTree := ⟨mountedEntries, distinct_mounted⟩

def backslash : DirTree := ⟨backslashEntries, distinct_backslash⟩

/-- The file of the second file system is missing, and `a\b` goes by the name of the `b` in `a`. -/
theorem not_exact :
    (mounted.NoSymlinks ∧
      ¬ ∃ entries, walkLocalTree [] ⟨1⟩ "/home/sync" "/" (some mounted.listing) = .ok entries ∧
        Exact mounted entries) ∧
    backslash.NoSymlinks ∧
      ¬ ∃ entries, walkLocalTree [] ⟨1⟩ "/home/sync" "/" (some backslash.listing) = .ok entries ∧
        Exact backslash entries := by
  have hmounted : walkLocalTree [] ⟨1⟩ "/home/sync" "/" (some mounted.listing) =
      .ok [⟨⟨1⟩, "a", .Folder, false, some ⟨0⟩⟩, ⟨⟨1⟩, "a/b", .File, false, none⟩,
        ⟨⟨1⟩, "b", .Folder, false, some ⟨0⟩⟩] := by decide +kernel
  have hbackslash : walkLocalTree [] ⟨1⟩ "/home/sync" "/" (some backslash.listing) =
      .ok [⟨⟨1⟩, "a", .Folder, false, some ⟨0⟩⟩, ⟨⟨1⟩, "a/b", .File, false, none⟩,
        ⟨⟨1⟩, "a/b", .File, false, some ⟨0⟩⟩] := by decide +kernel
  refine ⟨⟨?_, ?_⟩, ?_, ?_⟩
  · rw [DirTree.NoSymlinks]
    decide
  · rintro ⟨entries, heq, hexact⟩
    obtain rfl := Except.ok.inj (hmounted.symm.trans heq)
    exact absurd hexact.oneEach.length_eq (by decide)
  · rw [DirTree.NoSymlinks]
    decide
  · rintro ⟨entries, heq, hexact⟩
    obtain rfl := Except.ok.inj (hbackslash.symm.trans heq)
    exact absurd hexact.apart (by decide)

theorem one_exact :
    ∃ entries, walkLocalTree [] ⟨1⟩ "/home/sync" "/" (some one.listing) = .ok entries ∧ Exact one entries := by
  refine (walkLocalTree_exact_iff [] ⟨1⟩ "/home/sync" "/" one ?_).mpr ⟨?_, ?_⟩
  · rw [DirTree.NoSymlinks]
    decide
  · exact inodesOnce_of_oneDevice (by decide) (by decide)
  · rw [TextsApart]
    decide +kernel

end Samples

end Pcloud.LocalWalk
