import Pcloud.Engine.Normalize
import Pcloud.Engine.Planner
import Pcloud.Model.OsPath

/-!
# The watcher and its fallback (`pcloud-fs/src/fs_watcher.rs`)

The watcher filters each path by its last name. The poll that stands in for it stays out of the
directories that it filters, and also reports paths that are not UTF-8.
-/

namespace Pcloud.FsWatcher

/-! ## The filter -/

def endsWith (text : List Char) (ending : String) : Bool := ending.toList.isSuffixOf text

def startsWith (text : List Char) (start : String) : Bool := start.toList.isPrefixOf text

def shouldFilter (relPath : String) : Bool :=
  let filename := (basename relPath).toList
  if endsWith filename ".swp" || endsWith filename ".tmp" || endsWith filename "~" || endsWith filename ".swx" ||
      endsWith filename ".swo" then true
  else if startsWith filename ".pcloud-" || startsWith filename ".pcloudsync" then true
  else if filename = ".DS_Store".toList || filename = "Thumbs.db".toList || filename = "desktop.ini".toList then true
  else if startsWith filename "." && endsWith filename ".un~" then true
  else false

/-- The path is what is left of it below the root. -/
def toRelative (path : OsPath) : Option String := do
  let text ← fromUtf8 (OsPath.bytes path)
  if text = "" then none else some (replaceBackslashes text)

/-- The text under which the debounce loop takes up an event on the path. -/
def watched (path : OsPath) : Option String := do
  let rel ← toRelative path
  if shouldFilter rel then none else some rel

/-! ## The poll -/

section Poll

variable (syncId : SyncId)

def walkDirRecursive : OsListing → OsPath → List LocalScanEntry → List LocalScanEntry
  | .nil, _, out => out
  | .leaf (.error _) rest, dir, out => walkDirRecursive rest dir out
  | .leaf (.ok file) rest, dir, out =>
    let rel := OsPath.relative (dir ++ [file.name])
    if rel = "" || shouldFilter rel then walkDirRecursive rest dir out
    else if file.fileType = .file then walkDirRecursive rest dir (out ++ [⟨syncId, rel, .File, false, none⟩])
    else walkDirRecursive rest dir out
  | .branch directory below rest, dir, out =>
    let rel := OsPath.relative (dir ++ [directory.name])
    if rel = "" || shouldFilter rel then walkDirRecursive rest dir out
    else
      let out := out ++ [⟨syncId, rel, .Folder, false, none⟩]
      walkDirRecursive rest dir (walkDirRecursive below (dir ++ [directory.name]) out)

def pollScanRoot (listing : OsListing) : List LocalScanEntry := walkDirRecursive syncId listing [] []

end Poll

/-! ## What the filter looks at -/

/-- The filter drops the name, wherever it is. -/
def filtered (name : OsName) : Bool := shouldFilter (OsPath.relative [name])

theorem basename_eq {text text' : String} {directory : List Char}
    (hdirectory : directory = [] ∨ ∃ before, directory = before ++ ['/'])
    (h : text.toList = directory ++ text'.toList) :
    basename text = basename text' := by
  have hstop : directory.reverse.takeWhile (· ≠ '/') = [] := by
    rcases hdirectory with rfl | ⟨before, rfl⟩
    · rfl
    · simp
  rw [basename, basename, h, List.reverse_append, List.takeWhile_append, hstop]
  split
  next hall => rw [List.append_nil, (List.takeWhile_prefix _).eq_of_length hall]
  next => rfl

theorem shouldFilter_relative (parents : OsPath) (name : OsName) :
    shouldFilter (OsPath.relative (parents ++ [name])) = filtered name := by
  obtain ⟨directory, hdirectory, htext⟩ := OsPath.toList_relative_concat parents name
  have hname : (OsPath.relative [name]).toList = OsPath.segment name := by simp [OsPath.toList_relative]
  rw [← hname] at htext
  rw [filtered, shouldFilter, shouldFilter, basename_eq hdirectory htext]

theorem toRelative_eq_some_iff (parents : OsPath) (name : OsName) {text : String} :
    toRelative (parents ++ [name]) = some text ↔
      (fromUtf8 (OsPath.bytes (parents ++ [name]))).isSome ∧ OsPath.relative (parents ++ [name]) = text := by
  cases hread : fromUtf8 (OsPath.bytes (parents ++ [name])) with
  | none => simp [toRelative, hread]
  | some read =>
    obtain ⟨hlossy, -⟩ := fromUtf8Lossy_of_fromUtf8 hread
    have hrelative : OsPath.relative (parents ++ [name]) = replaceBackslashes read := by rw [OsPath.relative, hlossy]
    have hne : read ≠ "" := by
      rintro rfl
      exact OsPath.relative_ne_empty parents name hrelative
    simp [toRelative, hread, hne, hrelative]

theorem watched_eq_some_iff (parents : OsPath) (name : OsName) {text : String} :
    watched (parents ++ [name]) = some text ↔
      (fromUtf8 (OsPath.bytes (parents ++ [name]))).isSome ∧ filtered name = false ∧
        OsPath.relative (parents ++ [name]) = text := by
  have hfilter := shouldFilter_relative parents name
  rw [watched, Option.bind_eq_bind, Option.bind_eq_some_iff]
  constructor
  · rintro ⟨rel, hrel, hpass⟩
    obtain ⟨hutf8, rfl⟩ := (toRelative_eq_some_iff parents name).mp hrel
    split at hpass
    next => cases hpass
    next hkept => exact ⟨hutf8, hfilter ▸ Bool.eq_false_iff.mpr hkept, Option.some.inj hpass⟩
  · rintro ⟨hutf8, hkept, rfl⟩
    refine ⟨_, (toRelative_eq_some_iff parents name).mpr ⟨hutf8, rfl⟩, ?_⟩
    rw [hfilter, hkept]
    rfl

/-! ## What the poll reports -/

def keeps (item : OsFile ⊕ OsDirectory) : Bool := !filtered (osName item)

/-- The poll reports regular files and directories. -/
def reports : OsNode → Bool
  | (_, .inl file) => file.fileType = .file
  | (_, .inr _) => true

def entryOf (syncId : SyncId) (node : OsNode) : LocalScanEntry :=
  ⟨syncId, OsPath.relative node.path, entryKindOf node.2, false, none⟩

theorem entryOf_directory (syncId : SyncId) (above : List OsDirectory) (directory : OsDirectory) :
    entryOf syncId (above, .inr directory) =
      ⟨syncId, OsPath.relative (above.map (·.name) ++ [directory.name]), .Folder, false, none⟩ := rfl

theorem skips_eq (parents : OsPath) (name : OsName) :
    (OsPath.relative (parents ++ [name]) = "" || shouldFilter (OsPath.relative (parents ++ [name]))) =
      filtered name := by
  rw [decide_eq_false (OsPath.relative_ne_empty parents name), Bool.false_or, shouldFilter_relative]

theorem walkDirRecursive_listing (syncId : SyncId) (entries : Forest OsFile OsDirectory) (above : List OsDirectory)
    (out : List LocalScanEntry) :
    walkDirRecursive syncId (entries.mapLeaves .ok) (above.map (·.name)) out =
      out ++ ((entries.kept keeps above).filter reports).map (entryOf syncId) := by
  induction entries generalizing above out with
  | nil => simp [Forest.mapLeaves, walkDirRecursive, Forest.kept]
  | leaf file rest ih =>
    rw [Forest.mapLeaves, walkDirRecursive, Forest.kept]
    simp only [skips_eq, keeps, osName]
    by_cases hfiltered : filtered file.name = true
    · simp only [hfiltered, Bool.not_true, Bool.false_eq_true, ↓reduceIte]
      exact ih above out
    · simp only [hfiltered, Bool.not_false, Bool.false_eq_true, ↓reduceIte]
      by_cases hfile : file.fileType = .file
      · have hreports : reports (above, .inl file) = true := decide_eq_true hfile
        rw [if_pos hfile, ih, List.filter_cons_of_pos hreports, List.map_cons, List.append_assoc]
        rfl
      · have hreports : ¬ reports (above, .inl file) = true := fun h => hfile (of_decide_eq_true h)
        rw [if_neg hfile, ih, List.filter_cons_of_neg hreports]
  | branch directory below rest ihBelow ihRest =>
    have hdirectories : above.map (·.name) ++ [directory.name] = (above ++ [directory]).map (·.name) := by simp
    rw [Forest.mapLeaves, walkDirRecursive, Forest.kept]
    simp only [skips_eq, keeps, osName]
    by_cases hfiltered : filtered directory.name = true
    · simp only [hfiltered, Bool.not_true, Bool.false_eq_true, ↓reduceIte]
      exact ihRest above out
    · simp only [hfiltered, Bool.not_false, Bool.false_eq_true, ↓reduceIte]
      have hreports : reports (above, .inr directory) = true := rfl
      rw [← entryOf_directory, hdirectories, ihBelow, ihRest, List.filter_cons_of_pos hreports, List.filter_append,
        List.map_cons, List.map_append]
      simp only [List.append_assoc, List.cons_append, List.nil_append]

/-- No directory on the way to the node is filtered, nor is the node. -/
def Open (node : OsNode) : Prop := ∀ name ∈ node.path, filtered name = false

theorem open_iff (node : OsNode) :
    Open node ↔ filtered (osName node.2) = false ∧ ∀ directory ∈ node.1, filtered directory.name = false := by
  rw [Open, OsNode.path, Forest.path, List.forall_mem_append, List.forall_mem_map, List.forall_mem_singleton, and_comm]
  rfl

/-- The regular files and directories of a tree. -/
def reported (tree : DirTree) : List OsNode := tree.nodes.filter reports

theorem mem_pollScanRoot_iff {syncId : SyncId} {tree : DirTree} {text : String} :
    text ∈ (pollScanRoot syncId tree.listing).map (·.path) ↔
      ∃ node ∈ reported tree, Open node ∧ OsPath.relative node.path = text := by
  have hscan : pollScanRoot syncId tree.listing = [] ++ _ := walkDirRecursive_listing syncId tree.entries [] []
  have hkept (node : OsNode) : node ∈ tree.entries.kept keeps [] ↔ node ∈ tree.nodes ∧ Open node := by
    rw [Forest.mem_kept_iff (fun _ h => absurd h List.not_mem_nil), open_iff]
    simp [keeps, DirTree.nodes, osName]
  rw [hscan]
  simp only [List.nil_append, List.map_map, List.mem_map, List.mem_filter, hkept, reported, Function.comp_apply]
  constructor
  · rintro ⟨node, ⟨⟨hnode, hopen⟩, hreports⟩, rfl⟩
    exact ⟨node, ⟨hnode, hreports⟩, hopen, rfl⟩
  · rintro ⟨node, ⟨hnode, hreports⟩, hopen, rfl⟩
    exact ⟨node, ⟨⟨hnode, hopen⟩, hreports⟩, rfl⟩

/-! ## Where poll and watcher agree -/

/-- The paths that the poll reports. -/
def polledPaths (syncId : SyncId) (tree : DirTree) : Set String :=
  {text | text ∈ (pollScanRoot syncId tree.listing).map (·.path)}

/-- The paths of files and directories that the watcher does not filter. -/
def watchedPaths (tree : DirTree) : Set String := {text | ∃ node ∈ reported tree, watched node.path = some text}

def IsUtf8 (path : OsPath) : Prop := (fromUtf8 (OsPath.bytes path)).isSome

/-- What only one of the two lets through has the text of something that the other lets through. -/
structure Covered (tree : DirTree) : Prop where
  notUtf8 : ∀ node ∈ reported tree, Open node → ¬ IsUtf8 node.path →
    ∃ twin ∈ reported tree, IsUtf8 twin.path ∧ OsPath.relative twin.path = OsPath.relative node.path
  belowFiltered : ∀ node ∈ reported tree, IsUtf8 node.path → filtered (osName node.2) = false →
    (∃ directory ∈ node.1, filtered directory.name = true) →
    ∃ twin ∈ reported tree, Open twin ∧ OsPath.relative twin.path = OsPath.relative node.path

theorem watched_node_iff {node : OsNode} {text : String} :
    watched node.path = some text ↔
      IsUtf8 node.path ∧ filtered (osName node.2) = false ∧ OsPath.relative node.path = text :=
  watched_eq_some_iff _ _

theorem filtered_eq_of_relative_eq {node twin : OsNode}
    (h : OsPath.relative twin.path = OsPath.relative node.path) :
    filtered (osName twin.2) = filtered (osName node.2) := by
  have hnode : shouldFilter (OsPath.relative node.path) = filtered (osName node.2) := shouldFilter_relative _ _
  have htwin : shouldFilter (OsPath.relative twin.path) = filtered (osName twin.2) := shouldFilter_relative _ _
  rw [← hnode, ← htwin, h]

/-- Poll and watcher report the same paths exactly when neither a path that is not UTF-8 nor what is
below a filtered directory makes a difference. -/
theorem polledPaths_eq_iff (syncId : SyncId) (tree : DirTree) :
    polledPaths syncId tree = watchedPaths tree ↔ Covered tree := by
  simp only [polledPaths, watchedPaths, Set.ext_iff, Set.mem_ofPred_eq, mem_pollScanRoot_iff, watched_node_iff]
  constructor
  · intro h
    refine ⟨?_, ?_⟩
    · intro node hnode hopen _
      obtain ⟨twin, htwin, hutf8, -, htext⟩ := (h _).mp ⟨node, hnode, hopen, rfl⟩
      exact ⟨twin, htwin, hutf8, htext⟩
    · intro node hnode hutf8 hkept _
      exact (h _).mpr ⟨node, hnode, hutf8, hkept, rfl⟩
  · rintro ⟨hnotUtf8, hbelow⟩ text
    constructor
    · rintro ⟨node, hnode, hopen, rfl⟩
      have hkept := ((open_iff node).mp hopen).1
      by_cases hutf8 : IsUtf8 node.path
      · exact ⟨node, hnode, hutf8, hkept, rfl⟩
      · obtain ⟨twin, htwin, hutf8', htext⟩ := hnotUtf8 node hnode hopen hutf8
        exact ⟨twin, htwin, hutf8', (filtered_eq_of_relative_eq htext).trans hkept, htext⟩
    · rintro ⟨node, hnode, hutf8, hkept, rfl⟩
      by_cases hopen : Open node
      · exact ⟨node, hnode, hopen, rfl⟩
      · refine hbelow node hnode hutf8 hkept ?_
        by_contra hnone
        push Not at hnone
        exact hopen ((open_iff node).mpr ⟨hkept, fun d hd => Bool.eq_false_iff.mpr (hnone d hd)⟩)

/-! ## A directory `x.tmp` with a file `f`, and a name that is one byte `FF` -/

namespace Samples

theorem isName_tmp : ([0x78, 0x2E, 0x74, 0x6D, 0x70] : Bytes) ≠ [] ∧
    0x2F ∉ ([0x78, 0x2E, 0x74, 0x6D, 0x70] : Bytes) := by decide

theorem isName_f : ([0x66] : Bytes) ≠ [] ∧ 0x2F ∉ ([0x66] : Bytes) := by decide

theorem isName_ff : ([0xFF] : Bytes) ≠ [] ∧ 0x2F ∉ ([0xFF] : Bytes) := by decide

def tmp : OsDirectory := ⟨⟨[0x78, 0x2E, 0x74, 0x6D, 0x70], isName_tmp⟩, 1, 7⟩

def f : OsFile := ⟨⟨[0x66], isName_f⟩, .file⟩

def ff : OsFile := ⟨⟨[0xFF], isName_ff⟩, .file⟩

def belowTmpEntries : Forest OsFile OsDirectory := .branch tmp (.leaf f .nil) .nil

def notUtf8Entries : Forest OsFile OsDirectory := .leaf ff .nil

theorem distinct_belowTmp : belowTmpEntries.Distinct osName := by
  rw [Forest.Distinct]
  decide

theorem distinct_notUtf8 : notUtf8Entries.Distinct osName := by
  rw [Forest.Distinct]
  decide

def belowTmp : DirTree := ⟨belowTmpEntries, distinct_belowTmp⟩

def notUtf8 : DirTree := ⟨notUtf8Entries, distinct_notUtf8⟩

/-- The watcher lets `x.tmp/f` through, which the poll does not report. The poll reports the name that is
not UTF-8, which the watcher drops. -/
theorem polledPaths_ne :
    polledPaths ⟨1⟩ belowTmp ≠ watchedPaths belowTmp ∧ polledPaths ⟨1⟩ notUtf8 ≠ watchedPaths notUtf8 := by
  have hscan : pollScanRoot ⟨1⟩ belowTmp.listing = [] := by decide +kernel
  have hscan' : pollScanRoot ⟨1⟩ notUtf8.listing = [⟨⟨1⟩, "\uFFFD", .File, false, none⟩] := by decide +kernel
  have hwatched : watched (OsNode.path ([tmp], .inl f)) = some "x.tmp/f" := by decide +kernel
  have hwatched' : watched (OsNode.path ([], .inl ff)) = none := by decide +kernel
  have hreported : reported belowTmp = [([], .inr tmp), ([tmp], .inl f)] := rfl
  have hreported' : reported notUtf8 = [([], .inl ff)] := rfl
  refine ⟨fun h => ?_, fun h => ?_⟩
  · have hmem : "x.tmp/f" ∈ polledPaths ⟨1⟩ belowTmp := by
      rw [h]
      exact ⟨_, by simp [hreported], hwatched⟩
    simp [polledPaths, hscan] at hmem
  · have hmem : "\uFFFD" ∈ watchedPaths notUtf8 := by
      rw [← h]
      simp [polledPaths, hscan']
    simp [watchedPaths, hreported', hwatched'] at hmem

end Samples

end Pcloud.FsWatcher
