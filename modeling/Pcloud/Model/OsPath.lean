import Pcloud.Lib.Forest
import Pcloud.Model.Bytes
import Pcloud.Model.Sync

/-!
# Names, paths and trees of the file system

A name is bytes, and so is a path. The text of a path has replacements for what is not UTF-8, and
slashes for backslashes.
-/

namespace Pcloud

/-- A name in a directory: it is not empty and has no slash. -/
abbrev OsName := { name : Bytes // name ≠ [] ∧ 0x2F ∉ name }

/-- A path by its names, from a root on. -/
abbrev OsPath := List OsName

/-- A slash for each backslash. -/
def toSlash (c : Char) : Char := if c = Char.ofNat 92 then '/' else c

/-- `replace('\\', "/")`. -/
def replaceBackslashes (text : String) : String := String.ofList (text.toList.map toSlash)

theorem map_intercalate {α β : Type*} (f : α → β) (separator : List α) (lists : List (List α)) :
    (List.intercalate separator lists).map f = List.intercalate (separator.map f) (lists.map (List.map f)) := by
  induction lists with
  | nil => rfl
  | cons first rest ih =>
    cases rest with
    | nil => simp
    | cons second rest =>
      rw [List.map_cons, List.map_cons, List.intercalate_cons_cons, List.intercalate_cons_cons, List.map_append,
        List.map_append, ih, List.map_cons]

theorem intercalate_concat {α : Type*} (separator last : List α) {lists : List (List α)} (h : lists ≠ []) :
    List.intercalate separator (lists ++ [last]) = List.intercalate separator lists ++ separator ++ last := by
  induction lists with
  | nil => exact absurd rfl h
  | cons first rest ih =>
    cases rest with
    | nil => simp
    | cons second rest =>
      have hne : second :: rest ++ [last] ≠ [] := List.append_ne_nil_of_left_ne_nil (List.cons_ne_nil _ _) _
      rw [List.cons_append, List.intercalate_cons_of_ne_nil hne, ih (List.cons_ne_nil _ _), List.intercalate_cons_cons]
      simp only [List.append_assoc]

namespace OsPath

def bytes (path : OsPath) : Bytes := List.intercalate [0x2F] (path.map (·.val))

/-- `to_string_lossy().replace('\\', "/")` of a path below the root. -/
def relative (path : OsPath) : String := replaceBackslashes (fromUtf8Lossy (bytes path))

/-- What a name is in the text of a path. -/
def segment (name : OsName) : List Char := (Utf8.lossy name.val).map toSlash

theorem bytes_cons_cons (first second : OsName) (rest : OsPath) :
    bytes (first :: second :: rest) = first.val ++ 0x2F :: bytes (second :: rest) := by
  rw [bytes, List.map_cons, List.map_cons, List.intercalate_cons_cons, List.append_assoc]
  rfl

theorem lossy_bytes (path : OsPath) :
    Utf8.lossy (bytes path) = List.intercalate ['/'] (path.map fun name => Utf8.lossy name.val) := by
  induction path with
  | nil => rfl
  | cons first rest ih =>
    cases rest with
    | nil => simp [bytes]
    | cons second rest =>
      have hslash : String.utf8EncodeChar '/' = [0x2F] := by decide
      rw [bytes_cons_cons, Utf8.lossy_append_ascii (by decide) hslash, ih, List.map_cons, List.map_cons, List.map_cons,
        List.intercalate_cons_cons, List.append_assoc]
      rfl

theorem toList_relative (path : OsPath) : (relative path).toList = List.intercalate ['/'] (path.map segment) := by
  rw [relative, replaceBackslashes, fromUtf8Lossy, String.toList_ofList, String.toList_ofList, lossy_bytes,
    map_intercalate, List.map_map]
  rfl

theorem segment_ne_nil (name : OsName) : segment name ≠ [] := by
  rw [segment, ne_eq, List.map_eq_nil_iff]
  exact Utf8.lossy_ne_nil name.property.1

theorem toList_relative_concat (parents : OsPath) (name : OsName) :
    ∃ directory : List Char, (directory = [] ∨ ∃ before, directory = before ++ ['/']) ∧
      (relative (parents ++ [name])).toList = directory ++ segment name := by
  rw [toList_relative, List.map_append, List.map_singleton]
  cases parents with
  | nil => exact ⟨[], .inl rfl, by simp⟩
  | cons first rest =>
    rw [List.map_cons, intercalate_concat _ _ (List.cons_ne_nil _ _)]
    exact ⟨_, .inr ⟨_, rfl⟩, rfl⟩

theorem relative_ne_empty (parents : OsPath) (name : OsName) : relative (parents ++ [name]) ≠ "" := by
  intro hempty
  obtain ⟨directory, -, hlist⟩ := toList_relative_concat parents name
  rw [hempty, String.toList_empty, eq_comm, List.append_eq_nil_iff] at hlist
  exact segment_ne_nil name hlist.2

/-! ## Plain names -/

/-- The name is UTF-8 and has no backslash. -/
def Plain (name : OsName) : Prop := ∃ text : String, utf8 text = name.val ∧ Char.ofNat 92 ∉ text.toList

theorem segment_eq {name : OsName} {text : String} (htext : utf8 text = name.val)
    (hplain : Char.ofNat 92 ∉ text.toList) : segment name = text.toList := by
  rw [segment, ← htext, lossy_utf8]
  have hkept : ∀ c ∈ text.toList, toSlash c = id c := by
    intro c hc
    refine if_neg ?_
    rintro rfl
    exact hplain hc
  rw [List.map_congr_left hkept, List.map_id]

theorem slash_notMem {name : OsName} {text : String} (htext : utf8 text = name.val) : '/' ∉ text.toList := by
  intro hslash
  refine name.property.2 ?_
  rw [← htext, utf8_eq_flatMap]
  exact List.mem_flatMap.mpr ⟨'/', hslash, by decide⟩

theorem Plain.eq_of_segment_eq {name name' : OsName} (hname : Plain name) (hname' : Plain name')
    (h : segment name = segment name') : name = name' := by
  obtain ⟨text, htext, hback⟩ := hname
  obtain ⟨text', htext', hback'⟩ := hname'
  rw [segment_eq htext hback, segment_eq htext' hback'] at h
  apply Subtype.ext
  rw [← htext, ← htext', String.toList_injective h]

theorem eq_of_map_segment_eq {path path' : OsPath} (hpath : ∀ name ∈ path, Plain name)
    (hpath' : ∀ name ∈ path', Plain name) (h : path.map segment = path'.map segment) : path = path' := by
  induction path generalizing path' with
  | nil => exact (List.map_eq_nil_iff.mp h.symm).symm
  | cons name rest ih =>
    obtain ⟨name', rest', rfl, hhead, htail⟩ := List.map_eq_cons_iff.mp h.symm
    obtain ⟨hname, hrest⟩ := List.forall_mem_cons.mp hpath
    obtain ⟨hname', hrest'⟩ := List.forall_mem_cons.mp hpath'
    rw [hname.eq_of_segment_eq hname' hhead.symm, ih hrest hrest' htail.symm]

theorem splitOn_relative {path : OsPath} (hne : path ≠ []) (hpath : ∀ name ∈ path, Plain name) :
    (relative path).toList.splitOn '/' = path.map segment := by
  rw [toList_relative]
  refine List.splitOn_intercalate _ ?_ (by simpa using hne)
  intro chars hchars
  obtain ⟨name, hname, rfl⟩ := List.mem_map.mp hchars
  obtain ⟨text, htext, hback⟩ := hpath name hname
  rw [segment_eq htext hback]
  exact slash_notMem htext

theorem eq_of_relative_eq {path path' : OsPath} (hne : path ≠ []) (hne' : path' ≠ [])
    (hpath : ∀ name ∈ path, Plain name) (hpath' : ∀ name ∈ path', Plain name)
    (h : relative path = relative path') : path = path' := by
  refine eq_of_map_segment_eq hpath hpath' ?_
  rw [← splitOn_relative hne hpath, ← splitOn_relative hne' hpath', h]

end OsPath

/-! ## Trees -/

/-- `FileType` of what is no directory. -/
inductive OsFileType where
  | file
  | symlink
  | other
  deriving DecidableEq, Repr

structure OsFile where
  name : OsName
  fileType : OsFileType
  deriving DecidableEq

structure OsDirectory where
  name : OsName
  device : UInt64
  inode : UInt64
  deriving DecidableEq

/-- What `read_dir` yields of a directory, entry by entry. An entry that fails, or a directory that
cannot be read, leaves an error. -/
abbrev OsListing := Forest (Except String OsFile) OsDirectory

abbrev OsNode := Forest.Node OsFile OsDirectory

def osName : OsFile ⊕ OsDirectory → OsName
  | .inl file => file.name
  | .inr directory => directory.name

def entryKindOf : OsFile ⊕ OsDirectory → EntryKind
  | .inl _ => .File
  | .inr _ => .Folder

/-- The path of a node below the root. -/
def OsNode.path (node : OsNode) : OsPath := Forest.path osName node

/-- A directory tree: the names in a directory are distinct. -/
structure DirTree where
  entries : Forest OsFile OsDirectory
  distinct : entries.Distinct osName

namespace DirTree

variable (tree : DirTree)

/-- The tree as it is read, without errors. -/
def listing : OsListing := tree.entries.mapLeaves .ok

def nodes : List OsNode := tree.entries.nodes []

def NoSymlinks : Prop := ∀ file ∈ tree.entries.leaves, file.fileType ≠ .symlink

theorem nodup_paths : (tree.nodes.map OsNode.path).Nodup := Forest.nodup_paths tree.distinct []

end DirTree

end Pcloud
