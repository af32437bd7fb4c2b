import Mathlib.Data.List.DropRight
import Pcloud.Engine.Conflicts
import Pcloud.Lib.Segments

/-!
# The names of conflict copies (`conflict_rename_path`)

The label goes into the last segment of the path: before its extension, or at its end. A dot that opens the segment, as
in a hidden file, opens no extension.
-/

namespace Pcloud

/-- The labels the resolver gives. -/
def conflictLabels : List String := ["local", "remote"]

/-- The text of a path up to its last separator. -/
def directory (path : String) : List Char := path.toList.rdropWhile (· ≠ '/')

def withLabel (label text : List Char) : List Char := text ++ '.' :: ("conflict-".toList ++ label)

/-- What becomes of a segment under `label`. -/
inductive Renamed (label : List Char) : List Char → List Char → Prop where
  | beforeExtension {stem ext : List Char} (hstem : stem ≠ []) (hext : '.' ∉ ext) :
    Renamed label (stem ++ '.' :: ext) (withLabel label stem ++ '.' :: ext)
  | atEnd {name : List Char} (hname : '.' ∉ name.drop 1) : Renamed label name (withLabel label name)

/-! ## The last of a character -/

section Last

variable {c : Char} {text before after before' after' : List Char}

theorem rfind_append (h : c ∉ after) : rfind c (before ++ c :: after) = some before.length := by
  have hnone : after.reverse.findIdx? (· = c) = none := by
    simpa [List.findIdx?_eq_none_iff] using fun x hx (hxc : x = c) => h (hxc ▸ hx)
  rw [rfind, List.reverse_append, List.reverse_cons, List.append_assoc, List.findIdx?_append, hnone]
  simp [List.findIdx?_cons]

theorem rfind_of_notMem (h : c ∉ text) : rfind c text = none := by
  have hnone : text.reverse.findIdx? (· = c) = none := by
    simpa [List.findIdx?_eq_none_iff] using fun x hx (hxc : x = c) => h (hxc ▸ hx)
  rw [rfind, hnone]
  rfl

theorem rdropWhile_append (h : c ∉ after) : (before ++ after).rdropWhile (· ≠ c) = before.rdropWhile (· ≠ c) := by
  induction after using List.reverseRecOn with
  | nil => rw [List.append_nil]
  | append_singleton after x ih =>
    rw [List.mem_append, not_or] at h
    have hx : x ≠ c := fun hxc => h.2 (List.mem_singleton.mpr hxc.symm)
    rw [← List.append_assoc, List.rdropWhile_concat_pos _ _ _ (by simpa using hx), ih h.1]

end Last

/-! ## One segment -/

theorem withLabel_inj {label label' text text' : List Char} (h : withLabel label text = withLabel label' text')
    (hlabel : '.' ∉ label) (hlabel' : '.' ∉ label') : text = text' ∧ label = label' := by
  obtain ⟨htext, hrest⟩ := Segments.append_sep_inj (by simp [hlabel]) (by simp [hlabel']) h
  exact ⟨htext, List.append_cancel_left hrest⟩

namespace Renamed

variable {label label' name name' renamed : List Char}

theorem beforeExtension_ne_atEnd {stem ext : List Char} (hstem : stem ≠ []) (hext : '.' ∉ ext)
    (hname' : '.' ∉ name'.drop 1) (hlabel' : '.' ∉ label') :
    withLabel label stem ++ '.' :: ext ≠ withLabel label' name' := by
  intro h
  obtain ⟨hname, -⟩ := Segments.append_sep_inj hext (by simp [hlabel']) h
  obtain ⟨x, stem, rfl⟩ := List.exists_cons_of_ne_nil hstem
  rw [← hname, withLabel, List.cons_append, List.drop_one, List.tail_cons] at hname'
  exact hname' (List.mem_append_right _ List.mem_cons_self)

theorem inj (h : Renamed label name renamed) (h' : Renamed label' name' renamed) (hlabel : '.' ∉ label)
    (hlabel' : '.' ∉ label') : name = name' ∧ label = label' := by
  generalize hsame : renamed = renamed' at h'
  cases h with
  | beforeExtension hstem hext =>
    cases h' with
    | beforeExtension hstem' hext' =>
      obtain ⟨hlabelled, rfl⟩ := Segments.append_sep_inj hext hext' hsame
      obtain ⟨rfl, rfl⟩ := withLabel_inj hlabelled hlabel hlabel'
      exact ⟨rfl, rfl⟩
    | atEnd hname' => exact absurd hsame (beforeExtension_ne_atEnd hstem hext hname' hlabel')
  | atEnd hname =>
    cases h' with
    | beforeExtension hstem' hext' => exact absurd hsame.symm (beforeExtension_ne_atEnd hstem' hext' hname hlabel)
    | atEnd hname' => exact withLabel_inj hsame hlabel hlabel'

theorem slash_notMem (h : Renamed label name renamed) (hname : '/' ∉ name) (hlabel : '/' ∉ label) :
    '/' ∉ renamed := by
  cases h with
  | beforeExtension hstem hext =>
    simp only [List.mem_append, List.mem_cons, not_or] at hname
    simp [withLabel, hname, hlabel]
  | atEnd hdots => simp [withLabel, hname, hlabel]

theorem length_lt (h : Renamed label name renamed) : name.length < renamed.length := by
  cases h with
  | beforeExtension hstem hext =>
    simp only [withLabel, List.length_append, List.length_cons]
    omega
  | atEnd hdots =>
    simp only [withLabel, List.length_append, List.length_cons]
    omega

end Renamed

/-! ## The path -/

section Path

variable (path : String) {label label' : String}

theorem directory_append_basename : directory path ++ (basename path).toList = path.toList := by
  rw [directory, basename, String.toList_ofList]
  exact List.rdropWhile_append_rtakeWhile

theorem slash_notMem_basename : '/' ∉ (basename path).toList := by
  rw [basename, String.toList_ofList]
  intro h
  simpa using List.mem_rtakeWhile_imp (p := (· ≠ '/')) h

theorem lastSep_eq : ((rfind '/' path.toList).map (· + 1)).getD 0 = (directory path).length := by
  by_cases hsep : '/' ∈ path.toList
  · obtain ⟨before, after, htext, hafter⟩ := Segments.exists_append_sep hsep
    have hdir : directory path = before ++ ['/'] := by
      rw [directory, htext, List.append_cons, rdropWhile_append hafter, List.rdropWhile_concat_neg _ _ _ (by simp)]
    rw [htext, rfind_append hafter, hdir]
    simp
  · have hdir : directory path = [] := by
      rw [directory, List.rdropWhile_eq_nil_iff]
      exact fun x hx => by simpa using fun hxc : x = '/' => hsep (hxc ▸ hx)
    rw [rfind_of_notMem hsep, hdir]
    rfl

theorem append_label (text label : List Char) : text ++ ".conflict-".toList ++ label = withLabel label text := by
  rw [withLabel, List.append_assoc]
  rfl

section LastDot

variable {path} {before after : List Char} (htext : path.toList = before ++ '.' :: after)
include htext

theorem basename_of_lt (hlt : (directory path).length < before.length) :
    ∃ stem, stem ≠ [] ∧ before = directory path ++ stem ∧ (basename path).toList = stem ++ '.' :: after := by
  have hpath := directory_append_basename path
  rw [htext, List.append_eq_append_iff] at hpath
  obtain ⟨stem, hbefore, hbase⟩ | ⟨rest, hdir, -⟩ := hpath
  · refine ⟨stem, ?_, hbefore, hbase⟩
    rintro rfl
    simp [hbefore] at hlt
  · rw [hdir, List.length_append] at hlt
    omega

theorem dot_notMem_of_le (hafter : '.' ∉ after) (hle : before.length ≤ (directory path).length) :
    '.' ∉ (basename path).toList.drop 1 := by
  have hpath := directory_append_basename path
  rw [htext, List.append_eq_append_iff] at hpath
  obtain ⟨stem, hbefore, hbase⟩ | ⟨rest, -, hrest⟩ := hpath
  · have hstem : stem = [] := by
      rw [hbefore, List.length_append] at hle
      exact List.eq_nil_of_length_eq_zero (by omega)
    rw [hbase, hstem]
    exact hafter
  · cases rest with
    | nil =>
      rw [← List.nil_append (basename path).toList, ← hrest]
      exact hafter
    | cons x rest =>
      have hbase : after = rest ++ (basename path).toList := (List.cons.inj hrest).2
      rw [hbase] at hafter
      exact fun h => hafter (List.mem_append_right _ (List.mem_of_mem_drop h))

end LastDot

theorem conflictRenamePath_renamed (label : String) : ∃ renamed,
    Renamed label.toList (basename path).toList renamed ∧
      (conflictRenamePath path label).toList = directory path ++ renamed := by
  have hend : '.' ∉ (basename path).toList.drop 1 → ∃ renamed,
      Renamed label.toList (basename path).toList renamed ∧
        (path ++ ".conflict-" ++ label).toList = directory path ++ renamed := by
    intro hdots
    refine ⟨_, .atEnd hdots, ?_⟩
    rw [String.toList_append, String.toList_append, append_label, ← directory_append_basename path, withLabel,
      withLabel, List.append_assoc]
  by_cases hdot : '.' ∈ path.toList
  · obtain ⟨before, after, htext, hafter⟩ := Segments.exists_append_sep hdot
    have hfind : rfind '.' path.toList = some before.length := by rw [htext, rfind_append hafter]
    simp only [conflictRenamePath, hfind, lastSep_eq]
    split
    · rename_i hlt
      obtain ⟨stem, hstem, hbefore, hbase⟩ := basename_of_lt htext hlt
      have htake : path.toList.take before.length = before := by simp [htext]
      have hdrop : path.toList.drop (before.length + 1) = after := by simp [htext]
      rw [hbase]
      refine ⟨_, .beforeExtension hstem hafter, ?_⟩
      rw [htake, hdrop, hbefore]
      simp [withLabel]
    · rename_i hle
      exact hend (dot_notMem_of_le htext hafter (Nat.le_of_not_lt hle))
  · simp only [conflictRenamePath, rfind_of_notMem hdot]
    refine hend fun h => hdot ?_
    rw [← directory_append_basename path]
    exact List.mem_append_right _ (List.mem_of_mem_drop h)

variable {path}

theorem directory_conflictRenamePath (hlabel : '/' ∉ label.toList) :
    directory (conflictRenamePath path label) = directory path := by
  obtain ⟨renamed, hrenamed, htext⟩ := conflictRenamePath_renamed path label
  rw [directory, htext, rdropWhile_append (hrenamed.slash_notMem (slash_notMem_basename path) hlabel)]
  exact List.rdropWhile_idempotent _ _

theorem conflictRenamePath_ne : conflictRenamePath path label ≠ path := by
  obtain ⟨renamed, hrenamed, htext⟩ := conflictRenamePath_renamed path label
  intro heq
  rw [heq, ← directory_append_basename path] at htext
  exact absurd hrenamed.length_lt (by rw [List.append_cancel_left htext]; exact Nat.lt_irrefl _)

theorem conflictRenamePath_inj {path' : String} (h : conflictRenamePath path label = conflictRenamePath path' label')
    (hdot : '.' ∉ label.toList) (hdot' : '.' ∉ label'.toList) (hslash : '/' ∉ label.toList)
    (hslash' : '/' ∉ label'.toList) : path = path' ∧ label = label' := by
  have hdir : directory path = directory path' := by
    rw [← directory_conflictRenamePath hslash, h, directory_conflictRenamePath hslash']
  obtain ⟨renamed, hrenamed, htext⟩ := conflictRenamePath_renamed path label
  obtain ⟨renamed', hrenamed', htext'⟩ := conflictRenamePath_renamed path' label'
  rw [h, htext', hdir] at htext
  rw [List.append_cancel_left htext] at hrenamed'
  obtain ⟨hname, hlabels⟩ := hrenamed.inj hrenamed' hdot hdot'
  refine ⟨String.toList_inj.mp ?_, String.toList_inj.mp hlabels⟩
  rw [← directory_append_basename path, ← directory_append_basename path', hdir, hname]

end Path

theorem dot_notMem_label : ∀ label ∈ conflictLabels, '.' ∉ label.toList := by decide

theorem slash_notMem_label : ∀ label ∈ conflictLabels, '/' ∉ label.toList := by decide

theorem resolveRenameBoth_distinct {syncId syncId' : SyncId} {path localPath remotePath originalPath : String}
    {kind : ConflictKind}
    (h : resolveRenameBoth syncId path kind = .RenameBoth localPath remotePath originalPath syncId') :
    [localPath, remotePath, originalPath].Nodup ∧
      ∀ renamed ∈ [localPath, remotePath], directory renamed = directory originalPath := by
  cases kind with
  | LocalModifyVsRemoteModify =>
    obtain ⟨rfl, rfl, rfl, rfl⟩ := ConflictResolution.RenameBoth.inj h
    have hlocal : "local" ∈ conflictLabels := by decide
    have hremote : "remote" ∈ conflictLabels := by decide
    have hsides : conflictRenamePath path "local" ≠ conflictRenamePath path "remote" := by
      intro heq
      obtain ⟨-, hlabels⟩ := conflictRenamePath_inj heq (dot_notMem_label _ hlocal) (dot_notMem_label _ hremote)
        (slash_notMem_label _ hlocal) (slash_notMem_label _ hremote)
      exact absurd hlabels (by decide)
    refine ⟨by simp [hsides, conflictRenamePath_ne], ?_⟩
    simp [directory_conflictRenamePath (slash_notMem_label _ hlocal),
      directory_conflictRenamePath (slash_notMem_label _ hremote)]
  | _ => cases h

/-- The copies of different paths, and the two of one path, have different names beside the path's own. -/
theorem conflictRenamePath_injective :
    (Function.Injective fun copy : String × { label // label ∈ conflictLabels } =>
      conflictRenamePath copy.1 copy.2.val) ∧
    ∀ (path : String) (label : { label // label ∈ conflictLabels }),
      conflictRenamePath path label.val ≠ path ∧
        directory (conflictRenamePath path label.val) = directory path := by
  constructor
  · rintro ⟨path, label, hlabel⟩ ⟨path', label', hlabel'⟩ h
    obtain ⟨rfl, rfl⟩ := conflictRenamePath_inj h (dot_notMem_label label hlabel) (dot_notMem_label label' hlabel')
      (slash_notMem_label label hlabel) (slash_notMem_label label' hlabel')
    rfl
  · intro path label
    exact ⟨conflictRenamePath_ne, directory_conflictRenamePath (slash_notMem_label _ label.property)⟩

end Pcloud
