import Mathlib.Algebra.Order.Floor.Div
import Mathlib.Data.List.Chain
import Mathlib.GroupTheory.GroupAction.Ring
import Pcloud.Crypto.Primitives

/-!
# The authentication tree

`pclsync_auth_tree.rs`: the tags of a file's sectors are packed into auth sectors of 128, each
sector is signed by a tag of the level above, and so on up to one master tag. `verifyPath`
climbs from a leaf to that tag.
-/

namespace Pcloud

open BlockChain

def treeFanout : Nat := 128
def authTagLen : Nat := 32
def authSectorSize : Nat := treeFanout * authTagLen
def maxTreeLevels : Nat := 6

@[simp] theorem treeFanout_val : treeFanout = 128 := rfl
@[simp] theorem authTagLen_val : authTagLen = 32 := rfl
@[simp] theorem authSectorSize_val : authSectorSize = 4096 := rfl

abbrev AuthTag := Block 32

structure AuthTree where
  levels : List Bytes
  treelevels : Nat
  masterauthoff : Nat
  needmasterauth : Bool
deriving DecidableEq

/-- `slice::chunks`: runs of `size` elements, the last one possibly short. -/
def chunks (size : Nat) (bytes : Bytes) : List Bytes :=
  (List.range (bytes.length ⌈/⌉ size)).map fun i => (bytes.drop (i * size)).take size

def levelSectorCount (bytes : Nat) : Nat := bytes ⌈/⌉ authSectorSize

def packTags (tags : List AuthTag) : Bytes := tags.flatMap (·.1)

section tree

variable (prims : Primitives) (hmacKey : Block 128)

def hmacSha512Trunc32 (data : Bytes) : AuthTag :=
  Block.ofBytes 32 (prims.hmacSha512 hmacKey.1 [data]).1

def buildParentLevel (childLevel : Bytes) : Bytes :=
  packTags ((chunks authSectorSize childLevel).map (hmacSha512Trunc32 prims hmacKey))

/-- The level and the ones grown over it. `room` is how many more the cap allows. -/
def growLevels : Nat → Bytes → List Bytes
  | 0, level => [level]
  | room + 1, level =>
    if levelSectorCount level.length > 1 then
      level :: growLevels room (buildParentLevel prims hmacKey level)
    else [level]

def buildAuthTree (sectorTags : List AuthTag) : AuthTree :=
  if sectorTags.isEmpty then
    { levels := [], treelevels := 0, masterauthoff := 0, needmasterauth := false }
  else
    let grown := growLevels prims hmacKey (maxTreeLevels - 1) (packTags sectorTags)
    let needmasterauth := decide (sectorTags.length > 1)
    let rootTag := hmacSha512Trunc32 prims hmacKey (grown.getLastD [])
    let levels := if needmasterauth then grown ++ [rootTag.1] else grown
    let dataBytes := sectorTags.length * authSectorSize
    let authBytes := (levels.take (levels.length - 1)).map List.length |>.sum
    { levels
      treelevels := if needmasterauth then levels.length - 1 else 0
      masterauthoff := dataBytes + authBytes
      needmasterauth }

def computeMasterAuth (tree : AuthTree) : AuthTag :=
  match tree.levels.getLast? with
  | some top => if top.length ≥ authTagLen then Block.ofBytes 32 top else Block.ofBytes 32 []
  | none => Block.ofBytes 32 []

/-- The climb over the levels that are left. `none` is the panic of a level that is not there. -/
def climb (root : AuthTag) : Nat → List Bytes → Nat → AuthTag → Option Bool
  | 0, _, _, current => some (current == root)
  | _ + 1, [], _, _ => none
  | n + 1, childLevel :: levels, childIndex, current =>
    let chunkStart := childIndex / treeFanout * authSectorSize
    let chunkEnd := min (chunkStart + authSectorSize) childLevel.length
    if chunkStart ≥ childLevel.length then some false
    else
      let chunk := (childLevel.drop chunkStart).take (chunkEnd - chunkStart)
      let slot := childIndex % treeFanout * authTagLen
      if slot + authTagLen > chunk.length then some false
      else if (chunk.drop slot).take authTagLen ≠ current.1 then some false
      else climb root n levels (childIndex / treeFanout) (hmacSha512Trunc32 prims hmacKey chunk)

def verifyPath (tree : AuthTree) (sectorIndex : Nat) (sectorTag : AuthTag) : Option Bool :=
  match tree.levels with
  | [] => some false
  | leafBytes :: _ =>
    let offset := min (sectorIndex * authTagLen) (2 ^ 64 - 1)
    if offset + authTagLen > leafBytes.length then some false
    else if (leafBytes.drop offset).take authTagLen ≠ sectorTag.1 then some false
    else if tree.treelevels = 0 then some (computeMasterAuth tree == sectorTag)
    else climb prims hmacKey (computeMasterAuth tree) tree.treelevels tree.levels sectorIndex sectorTag

end tree

/-! ## Packed levels -/

theorem packTags_cons (tag : AuthTag) (tags : List AuthTag) :
    packTags (tag :: tags) = tag.1 ++ packTags tags := rfl

@[simp]
theorem length_packTags (tags : List AuthTag) : (packTags tags).length = tags.length * 32 := by
  induction tags with
  | nil => rfl
  | cons tag tags ih =>
    simp only [packTags_cons, List.length_append, ih, tag.length_val, List.length_cons]
    omega

theorem drop_packTags (tags : List AuthTag) (i : Nat) :
    (packTags tags).drop (i * 32) = packTags (tags.drop i) := by
  induction tags generalizing i with
  | nil => simp [packTags]
  | cons tag tags ih =>
    cases i with
    | zero => simp
    | succ i =>
      rw [packTags_cons, Nat.succ_mul, Nat.add_comm, ← List.drop_drop, List.drop_left' tag.2, ih,
        List.drop_succ_cons]

theorem take_packTags (tags : List AuthTag) (i : Nat) :
    (packTags tags).take (i * 32) = packTags (tags.take i) := by
  induction tags generalizing i with
  | nil => simp [packTags]
  | cons tag tags ih =>
    cases i with
    | zero => simp [packTags]
    | succ i =>
      rw [packTags_cons, Nat.succ_mul, Nat.add_comm, List.take_add, List.take_left' tag.2,
        List.drop_left' tag.2, ih, List.take_succ_cons, packTags_cons]

theorem packTags_slot {tags : List AuthTag} {i : Nat} (h : i < tags.length) :
    ((packTags tags).drop (i * 32)).take 32 = tags[i].1 := by
  rw [drop_packTags, List.drop_eq_getElem_cons h]
  exact List.take_left' tags[i].2

/-- The auth sector that holds the tags from `j * 128` on. -/
def sectorOf (tags : List AuthTag) (j : Nat) : List AuthTag :=
  (tags.drop (j * 128)).take 128

theorem packTags_sector (tags : List AuthTag) (j : Nat) :
    ((packTags tags).drop (j * 4096)).take 4096 = packTags (sectorOf tags j) := by
  have hj : j * 4096 = j * 128 * 32 := by omega
  rw [hj, drop_packTags]
  exact take_packTags _ 128

theorem length_sectorOf (tags : List AuthTag) (j : Nat) :
    (sectorOf tags j).length = min 128 (tags.length - j * 128) := by
  rw [sectorOf, List.length_take, List.length_drop]

theorem length_sectorOf_slot {tags : List AuthTag} {i : Nat} (h : i < tags.length) :
    i % 128 < (sectorOf tags (i / 128)).length := by
  rw [length_sectorOf]
  omega

theorem sectorOf_slot {tags : List AuthTag} {i : Nat} (h : i < tags.length) :
    (sectorOf tags (i / 128)).get ⟨i % 128, length_sectorOf_slot h⟩ = tags[i] := by
  simp only [sectorOf, List.get_eq_getElem, List.getElem_take, List.getElem_drop]
  congr 1
  omega

section build

variable (prims : Primitives) (hmacKey : Block 128)

/-- The tags of the level above. -/
def parentTags (tags : List AuthTag) : List AuthTag :=
  (List.range (tags.length ⌈/⌉ 128)).map fun j =>
    hmacSha512Trunc32 prims hmacKey (packTags (sectorOf tags j))

@[simp]
theorem length_parentTags (tags : List AuthTag) :
    (parentTags prims hmacKey tags).length = tags.length ⌈/⌉ 128 := by
  simp [parentTags]

theorem levelSectorCount_packTags (tags : List AuthTag) :
    levelSectorCount (packTags tags).length = tags.length ⌈/⌉ 128 := by
  simp only [levelSectorCount, length_packTags, Nat.ceilDiv_eq_add_pred_div, authSectorSize_val]
  omega

theorem buildParentLevel_packTags (tags : List AuthTag) :
    buildParentLevel prims hmacKey (packTags tags) = packTags (parentTags prims hmacKey tags) := by
  have hcount := levelSectorCount_packTags tags
  unfold levelSectorCount at hcount
  unfold buildParentLevel chunks parentTags
  rw [hcount, List.map_map]
  congr 1
  apply List.map_congr_left
  intro j _
  exact congrArg (hmacSha512Trunc32 prims hmacKey) (packTags_sector tags j)

/-! ## The climb -/

theorem climb_level (root : AuthTag) (n : Nat) (levels : List Bytes) {tags : List AuthTag} {i : Nat}
    (h : i < tags.length) :
    climb prims hmacKey root (n + 1) (packTags tags :: levels) i tags[i] =
      climb prims hmacKey root n levels (i / 128)
        (hmacSha512Trunc32 prims hmacKey (packTags (sectorOf tags (i / 128)))) := by
  have hstart : i / 128 * 4096 < (packTags tags).length := by
    rw [length_packTags]
    omega
  have hchunk : ((packTags tags).drop (i / 128 * 4096)).take
      (min (i / 128 * 4096 + 4096) (packTags tags).length - i / 128 * 4096) =
        packTags (sectorOf tags (i / 128)) := by
    rw [← packTags_sector, List.take_eq_take_iff, List.length_drop]
    omega
  have hmod := length_sectorOf_slot h
  have hroom : ¬ i % 128 * 32 + 32 > (packTags (sectorOf tags (i / 128))).length := by
    rw [length_packTags]
    omega
  have hslot : (sectorOf tags (i / 128))[i % 128] = tags[i] := sectorOf_slot h
  simp only [climb, treeFanout_val, authSectorSize_val, authTagLen_val, ge_iff_le,
    Nat.not_le_of_gt hstart, if_false, hchunk, hroom, packTags_slot hmod, hslot, ne_eq,
    not_true_eq_false]

theorem growLevels_one (room : Nat) {tags : List AuthTag} (h : tags.length ≤ 128) :
    growLevels prims hmacKey room (packTags tags) = [packTags tags] := by
  cases room with
  | zero => rfl
  | succ room =>
    have hone : ¬ levelSectorCount (packTags tags).length > 1 := by
      rw [levelSectorCount_packTags, Nat.ceilDiv_eq_add_pred_div]
      omega
    rw [growLevels, if_neg hone]

theorem growLevels_many (room : Nat) {tags : List AuthTag} (h : 128 < tags.length) :
    growLevels prims hmacKey (room + 1) (packTags tags) =
      packTags tags :: growLevels prims hmacKey room (packTags (parentTags prims hmacKey tags)) := by
  have hmany : levelSectorCount (packTags tags).length > 1 := by
    rw [levelSectorCount_packTags, Nat.ceilDiv_eq_add_pred_div]
    omega
  rw [growLevels, if_pos hmany, buildParentLevel_packTags]

theorem growLevels_getLastD_cons (room : Nat) (below level : Bytes) :
    (below :: growLevels prims hmacKey room level).getLastD [] =
      (growLevels prims hmacKey room level).getLastD [] := by
  unfold growLevels
  split
  · rfl
  · split <;> rfl

theorem climb_top {root : AuthTag} (levels : List Bytes) {tags : List AuthTag} {i : Nat}
    (h : i < tags.length) (hone : tags.length ≤ 128)
    (hroot : root = hmacSha512Trunc32 prims hmacKey (packTags tags)) :
    climb prims hmacKey root 1 (packTags tags :: levels) i tags[i] = some true := by
  have hzero : i / 128 = 0 := by omega
  have hall : sectorOf tags 0 = tags := by simpa [sectorOf] using hone
  rw [climb_level prims hmacKey root 0 levels h, hzero, hall, hroot]
  simp [climb]

theorem parentTags_cap {room : Nat} {tags : List AuthTag} (hcap : tags.length ≤ 128 ^ (room + 2)) :
    (parentTags prims hmacKey tags).length ≤ 128 ^ (room + 1) := by
  rw [length_parentTags, ceilDiv_le_iff_le_mul (by decide), ← Nat.pow_succ']
  exact hcap

/-- The levels grown over packed tags lead every tag to the top. `room` more levels are enough
for `128 ^ (room + 1)` tags. -/
theorem climb_grown {room : Nat} (rest : List Bytes) {tags : List AuthTag} {i : Nat}
    (h : i < tags.length) (hcap : tags.length ≤ 128 ^ (room + 1)) {root : AuthTag}
    (hroot : root = hmacSha512Trunc32 prims hmacKey
      ((growLevels prims hmacKey room (packTags tags)).getLastD [])) :
    climb prims hmacKey root (growLevels prims hmacKey room (packTags tags)).length
      (growLevels prims hmacKey room (packTags tags) ++ rest) i tags[i] = some true := by
  induction room generalizing tags i with
  | zero => exact climb_top prims hmacKey rest h (by simpa using hcap) hroot
  | succ room ih =>
    by_cases hone : tags.length ≤ 128
    · rw [growLevels_one prims hmacKey _ hone] at hroot ⊢
      exact climb_top prims hmacKey rest h hone hroot
    · rw [growLevels_many prims hmacKey room (Nat.lt_of_not_le hone)] at hroot ⊢
      rw [growLevels_getLastD_cons] at hroot
      have hparent : i / 128 < (parentTags prims hmacKey tags).length := by
        rw [length_parentTags, Nat.ceilDiv_eq_add_pred_div]
        omega
      have hup : (parentTags prims hmacKey tags)[i / 128] =
          hmacSha512Trunc32 prims hmacKey (packTags (sectorOf tags (i / 128))) := by
        simp [parentTags]
      rw [List.length_cons, List.cons_append, climb_level prims hmacKey root _ _ h, ← hup]
      exact ih hparent (parentTags_cap prims hmacKey hcap) hroot

/-! ## The levels -/

/-- One level stands over another: whole tags on both, one tag above for each 128 below. -/
def Covers (child parent : Bytes) : Prop :=
  ∃ n, child.length = n * 32 ∧ parent.length = n ⌈/⌉ 128 * 32

theorem growLevels_head (room : Nat) (level : Bytes) :
    (growLevels prims hmacKey room level).head? = some level := by
  unfold growLevels
  split
  · rfl
  · split <;> rfl

theorem growLevels_covers (room : Nat) (tags : List AuthTag) :
    List.IsChain Covers (growLevels prims hmacKey room (packTags tags)) := by
  induction room generalizing tags with
  | zero => exact .singleton _
  | succ room ih =>
    by_cases hone : tags.length ≤ 128
    · rw [growLevels_one prims hmacKey _ hone]
      exact .singleton _
    · rw [growLevels_many prims hmacKey room (Nat.lt_of_not_le hone)]
      refine (ih _).cons ?_
      intro parent hparent
      rw [growLevels_head, Option.mem_some_iff] at hparent
      subst hparent
      exact ⟨tags.length, length_packTags tags, by rw [length_packTags, length_parentTags]⟩

theorem growLevels_top (room : Nat) {tags : List AuthTag} (hpos : 0 < tags.length)
    (hcap : tags.length ≤ 128 ^ (room + 1)) :
    ∃ top : List AuthTag, (growLevels prims hmacKey room (packTags tags)).getLast? = some (packTags top) ∧
      0 < top.length ∧ top.length ≤ 128 := by
  induction room generalizing tags with
  | zero => exact ⟨tags, rfl, hpos, by simpa using hcap⟩
  | succ room ih =>
    by_cases hone : tags.length ≤ 128
    · rw [growLevels_one prims hmacKey _ hone]
      exact ⟨tags, rfl, hpos, hone⟩
    · rw [growLevels_many prims hmacKey room (Nat.lt_of_not_le hone)]
      have hpos' : 0 < (parentTags prims hmacKey tags).length := by
        rw [length_parentTags, Nat.ceilDiv_eq_add_pred_div]
        omega
      obtain ⟨top, htop, hrest⟩ := ih hpos' (parentTags_cap prims hmacKey hcap)
      refine ⟨top, ?_, hrest⟩
      rw [List.getLast?_cons, htop]
      rfl

/-! ## Built trees -/

theorem packTags_one (tag : AuthTag) : packTags [tag] = tag.1 := List.append_nil tag.1

theorem buildAuthTree_one (tag : AuthTag) :
    (buildAuthTree prims hmacKey [tag]).levels = [tag.1] ∧
      (buildAuthTree prims hmacKey [tag]).treelevels = 0 := by
  have hgrow : growLevels prims hmacKey 5 (packTags [tag]) = [packTags [tag]] :=
    growLevels_one prims hmacKey 5 (by simp)
  rw [packTags_one] at hgrow
  simp [buildAuthTree, maxTreeLevels, packTags_one, hgrow]

theorem buildAuthTree_many {tags : List AuthTag} (h : 1 < tags.length) :
    (buildAuthTree prims hmacKey tags).levels = growLevels prims hmacKey 5 (packTags tags) ++
        [(hmacSha512Trunc32 prims hmacKey
          ((growLevels prims hmacKey 5 (packTags tags)).getLastD [])).1] ∧
      (buildAuthTree prims hmacKey tags).treelevels =
        (growLevels prims hmacKey 5 (packTags tags)).length := by
  have hne : tags ≠ [] := List.ne_nil_of_length_pos (by omega)
  simp [buildAuthTree, hne, h, maxTreeLevels]

theorem computeMasterAuth_of_last {tree : AuthTree} {tag : AuthTag}
    (h : tree.levels.getLast? = some tag.1) : computeMasterAuth tree = tag := by
  simp [computeMasterAuth, h]

theorem verifyPath_packed {tree : AuthTree} {tags : List AuthTag} {rest : List Bytes} {i : Nat}
    (hlevels : tree.levels = packTags tags :: rest) (h : i < tags.length)
    (hcap : tags.length ≤ 128 ^ 6) :
    verifyPath prims hmacKey tree i tags[i] =
      if tree.treelevels = 0 then some (computeMasterAuth tree == tags[i])
      else climb prims hmacKey (computeMasterAuth tree) tree.treelevels tree.levels i tags[i] := by
  have hoffset : min (i * 32) (2 ^ 64 - 1) = i * 32 := by omega
  have hroom : ¬ i * 32 + 32 > (packTags tags).length := by
    rw [length_packTags]
    omega
  simp only [verifyPath, hlevels, authTagLen_val, hoffset, hroom, packTags_slot h, if_false, ne_eq,
    not_true_eq_false]

theorem verifyPath_leaf {tags : List AuthTag} {i : Nat} (h : i < tags.length)
    (hcap : tags.length ≤ 128 ^ 6) :
    verifyPath prims hmacKey (buildAuthTree prims hmacKey tags) i tags[i] = some true := by
  by_cases hmany : 1 < tags.length
  · obtain ⟨hlevels, htree⟩ := buildAuthTree_many prims hmacKey hmany
    have hlast := congrArg List.getLast? hlevels
    rw [List.getLast?_concat] at hlast
    have hmaster := computeMasterAuth_of_last hlast
    obtain ⟨upper, hgrown⟩ : ∃ upper, growLevels prims hmacKey 5 (packTags tags) =
        packTags tags :: upper := by
      have := growLevels_head prims hmacKey 5 (packTags tags)
      exact List.head?_eq_some_iff.mp this
    have hpacked := hlevels
    rw [hgrown, List.cons_append] at hpacked
    have htree0 : (buildAuthTree prims hmacKey tags).treelevels ≠ 0 := by
      simp [htree, hgrown]
    rw [verifyPath_packed prims hmacKey hpacked h hcap, if_neg htree0, hmaster, htree, hlevels]
    exact climb_grown prims hmacKey _ h hcap rfl
  · obtain ⟨tag, rfl⟩ := List.length_eq_one_iff.mp (show tags.length = 1 by omega)
    obtain ⟨hlevels, htree⟩ := buildAuthTree_one prims hmacKey tag
    have hmaster : computeMasterAuth (buildAuthTree prims hmacKey [tag]) = tag :=
      computeMasterAuth_of_last (by rw [hlevels]; rfl)
    have hi : i = 0 := by simpa using h
    subst hi
    have hpacked : (buildAuthTree prims hmacKey [tag]).levels = packTags [tag] :: [] := by
      rw [hlevels, packTags_one]
    rw [verifyPath_packed prims hmacKey hpacked h hcap, if_pos htree, hmaster]
    simp

theorem buildAuthTree_levels {tags : List AuthTag} (hpos : 0 < tags.length)
    (hcap : tags.length ≤ 128 ^ 6) :
    (buildAuthTree prims hmacKey tags).levels.head? = some (packTags tags) ∧
      List.IsChain Covers (buildAuthTree prims hmacKey tags).levels := by
  by_cases hmany : 1 < tags.length
  · obtain ⟨hlevels, -⟩ := buildAuthTree_many prims hmacKey hmany
    obtain ⟨top, htop, htop0, htop1⟩ := growLevels_top prims hmacKey 5 hpos hcap
    rw [hlevels]
    constructor
    · rw [List.head?_append, growLevels_head]
      rfl
    · refine (growLevels_covers prims hmacKey 5 tags).append (.singleton _) ?_
      intro child hchild parent hparent
      rw [htop, Option.mem_some_iff] at hchild
      rw [List.head?_cons, Option.mem_some_iff] at hparent
      subst hchild hparent
      refine ⟨top.length, length_packTags top, ?_⟩
      rw [Block.length_val, Nat.ceilDiv_eq_add_pred_div]
      omega
  · obtain ⟨tag, rfl⟩ := List.length_eq_one_iff.mp (show tags.length = 1 by omega)
    obtain ⟨hlevels, -⟩ := buildAuthTree_one prims hmacKey tag
    rw [hlevels, packTags_one]
    exact ⟨rfl, .singleton _⟩

/-- Every leaf of a built tree is accepted, every level has one tag for 128 of the level below,
and the last one is the master tag alone. -/
theorem authTree_complete {tags : List AuthTag} (hpos : 1 ≤ tags.length)
    (hcap : tags.length ≤ 128 ^ 6) :
    (∀ i, (h : i < tags.length) →
      verifyPath prims hmacKey (buildAuthTree prims hmacKey tags) i tags[i] = some true) ∧
    (buildAuthTree prims hmacKey tags).levels.head? = some (packTags tags) ∧
    List.IsChain Covers (buildAuthTree prims hmacKey tags).levels ∧
    (1 < tags.length → (buildAuthTree prims hmacKey tags).levels.getLast? =
      some (computeMasterAuth (buildAuthTree prims hmacKey tags)).1) := by
  obtain ⟨hhead, hchain⟩ := buildAuthTree_levels prims hmacKey hpos hcap
  refine ⟨fun i h => verifyPath_leaf prims hmacKey h hcap, hhead, hchain, fun hmany => ?_⟩
  obtain ⟨hlevels, -⟩ := buildAuthTree_many prims hmacKey hmany
  have hlast := congrArg List.getLast? hlevels
  rw [List.getLast?_concat] at hlast
  rw [computeMasterAuth_of_last hlast, hlast]

end build

theorem authTree_complete_two :
    verifyPath ⟨fun _ => Equiv.refl _, fun _ data => Block.ofBytes 64 data⟩ (Block.ofBytes 128 [])
      (buildAuthTree ⟨fun _ => Equiv.refl _, fun _ data => Block.ofBytes 64 data⟩ (Block.ofBytes 128 [])
        [Block.ofBytes 32 [1], Block.ofBytes 32 [2]]) 1 (Block.ofBytes 32 [2]) = some true :=
  (authTree_complete _ _ (by decide) (by decide)).1 1 (by decide)

end Pcloud
