import Pcloud.Crypto.AuthTree

/-!
# The authentication tree binds its leaves

`verifyPath` takes its sectors out of a tree that may come from anyone. The master tag of a
built tree pins every sector on the way down to a leaf, as long as the strings that are hashed
on both sides do not collide.
-/

namespace Pcloud

open BlockChain

section inputs

variable (prims : Primitives) (hmacKey : Block 128)

/-- The strings hashed while levels are grown over a level, and the one the root tag is made of. -/
def growInputs : Nat → Bytes → List Bytes
  | 0, level => [level]
  | room + 1, level =>
    if levelSectorCount level.length > 1 then
      chunks authSectorSize level ++ growInputs room (buildParentLevel prims hmacKey level)
    else [level]

def buildInputs (sectorTags : List AuthTag) : List Bytes :=
  if sectorTags.length > 1 then growInputs prims hmacKey (maxTreeLevels - 1) (packTags sectorTags)
  else []

/-- The strings hashed by a climb, up to the level that it gives up on. -/
def climbInputs : Nat → List Bytes → Nat → AuthTag → List Bytes
  | 0, _, _, _ => []
  | _ + 1, [], _, _ => []
  | n + 1, childLevel :: levels, childIndex, current =>
    let chunkStart := childIndex / treeFanout * authSectorSize
    let chunkEnd := min (chunkStart + authSectorSize) childLevel.length
    if chunkStart ≥ childLevel.length then []
    else
      let chunk := (childLevel.drop chunkStart).take (chunkEnd - chunkStart)
      let slot := childIndex % treeFanout * authTagLen
      if slot + authTagLen > chunk.length then []
      else if (chunk.drop slot).take authTagLen ≠ current.1 then []
      else chunk :: climbInputs n levels (childIndex / treeFanout) (hmacSha512Trunc32 prims hmacKey chunk)

def verifyInputs (tree : AuthTree) (sectorIndex : Nat) (sectorTag : AuthTag) : List Bytes :=
  match tree.levels with
  | [] => []
  | leafBytes :: _ =>
    let offset := min (sectorIndex * authTagLen) (2 ^ 64 - 1)
    if offset + authTagLen > leafBytes.length then []
    else if (leafBytes.drop offset).take authTagLen ≠ sectorTag.1 then []
    else climbInputs prims hmacKey tree.treelevels tree.levels sectorIndex sectorTag

end inputs

section binding

variable {prims : Primitives} {hmacKey : Block 128}

/-- The sector of a level that a climb looks into. -/
def climbChunk (childLevel : Bytes) (i : Nat) : Bytes :=
  (childLevel.drop (i / 128 * 4096)).take
    (min (i / 128 * 4096 + 4096) childLevel.length - i / 128 * 4096)

/-- The three checks that a climb makes on a level. -/
def ClimbFinds (childLevel : Bytes) (i : Nat) (current : AuthTag) : Prop :=
  ¬ i / 128 * 4096 ≥ childLevel.length ∧
    ¬ i % 128 * 32 + 32 > (climbChunk childLevel i).length ∧
    ¬ ((climbChunk childLevel i).drop (i % 128 * 32)).take 32 ≠ current.1

theorem climb_finds {root current : AuthTag} {n i : Nat} {childLevel : Bytes} {levels : List Bytes}
    (h : ClimbFinds childLevel i current) :
    climb prims hmacKey root (n + 1) (childLevel :: levels) i current =
      climb prims hmacKey root n levels (i / 128)
        (hmacSha512Trunc32 prims hmacKey (climbChunk childLevel i)) :=
  (if_neg h.1).trans ((if_neg h.2.1).trans (if_neg h.2.2))

theorem climbInputs_finds {current : AuthTag} {n i : Nat} {childLevel : Bytes} {levels : List Bytes}
    (h : ClimbFinds childLevel i current) :
    climbInputs prims hmacKey (n + 1) (childLevel :: levels) i current =
      climbChunk childLevel i :: climbInputs prims hmacKey n levels (i / 128)
        (hmacSha512Trunc32 prims hmacKey (climbChunk childLevel i)) :=
  (if_neg h.1).trans ((if_neg h.2.1).trans (if_neg h.2.2))

theorem climbFinds_of_accepts {root current : AuthTag} {n i : Nat} {childLevel : Bytes}
    {levels : List Bytes}
    (h : climb prims hmacKey root (n + 1) (childLevel :: levels) i current = some true) :
    ClimbFinds childLevel i current := by
  by_cases hstart : i / 128 * 4096 ≥ childLevel.length
  · have hfalse := (if_pos hstart).symm.trans h
    cases hfalse
  have hnext := (if_neg hstart).symm.trans h
  by_cases hroom : i % 128 * 32 + 32 > (climbChunk childLevel i).length
  · have hfalse := (if_pos hroom).symm.trans hnext
    cases hfalse
  have hnext := (if_neg hroom).symm.trans hnext
  by_cases htag : ((climbChunk childLevel i).drop (i % 128 * 32)).take 32 ≠ current.1
  · have hfalse := (if_pos htag).symm.trans hnext
    cases hfalse
  exact ⟨hstart, hroom, htag⟩

theorem climb_succ_accepts {root current : AuthTag} {n i : Nat} {levels : List Bytes}
    (h : climb prims hmacKey root (n + 1) levels i current = some true) :
    ∃ chunk rest, (chunk.drop (i % 128 * 32)).take 32 = current.1 ∧
      climbInputs prims hmacKey (n + 1) levels i current =
        chunk :: climbInputs prims hmacKey n rest (i / 128) (hmacSha512Trunc32 prims hmacKey chunk) ∧
      climb prims hmacKey root n rest (i / 128) (hmacSha512Trunc32 prims hmacKey chunk) = some true := by
  cases levels with
  | nil => cases h
  | cons childLevel rest =>
    have hfinds := climbFinds_of_accepts h
    rw [climb_finds hfinds] at h
    exact ⟨climbChunk childLevel i, rest, not_not.mp hfinds.2.2, climbInputs_finds hfinds, h⟩

theorem sector_mem_growInputs (room : Nat) {tags : List AuthTag} {i : Nat} (h : i < tags.length)
    (hmany : 128 < tags.length) :
    packTags (sectorOf tags (i / 128)) ∈ growInputs prims hmacKey (room + 1) (packTags tags) := by
  have hcount := levelSectorCount_packTags tags
  have hlt : i / 128 < levelSectorCount (packTags tags).length := by
    rw [hcount, Nat.ceilDiv_eq_add_pred_div]
    omega
  have hone : levelSectorCount (packTags tags).length > 1 := by
    rw [hcount, Nat.ceilDiv_eq_add_pred_div]
    omega
  rw [growInputs, if_pos hone]
  apply List.mem_append_left
  exact List.mem_map.mpr ⟨i / 128, List.mem_range.mpr hlt, packTags_sector tags _⟩

theorem growInputs_one (room : Nat) {tags : List AuthTag} (h : tags.length ≤ 128) :
    growInputs prims hmacKey room (packTags tags) = [packTags tags] := by
  cases room with
  | zero => rfl
  | succ room =>
    have hone : ¬ levelSectorCount (packTags tags).length > 1 := by
      rw [levelSectorCount_packTags, Nat.ceilDiv_eq_add_pred_div]
      omega
    rw [growInputs, if_neg hone]

theorem growInputs_parent (room : Nat) {tags : List AuthTag} (hmany : 128 < tags.length) {data : Bytes}
    (h : data ∈ growInputs prims hmacKey room (packTags (parentTags prims hmacKey tags))) :
    data ∈ growInputs prims hmacKey (room + 1) (packTags tags) := by
  have hone : levelSectorCount (packTags tags).length > 1 := by
    rw [levelSectorCount_packTags, Nat.ceilDiv_eq_add_pred_div]
    omega
  rw [growInputs, if_pos hone, buildParentLevel_packTags]
  exact List.mem_append_right _ h

theorem slot_of_sector {tags : List AuthTag} {i : Nat} (h : i < tags.length) {current : AuthTag}
    (hslot : ((packTags (sectorOf tags (i / 128))).drop (i % 128 * 32)).take 32 = current.1) :
    current = tags[i] := by
  rw [packTags_slot (length_sectorOf_slot h)] at hslot
  rw [← sectorOf_slot h]
  exact Subtype.ext hslot.symm

variable {hashed : Set Bytes} (hinj : Set.InjOn (hmacSha512Trunc32 prims hmacKey) hashed)
include hinj

theorem climb_top_binds {root current : AuthTag} {i : Nat} {levels : List Bytes} {tags : List AuthTag}
    (h : i < tags.length) (hone : tags.length ≤ 128)
    (hroot : root = hmacSha512Trunc32 prims hmacKey (packTags tags)) (htop : packTags tags ∈ hashed)
    (hpath : ∀ data ∈ climbInputs prims hmacKey 1 levels i current, data ∈ hashed)
    (haccept : climb prims hmacKey root 1 levels i current = some true) : current = tags[i] := by
  obtain ⟨chunk, rest, hslot, hinputs, hlast⟩ := climb_succ_accepts haccept
  have hchunk : chunk ∈ hashed := hpath chunk (by simp [hinputs])
  have hsame : hmacSha512Trunc32 prims hmacKey chunk = hmacSha512Trunc32 prims hmacKey (packTags tags) := by
    rw [hroot] at hlast
    exact eq_of_beq (Option.some.inj hlast)
  rw [hinj hchunk htop hsame] at hslot
  have hall : sectorOf tags (i / 128) = tags := by
    have hzero : i / 128 = 0 := by omega
    simpa [sectorOf, hzero] using hone
  apply slot_of_sector h
  rw [hall]
  exact hslot

/-- By induction on the levels that are left: the tag that the climb goes on with is the one of
the level above, so the sector that it came from is the one that was built. -/
theorem climb_binds {room : Nat} {root current : AuthTag} {i : Nat} {levels : List Bytes}
    {tags : List AuthTag} (h : i < tags.length) (hcap : tags.length ≤ 128 ^ (room + 1))
    (hroot : root = hmacSha512Trunc32 prims hmacKey
      ((growLevels prims hmacKey room (packTags tags)).getLastD []))
    (hbuilt : ∀ data ∈ growInputs prims hmacKey room (packTags tags), data ∈ hashed)
    (hpath : ∀ data ∈ climbInputs prims hmacKey (growLevels prims hmacKey room (packTags tags)).length
      levels i current, data ∈ hashed)
    (haccept : climb prims hmacKey root (growLevels prims hmacKey room (packTags tags)).length levels i
      current = some true) : current = tags[i] := by
  induction room generalizing tags i levels current with
  | zero => exact climb_top_binds hinj h (by simpa using hcap) hroot (hbuilt _ (by simp [growInputs])) hpath haccept
  | succ room ih =>
    by_cases hone : tags.length ≤ 128
    · rw [growLevels_one prims hmacKey _ hone] at hroot hpath haccept
      rw [growInputs_one _ hone] at hbuilt
      exact climb_top_binds hinj h hone hroot (hbuilt _ (by simp)) hpath haccept
    · have hmany : 128 < tags.length := Nat.lt_of_not_le hone
      rw [growLevels_many prims hmacKey room hmany] at hroot hpath haccept
      rw [growLevels_getLastD_cons] at hroot
      obtain ⟨chunk, rest, hslot, hinputs, hup⟩ := climb_succ_accepts haccept
      rw [List.length_cons, hinputs] at hpath
      have hparent : i / 128 < (parentTags prims hmacKey tags).length := by
        rw [length_parentTags, Nat.ceilDiv_eq_add_pred_div]
        omega
      have htag := ih hparent (parentTags_cap prims hmacKey hcap) hroot
        (fun data hdata => hbuilt data (growInputs_parent room hmany hdata))
        (fun data hdata => hpath data (List.mem_cons_of_mem _ hdata)) hup
      have hsame : hmacSha512Trunc32 prims hmacKey chunk =
          hmacSha512Trunc32 prims hmacKey (packTags (sectorOf tags (i / 128))) := by
        rw [htag]
        simp [parentTags]
      have hchunk : chunk = packTags (sectorOf tags (i / 128)) :=
        hinj (hpath chunk List.mem_cons_self) (hbuilt _ (sector_mem_growInputs room h hmany)) hsame
      rw [hchunk] at hslot
      exact slot_of_sector h hslot

end binding

theorem verifyPath_accepts {prims : Primitives} {hmacKey : Block 128} {tree : AuthTree} {i : Nat}
    {tag : AuthTag} (h : verifyPath prims hmacKey tree i tag = some true) :
    (tree.treelevels = 0 ∧ computeMasterAuth tree = tag) ∨
      (climb prims hmacKey (computeMasterAuth tree) tree.treelevels tree.levels i tag = some true ∧
        verifyInputs prims hmacKey tree i tag =
          climbInputs prims hmacKey tree.treelevels tree.levels i tag) := by
  obtain ⟨levels, treelevels, masterauthoff, needmasterauth⟩ := tree
  cases levels with
  | nil => cases h
  | cons leafBytes rest =>
    set offset := min (i * 32) (2 ^ 64 - 1)
    by_cases hroom : offset + 32 > leafBytes.length
    · have hfalse := (if_pos hroom).symm.trans h
      cases hfalse
    have hnext := (if_neg hroom).symm.trans h
    by_cases htag : (leafBytes.drop offset).take 32 ≠ tag.1
    · have hfalse := (if_pos htag).symm.trans hnext
      cases hfalse
    have hnext := (if_neg htag).symm.trans hnext
    by_cases hzero : treelevels = 0
    · have hleaf := (if_pos hzero).symm.trans hnext
      exact .inl ⟨hzero, eq_of_beq (Option.some.inj hleaf)⟩
    · exact .inr ⟨(if_neg hzero).symm.trans hnext, (if_neg hroom).trans (if_neg htag)⟩

/-- A tree with the master tag and the height of a built tree accepts no tag at an index of the
leaves but the leaf itself, unless two of the strings hashed on either side collide. -/
theorem authTree_binding (prims : Primitives) (hmacKey : Block 128) {tags : List AuthTag}
    (hcap : tags.length ≤ 128 ^ 6) (tree : AuthTree)
    (hmaster : computeMasterAuth tree = computeMasterAuth (buildAuthTree prims hmacKey tags))
    (hheight : tree.treelevels = (buildAuthTree prims hmacKey tags).treelevels) (i : Nat)
    (h : i < tags.length) (tag : AuthTag)
    (hinj : Set.InjOn (hmacSha512Trunc32 prims hmacKey)
      {data | data ∈ buildInputs prims hmacKey tags ∨ data ∈ verifyInputs prims hmacKey tree i tag})
    (haccept : verifyPath prims hmacKey tree i tag = some true) : tag = tags[i] := by
  by_cases hmany : 1 < tags.length
  · obtain ⟨hlevels, htree⟩ := buildAuthTree_many prims hmacKey hmany
    have hlast := congrArg List.getLast? hlevels
    rw [List.getLast?_concat] at hlast
    have hroot := computeMasterAuth_of_last hlast
    have hpos : 0 < tree.treelevels := by
      have hhead := growLevels_head prims hmacKey 5 (packTags tags)
      rw [hheight, htree]
      exact List.length_pos_of_mem (List.mem_of_mem_head? hhead)
    rcases verifyPath_accepts haccept with ⟨hzero, -⟩ | ⟨hclimb, hinputs⟩
    · omega
    · have hbuilt : buildInputs prims hmacKey tags = growInputs prims hmacKey 5 (packTags tags) := by
        rw [buildInputs, if_pos hmany]
        rfl
      rw [hinputs, hbuilt] at hinj
      rw [hheight, htree, hmaster] at hclimb
      rw [hheight, htree] at hinj
      exact climb_binds hinj h hcap hroot (fun _ => .inl) (fun _ => .inr) hclimb
  · obtain ⟨leaf, rfl⟩ := List.length_eq_one_iff.mp (show tags.length = 1 by omega)
    obtain ⟨hlevels, htree⟩ := buildAuthTree_one prims hmacKey leaf
    have hleaf : computeMasterAuth (buildAuthTree prims hmacKey [leaf]) = leaf :=
      computeMasterAuth_of_last (by rw [hlevels]; rfl)
    rw [htree] at hheight
    have hi : i = 0 := by simpa using h
    subst hi
    rcases verifyPath_accepts haccept with ⟨-, htag⟩ | ⟨hclimb, -⟩
    · rw [List.getElem_cons_zero, ← htag, hmaster, hleaf]
    · rw [hheight] at hclimb
      have htag : tag = computeMasterAuth tree := eq_of_beq (Option.some.inj hclimb)
      rw [List.getElem_cons_zero, htag, hmaster, hleaf]

theorem authTree_binding_two :
    verifyPath echoPrims (Block.ofBytes 128 [])
        (buildAuthTree echoPrims (Block.ofBytes 128 []) [Block.ofBytes 32 [1], Block.ofBytes 32 [2]]) 1
        (Block.ofBytes 32 [2]) = some true ∧
      Block.ofBytes 32 [2] = [Block.ofBytes 32 [1], Block.ofBytes 32 [2]][1] := by
  have haccept : verifyPath echoPrims (Block.ofBytes 128 [])
      (buildAuthTree echoPrims (Block.ofBytes 128 []) [Block.ofBytes 32 [1], Block.ofBytes 32 [2]]) 1
      (Block.ofBytes 32 [2]) = some true := by decide +kernel
  refine ⟨haccept, authTree_binding echoPrims _ (by decide) _ rfl rfl 1 (by decide) _ ?_ haccept⟩
  -- The only string hashed, on either side, is the sector of the two leaves.
  have hone : ∀ data ∈ buildInputs echoPrims (Block.ofBytes 128 [])
        [Block.ofBytes 32 [1], Block.ofBytes 32 [2]] ++
      verifyInputs echoPrims (Block.ofBytes 128 []) (buildAuthTree echoPrims (Block.ofBytes 128 [])
        [Block.ofBytes 32 [1], Block.ofBytes 32 [2]]) 1 (Block.ofBytes 32 [2]),
      data = packTags [Block.ofBytes 32 [1], Block.ofBytes 32 [2]] := by decide +kernel
  intro a ha b hb _
  rw [hone a (List.mem_append.mpr ha), hone b (List.mem_append.mpr hb)]

end Pcloud
