import Pcloud.Crypto.AuthTree
import Pcloud.Lib.Checked

/-!
# Indices at the end of their range

`verifyPath` once more, with every sum, product and slice of the source as the machine does it. The offset of the leaf
is a product that saturates and a sum that does not.
-/

namespace Pcloud

open BlockChain Checked

/-- A tree in memory: its levels are `Vec<u8>`. -/
structure OwnedTree extends AuthTree where
  fits : ∀ level ∈ levels, level.length ≤ isizeMax

section checked

variable (prims : Primitives) (hmacKey : Block 128)

def climbChecked (root : AuthTag) : Nat → List Bytes → Nat → AuthTag → Except Stop Bool
  | 0, _, _, current => .ok (current == root)
  | _ + 1, [], _, _ => .error .outOfBounds
  | n + 1, childLevel :: levels, childIndex, current => do
    let chunkStart ← mul 64 (childIndex / treeFanout) authSectorSize
    let chunkStop ← add 64 chunkStart authSectorSize
    let chunkEnd := min chunkStop childLevel.length
    if chunkStart ≥ childLevel.length then .ok false
    else do
      let chunk ← slice childLevel chunkStart chunkEnd
      let slot ← mul 64 (childIndex % treeFanout) authTagLen
      let slotEnd ← add 64 slot authTagLen
      if slotEnd > chunk.length then .ok false
      else do
        let stored ← slice chunk slot slotEnd
        if stored ≠ current.1 then .ok false
        else climbChecked root n levels (childIndex / treeFanout) (hmacSha512Trunc32 prims hmacKey chunk)

def verifyPathChecked (tree : AuthTree) (sectorIndex : UInt64) (sectorTag : AuthTag) : Except Stop Bool :=
  match tree.levels with
  | [] => .ok false
  | leafBytes :: _ => do
    let offset := min (sectorIndex.toNat * authTagLen) (2 ^ 64 - 1)
    let stop ← add 64 offset authTagLen
    if stop > leafBytes.length then .ok false
    else do
      let storedLeaf ← slice leafBytes offset stop
      if storedLeaf ≠ sectorTag.1 then .ok false
      else if tree.treelevels = 0 then .ok (computeMasterAuth tree == sectorTag)
      else climbChecked prims hmacKey (computeMasterAuth tree) tree.treelevels tree.levels sectorIndex.toNat sectorTag

end checked

/-! ## The climb -/

section climb

variable {prims : Primitives} {hmacKey : Block 128}

theorem climbChecked_eq (root : AuthTag) {n : Nat} {levels : List Bytes} (hn : n ≤ levels.length) {childIndex : Nat}
    (hchild : childIndex * 32 < 2 ^ 63) (current : AuthTag) :
    ∃ accepted, climb prims hmacKey root n levels childIndex current = some accepted ∧
      climbChecked prims hmacKey root n levels childIndex current = .ok accepted := by
  induction n generalizing levels childIndex current with
  | zero => exact ⟨_, rfl, rfl⟩
  | succ n ih =>
    cases levels with
    | nil => simp at hn
    | cons childLevel levels =>
      have hsector : childIndex / treeFanout * authSectorSize + authSectorSize < 2 ^ 64 := by
        simp only [treeFanout_val, authSectorSize_val]
        omega
      have hslot : childIndex % treeFanout * authTagLen + authTagLen < 2 ^ 64 := by
        simp only [treeFanout_val, authTagLen_val]
        omega
      have hparent : childIndex / treeFanout * 32 < 2 ^ 63 := by
        simp only [treeFanout_val]
        omega
      simp only [climb, climbChecked]
      rw [mul_of_lt (Nat.lt_of_le_of_lt (Nat.le_add_right _ _) hsector), ok_bind, add_of_lt hsector, ok_bind]
      set chunkStart := childIndex / treeFanout * authSectorSize
      set chunkEnd := min (chunkStart + authSectorSize) childLevel.length
      by_cases hgone : chunkStart ≥ childLevel.length
      · exact ⟨false, if_pos hgone, if_pos hgone⟩
      have hforward : chunkStart ≤ chunkEnd := Nat.le_min.mpr ⟨Nat.le_add_right _ _, Nat.le_of_not_le hgone⟩
      rw [if_neg hgone, if_neg hgone, slice_of_le hforward (Nat.min_le_right _ _), ok_bind,
        mul_of_lt (Nat.lt_of_le_of_lt (Nat.le_add_right _ _) hslot), ok_bind, add_of_lt hslot, ok_bind]
      set chunk := (childLevel.drop chunkStart).take (chunkEnd - chunkStart)
      set slot := childIndex % treeFanout * authTagLen
      by_cases hshort : slot + authTagLen > chunk.length
      · exact ⟨false, if_pos hshort, if_pos hshort⟩
      rw [if_neg hshort, if_neg hshort, slice_of_le (Nat.le_add_right _ _) (Nat.le_of_not_lt hshort), ok_bind,
        Nat.add_sub_cancel_left]
      by_cases hstored : (chunk.drop slot).take authTagLen ≠ current.1
      · exact ⟨false, if_pos hstored, if_pos hstored⟩
      rw [if_neg hstored, if_neg hstored]
      exact ih (Nat.le_of_succ_le_succ hn) hparent _

end climb

/-! ## The path -/

variable (prims : Primitives) (hmacKey : Block 128)

/-- The whole words of the leaves. -/
def AuthTree.leafCount (tree : AuthTree) : Nat := (tree.levels.headD []).length / authTagLen

theorem verifyPathChecked_of_lt {tree : OwnedTree} (hlevels : tree.treelevels ≤ tree.levels.length)
    {sectorIndex : UInt64} (hindex : sectorIndex.toNat + 1 < 2 ^ 59) (sectorTag : AuthTag) :
    ∃ accepted, verifyPath prims hmacKey tree.toAuthTree sectorIndex.toNat sectorTag = some accepted ∧
      verifyPathChecked prims hmacKey tree.toAuthTree sectorIndex sectorTag = .ok accepted ∧
      (tree.leafCount ≤ sectorIndex.toNat → accepted = false) := by
  obtain ⟨⟨levels, treelevels, masterauthoff, needmasterauth⟩, hfits⟩ := tree
  cases levels with
  | nil => exact ⟨false, rfl, rfl, fun _ => rfl⟩
  | cons leafBytes levels =>
    have hleaf : leafBytes.length ≤ isizeMax := hfits leafBytes List.mem_cons_self
    have hoffset : min (sectorIndex.toNat * authTagLen) (2 ^ 64 - 1) = sectorIndex.toNat * authTagLen :=
      Nat.min_eq_left (by simp only [authTagLen_val]; omega)
    have hstop : sectorIndex.toNat * authTagLen + authTagLen < 2 ^ 64 := by
      simp only [authTagLen_val]
      omega
    simp only [verifyPath, verifyPathChecked, hoffset]
    rw [add_of_lt hstop, ok_bind]
    by_cases hroom : sectorIndex.toNat * authTagLen + authTagLen > leafBytes.length
    · exact ⟨false, if_pos hroom, if_pos hroom, fun _ => rfl⟩
    have hbeyond : ¬ leafBytes.length / authTagLen ≤ sectorIndex.toNat := by
      simp only [authTagLen_val] at hroom ⊢
      omega
    rw [if_neg hroom, if_neg hroom, slice_of_le (Nat.le_add_right _ _) (Nat.le_of_not_lt hroom), ok_bind,
      Nat.add_sub_cancel_left]
    by_cases hstored : (leafBytes.drop (sectorIndex.toNat * authTagLen)).take authTagLen ≠ sectorTag.1
    · exact ⟨false, if_pos hstored, if_pos hstored, fun _ => rfl⟩
    rw [if_neg hstored, if_neg hstored]
    by_cases hzero : treelevels = 0
    · exact ⟨_, if_pos hzero, if_pos hzero, fun h => absurd h hbeyond⟩
    rw [if_neg hzero, if_neg hzero]
    have hchild : sectorIndex.toNat * 32 < 2 ^ 63 := by
      simp only [authTagLen_val, isizeMax] at hroom hleaf
      omega
    obtain ⟨accepted, hclimb, hchecked⟩ := climbChecked_eq _ hlevels hchild sectorTag
    exact ⟨accepted, hclimb, hchecked, fun h => absurd h hbeyond⟩

/-- The last indices of the range saturate the offset, or fill it, so that the sum overflows. -/
theorem verifyPathChecked_of_le {tree : AuthTree} (hlevels : tree.levels ≠ []) {sectorIndex : UInt64}
    (hindex : 2 ^ 59 ≤ sectorIndex.toNat + 1) (sectorTag : AuthTag) :
    verifyPathChecked prims hmacKey tree sectorIndex sectorTag = .error .overflow := by
  obtain ⟨levels, treelevels, masterauthoff, needmasterauth⟩ := tree
  cases levels with
  | nil => exact absurd rfl hlevels
  | cons leafBytes levels =>
    have hover : 2 ^ 64 ≤ min (sectorIndex.toNat * authTagLen) (2 ^ 64 - 1) + authTagLen := by
      simp only [authTagLen_val]
      omega
    simp only [verifyPathChecked]
    rw [add, word_of_le hover, error_bind]

theorem fits_oneLeaf : ∀ level ∈ [List.replicate 32 (7 : UInt8)], level.length ≤ isizeMax := by
  intro level hlevel
  rw [List.mem_singleton.mp hlevel]
  decide

/-- The tree of a file of one sector. -/
def oneLeaf : OwnedTree where
  levels := [List.replicate 32 7]
  treelevels := 0
  masterauthoff := 4096
  needmasterauth := false
  fits := fits_oneLeaf

theorem oneLeaf_stops : ¬ ∃ accepted, verifyPathChecked echoPrims (Block.ofBytes 128 []) oneLeaf.toAuthTree
    18446744073709551615 (Block.ofBytes 32 []) = .ok accepted := by
  rintro ⟨accepted, hok⟩
  rw [verifyPathChecked_of_le _ _ (List.cons_ne_nil _ _) (by decide)] at hok
  cases hok

/-- A path is verified to an answer, and to a refusal past the leaves, just below the indices whose offset leaves no
room for a tag. -/
theorem verifyPathChecked_total_iff (tree : OwnedTree) (hlevels : tree.treelevels ≤ tree.levels.length)
    (sectorIndex : UInt64) (sectorTag : AuthTag) :
    (∃ accepted, verifyPathChecked prims hmacKey tree.toAuthTree sectorIndex sectorTag = .ok accepted ∧
        (tree.leafCount ≤ sectorIndex.toNat → accepted = false)) ↔
      tree.levels = [] ∨ sectorIndex.toNat + 1 < 2 ^ 59 := by
  constructor
  · rintro ⟨accepted, hok, -⟩
    by_contra hneither
    rw [not_or, Nat.not_lt] at hneither
    rw [verifyPathChecked_of_le prims hmacKey hneither.1 hneither.2] at hok
    cases hok
  · rintro (hempty | hindex)
    · refine ⟨false, ?_, fun _ => rfl⟩
      simp only [verifyPathChecked, hempty]
    · obtain ⟨accepted, -, hok, hbeyond⟩ := verifyPathChecked_of_lt prims hmacKey hlevels hindex sectorTag
      exact ⟨accepted, hok, hbeyond⟩

theorem oneLeaf_total_iff :
    (∃ accepted, verifyPathChecked echoPrims (Block.ofBytes 128 []) oneLeaf.toAuthTree 1 (Block.ofBytes 32 []) =
        .ok accepted ∧ (oneLeaf.leafCount ≤ (1 : UInt64).toNat → accepted = false)) ↔
      oneLeaf.levels = [] ∨ (1 : UInt64).toNat + 1 < 2 ^ 59 :=
  verifyPathChecked_total_iff echoPrims (Block.ofBytes 128 []) oneLeaf (by decide) 1 (Block.ofBytes 32 [])

end Pcloud
