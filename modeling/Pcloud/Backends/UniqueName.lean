import Mathlib.Algebra.Group.Nat.Defs
import Mathlib.Data.Finset.Card
import Mathlib.Order.Bounds.Defs
import Pcloud.Engine.ConflictRename
import Pcloud.Model.Bytes

/-!
# A free name beside the taken ones (`pick_unique_name`)

A taken name gets a number before its extension, the first one that makes it free. No two numbers make one name, so
fewer names than numbers leave a free one.
-/

namespace Pcloud.UniqueName

/-! ## The first free value of a sequence -/

section FirstFree

variable {α : Type} [DecidableEq α] (f : Nat → α) (taken : List α)

/-- The loop over the `left` numbers from `n` on. -/
def firstFree : (left n : Nat) → Option α
  | 0, _ => none
  | left + 1, n => if f n ∈ taken then firstFree left (n + 1) else some (f n)

variable {f taken}

theorem mem_of_firstFree_eq_none {left n : Nat} (h : firstFree f taken left n = none) :
    ∀ k, n ≤ k → k < n + left → f k ∈ taken := by
  induction left generalizing n with
  | zero =>
    intro k hle hlt
    omega
  | succ left ih =>
    rw [firstFree] at h
    split at h
    · rename_i hmem
      intro k hle hlt
      obtain rfl | hne := Nat.eq_or_lt_of_le hle
      · exact hmem
      · exact ih h k hne (by omega)
    · cases h

theorem least_of_firstFree_eq_some {left n : Nat} {a : α} (h : firstFree f taken left n = some a) :
    ∃ m, a = f m ∧ IsLeast {k | n ≤ k ∧ f k ∉ taken} m := by
  induction left generalizing n with
  | zero => cases h
  | succ left ih =>
    rw [firstFree] at h
    split at h
    · rename_i hmem
      obtain ⟨m, ha, ⟨hle, hfree⟩, hleast⟩ := ih h
      refine ⟨m, ha, ⟨by omega, hfree⟩, fun k hk => hleast ⟨?_, hk.2⟩⟩
      obtain rfl | hne := Nat.eq_or_lt_of_le hk.1
      · exact absurd hmem hk.2
      · exact hne
    · rename_i hfree
      exact ⟨n, (Option.some.inj h).symm, ⟨Nat.le_refl n, hfree⟩, fun k hk => hk.1⟩

theorem exists_notMem_of_length_lt (hf : Function.Injective f) {left : Nat} (h : taken.length < left) (n : Nat) :
    ∃ k, n ≤ k ∧ k < n + left ∧ f k ∉ taken := by
  have hinj : Function.Injective fun i => f (n + i) := fun i j hij => Nat.add_left_cancel (hf hij)
  have hcard : taken.toFinset.card < ((Finset.range left).image fun i => f (n + i)).card := by
    rw [Finset.card_image_of_injective _ hinj, Finset.card_range]
    exact Nat.lt_of_le_of_lt (List.toFinset_card_le taken) h
  obtain ⟨a, ha, hfree⟩ := Finset.exists_mem_notMem_of_card_lt_card hcard
  obtain ⟨i, hi, rfl⟩ := Finset.mem_image.mp ha
  have hlt := Finset.mem_range.mp hi
  exact ⟨n + i, by omega, by omega, fun hmem => hfree (List.mem_toFinset.mpr hmem)⟩

theorem exists_least_firstFree (hf : Function.Injective f) {left : Nat} (h : taken.length < left) (n : Nat) :
    ∃ m, firstFree f taken left n = some (f m) ∧ IsLeast {k | n ≤ k ∧ f k ∉ taken} m := by
  cases hfound : firstFree f taken left n with
  | none =>
    obtain ⟨k, hle, hlt, hfree⟩ := exists_notMem_of_length_lt hf h n
    exact absurd (mem_of_firstFree_eq_none hfound k hle hlt) hfree
  | some a =>
    obtain ⟨m, rfl, hleast⟩ := least_of_firstFree_eq_some hfound
    exact ⟨m, rfl, hleast⟩

end FirstFree

/-! ## The name -/

def rsplitOnce (c : Char) (text : List Char) : Option (List Char × List Char) :=
  (rfind c text).map fun i => (text.take i, text.drop (i + 1))

/-- The stem and the extension, which has its dot. -/
def stemAndExt (name : String) : String × String :=
  match rsplitOnce '.' name.toList with
  | some (s, e) => (String.ofList s, "." ++ String.ofList e)
  | none => (name, "")

def candidate (stem ext : String) (n : Nat) : String := stem ++ " (" ++ toString n ++ ")" ++ ext

def pickUniqueName (name : String) (existing : List String) : String :=
  if name ∈ existing then
    let (stem, ext) := stemAndExt name
    -- The numbers are `2..=u64::MAX`.
    (firstFree (candidate stem ext) existing (2 ^ 64 - 2) 2).getD (candidate stem ext 2)
  else name

/-- `ext` is the text of `name` from its last dot on, and `stem` the text before. -/
inductive SplitsAtLastDot (name : String) : (stem ext : String) → Prop where
  | dot {stem after : List Char} (hname : name.toList = stem ++ '.' :: after) (hafter : '.' ∉ after) :
    SplitsAtLastDot name (String.ofList stem) (String.ofList ('.' :: after))
  | noDot (hname : '.' ∉ name.toList) : SplitsAtLastDot name name ""

theorem splitsAtLastDot_stemAndExt (name : String) :
    SplitsAtLastDot name (stemAndExt name).1 (stemAndExt name).2 := by
  by_cases hdot : '.' ∈ name.toList
  · obtain ⟨stem, after, hname, hafter⟩ := Segments.exists_append_sep hdot
    have hsplit : stemAndExt name = (String.ofList stem, String.ofList ('.' :: after)) := by
      rw [stemAndExt, rsplitOnce, hname, rfind_append hafter]
      simp only [Option.map_some, List.take_left', List.drop_append, Prod.mk.injEq, true_and]
      simp [String.ofList_cons]
    rw [hsplit]
    exact .dot hname hafter
  · have hsplit : stemAndExt name = (name, "") := by rw [stemAndExt, rsplitOnce, rfind_of_notMem hdot, Option.map_none]
    rw [hsplit]
    exact .noDot hdot

theorem candidate_injective (stem ext : String) : Function.Injective (candidate stem ext) := by
  intro n m h
  have hlist := congrArg String.toList h
  simp only [candidate, String.toList_append, List.append_assoc, List.append_cancel_left_eq] at hlist
  exact eq_of_toList_toString (List.append_cancel_right hlist)

theorem pickUniqueName_of_notMem {name : String} {existing : List String} (h : name ∉ existing) :
    pickUniqueName name existing = name :=
  if_neg h

theorem pickUniqueName_of_mem {name : String} {existing : List String} (h : name ∈ existing)
    (hlen : existing.length < 2 ^ 64 - 2) : ∃ stem ext n, SplitsAtLastDot name stem ext ∧
      IsLeast {k | 2 ≤ k ∧ candidate stem ext k ∉ existing} n ∧
      pickUniqueName name existing = candidate stem ext n := by
  obtain ⟨n, hfound, hleast⟩ :=
    exists_least_firstFree (candidate_injective (stemAndExt name).1 (stemAndExt name).2) hlen 2
  refine ⟨_, _, n, splitsAtLastDot_stemAndExt name, hleast, ?_⟩
  simp only [pickUniqueName, if_pos h, hfound, Option.getD_some]

/-- The name is free: itself, or the one of the least number that makes it so. -/
theorem pickUniqueName_free (name : String) (existing : List String) (hlen : existing.length < 2 ^ 64 - 2) :
    pickUniqueName name existing ∉ existing ∧
      (name ∉ existing → pickUniqueName name existing = name) ∧
      (name ∈ existing → ∃ stem ext n, SplitsAtLastDot name stem ext ∧
        IsLeast {k | 2 ≤ k ∧ candidate stem ext k ∉ existing} n ∧
        pickUniqueName name existing = candidate stem ext n) := by
  refine ⟨?_, pickUniqueName_of_notMem, fun h => pickUniqueName_of_mem h hlen⟩
  by_cases hmem : name ∈ existing
  · obtain ⟨stem, ext, n, -, ⟨⟨-, hfree⟩, -⟩, hpick⟩ := pickUniqueName_of_mem hmem hlen
    rwa [hpick]
  · rwa [pickUniqueName_of_notMem hmem]

theorem pickUniqueName_free_report :
    pickUniqueName "report.tar.gz" ["report.tar.gz", "report.tar (2).gz"] ∉
      ["report.tar.gz", "report.tar (2).gz"] :=
  (pickUniqueName_free "report.tar.gz" ["report.tar.gz", "report.tar (2).gz"] (by decide)).1

example : pickUniqueName "report.tar.gz" ["report.tar.gz", "report.tar (2).gz"] = "report.tar (3).gz" := by decide

end Pcloud.UniqueName
