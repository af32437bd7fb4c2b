import Mathlib.Data.List.Induction
import Mathlib.Data.Set.Function

/-!
# Hash chains

A link holds the digest of the link before it, its own content, and the digest of the two. A chain starts
from an anchor, and its tip is the digest of its last link.
-/

namespace HashChain

variable {H B : Type*}

structure Link (H B : Type*) where
  prev : H
  body : B
  digest : H

/-- What is hashed for a link. -/
def Link.input (link : Link H B) : H × B := (link.prev, link.body)

variable (hash : H × B → H)

inductive Chain : H → List (Link H B) → Prop
  | nil (anchor : H) : Chain anchor []
  | cons {anchor : H} {link : Link H B} {links : List (Link H B)} (hprev : link.prev = anchor)
      (hdigest : link.digest = hash link.input) (hrest : Chain link.digest links) : Chain anchor (link :: links)

def tip (anchor : H) : List (Link H B) → H
  | [] => anchor
  | link :: links => tip link.digest links

variable {hash} {anchor anchor' : H} {link link' : Link H B} {xs ys : List (Link H B)}

@[simp]
theorem tip_nil : tip anchor ([] : List (Link H B)) = anchor := rfl

@[simp]
theorem tip_concat : tip anchor (xs ++ [link]) = link.digest := by
  induction xs generalizing anchor with
  | nil => rfl
  | cons x xs ih => exact ih

theorem tip_of_ne_nil (h : xs ≠ []) : tip anchor xs = (xs.getLast h).digest := by
  obtain ⟨ys, link, rfl⟩ := List.eq_nil_or_concat xs |>.resolve_left h
  simp

theorem tip_mem (h : xs ≠ []) : ∃ link ∈ xs, tip anchor xs = link.digest :=
  ⟨xs.getLast h, List.getLast_mem h, tip_of_ne_nil h⟩

theorem chain_append : Chain hash anchor (xs ++ ys) ↔ Chain hash anchor xs ∧ Chain hash (tip anchor xs) ys := by
  induction xs generalizing anchor with
  | nil =>
    constructor
    · intro h
      exact ⟨.nil anchor, h⟩
    · rintro ⟨-, h⟩
      exact h
  | cons x xs ih =>
    constructor
    · rintro (_ | ⟨hprev, hdigest, hrest⟩)
      obtain ⟨hxs, hys⟩ := ih.mp hrest
      exact ⟨.cons hprev hdigest hxs, hys⟩
    · rintro ⟨_ | ⟨hprev, hdigest, hxs⟩, hys⟩
      exact .cons hprev hdigest (ih.mpr ⟨hxs, hys⟩)

theorem chain_singleton : Chain hash anchor [link] ↔ link.prev = anchor ∧ link.digest = hash link.input := by
  constructor
  · rintro (_ | ⟨hprev, hdigest, -⟩)
    exact ⟨hprev, hdigest⟩
  · rintro ⟨hprev, hdigest⟩
    exact .cons hprev hdigest (.nil _)

theorem chain_concat :
    Chain hash anchor (xs ++ [link]) ↔
      Chain hash anchor xs ∧ link.prev = tip anchor xs ∧ link.digest = hash link.input := by
  rw [chain_append, chain_singleton]

theorem Chain.sound (h : Chain hash anchor xs) : ∀ link ∈ xs, link.digest = hash link.input := by
  induction h with
  | nil => simp
  | cons _ hdigest _ ih => exact List.forall_mem_cons.mpr ⟨hdigest, ih⟩

/-- The inputs of a chain that hash to its digests. -/
def inputs (links : List (Link H B)) : Set (H × B) := {input | ∃ link ∈ links, link.input = input}

theorem mem_inputs (h : link ∈ xs) : link.input ∈ inputs xs := ⟨link, h, rfl⟩

theorem inputs_mono (h : xs ⊆ ys) : inputs xs ⊆ inputs ys := by
  rintro _ ⟨link, hlink, rfl⟩
  exact mem_inputs (h hlink)

theorem link_eq (hlink : link.digest = hash link.input) (hlink' : link'.digest = hash link'.input)
    {inputs : Set (H × B)} (hinj : Set.InjOn hash inputs) (hmem : link.input ∈ inputs) (hmem' : link'.input ∈ inputs)
    (hdigest : link.digest = link'.digest) : link = link' := by
  have hinput : link.input = link'.input := by
    apply hinj hmem hmem'
    rw [← hlink, ← hlink', hdigest]
  rcases link with ⟨prev, body, digest⟩
  rcases link' with ⟨prev', body', digest'⟩
  obtain ⟨rfl, rfl⟩ := Prod.mk.inj hinput
  cases hdigest
  rfl

/-- The tip determines the links backwards: of two chains with one tip the longer ends with the shorter. -/
theorem exists_append_of_tip_eq (hxs : Chain hash anchor xs) (hys : Chain hash anchor' ys)
    (hinj : Set.InjOn hash (inputs xs ∪ inputs ys)) (htip : tip anchor xs = tip anchor' ys)
    (hlength : xs.length ≤ ys.length) : ∃ front, ys = front ++ xs ∧ tip anchor' front = anchor := by
  induction xs using List.reverseRecOn generalizing ys with
  | nil => exact ⟨ys, (List.append_nil ys).symm, htip.symm⟩
  | append_singleton xs x ih =>
    rcases List.eq_nil_or_concat ys with rfl | ⟨ys, y, rfl⟩
    · simp at hlength
    · rw [List.concat_eq_append] at hys hinj htip hlength ⊢
      rw [tip_concat, tip_concat] at htip
      obtain ⟨hxs', hprev, hdigest⟩ := chain_concat.mp hxs
      obtain ⟨hys', hprev', hdigest'⟩ := chain_concat.mp hys
      obtain rfl : x = y := by
        refine link_eq hdigest hdigest' hinj ?_ ?_ htip
        · exact .inl (mem_inputs (List.mem_append_right _ (List.mem_singleton_self x)))
        · exact .inr (mem_inputs (List.mem_append_right _ (List.mem_singleton_self y)))
      have hfewer : inputs xs ∪ inputs ys ⊆ inputs (xs ++ [x]) ∪ inputs (ys ++ [x]) :=
        Set.union_subset_union (inputs_mono (List.subset_append_left ..)) (inputs_mono (List.subset_append_left ..))
      have hlength' : xs.length ≤ ys.length := by simpa using hlength
      obtain ⟨front, rfl, hfront⟩ := ih hxs' hys' (hinj.mono hfewer) (hprev.symm.trans hprev') hlength'
      exact ⟨front, by simp, hfront⟩

theorem eq_nil_of_tip_eq (hfresh : ∀ link ∈ xs, link.digest ≠ anchor) (htip : tip anchor' xs = anchor) : xs = [] := by
  by_contra hne
  obtain ⟨link, hlink, hdigest⟩ : ∃ link ∈ xs, tip anchor' xs = link.digest := tip_mem hne
  exact hfresh link hlink (hdigest.symm.trans htip)

theorem exists_append_of_fresh (hxs : Chain hash anchor xs) (hys : Chain hash anchor' ys)
    (hinj : Set.InjOn hash (inputs xs ∪ inputs ys)) (htip : tip anchor xs = tip anchor' ys)
    (hfresh : ∀ link ∈ ys, link.digest ≠ anchor) : ∃ front, xs = front ++ ys ∧ tip anchor front = anchor' := by
  rcases Nat.le_total xs.length ys.length with hle | hle
  · obtain ⟨front, rfl, hfront⟩ := exists_append_of_tip_eq hxs hys hinj htip hle
    have hnil : front = [] :=
      eq_nil_of_tip_eq (fun link hlink => hfresh link (List.mem_append_left _ hlink)) hfront
    subst hnil
    exact ⟨[], rfl, hfront.symm⟩
  · exact exists_append_of_tip_eq hys hxs (Set.union_comm _ _ ▸ hinj) htip.symm hle

end HashChain
