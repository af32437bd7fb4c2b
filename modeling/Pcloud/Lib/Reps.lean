import Mathlib.Data.List.Chain
import Mathlib.Data.List.Destutter

/-!
# Runs of repeated elements

`List.eraseRepsBy` keeps the first element of each run. What it keeps of a sorted list depends on how the key of the
runs sits in the order of the list.
-/

namespace Reps

variable {α : Type*} {r : α → α → Bool} {a b x y : α} {l : List α}

theorem loop_eq (as : List α) (a : α) (acc : List α) :
    List.eraseRepsBy.loop r a as acc = acc.reverse ++ as.destutter' (fun a b => r a b = false) a := by
  induction as generalizing a acc with
  | nil => simp [List.eraseRepsBy.loop]
  | cons b as ih =>
    rw [List.eraseRepsBy.loop, List.destutter'_cons]
    split
    · rename_i h
      rw [if_neg (by simp [h]), ih]
    · rename_i h
      rw [if_pos h, ih, List.reverse_cons, List.append_assoc, List.singleton_append]

theorem eraseRepsBy_eq_destutter (l : List α) : l.eraseRepsBy r = l.destutter fun a b => r a b = false := by
  cases l with
  | nil => rfl
  | cons a l => exact loop_eq l a []

theorem eraseRepsBy_sublist (l : List α) : (l.eraseRepsBy r).Sublist l := by
  rw [eraseRepsBy_eq_destutter]
  exact List.destutter_sublist _ l

theorem mem_of_mem_eraseRepsBy (h : x ∈ l.eraseRepsBy r) : x ∈ l := (eraseRepsBy_sublist l).subset h

/-! ## Runs of one key -/

section Key

variable {κ ι : Type*} [DecidableEq κ] (key : α → κ)

theorem exists_rep (cls : α → ι) (h : l.IsChain fun a b => key a = key b → cls a = cls b) (hx : x ∈ l) :
    ∃ y ∈ l.eraseRepsBy fun a b => key a = key b, key y = key x ∧ cls y = cls x := by
  have hcons : ∀ (l : List α) (a : α), (a :: l).IsChain (fun a b => key a = key b → cls a = cls b) →
      ∀ x ∈ a :: l, ∃ y ∈ l.destutter' (fun a b => decide (key a = key b) = false) a,
        key y = key x ∧ cls y = cls x := by
    intro l
    induction l with
    | nil =>
      intro a _ x hx
      obtain rfl := List.mem_singleton.mp hx
      exact ⟨x, List.mem_singleton_self x, rfl, rfl⟩
    | cons b l ih =>
      intro a hchain x hx
      obtain ⟨hab, hchain⟩ := List.isChain_cons_cons.mp hchain
      by_cases hkey : key a = key b
      · rw [List.destutter'_cons_neg _ (by simpa using hkey)]
        have hcls := hab hkey
        -- `a` stands for `b` in what is left.
        have hchain' : (a :: l).IsChain fun a b => key a = key b → cls a = cls b := by
          cases l with
          | nil => exact .singleton a
          | cons c l =>
            obtain ⟨hbc, htail⟩ := List.isChain_cons_cons.mp hchain
            exact .cons_cons (fun hac => hcls.trans (hbc (hkey.symm.trans hac))) htail
        rcases List.mem_cons.mp hx with rfl | hx
        · exact ih x hchain' x List.mem_cons_self
        · rcases List.mem_cons.mp hx with rfl | hx
          · obtain ⟨y, hy, hyk, hyc⟩ := ih a hchain' a List.mem_cons_self
            exact ⟨y, hy, hyk.trans hkey, hyc.trans hcls⟩
          · exact ih a hchain' x (List.mem_cons_of_mem _ hx)
      · rw [List.destutter'_cons_pos _ (by simpa using hkey)]
        rcases List.mem_cons.mp hx with rfl | hx
        · exact ⟨x, List.mem_cons_self, rfl, rfl⟩
        · obtain ⟨y, hy, hyx⟩ := ih b hchain x hx
          exact ⟨y, List.mem_cons_of_mem _ hy, hyx⟩
  rw [eraseRepsBy_eq_destutter]
  cases l with
  | nil => cases hx
  | cons a l => exact hcons l a h x hx

theorem isChain_eraseRepsBy (l : List α) :
    (l.eraseRepsBy fun a b => key a = key b).IsChain fun a b => key a ≠ key b := by
  rw [eraseRepsBy_eq_destutter]
  refine (List.isChain_destutter (fun a b => decide (key a = key b) = false) l).imp fun a b h => ?_
  simpa using h

end Key

/-! ## Sorted lists -/

section Sorted

variable {κ ι : Type*} {le : α → α → Prop} {key : α → κ}

theorem isChain_neighbours (h : l.Pairwise le) (hrefl : ∀ a, le a a) :
    l.IsChain fun a b => le a b ∧ ∀ c ∈ l, le c a ∨ le b c := by
  have hbefore : ∀ (l before : List α), (before ++ l).Pairwise le →
      l.IsChain fun a b => le a b ∧ ∀ c ∈ before ++ l, le c a ∨ le b c := by
    intro l
    induction l with
    | nil => intro before _; exact .nil
    | cons a l ih =>
      intro before hsorted
      have hnext := ih (before ++ [a]) (by simpa using hsorted)
      cases l with
      | nil => exact .singleton a
      | cons b l =>
        obtain ⟨-, hl, hcross⟩ := List.pairwise_append.mp hsorted
        obtain ⟨ha, hl⟩ := List.pairwise_cons.mp hl
        refine .cons_cons ⟨ha b List.mem_cons_self, fun c hc => ?_⟩ (by simpa using hnext)
        rcases List.mem_append.mp hc with hc | hc
        · exact .inl (hcross c hc a List.mem_cons_self)
        · rcases List.mem_cons.mp hc with rfl | hc
          · exact .inl (hrefl c)
          · rcases List.mem_cons.mp hc with rfl | hc
            · exact .inr (hrefl c)
            · exact .inr ((List.pairwise_cons.mp hl).1 c hc)
  simpa using hbefore l [] (by simpa using h)

theorem exists_between (hsorted : l.Pairwise le) (hchain : l.IsChain fun a b => key a ≠ key b)
    (hkey : ∀ a b, le a b → le b a → key a = key b) (hx : x ∈ l) (hy : y ∈ l) (hne : x ≠ y) (hxy : key x = key y) :
    ∃ z ∈ l, (le x z ∧ ¬ le z x ∧ le z y ∧ ¬ le y z) ∨ (le y z ∧ ¬ le z y ∧ le z x ∧ ¬ le x z) := by
  have hfirst : ∀ {x y : α} {l : List α}, (x :: l).Pairwise le → (x :: l).IsChain (fun a b => key a ≠ key b) →
      y ∈ l → key x = key y → ∃ z ∈ l, le x z ∧ ¬ le z x ∧ le z y ∧ ¬ le y z := by
    intro x y l hsorted hchain hy hxy
    obtain ⟨hx, hl⟩ := List.pairwise_cons.mp hsorted
    cases l with
    | nil => cases hy
    | cons z l =>
      have hxz := (List.isChain_cons_cons.mp hchain).1
      rcases List.mem_cons.mp hy with rfl | hy
      · exact absurd hxy hxz
      · have hlezy := (List.pairwise_cons.mp hl).1 y hy
        refine ⟨z, List.mem_cons_self, hx z List.mem_cons_self, fun h => ?_, hlezy, fun h => ?_⟩
        · exact hxz (hkey x z (hx z List.mem_cons_self) h)
        · exact hxz (hxy.trans (hkey y z h hlezy))
  induction l with
  | nil => cases hx
  | cons w l ih =>
    rcases List.mem_cons.mp hx with rfl | hxl
    · rcases List.mem_cons.mp hy with rfl | hyl
      · exact absurd rfl hne
      · obtain ⟨z, hz, hbetween⟩ := hfirst hsorted hchain hyl hxy
        exact ⟨z, List.mem_cons_of_mem _ hz, .inl hbetween⟩
    · rcases List.mem_cons.mp hy with rfl | hyl
      · obtain ⟨z, hz, hbetween⟩ := hfirst hsorted hchain hxl hxy.symm
        exact ⟨z, List.mem_cons_of_mem _ hz, .inr hbetween⟩
      · obtain ⟨z, hz, hbetween⟩ := ih (List.pairwise_cons.mp hsorted).2 (List.IsChain.of_cons hchain) hxl hyl
        exact ⟨z, List.mem_cons_of_mem _ hz, hbetween⟩

theorem nodup_eraseRepsBy [DecidableEq κ] {ident : α → ι} (hsorted : l.Pairwise le)
    (htrans : ∀ a b c, le a b → le b c → le a c) (hident : ∀ a b, ident a = ident b → le a b)
    (hkey : ∀ a b, le a b → le b a → key a = key b) :
    ((l.eraseRepsBy fun a b => key a = key b).map ident).Nodup := by
  rw [List.nodup_iff_pairwise_ne, List.pairwise_map]
  have hchain := isChain_eraseRepsBy key l
  have hleft := hsorted.sublist (eraseRepsBy_sublist (r := fun a b => decide (key a = key b)) l)
  generalize (l.eraseRepsBy fun a b => key a = key b) = reps at hchain hleft
  induction reps with
  | nil => exact .nil
  | cons y reps ih =>
    obtain ⟨hy, hreps⟩ := List.pairwise_cons.mp hleft
    refine .cons (fun w hw hyw => ?_) (ih (List.IsChain.of_cons hchain) hreps)
    cases reps with
    | nil => cases hw
    | cons z reps =>
      -- `z` sits between two elements of one `ident`, so it has their key.
      have hwy := hident w y hyw.symm
      have hzw : le z w := by
        rcases List.mem_cons.mp hw with rfl | hw
        · exact hident _ _ rfl
        · exact (List.pairwise_cons.mp hreps).1 w hw
      exact (List.isChain_cons_cons.mp hchain).1
        (hkey y z (hy z List.mem_cons_self) (htrans z w y hzw hwy))

end Sorted

@[simp]
theorem mem_eraseReps [DecidableEq α] : x ∈ l.eraseReps ↔ x ∈ l := by
  have heq : l.eraseReps = l.eraseRepsBy fun a b => id a = id b := rfl
  rw [heq]
  constructor
  · exact mem_of_mem_eraseRepsBy
  · intro hx
    have hclass : l.IsChain fun a b => id a = id b → id a = id b := (List.pairwise_of_forall fun _ _ h => h).isChain
    obtain ⟨y, hy, hyx, -⟩ := exists_rep id id hclass hx
    exact hyx.subst (motive := (· ∈ l.eraseRepsBy fun a b => id a = id b)) hy

end Reps
