import Mathlib.Data.PEquiv
import Mathlib.Logic.Function.Basic

/-!
# Inverse partial maps

Two partial maps that say the same pairs, one from each side. A pair is added where both its
sides are free, and removed from both sides.
-/

variable {α β : Type*} {f : α → Option β} {g : β → Option α} {a a' : α} {b b' : β}

def Inverse (f : α → Option β) (g : β → Option α) : Prop := ∀ a b, f a = some b ↔ g b = some a

namespace Inverse

theorem symm (h : Inverse f g) : Inverse g f := fun b a => (h a b).symm

/-- The partial equivalence that the two maps are. -/
def toPEquiv (h : Inverse f g) : α ≃. β where
  toFun := f
  invFun := g
  inv a b := (h a b).symm

theorem inj (h : Inverse f g) (ha : f a = some b) (ha' : f a' = some b) : a = a' := h.toPEquiv.inj ha ha'

variable [DecidableEq α] [DecidableEq β]

theorem insert (h : Inverse f g) (ha : f a = none) (hb : g b = none) :
    Inverse (Function.update f a (some b)) (Function.update g b (some a)) := by
  intro x y
  by_cases hx : x = a <;> by_cases hy : y = b
  · simp [hx, hy]
  · have hfree : g y ≠ some a := fun hy' => by simp [(h a y).mpr hy'] at ha
    simp [hx, hy, hfree, Ne.symm hy]
  · have hfree : f x ≠ some b := fun hx' => by simp [(h x b).mp hx'] at hb
    simp [hx, hy, hfree, Ne.symm hx]
  · simp [hx, hy, h x y]

theorem erase (h : Inverse f g) (hab : f a = some b) :
    Inverse (Function.update f a none) (Function.update g b none) := by
  intro x y
  by_cases hx : x = a <;> by_cases hy : y = b
  · simp [hx, hy]
  · have hother : g y ≠ some a := fun hy' => hy (h.symm.inj hy' ((h a b).mp hab))
    simp [hx, hy, hother]
  · have hother : f x ≠ some b := fun hx' => hx (h.inj hx' hab)
    simp [hx, hy, hother]
  · simp [hx, hy, h x y]

end Inverse
