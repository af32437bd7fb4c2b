import Mathlib.Algebra.Group.Nat.Defs
import Mathlib.Data.List.Basic

/-!
# Programs that stop at a fault

Arithmetic on words and access to lists where a result that does not fit, or an index outside, stops the program. A
loop repeats its body until it is done; the fuel it is given bounds how often.
-/

namespace Checked

inductive Stop
  | overflow
  | outOfBounds
  | outOfFuel
deriving DecidableEq, Repr

variable {σ α β : Type}

@[simp]
theorem ok_bind (a : α) (f : α → Except Stop β) : (Except.ok a >>= f) = f a := rfl

@[simp]
theorem error_bind (stop : Stop) (f : α → Except Stop β) : (Except.error stop >>= f) = .error stop := rfl

/-! ## Operations -/

def word (bits n : Nat) : Except Stop Nat := if n < 2 ^ bits then .ok n else .error .overflow

def add (bits a b : Nat) : Except Stop Nat := word bits (a + b)

def mul (bits a b : Nat) : Except Stop Nat := word bits (a * b)

def sub (a b : Nat) : Except Stop Nat := if b ≤ a then .ok (a - b) else .error .overflow

def get (xs : List α) (i : Nat) : Except Stop α := (xs[i]?.map Except.ok).getD (.error .outOfBounds)

def slice (xs : List α) (start stop : Nat) : Except Stop (List α) :=
  if start ≤ stop ∧ stop ≤ xs.length then .ok ((xs.drop start).take (stop - start)) else .error .outOfBounds

section

variable {bits a b : Nat} {xs : List α} {start stop : Nat}

theorem word_of_le {n : Nat} (h : 2 ^ bits ≤ n) : word bits n = .error .overflow := if_neg (Nat.not_lt.mpr h)

theorem add_of_lt (h : a + b < 2 ^ bits) : add bits a b = .ok (a + b) := if_pos h

theorem mul_of_lt (h : a * b < 2 ^ bits) : mul bits a b = .ok (a * b) := if_pos h

theorem sub_of_le (h : b ≤ a) : sub a b = .ok (a - b) := if_pos h

theorem get_of_getElem? {i : Nat} {x : α} (h : xs[i]? = some x) : get xs i = .ok x := by rw [get, h]; rfl

theorem get_of_lt {i : Nat} (h : i < xs.length) : get xs i = .ok (xs.get ⟨i, h⟩) :=
  get_of_getElem? (List.getElem?_eq_getElem h)

theorem slice_of_le (h : start ≤ stop) (h' : stop ≤ xs.length) :
    slice xs start stop = .ok ((xs.drop start).take (stop - start)) := if_pos ⟨h, h'⟩

end

/-! ## Programs that end -/

/-- The program ends, with a value that satisfies `post`. -/
def Ends (post : α → Prop) (p : Except Stop α) : Prop := ∃ a, p = .ok a ∧ post a

theorem Ends.ok {post : α → Prop} {a : α} (h : post a) : Ends post (.ok a) := ⟨a, rfl, h⟩

theorem Ends.mono {post post' : α → Prop} {p : Except Stop α} (h : Ends post p) (himp : ∀ a, post a → post' a) :
    Ends post' p := by
  obtain ⟨a, ha, hpost⟩ := h
  exact ⟨a, ha, himp a hpost⟩

theorem Ends.bind {mid : α → Prop} {post : β → Prop} {p : Except Stop α} {f : α → Except Stop β}
    (h : Ends mid p) (hf : ∀ a, mid a → Ends post (f a)) : Ends post (p >>= f) := by
  obtain ⟨a, rfl, ha⟩ := h
  exact hf a ha

theorem Ends.add {bits a b : Nat} (h : a + b < 2 ^ bits) : Ends (· = a + b) (add bits a b) := ⟨_, add_of_lt h, rfl⟩

theorem Ends.mul {bits a b : Nat} (h : a * b < 2 ^ bits) : Ends (· = a * b) (mul bits a b) := ⟨_, mul_of_lt h, rfl⟩

theorem Ends.sub {a b : Nat} (h : b ≤ a) : Ends (· = a - b) (sub a b) := ⟨_, sub_of_le h, rfl⟩

theorem Ends.get {xs : List α} {i : Nat} (h : i < xs.length) : Ends (· ∈ xs) (get xs i) :=
  ⟨_, get_of_lt h, List.get_mem xs _⟩

theorem Ends.slice {xs : List α} {start stop : Nat} (h : start ≤ stop) (h' : stop ≤ xs.length) :
    Ends (fun ys => ys.length = stop - start) (slice xs start stop) := by
  refine ⟨_, slice_of_le h h', ?_⟩
  simp only [List.length_take, List.length_drop]
  omega

theorem Ends.foldlM {post : σ → Prop} {f : σ → α → Except Stop σ} {xs : List α} {s : σ} (hs : post s)
    (hstep : ∀ s x, x ∈ xs → post s → Ends post (f s x)) : Ends post (xs.foldlM f s) := by
  induction xs generalizing s with
  | nil => exact .ok hs
  | cons x xs ih =>
    rw [List.foldlM_cons]
    exact (hstep s x List.mem_cons_self hs).bind fun s hs => ih hs fun s y hy => hstep s y (List.mem_cons_of_mem x hy)

/-! ## Loops -/

/-- How one round of a loop ends. -/
inductive Round (σ β : Type)
  | cont (s : σ)
  | done (b : β)

def loop (body : σ → Except Stop (Round σ β)) : (fuel : Nat) → σ → Except Stop β
  | 0, _ => .error .outOfFuel
  | fuel + 1, s => do
    match ← body s with
    | .cont next => loop body fuel next
    | .done b => .ok b

def Round.Holds (next : σ → Prop) (post : β → Prop) : Round σ β → Prop
  | .cont s => next s
  | .done b => post b

theorem ends_loop {body : σ → Except Stop (Round σ β)} {post : β → Prop} (inv : σ → Prop) (size : σ → Nat)
    (hround : ∀ s, inv s → Ends (Round.Holds (fun next => inv next ∧ size next < size s) post) (body s))
    {fuel : Nat} {s : σ} (hs : inv s) (hfuel : size s < fuel) : Ends post (loop body fuel s) := by
  induction fuel generalizing s with
  | zero => omega
  | succ fuel ih =>
    rw [loop]
    obtain ⟨flow, hbody, hflow⟩ := hround s hs
    rw [hbody]
    cases flow with
    | cont next => exact ih hflow.1 (by have := hflow.2; omega)
    | done b => exact .ok hflow

end Checked
