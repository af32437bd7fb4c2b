import Pcloud.Lib.Runs

/-!
# Machines that answer

Every call of a machine has an answer and leads to a next state. Two machines give the same answers where a relation
between their states is kept; the relation may depend on a third state, such as what the clock says.
-/

namespace Answers

variable {σ τ ι κ ο : Type*}

def answers (call : σ → κ → ο × σ) : σ → List κ → List ο
  | _, [] => []
  | s, k :: ks => (call s k).1 :: answers call (call s k).2 ks

variable {call : σ → κ → ο × σ} {call' : τ → κ → ο × τ} {advance : ι → κ → ι} {ok : ι → κ → Prop} {R : ι → σ → τ → Prop}

/-- The simulation rule, over calls that the third state allows. -/
theorem answers_eq (hstep : ∀ i s t k, R i s t → ok i k →
      (call s k).1 = (call' t k).1 ∧ R (advance i k) (call s k).2 (call' t k).2)
    {i : ι} {s : σ} {t : τ} (h : R i s t) {ks : List κ} (hks : Runs.AllSteps advance ok i ks) :
    answers call s ks = answers call' t ks := by
  induction ks generalizing i s t with
  | nil => rfl
  | cons k ks ih =>
    obtain ⟨hk, hks⟩ := hks
    obtain ⟨hsame, hnext⟩ := hstep i s t k h hk
    rw [answers, answers, hsame, ih hnext hks]

end Answers
