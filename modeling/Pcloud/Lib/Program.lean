import Mathlib.Data.List.Basic
import Pcloud.Lib.Runs

/-!
# Programs of atomic effects

A program asks for one effect after another and goes on with the answers. What an effect does to
the shared state, and what it answers, also depends on a fate that the program has no part in: a
device that fails, a peer that refuses, a clock.

A program runs alone (`exec`), or with others in a pool that changes threads between any two
effects. A `Protocol` says what a thread may do next, and `Follows` that a program keeps to it
whatever is answered. A crash is a run that goes no further.
-/

namespace Program

variable {E : Type} {Ans : E → Type} {ε α β : Type}

inductive Prog (E : Type) (Ans : E → Type) (α : Type)
  | ret (a : α)
  | op (e : E) (k : Ans e → Prog E Ans α)

namespace Prog

def bind : Prog E Ans α → (α → Prog E Ans β) → Prog E Ans β
  | ret a, f => f a
  | op e k, f => op e fun ans => (k ans).bind f

instance : Monad (Prog E Ans) where
  pure := ret
  bind := bind

def perform (e : E) : Prog E Ans (Ans e) := op e ret

end Prog

/-- A program that may stop with an error. -/
abbrev Fallible (E : Type) (Ans : E → Type) (ε α : Type) := ExceptT ε (Prog E Ans) α

/-! ## Protocols -/

structure Protocol (σ E : Type) (Ans : E → Type) where
  allowed : σ → E → Prop
  moves : σ → (e : E) → Ans e → σ → Prop

variable {σ : Type}

/-- From `s` on, the program asks only for what the protocol allows, and ends where `post` holds. -/
def Follows (P : Protocol σ E Ans) (post : α → σ → Prop) : Prog E Ans α → σ → Prop
  | .ret a, s => post a s
  | .op e k, s => P.allowed s e ∧ ∀ ans s', P.moves s e ans s' → Follows P post (k ans) s'

section Follows

variable {P : Protocol σ E Ans} {post post' : α → σ → Prop} {s : σ}

theorem follows_perform {e : E} {post : Ans e → σ → Prop} :
    Follows P post (Prog.perform e) s ↔ P.allowed s e ∧ ∀ ans s', P.moves s e ans s' → post ans s' := Iff.rfl

theorem follows_bind {p : Prog E Ans α} {f : α → Prog E Ans β} {post : β → σ → Prop} :
    Follows P post (p >>= f) s ↔ Follows P (fun a => Follows P post (f a)) p s := by
  induction p generalizing s with
  | ret a => exact Iff.rfl
  | op e k ih =>
    show (_ ∧ ∀ ans s', _ → Follows P post ((k ans).bind f) s') ↔ _
    simp only [Follows]
    refine and_congr_right fun _ => forall_congr' fun ans => forall_congr' fun s' => ?_
    exact imp_congr_right fun _ => ih ans

theorem Follows.mono {p : Prog E Ans α} (h : Follows P post p s) (hpost : ∀ a s, post a s → post' a s) :
    Follows P post' p s := by
  induction p generalizing s with
  | ret a => exact hpost a s h
  | op e k ih => exact ⟨h.1, fun ans s' hmove => ih ans (h.2 ans s' hmove)⟩

/-- The postcondition of the rest of a fallible program, whose errors are passed on. -/
def orElse (post : Except ε β → σ → Prop) (next : α → σ → Prop) : Except ε α → σ → Prop
  | .ok a => next a
  | .error err => post (.error err)

theorem follows_fallible_bind {x : Fallible E Ans ε α} {f : α → Fallible E Ans ε β} {post : Except ε β → σ → Prop} :
    Follows P post (x >>= f).run s ↔ Follows P (orElse post fun a => Follows P post (f a).run) x.run s := by
  show Follows P post (x.run >>= ExceptT.bindCont f) s ↔ _
  rw [follows_bind]
  constructor
  · intro h
    apply h.mono
    rintro (err | a) s h
    · exact h
    · exact h
  · intro h
    apply h.mono
    rintro (err | a) s h
    · exact h
    · exact h

/-- The postcondition that asks nothing where the program stops with an error. -/
def Returns (Q : α → σ → Prop) : Except ε α → σ → Prop
  | .ok a => Q a
  | .error _ => fun _ => True

theorem follows_returns_bind {x : Fallible E Ans ε α} {f : α → Fallible E Ans ε β} (Q : α → σ → Prop)
    {R : β → σ → Prop} (hx : Follows P (Returns Q) x.run s)
    (hf : ∀ a s, Q a s → Follows P (Returns R) (f a).run s) : Follows P (Returns R) (x >>= f).run s := by
  rw [follows_fallible_bind]
  apply hx.mono
  rintro (err | a) s h
  · trivial
  · exact hf a s h

/-- The postcondition with a part for each way to end. -/
def Ends (Q : α → σ → Prop) (R : ε → σ → Prop) : Except ε α → σ → Prop
  | .ok a => Q a
  | .error err => R err

theorem follows_ends_bind {x : Fallible E Ans ε α} {f : α → Fallible E Ans ε β} {Q : α → σ → Prop} {Q' : β → σ → Prop}
    {R : ε → σ → Prop} (hx : Follows P (Ends Q R) x.run s)
    (hf : ∀ a s, Q a s → Follows P (Ends Q' R) (f a).run s) : Follows P (Ends Q' R) (x >>= f).run s := by
  rw [follows_fallible_bind]
  apply hx.mono
  rintro (err | a) s h
  · exact h
  · exact hf a s h

theorem follows_pure_bind {a : α} {f : α → Fallible E Ans ε β} {post : Except ε β → σ → Prop} :
    Follows P post (pure a >>= f).run s ↔ Follows P post (f a).run s := Iff.rfl

theorem follows_lift {p : Prog E Ans α} {post : Except ε α → σ → Prop} :
    Follows P post (ExceptT.lift p).run s ↔ Follows P (fun a => post (.ok a)) p s := by
  show Follows P post (p >>= fun a => pure (.ok a)) s ↔ _
  rw [follows_bind]
  exact Iff.rfl

end Follows

/-! ## What a program asks for -/

/-- Whatever is answered, the program asks only for effects of a kind. -/
def Asks (kind : E → Prop) : Prog E Ans α → Prop
  | .ret _ => True
  | .op e k => kind e ∧ ∀ ans, Asks kind (k ans)

section Asks

variable {kind kind' : E → Prop}

theorem asks_perform {e : E} : Asks kind (Prog.perform e : Prog E Ans (Ans e)) ↔ kind e := by
  simp [Asks, Prog.perform]

theorem Asks.bind {p : Prog E Ans α} {f : α → Prog E Ans β} (hp : Asks kind p) (hf : ∀ a, Asks kind (f a)) :
    Asks kind (p >>= f) := by
  induction p with
  | ret a => exact hf a
  | op e k ih => exact ⟨hp.1, fun ans => ih ans (hp.2 ans)⟩

theorem Asks.mono {p : Prog E Ans α} (hp : Asks kind p) (h : ∀ e, kind e → kind' e) : Asks kind' p := by
  induction p with
  | ret a => trivial
  | op e k ih => exact ⟨h e hp.1, fun ans => ih ans (hp.2 ans)⟩

theorem Asks.fallible_bind {x : Fallible E Ans ε α} {f : α → Fallible E Ans ε β} (hx : Asks kind x.run)
    (hf : ∀ a, Asks kind (f a).run) : Asks kind (x >>= f).run := by
  apply Asks.bind hx
  rintro (err | a)
  · trivial
  · exact hf a

theorem Asks.lift {p : Prog E Ans α} (hp : Asks kind p) : Asks kind (ExceptT.lift p : Fallible E Ans ε α).run :=
  Asks.bind hp fun _ => trivial

theorem Asks.follows {P : Protocol σ E Ans} {I : σ → Prop} {p : Prog E Ans α} (hp : Asks kind p)
    (hallowed : ∀ s e, I s → kind e → P.allowed s e)
    (hmoves : ∀ s e ans s', I s → kind e → P.moves s e ans s' → I s') {s : σ} (hI : I s) :
    Follows P (fun _ => I) p s := by
  induction p generalizing s with
  | ret a => exact hI
  | op e k ih =>
    refine ⟨hallowed s e hI hp.1, ?_⟩
    intro ans s' hmove
    exact ih ans (hp.2 ans) (hmoves s e ans s' hI hp.1 hmove)

end Asks

/-! ## A program alone -/

section Alone

variable {S F : Type}

/-- Runs a program to its end. Each effect takes the next fate, and the default one after the last. -/
def exec [Inhabited F] (perform : S → (e : E) → F → Ans e × S) : Prog E Ans α → List F → S → α × S
  | .ret a, _, s => (a, s)
  | .op e k, fates, s =>
    let (ans, s') := perform s e fates.headI
    exec perform (k ans) fates.tail s'

theorem exec_bind [Inhabited F] {perform : S → (e : E) → F → Ans e × S} {p : Prog E Ans α}
    {f : α → Prog E Ans β} {s : S} :
    exec perform (p >>= f) [] s = exec perform (f (exec perform p [] s).1) [] (exec perform p [] s).2 := by
  induction p generalizing s with
  | ret a => rfl
  | op e k ih => exact ih _

theorem exec_lift_bind [Inhabited F] {perform : S → (e : E) → F → Ans e × S} {p : Prog E Ans α}
    {f : α → Fallible E Ans ε β} {s : S} :
    exec perform (ExceptT.lift p >>= f).run [] s =
      exec perform (f (exec perform p [] s).1).run [] (exec perform p [] s).2 := by
  show exec perform ((p >>= fun a => pure (.ok a)) >>= ExceptT.bindCont f) [] s = _
  rw [exec_bind, exec_bind]
  rfl

/-- What a program that stops after some effects leaves: the rest of it, and the state. -/
def stopAt [Inhabited F] (perform : S → (e : E) → F → Ans e × S) :
    Nat → Prog E Ans α → List F → S → Prog E Ans α × S
  | n + 1, .op e k, fates, s =>
    let (ans, s') := perform s e fates.headI
    stopAt perform n (k ans) fates.tail s'
  | _, p, _, s => (p, s)

theorem Follows.stopAt [Inhabited F] {perform : S → (e : E) → F → Ans e × S} {P : Protocol S E Ans}
    {post : α → S → Prop} {p : Prog E Ans α} {s : S} (h : Follows P post p s)
    (hmoves : ∀ s e fate, P.moves s e (perform s e fate).1 (perform s e fate).2) (n : Nat) (fates : List F) :
    Follows P post (stopAt perform n p fates s).1 (stopAt perform n p fates s).2 := by
  induction n generalizing p fates s with
  | zero => exact h
  | succ n ih =>
    cases p with
    | ret a => exact h
    | op e k => exact ih (h.2 _ _ (hmoves s e fates.headI)) fates.tail

/-- The effects themselves as a protocol, with fates of a kind. -/
def effects (perform : S → (e : E) → F → Ans e × S) (kind : F → Prop) : Protocol S E Ans where
  allowed _ _ := True
  moves s e ans s' := ∃ fate, kind fate ∧ perform s e fate = (ans, s')

theorem follows_perform_effects {perform : S → (e : E) → F → Ans e × S} {kind : F → Prop} {e : E}
    {post : Ans e → S → Prop} {s : S} : Follows (effects perform kind) post (Prog.perform e) s ↔
      ∀ fate, kind fate → post (perform s e fate).1 (perform s e fate).2 := by
  rw [follows_perform]
  constructor
  · rintro ⟨_, h⟩ fate hfate
    exact h _ _ ⟨fate, hfate, rfl⟩
  · intro h
    refine ⟨trivial, ?_⟩
    rintro _ _ ⟨fate, hfate, hans⟩
    have hpost := h fate hfate
    rw [hans] at hpost
    exact hpost

theorem Asks.keeps {perform : S → (e : E) → F → Ans e × S} {kind : F → Prop} {harmless : E → Prop} {I : S → Prop}
    {p : Prog E Ans α} (hp : Asks harmless p) (hkeeps : ∀ s e fate, harmless e → I s → I (perform s e fate).2) {s : S}
    (hI : I s) : Follows (effects perform kind) (fun _ => I) p s := by
  refine hp.follows (fun _ _ _ _ => trivial) ?_ hI
  rintro s e ans s' hI he ⟨fate, -, hperform⟩
  have hs' := hkeeps s e fate he hI
  rwa [hperform] at hs'

theorem Follows.exec [Inhabited F] {perform : S → (e : E) → F → Ans e × S} {kind : F → Prop} {post : α → S → Prop}
    {p : Prog E Ans α} {s : S} (h : Follows (effects perform kind) post p s) (hdefault : kind default)
    {fates : List F} (hfates : ∀ fate ∈ fates, kind fate) :
    post (exec perform p fates s).1 (exec perform p fates s).2 := by
  induction p generalizing s fates with
  | ret a => exact h
  | op e k ih =>
    have hhead : kind fates.headI := by
      rcases fates with _ | ⟨fate, fates⟩
      · exact hdefault
      · exact hfates fate List.mem_cons_self
    have htail : ∀ fate ∈ fates.tail, kind fate := fun fate hfate => hfates fate (List.mem_of_mem_tail hfate)
    exact ih _ (h.2 _ _ ⟨fates.headI, hhead, rfl⟩) htail

/-- The effects as a protocol, with the fates that are left. -/
def scripted [Inhabited F] (perform : S → (e : E) → F → Ans e × S) : Protocol (List F × S) E Ans where
  allowed _ _ := True
  moves s e ans s' := ans = (perform s.2 e s.1.headI).1 ∧ s' = (s.1.tail, (perform s.2 e s.1.headI).2)

section Scripted

variable [Inhabited F] {perform : S → (e : E) → F → Ans e × S}

theorem follows_scripted_op {e : E} {k : Ans e → Prog E Ans α} {post : α → List F × S → Prop} {fates : List F} {s : S} :
    Follows (scripted perform) post (.op e k) (fates, s) ↔
      Follows (scripted perform) post (k (perform s e fates.headI).1) (fates.tail, (perform s e fates.headI).2) := by
  constructor
  · rintro ⟨-, h⟩
    exact h _ _ ⟨rfl, rfl⟩
  · intro h
    refine ⟨trivial, ?_⟩
    rintro _ _ ⟨rfl, rfl⟩
    exact h

theorem Follows.exec_scripted (post : α → S → Prop) {p : Prog E Ans α} {fates : List F} {s : S}
    (h : Follows (scripted perform) (fun a s => post a s.2) p (fates, s)) :
    post (Program.exec perform p fates s).1 (Program.exec perform p fates s).2 := by
  induction p generalizing fates s with
  | ret a => exact h
  | op e k ih => exact ih _ (follows_scripted_op.mp h)

theorem Follows.scripted {post : α → S → Prop} {p : Prog E Ans α} {s : S}
    (h : Follows (effects perform fun _ => True) post p s) (fates : List F) :
    Follows (scripted perform) (fun a s => post a s.2) p (fates, s) := by
  induction p generalizing fates s with
  | ret a => exact h
  | op e k ih => exact follows_scripted_op.mpr (ih _ (h.2 _ _ ⟨fates.headI, trivial, rfl⟩) _)

end Scripted

end Alone

/-! ## A pool of programs -/

variable {W G F : Type}

structure Thread (σ E : Type) (Ans : E → Type) (α : Type) where
  state : σ
  rest : Prog E Ans α

/-- `ghost` is what is noted about the run and no program sees. -/
structure Pool (W G σ E : Type) (Ans : E → Type) (α : Type) where
  world : W
  ghost : G
  threads : List (Thread σ E Ans α)

inductive Action (κ F : Type)
  | start (call : κ)
  | step (thread : Nat) (fate : F)
deriving DecidableEq, Repr

/-- What a pool is made of. `next` and `note` say what an effect makes of the thread's own state and of the
ghost, given the world before and after. -/
structure System (W G σ F κ E : Type) (Ans : E → Type) (α : Type) where
  perform : W → (e : E) → F → Ans e × W
  program : κ → Prog E Ans α
  initial : κ → σ
  next : W → σ → (e : E) → Ans e → W → σ
  note : G → W → σ → (e : E) → Ans e → W → G

namespace System

variable {κ : Type} (M : System W G σ F κ E Ans α)

def act (pool : Pool W G σ E Ans α) : Action κ F → Pool W G σ E Ans α
  | .start call => { pool with threads := pool.threads ++ [⟨M.initial call, M.program call⟩] }
  | .step i fate =>
    match pool.threads[i]? with
    | some ⟨state, .op e k⟩ =>
      let (ans, world) := M.perform pool.world e fate
      { world
        ghost := M.note pool.ghost pool.world state e ans world
        threads := pool.threads.set i ⟨M.next pool.world state e ans world, k ans⟩ }
    | _ => pool

/-- The states of the threads. -/
def states (pool : Pool W G σ E Ans α) : List σ := pool.threads.map Thread.state

/-- A condition on the next effect of a thread: on the world, the ghost, the states of all threads, the thread that
goes on with its own state, its effect and the fate of it. -/
abbrev Guard (W G σ F E : Type) := W → G → List σ → Nat → σ → (e : E) → F → Prop

/-- The guard holds of an action, where this is an effect. -/
def Guarded (guard : Guard W G σ F E) (pool : Pool W G σ E Ans α) : Action κ F → Prop
  | .start _ => True
  | .step i fate =>
    match pool.threads[i]? with
    | some ⟨state, .op e _⟩ => guard pool.world pool.ghost (states pool) i state e fate
    | _ => True

/-- Every thread keeps to the protocol from where it is. -/
def AllFollow (P : Protocol σ E Ans) (post : α → σ → Prop) (pool : Pool W G σ E Ans α) : Prop :=
  ∀ thread ∈ pool.threads, Follows P post thread.rest thread.state

/-- One effect of a thread that is allowed and guarded is a move of the protocol and keeps the invariant. -/
def StepKeeps (P : Protocol σ E Ans) (guard : Guard W G σ F E) (I : W → G → List σ → Prop) : Prop :=
  ∀ w g states i state e fate, I w g states → states[i]? = some state → P.allowed state e →
    guard w g states i state e fate →
    let result := M.perform w e fate
    let state' := M.next w state e result.1 result.2
    P.moves state e result.1 state' ∧ I result.2 (M.note g w state e result.1 result.2) (states.set i state')

variable {M} {P : Protocol σ E Ans} {post : α → σ → Prop} {guard : Guard W G σ F E} {pool : Pool W G σ E Ans α}
  {I : W → G → List σ → Prop}

theorem states_start {call : κ} : states (M.act pool (.start call)) = states pool ++ [M.initial call] := by
  simp [states, act]

variable (M pool) in
theorem act_step_cases (i : Nat) (fate : F) :
    M.act pool (.step i fate) = pool ∧ (∀ guard, Guarded guard pool (.step i fate : Action κ F)) ∨
      ∃ (state : σ) (e : E) (k : Ans e → Prog E Ans α), pool.threads[i]? = some ⟨state, .op e k⟩ ∧
        let result := M.perform pool.world e fate
        M.act pool (.step i fate) =
          ⟨result.2, M.note pool.ghost pool.world state e result.1 result.2,
            pool.threads.set i ⟨M.next pool.world state e result.1 result.2, k result.1⟩⟩ := by
  rcases hthread : pool.threads[i]? with _ | ⟨state, a | ⟨e, k⟩⟩
  · left
    simp only [act, Guarded, hthread, implies_true, and_self]
  · left
    simp only [act, Guarded, hthread, implies_true, and_self]
  · right
    refine ⟨state, e, k, rfl, ?_⟩
    simp only [act, hthread]

/-- The invariant rule of a pool. -/
theorem act_invariant (hprogram : ∀ call, Follows P post (M.program call) (M.initial call))
    (hstart : ∀ w g states call, I w g states → I w g (states ++ [M.initial call])) (hstep : M.StepKeeps P guard I)
    (hI : I pool.world pool.ghost (states pool)) (hfollow : AllFollow P post pool) {action : Action κ F}
    (hguard : Guarded guard pool action) :
    I (M.act pool action).world (M.act pool action).ghost (states (M.act pool action)) ∧
      AllFollow P post (M.act pool action) := by
  rcases action with call | ⟨i, fate⟩
  · rw [states_start]
    refine ⟨hstart _ _ _ _ hI, ?_⟩
    intro thread hthread
    rcases List.mem_append.mp hthread with hthread | hthread
    · exact hfollow thread hthread
    · rw [List.mem_singleton.mp hthread]
      exact hprogram call
  · rcases act_step_cases M pool i fate with ⟨hact, -⟩ | ⟨state, e, k, hthread, hact⟩
    · rw [hact]
      exact ⟨hI, hfollow⟩
    · obtain ⟨hallowed, hrest⟩ := hfollow _ (List.mem_of_getElem? hthread)
      have hstate : (states pool)[i]? = some state := by
        rw [states, List.getElem?_map, hthread]
        rfl
      have hguard' : guard pool.world pool.ghost (states pool) i state e fate := by
        simpa only [Guarded, hthread] using hguard
      obtain ⟨hmove, hI'⟩ := hstep _ _ _ i state e fate hI hstate hallowed hguard'
      rw [hact]
      constructor
      · rw [states, List.map_set]
        exact hI'
      · intro thread hthread
        rcases List.mem_or_eq_of_mem_set hthread with hthread | rfl
        · exact hfollow thread hthread
        · exact hrest _ _ hmove

/-- A run whose effects are guarded keeps the invariant, and its threads the protocol. -/
theorem run_invariant (hprogram : ∀ call, Follows P post (M.program call) (M.initial call))
    (hstart : ∀ w g states call, I w g states → I w g (states ++ [M.initial call])) (hstep : M.StepKeeps P guard I)
    (hI : I pool.world pool.ghost (states pool)) (hfollow : AllFollow P post pool) {actions : List (Action κ F)}
    (hrun : Runs.AllSteps M.act (Guarded guard) pool actions) :
    Runs.AllStates M.act (fun pool => I pool.world pool.ghost (states pool) ∧ AllFollow P post pool) pool actions :=
  hrun.allStates (I := fun pool => I pool.world pool.ghost (states pool) ∧ AllFollow P post pool) ⟨hI, hfollow⟩
    (fun _ _ h hguard => act_invariant hprogram hstart hstep h.1 h.2 hguard) (fun _ h => h)

theorem guarded_trivial {action : Action κ F} : Guarded (fun _ _ _ _ _ _ _ => True) pool action := by
  rcases action with call | ⟨i, fate⟩
  · trivial
  · unfold Guarded
    dsimp only
    split <;> trivial

/-- A guard that is exact for one effect, where the invariant and `Q` hold before it, is exact for whole runs. -/
theorem allStates_iff_allSteps {Q : W → G → List σ → Prop}
    (hprogram : ∀ call, Follows P post (M.program call) (M.initial call))
    (hstart : ∀ w g states call, I w g states → I w g (states ++ [M.initial call]))
    (hstep : M.StepKeeps P (fun _ _ _ _ _ _ _ => True) I)
    (hstartQ : ∀ w g states call, Q w g states → Q w g (states ++ [M.initial call]))
    (hexact : ∀ w g states i state e fate, I w g states → states[i]? = some state → P.allowed state e → Q w g states →
      let result := M.perform w e fate
      let state' := M.next w state e result.1 result.2
      (Q result.2 (M.note g w state e result.1 result.2) (states.set i state') ↔ guard w g states i state e fate))
    (hI : I pool.world pool.ghost (states pool)) (hfollow : AllFollow P post pool)
    (hQ : Q pool.world pool.ghost (states pool)) {actions : List (Action κ F)} :
    Runs.AllStates M.act (fun pool => Q pool.world pool.ghost (states pool)) pool actions ↔
      Runs.AllSteps M.act (Guarded guard) pool actions := by
  have hany : ∀ action ∈ actions, True := fun _ _ => trivial
  refine Runs.allStates_iff_allSteps_of_invariant
    (I := fun pool => I pool.world pool.ghost (states pool) ∧ AllFollow P post pool) hany ?_ ?_ ⟨hI, hfollow⟩ hQ
  · intro pool action _ h
    exact act_invariant hprogram hstart hstep h.1 h.2 guarded_trivial
  · rintro pool action - ⟨hI, hfollow⟩ hQ
    rcases action with call | ⟨i, fate⟩
    · rw [states_start]
      exact iff_of_true (hstartQ _ _ _ _ hQ) trivial
    · rcases act_step_cases M pool i fate with ⟨hact, hguard⟩ | ⟨state, e, k, hthread, hact⟩
      · rw [hact]
        exact iff_of_true hQ (hguard guard)
      · have hstate : (states pool)[i]? = some state := by
          rw [states, List.getElem?_map, hthread]
          rfl
        have hallowed := (hfollow _ (List.mem_of_getElem? hthread)).1
        have hiff := hexact _ _ _ i state e fate hI hstate hallowed hQ
        simp only [Guarded, hthread]
        rw [hact]
        refine Iff.trans ?_ hiff
        rw [states, states, List.map_set]

end System

end Program
