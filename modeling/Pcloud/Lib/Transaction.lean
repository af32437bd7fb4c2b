import Pcloud.Lib.Program

/-!
# Transactions on a connection

What is stored, and beside it what an open transaction has made of it. A statement works on the open transaction,
or on what is stored where none is open. Anything may fail, and a failure may also roll the transaction back.
-/

namespace Transaction

open Program

structure Connection (D : Type) where
  stored : D
  pending : Option D := none

inductive Fate
  | works
  | fails
  | rollsBack
deriving DecidableEq, Repr

instance : Inhabited Fate := ⟨.works⟩

inductive Effect (E : Type)
  | begin
  | commit
  | rollback
  | statement (e : E)

variable {D E ε α : Type} {Ans : E → Type}

abbrev Answer (ε : Type) (Ans : E → Type) : Effect E → Type
  | .statement e => Except ε (Ans e)
  | _ => Except ε Unit

namespace Connection

variable (conn : Connection D)

/-- What is not committed is gone. -/
def close : Connection D := { conn with pending := none }

/-- What a statement sees. -/
def current : D := conn.pending.getD conn.stored

def write (d : D) : Connection D :=
  match conn.pending with
  | some _ => { conn with pending := some d }
  | none => { conn with stored := d }

def run (execute : D → (e : E) → Except ε (Ans e) × D) (e : E) : Except ε (Ans e) × Connection D :=
  ((execute conn.current e).1, conn.write (execute conn.current e).2)

@[simp]
theorem current_write (d : D) : (conn.write d).current = d := by
  cases h : conn.pending <;> simp [write, current, h]

end Connection

def refuse (refused : ε) : (e : Effect E) → Answer ε Ans e
  | .begin => .error refused
  | .commit => .error refused
  | .rollback => .error refused
  | .statement _ => .error refused

def perform (execute : D → (e : E) → Except ε (Ans e) × D) (refused : ε) (conn : Connection D) (e : Effect E)
    (fate : Fate) : Answer ε Ans e × Connection D :=
  match fate with
  | .fails => (refuse refused e, conn)
  | .rollsBack => (refuse refused e, conn.close)
  | .works =>
    match e, conn.pending with
    | .begin, none => (.ok (), { conn with pending := some conn.stored })
    | .commit, some d => (.ok (), { stored := d })
    | .rollback, some _ => (.ok (), conn.close)
    | .statement e, _ => conn.run execute e
    | e, _ => (refuse refused e, conn)

abbrev Transactional (E : Type) (Ans : E → Type) (ε α : Type) := Fallible (Effect E) (Answer ε Ans) ε α

def begin : Transactional E Ans ε Unit := ExceptT.mk (Prog.perform Effect.begin)

def commit : Transactional E Ans ε Unit := ExceptT.mk (Prog.perform Effect.commit)

def rollback : Transactional E Ans ε Unit := ExceptT.mk (Prog.perform Effect.rollback)

def statement (e : E) : Transactional E Ans ε (Ans e) := ExceptT.mk (Prog.perform (Effect.statement e))

/-! ## What a transaction leaves of what is stored -/

variable {execute : D → (e : E) → Except ε (Ans e) × D} {refused : ε} {conn : Connection D} {s : D}

/-- A transaction is open, and nothing is stored yet of what it does. -/
def Live (s : D) (conn : Connection D) : Prop := conn.stored = s ∧ conn.pending.isSome

/-- Whatever fails, a program that ends well leaves the transaction open, and one that stops stores nothing. -/
def Inside (execute : D → (e : E) → Except ε (Ans e) × D) (refused : ε) (s : D) (p : Transactional E Ans ε α)
    (conn : Connection D) : Prop :=
  Follows (effects (perform execute refused) fun _ => True)
    (Ends (fun _ => Live s) (fun _ conn' => conn'.stored = s)) p.run conn

theorem inside_pure (h : Live s conn) (a : α) : Inside execute refused s (pure a : Transactional E Ans ε α) conn := h

theorem inside_throw (h : Live s conn) (err : ε) :
    Inside execute refused s (throw err : Transactional E Ans ε α) conn := h.1

theorem inside_bind {β : Type} {p : Transactional E Ans ε α} {f : α → Transactional E Ans ε β}
    (hp : Inside execute refused s p conn) (hf : ∀ a conn, Live s conn → Inside execute refused s (f a) conn) :
    Inside execute refused s (p >>= f) conn :=
  follows_ends_bind hp fun a conn' => hf a conn'

theorem inside_statement (h : Live s conn) (e : E) : Inside execute refused s (statement e) conn := by
  obtain ⟨hstored, hpending⟩ := h
  obtain ⟨d, hd⟩ := Option.isSome_iff_exists.mp hpending
  refine follows_perform_effects.mpr fun fate _ => ?_
  cases fate with
  | fails => exact hstored
  | rollsBack => exact hstored
  | works =>
    show Ends _ _ (execute conn.current e).1 (conn.write (execute conn.current e).2)
    rw [Connection.write, hd]
    cases hans : (execute conn.current e).1 with
    | error err => exact hstored
    | ok a => exact ⟨hstored, rfl⟩

theorem follows_begin (hstored : conn.stored = s) :
    Inside execute refused s (begin : Transactional E Ans ε Unit) conn := by
  refine follows_perform_effects.mpr fun fate _ => ?_
  cases fate with
  | fails => exact hstored
  | rollsBack => exact hstored
  | works =>
    cases hpending : conn.pending with
    | some d =>
      simp only [perform, hpending]
      exact hstored
    | none =>
      simp only [perform, hpending]
      exact ⟨hstored, rfl⟩

theorem follows_commit (hstored : conn.stored = s) :
    Follows (effects (perform execute refused) fun _ => True)
      (Ends (fun _ _ => True) fun _ conn' => conn'.stored = s)
      (commit : Transactional E Ans ε Unit).run conn := by
  refine follows_perform_effects.mpr fun fate _ => ?_
  cases fate with
  | fails => exact hstored
  | rollsBack => exact hstored
  | works =>
    cases hpending : conn.pending with
    | some d => simp only [perform, hpending, Ends]
    | none =>
      simp only [perform, hpending]
      exact hstored

theorem follows_rollback (hstored : conn.stored = s) :
    Follows (effects (perform execute refused) fun _ => True) (fun _ conn' => conn'.stored = s)
      (rollback : Transactional E Ans ε Unit).run conn := by
  refine follows_perform_effects.mpr fun fate _ => ?_
  cases fate with
  | fails => exact hstored
  | rollsBack => exact hstored
  | works =>
    cases hpending : conn.pending with
    | some d =>
      simp only [perform, hpending]
      exact hstored
    | none =>
      simp only [perform, hpending]
      exact hstored

/-! ## Where nothing fails -/

theorem exec_bind_ok {β : Type} {p : Transactional E Ans ε α} {f : α → Transactional E Ans ε β} {a : α}
    {conn' : Connection D} (h : exec (perform execute refused) p.run [] conn = (.ok a, conn')) :
    exec (perform execute refused) (p >>= f).run [] conn = exec (perform execute refused) (f a).run [] conn' := by
  show exec _ (p.run >>= ExceptT.bindCont f) [] conn = _
  rw [exec_bind, h]
  rfl

theorem exec_bind_error {β : Type} {p : Transactional E Ans ε α} {f : α → Transactional E Ans ε β} {err : ε}
    {conn' : Connection D} (h : exec (perform execute refused) p.run [] conn = (.error err, conn')) :
    exec (perform execute refused) (p >>= f).run [] conn = (.error err, conn') := by
  show exec _ (p.run >>= ExceptT.bindCont f) [] conn = _
  rw [exec_bind, h]
  rfl

end Transaction
