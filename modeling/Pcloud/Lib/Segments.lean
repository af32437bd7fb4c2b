import Mathlib.Data.List.Induction
import Mathlib.Data.List.Infix
import Mathlib.Logic.Function.Basic

/-!
# Rows of segments

A row of segments as one text, a separator before each, and a walk over segments that goes down to one, goes up
from the last, or stays.
-/

namespace Segments

section Text

variable {α : Type*} {sep : α}

/-- The segments one after the other, each behind a separator. -/
def render (sep : α) (segments : List (List α)) : List α := segments.flatMap (sep :: ·)

/-- The place of the last occurrence. -/
def rfind [DecidableEq α] (a : α) (text : List α) : Option Nat :=
  if a ∈ text then some (text.length - 1 - text.reverse.idxOf a) else none

theorem render_concat (segments : List (List α)) (last : List α) :
    render sep (segments ++ [last]) = render sep segments ++ sep :: last := by
  simp [render]

theorem mem_render {segments : List (List α)} {a : α} (h : a ∈ render sep segments) :
    a = sep ∨ ∃ segment ∈ segments, a ∈ segment := by
  obtain ⟨segment, hsegment, ha⟩ := List.mem_flatMap.mp h
  rcases List.mem_cons.mp ha with rfl | ha
  · exact .inl rfl
  · exact .inr ⟨segment, hsegment, ha⟩

theorem exists_append_sep {text : List α} (h : sep ∈ text) :
    ∃ before last, text = before ++ sep :: last ∧ sep ∉ last := by
  obtain ⟨last, before, htext, hlast⟩ := List.eq_append_cons_of_mem (List.mem_reverse.mpr h)
  refine ⟨before.reverse, last.reverse, ?_, by simpa using hlast⟩
  rw [← List.reverse_reverse text, htext]
  simp

variable [DecidableEq α]

theorem splitOn_render {segments : List (List α)} (h : ∀ segment ∈ segments, sep ∉ segment) :
    (render sep segments).splitOn sep = [] :: segments := by
  induction segments using List.reverseRecOn with
  | nil => rfl
  | append_singleton segments last ih =>
    rw [render_concat, List.splitOn_append_cons_self, ih fun segment hsegment => h segment (by simp [hsegment]),
      List.splitOn_eq_singleton (h last (by simp))]
    rfl

theorem mem_splitOn {text segment : List α} {a : α} (hsegment : segment ∈ text.splitOn sep) (ha : a ∈ segment) :
    a ∈ text ∧ a ≠ sep := by
  induction text generalizing segment with
  | nil =>
    obtain rfl := List.mem_singleton.mp hsegment
    cases ha
  | cons b text ih =>
    rw [List.splitOn_cons_eq_if_modifyHead] at hsegment
    split at hsegment
    · rcases List.mem_cons.mp hsegment with rfl | hsegment
      · cases ha
      · exact (ih hsegment ha).imp_left (List.mem_cons_of_mem _)
    · next hb =>
      cases hsplit : text.splitOn sep with
      | nil => exact absurd hsplit (List.splitOn_ne_nil sep text)
      | cons first rest =>
        rw [hsplit] at hsegment ih
        rcases List.mem_cons.mp hsegment with rfl | hsegment
        · rcases List.mem_cons.mp ha with rfl | ha
          · exact ⟨List.mem_cons_self .., by simpa using hb⟩
          · exact (ih (List.mem_cons_self ..) ha).imp_left (List.mem_cons_of_mem _)
        · exact (ih (List.mem_cons_of_mem _ hsegment) ha).imp_left (List.mem_cons_of_mem _)

theorem rfind_append {text last : List α} (h : sep ∉ last) : rfind sep (text ++ sep :: last) = some text.length := by
  have hidx : (text ++ sep :: last).reverse.idxOf sep = last.length := by
    rw [List.reverse_append, List.reverse_cons, List.append_assoc, List.idxOf_append_of_notMem (by simpa using h)]
    simp
  rw [rfind, if_pos (by simp), hidx, List.length_append, List.length_cons]
  congr 1
  omega

theorem append_sep_inj {text text' last last' : List α} (hlast : sep ∉ last) (hlast' : sep ∉ last')
    (h : text ++ sep :: last = text' ++ sep :: last') : text = text' ∧ last = last' := by
  have hfind : rfind sep (text ++ sep :: last) = some text.length := rfind_append hlast
  rw [h, rfind_append hlast'] at hfind
  obtain ⟨htext, hrest⟩ := List.append_inj h (Option.some.inj hfind).symm
  exact ⟨htext, (List.cons.inj hrest).2⟩

end Text

section Walk

variable {β ε : Type*}

inductive Move
  | stay
  | up
  | down
deriving DecidableEq

/-- One segment: `escape` is the answer of a step up from nowhere. -/
def step (move : β → Move) (escape : ε) (stack : List β) (segment : β) : Except ε (List β) :=
  match move segment with
  | .stay => .ok stack
  | .up => if stack = [] then .error escape else .ok stack.dropLast
  | .down => .ok (stack ++ [segment])

variable {move : β → Move} {escape : ε}

theorem foldlM_down {segments : List β} (h : ∀ segment ∈ segments, move segment = .down) (stack : List β) :
    segments.foldlM (step move escape) stack = .ok (stack ++ segments) := by
  induction segments generalizing stack with
  | nil => rw [List.append_nil]; rfl
  | cons segment segments ih =>
    obtain ⟨hsegment, hrest⟩ := List.forall_mem_cons.mp h
    have hstep : step move escape stack segment = .ok (stack ++ [segment]) := by rw [step, hsegment]
    rw [List.foldlM_cons, hstep]
    show segments.foldlM (step move escape) (stack ++ [segment]) = _
    rw [ih hrest, List.append_assoc]
    rfl

theorem mem_step {stack stack' : List β} {segment : β} (h : step move escape stack segment = .ok stack') :
    ∀ s ∈ stack', s ∈ stack ∨ s = segment ∧ move s = .down := by
  intro s hs
  unfold step at h
  split at h
  · obtain rfl := Except.ok.inj h
    exact .inl hs
  · split at h
    · cases h
    · obtain rfl := Except.ok.inj h
      exact .inl (List.mem_of_mem_dropLast hs)
  · next hdown =>
    obtain rfl := Except.ok.inj h
    rcases List.mem_append.mp hs with hs | hs
    · exact .inl hs
    · obtain rfl := List.mem_singleton.mp hs
      exact .inr ⟨rfl, hdown⟩

theorem mem_foldlM {segments stack stack' : List β} (h : segments.foldlM (step move escape) stack = .ok stack') :
    ∀ s ∈ stack', s ∈ stack ∨ s ∈ segments ∧ move s = .down := by
  induction segments generalizing stack with
  | nil =>
    obtain rfl := Except.ok.inj h
    exact fun s => .inl
  | cons segment segments ih =>
    rw [List.foldlM_cons] at h
    cases hstep : step move escape stack segment with
    | error e => rw [hstep] at h; cases h
    | ok next =>
      rw [hstep] at h
      intro s hs
      rcases ih h s hs with hs | ⟨hs, hdown⟩
      · rcases mem_step hstep s hs with hs | ⟨rfl, hdown⟩
        · exact .inl hs
        · exact .inr ⟨List.mem_cons_self .., hdown⟩
      · exact .inr ⟨List.mem_cons_of_mem _ hs, hdown⟩

theorem foldlM_append_of_ok {segments stack stack' : List β} (rest : List β)
    (h : segments.foldlM (step move escape) stack = .ok stack') :
    (segments ++ rest).foldlM (step move escape) stack = rest.foldlM (step move escape) stack' := by
  rw [List.foldlM_append, h]
  rfl

end Walk

end Segments
