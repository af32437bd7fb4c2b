import Mathlib.Data.List.Basic

/-!
# Logs of frames

A log is a row of frames, one for each record, and maybe a part of one more at its end. A reader
takes one frame after the other and stops where there is none.
-/

namespace FrameLog

variable {β ρ ε : Type}

/-- What a reader finds at the start of what is left. -/
inductive Outcome (β ρ ε : Type)
  | stop
  | frame (record : ρ) (rest : List β)
  | fail (error : ε)

variable (next : List β → Outcome β ρ ε)

/-- Reads at most `fuel` frames. -/
def scan : (fuel : Nat) → List β → Except ε (List ρ)
  | 0, _ => .ok []
  | fuel + 1, bytes =>
    match next bytes with
    | .stop => .ok []
    | .frame record rest => (scan fuel rest).map (record :: ·)
    | .fail error => .error error

/-- Every frame that is read takes something off. -/
def Consumes : Prop := ∀ bytes record rest, next bytes = .frame record rest → rest.length < bytes.length

/-- The log is read to its end. -/
inductive Whole : List β → Prop
  | nil : Whole []
  | frame {bytes rest : List β} {record : ρ} (h : next bytes = .frame record rest) (hrest : Whole rest) : Whole bytes

/-- What is left of the bytes when some of their frames are read. -/
inductive Leaves : List β → List β → Prop
  | here (bytes : List β) : Leaves bytes bytes
  | frame {bytes rest left : List β} {record : ρ} (h : next bytes = .frame record rest) (hrest : Leaves rest left) :
    Leaves bytes left

variable {next} {frame : ρ → List β} {good : ρ → Prop}

theorem scan_fuel (hconsumes : Consumes next) {fuel fuel' : Nat} {bytes : List β} (h : bytes.length < fuel)
    (h' : bytes.length < fuel') : scan next fuel bytes = scan next fuel' bytes := by
  induction fuel generalizing fuel' bytes with
  | zero => omega
  | succ fuel ih =>
    obtain ⟨fuel', rfl⟩ : ∃ n, fuel' = n + 1 := ⟨fuel' - 1, by omega⟩
    unfold scan
    rcases hnext : next bytes with _ | ⟨record, rest⟩ | error
    · rfl
    · have hrest := hconsumes bytes record rest hnext
      have hsame : scan next fuel rest = scan next fuel' rest := ih (by omega) (by omega)
      simp only [hsame]
    · rfl

theorem scan_eq_error_iff (hconsumes : Consumes next) {fuel : Nat} {bytes : List β} (h : bytes.length < fuel)
    {error : ε} : scan next fuel bytes = .error error ↔ ∃ left, Leaves next bytes left ∧ next left = .fail error := by
  induction fuel generalizing bytes with
  | zero => omega
  | succ fuel ih =>
    unfold scan
    rcases hnext : next bytes with _ | ⟨record, rest⟩ | failure
    · constructor
      · rintro ⟨⟩
      · rintro ⟨left, hleft, hfail⟩
        rcases hleft with _ | ⟨hframe, -⟩
        · exact nomatch hnext.symm.trans hfail
        · exact nomatch hnext.symm.trans hframe
    · have hlt := hconsumes bytes record rest hnext
      have hrest := @ih rest (by omega)
      calc (scan next fuel rest).map (record :: ·) = .error error ↔ scan next fuel rest = .error error := by
            cases scan next fuel rest <;> simp [Except.map]
        _ ↔ ∃ left, Leaves next rest left ∧ next left = .fail error := hrest
        _ ↔ ∃ left, Leaves next bytes left ∧ next left = .fail error := by
            constructor
            · rintro ⟨left, hleft, hfail⟩
              exact ⟨left, .frame hnext hleft, hfail⟩
            · rintro ⟨left, hleft, hfail⟩
              rcases hleft with _ | ⟨hframe, hleft⟩
              · exact nomatch hnext.symm.trans hfail
              · cases hnext.symm.trans hframe
                exact ⟨left, hleft, hfail⟩
    · constructor
      · rintro ⟨⟩
        exact ⟨bytes, .here bytes, hnext⟩
      · rintro ⟨left, hleft, hfail⟩
        rcases hleft with _ | ⟨hframe, -⟩
        · cases hnext.symm.trans hfail
          rfl
        · exact nomatch hnext.symm.trans hframe

variable (next frame good) in
/-- A reader of frames: it reads a good frame back whatever follows, and stops at a part of one. -/
structure Reads : Prop where
  back : ∀ record, good record → ∀ rest, next (frame record ++ rest) = .frame record rest
  torn : ∀ record, good record → ∀ tail, tail <+: frame record → tail ≠ frame record → next tail = .stop
  empty : next [] = .stop

variable (frame good) in
/-- Nothing, or a part of a good frame. -/
def Torn (tail : List β) : Prop :=
  tail = [] ∨ ∃ record, good record ∧ tail <+: frame record ∧ tail ≠ frame record

theorem torn_nil : Torn frame good [] := .inl rfl

theorem Reads.stop (h : Reads next frame good) {tail : List β} (htail : Torn frame good tail) : next tail = .stop := by
  rcases htail with rfl | ⟨record, hgood, hpart, hne⟩
  · exact h.empty
  · exact h.torn record hgood tail hpart hne

theorem Reads.scan (h : Reads next frame good) {records : List ρ} (hgood : ∀ record ∈ records, good record)
    {tail : List β} (htail : Torn frame good tail) {fuel : Nat} (hfuel : records.length < fuel) :
    FrameLog.scan next fuel (records.flatMap frame ++ tail) = .ok records := by
  induction records generalizing fuel with
  | nil =>
    obtain ⟨fuel, rfl⟩ : ∃ n, fuel = n + 1 := ⟨fuel - 1, by omega⟩
    rw [List.flatMap_nil, List.nil_append, FrameLog.scan, h.stop htail]
  | cons record records ih =>
    obtain ⟨hrecord, hrecords⟩ := List.forall_mem_cons.mp hgood
    rw [List.length_cons] at hfuel
    obtain ⟨fuel, rfl⟩ : ∃ n, fuel = n + 1 := ⟨fuel - 1, by omega⟩
    rw [List.flatMap_cons, List.append_assoc, FrameLog.scan, h.back record hrecord]
    simp only [ih hrecords (by omega : records.length < fuel)]
    rfl

theorem Reads.scan_append (h : Reads next frame good) {records : List ρ} (hgood : ∀ record ∈ records, good record)
    (tail : List β) (fuel : Nat) :
    FrameLog.scan next (records.length + fuel) (records.flatMap frame ++ tail) =
      (FrameLog.scan next fuel tail).map (records ++ ·) := by
  induction records with
  | nil =>
    rw [List.length_nil, Nat.zero_add, List.flatMap_nil, List.nil_append]
    cases FrameLog.scan next fuel tail <;> rfl
  | cons record records ih =>
    obtain ⟨hrecord, hrecords⟩ := List.forall_mem_cons.mp hgood
    have hfuel : (record :: records).length + fuel = records.length + fuel + 1 := by
      rw [List.length_cons]
      omega
    rw [hfuel, List.flatMap_cons, List.append_assoc, FrameLog.scan, h.back record hrecord]
    simp only [ih hrecords]
    cases FrameLog.scan next fuel tail <;> rfl

theorem Reads.tail_eq_nil (h : Reads next frame good) {records : List ρ} (hgood : ∀ record ∈ records, good record)
    {tail : List β} (htail : Torn frame good tail) (hwhole : Whole next (records.flatMap frame ++ tail)) :
    tail = [] := by
  induction records with
  | nil =>
    have hstop := h.stop htail
    rw [List.flatMap_nil, List.nil_append] at hwhole
    rcases hwhole with _ | ⟨hframe, -⟩
    · rfl
    · rw [hstop] at hframe
      cases hframe
  | cons record records ih =>
    obtain ⟨hrecord, hrecords⟩ := List.forall_mem_cons.mp hgood
    have hback := h.back record hrecord (records.flatMap frame ++ tail)
    rw [List.flatMap_cons, List.append_assoc] at hwhole
    generalize hbytes : frame record ++ (records.flatMap frame ++ tail) = bytes at hwhole hback
    rcases hwhole with _ | ⟨hframe, hrest⟩
    · rw [h.empty] at hback
      cases hback
    · rw [hback] at hframe
      cases hframe
      exact ih hrecords hrest

theorem Reads.whole (h : Reads next frame good) {records : List ρ} (hgood : ∀ record ∈ records, good record) :
    Whole next (records.flatMap frame) := by
  induction records with
  | nil => exact .nil
  | cons record records ih =>
    obtain ⟨hrecord, hrecords⟩ := List.forall_mem_cons.mp hgood
    exact .frame (h.back record hrecord _) (ih hrecords)

theorem take_frames {records : List ρ} (hgood : ∀ record ∈ records, good record) {tail : List β}
    (htail : Torn frame good tail) (n : Nat) :
    ∃ records' tail', (records.flatMap frame ++ tail).take n = records'.flatMap frame ++ tail' ∧
      records' <+: records ∧ Torn frame good tail' := by
  induction records generalizing n with
  | nil =>
    refine ⟨[], tail.take n, rfl, List.prefix_rfl, ?_⟩
    rcases htail with rfl | ⟨record, hrecord, hpart, hne⟩
    · exact .inl List.take_nil
    · refine .inr ⟨record, hrecord, (List.take_prefix n tail).trans hpart, ?_⟩
      intro heq
      have hlength := hpart.length_le
      have htake := congrArg List.length heq
      rw [List.length_take] at htake
      exact hne (hpart.eq_of_length (by omega))
  | cons record records ih =>
    obtain ⟨hrecord, hrecords⟩ := List.forall_mem_cons.mp hgood
    rw [List.flatMap_cons, List.append_assoc]
    rcases Nat.lt_or_ge n (frame record).length with hshort | hlong
    · refine ⟨[], (frame record).take n, ?_, List.nil_prefix, .inr ⟨record, hrecord, List.take_prefix _ _, ?_⟩⟩
      · rw [List.take_append_of_le_length (Nat.le_of_lt hshort)]
        rfl
      · intro heq
        have htake := congrArg List.length heq
        rw [List.length_take] at htake
        omega
    · obtain ⟨records', tail', htake, hpart, htorn⟩ := ih hrecords (n - (frame record).length)
      refine ⟨record :: records', tail', ?_, List.cons_prefix_cons.mpr ⟨rfl, hpart⟩, htorn⟩
      rw [List.take_append, List.take_of_length_le hlong, htake, List.flatMap_cons, List.append_assoc]

end FrameLog
