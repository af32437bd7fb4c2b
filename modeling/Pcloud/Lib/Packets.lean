import Mathlib.Data.List.Basic

/-!
# A stream that comes in packets

What the other side sends comes in pieces of its own choosing. A read takes from the first piece at
most as much as was asked for. Where no piece is empty, reads end at the end of the stream only.
A reader that looks for a mark stops at the first one, so what it takes is a matter of the stream.
-/

namespace Packets

variable {β : Type*} {packets : List (List β)} {want : Nat}

def read (want : Nat) : List (List β) → List β × List (List β)
  | [] => ([], [])
  | packet :: packets =>
    (packet.take want, if packet.length ≤ want then packets else packet.drop want :: packets)

theorem read_append (want : Nat) (packets : List (List β)) :
    (read want packets).1 ++ (read want packets).2.flatten = packets.flatten := by
  rcases packets with _ | ⟨packet, packets⟩
  · rfl
  · unfold read
    dsimp only
    split_ifs with hfits
    · simp [List.take_of_length_le hfits]
    · rw [List.flatten_cons, ← List.append_assoc, List.take_append_drop, List.flatten_cons]

theorem length_read_le (want : Nat) (packets : List (List β)) : (read want packets).1.length ≤ want := by
  rcases packets with _ | ⟨packet, packets⟩
  · exact Nat.zero_le want
  · exact List.length_take_le want packet

/-- No piece is empty. -/
def Full (packets : List (List β)) : Prop := ∀ packet ∈ packets, packet ≠ []

theorem Full.read (h : Full packets) : Full (read want packets).2 := by
  rcases packets with _ | ⟨packet, packets⟩
  · exact h
  · obtain ⟨hpacket, hpackets⟩ := List.forall_mem_cons.mp h
    unfold Packets.read
    dsimp only
    split_ifs with hfits
    · exact hpackets
    · intro piece hpiece
      rcases List.mem_cons.mp hpiece with rfl | hpiece
      · rw [ne_eq, List.drop_eq_nil_iff]
        omega
      · exact hpackets piece hpiece

theorem Full.read_ne_nil (h : Full packets) (hleft : packets.flatten ≠ []) (hwant : 0 < want) :
    (Packets.read want packets).1 ≠ [] := by
  rcases packets with _ | ⟨packet, packets⟩
  · simp at hleft
  · have hpacket := h packet List.mem_cons_self
    unfold Packets.read
    rw [ne_eq, List.take_eq_nil_iff]
    rintro (hzero | hempty)
    · omega
    · exact hpacket hempty

theorem full_filter (packets : List (List β)) : Full (packets.filter (!·.isEmpty)) := by
  intro packet hpacket
  simpa using List.of_mem_filter hpacket

/-! ## Marks -/

variable {mark l m rest rest' stream : List β} {b : β}

/-- No mark is in `l`. -/
def Free (mark l : List β) : Prop := ∀ k ≤ l.length, ¬ mark <:+ l.take k

/-- `l` ends with its first mark. -/
def EndsAt (mark l : List β) : Prop := mark <:+ l ∧ ∀ k < l.length, ¬ mark <:+ l.take k

instance [DecidableEq β] : Decidable (EndsAt mark l) := inferInstanceAs (Decidable (_ ∧ _))

theorem free_nil (hmark : mark ≠ []) : Free mark [] := by
  intro k _ h
  rw [List.take_nil, List.suffix_nil] at h
  exact hmark h

theorem Free.lt_length (h : Free mark l) (hm : mark <:+ m) (heq : l ++ stream = m ++ rest) : l.length < m.length := by
  by_contra hle
  have htake := congrArg (List.take m.length) heq
  rw [List.take_left, List.take_append_of_le_length (by omega)] at htake
  exact h m.length (by omega) (by rwa [htake])

theorem Free.endsAt (h : Free mark l) (hb : mark <:+ l ++ [b]) : EndsAt mark (l ++ [b]) := by
  refine ⟨hb, fun k hk => ?_⟩
  rw [List.length_append, List.length_singleton] at hk
  rw [List.take_append_of_le_length (by omega)]
  exact h k (by omega)

theorem Free.snoc (h : Free mark l) (hb : ¬ mark <:+ l ++ [b]) : Free mark (l ++ [b]) := by
  intro k hk
  rw [List.length_append, List.length_singleton] at hk
  by_cases hlt : k ≤ l.length
  · rw [List.take_append_of_le_length hlt]
    exact h k hlt
  · rw [List.take_of_length_le (by simp; omega)]
    exact hb

theorem EndsAt.length_le (h : EndsAt mark l) (hm : mark <:+ m) (heq : l ++ rest = m ++ rest') :
    l.length ≤ m.length := by
  by_contra hlt
  have htake := congrArg (List.take m.length) heq
  rw [List.take_left, List.take_append_of_le_length (by omega)] at htake
  exact h.2 m.length (by omega) (by rwa [htake])

theorem EndsAt.unique (h : EndsAt mark l) (hm : EndsAt mark m) (heq : l ++ rest = m ++ rest') :
    l = m ∧ rest = rest' := by
  have hlength := Nat.le_antisymm (h.length_le hm.1 heq) (hm.length_le h.1 heq.symm)
  exact List.append_inj heq hlength

end Packets
