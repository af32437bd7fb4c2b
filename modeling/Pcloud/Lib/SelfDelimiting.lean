import Mathlib.Data.List.Basic

/-!
# Self-delimiting encodings

An encoding is self-delimiting where what follows a word cannot change how it is read: a row of words
is the row of the values in one way only.
-/

variable {α γ β : Type*}

def SelfDelimiting (encode : α → List β) : Prop :=
  ∀ a b rest rest', encode a ++ rest = encode b ++ rest' → a = b ∧ rest = rest'

variable {encode : α → List β} {encode' : γ → List β}

theorem SelfDelimiting.injective (h : SelfDelimiting encode) : Function.Injective encode := by
  intro a b heq
  exact (h a b [] [] (by rw [heq])).1

theorem SelfDelimiting.of_length {n : Nat} (hlength : ∀ a, (encode a).length = n) (hinj : Function.Injective encode) :
    SelfDelimiting encode := by
  intro a b rest rest' h
  obtain ⟨hword, hrest⟩ := List.append_inj h ((hlength a).trans (hlength b).symm)
  exact ⟨hinj hword, hrest⟩

theorem SelfDelimiting.prod (h : SelfDelimiting encode) (h' : SelfDelimiting encode') :
    SelfDelimiting fun p : α × γ => encode p.1 ++ encode' p.2 := by
  rintro ⟨a, c⟩ ⟨b, d⟩ rest rest' heq
  simp only [List.append_assoc] at heq
  obtain ⟨rfl, htail⟩ := h a b _ _ heq
  obtain ⟨rfl, hrest⟩ := h' c d _ _ htail
  exact ⟨rfl, hrest⟩

theorem SelfDelimiting.option (h : SelfDelimiting encode) {absent present : β} (hne : absent ≠ present) :
    SelfDelimiting fun o : Option α => o.elim [absent] fun a => present :: encode a := by
  rintro (_ | a) (_ | b) rest rest' heq
  · exact ⟨rfl, (List.cons.inj heq).2⟩
  · exact absurd (List.cons.inj heq).1 hne
  · exact absurd (List.cons.inj heq).1.symm hne
  · obtain ⟨rfl, hrest⟩ := h a b rest rest' (List.cons.inj heq).2
    exact ⟨rfl, hrest⟩

theorem SelfDelimiting.comp (h : SelfDelimiting encode) {f : γ → α} (hf : Function.Injective f) :
    SelfDelimiting (encode ∘ f) := by
  intro a b rest rest' heq
  obtain ⟨hab, hrest⟩ := h _ _ rest rest' heq
  exact ⟨hf hab, hrest⟩

theorem SelfDelimiting.of_length_before {header : Nat → List β} {width : Nat} (hwidth : ∀ n, (header n).length = width)
    (hinj : Function.Injective encode) (hheader : ∀ a b, header (encode a).length = header (encode b).length →
      (encode a).length = (encode b).length) :
    SelfDelimiting fun a => header (encode a).length ++ encode a := by
  intro a b rest rest' heq
  simp only [List.append_assoc] at heq
  obtain ⟨hhead, htail⟩ := List.append_inj heq ((hwidth _).trans (hwidth _).symm)
  obtain ⟨hword, hrest⟩ := List.append_inj htail (hheader a b hhead)
  exact ⟨hinj hword, hrest⟩
