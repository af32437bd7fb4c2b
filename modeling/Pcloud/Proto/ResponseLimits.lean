import Mathlib.Algebra.Order.BigOperators.Group.List
import Mathlib.Algebra.Order.Ring.Nat
import Pcloud.Proto.ResponseParser

/-!
# How big a parsed response is

The parser checks its limits on the wire: the depth where a value starts, the length of a string
before it is decoded. This is what they come to on the value.
-/

namespace Pcloud

/-! ## The size of a value -/

namespace Value

mutual

/-- The strings of a value, with its keys. -/
def strings : Value → List String
  | string value => [value]
  | array values => stringsOf values
  | hash values => stringsOfEntries values
  | number _ | bool _ | data _ => []

def stringsOf : List Value → List String
  | [] => []
  | value :: values => value.strings ++ stringsOf values

def stringsOfEntries : List (String × Value) → List String
  | [] => []
  | (key, value) :: values => key :: value.strings ++ stringsOfEntries values

end

mutual

/-- How many containers are one inside the other, at most. -/
def levels : Value → Nat
  | array values => levelsOf values + 1
  | hash values => levelsOfEntries values + 1
  | string _ | number _ | bool _ | data _ => 0

def levelsOf : List Value → Nat
  | [] => 0
  | value :: values => max value.levels (levelsOf values)

def levelsOfEntries : List (String × Value) → Nat
  | [] => 0
  | (_, value) :: values => max value.levels (levelsOfEntries values)

end

mutual

def LengthsWithin (limits : ParseLimits) : Value → Prop
  | array values => values.length ≤ limits.maxArrayLen ∧ AllLengthsWithin limits values
  | hash values => values.length ≤ limits.maxHashLen ∧ EntriesLengthsWithin limits values
  | string _ | number _ | bool _ | data _ => True

def AllLengthsWithin (limits : ParseLimits) : List Value → Prop
  | [] => True
  | value :: values => value.LengthsWithin limits ∧ AllLengthsWithin limits values

def EntriesLengthsWithin (limits : ParseLimits) : List (String × Value) → Prop
  | [] => True
  | (_, value) :: values => value.LengthsWithin limits ∧ EntriesLengthsWithin limits values

end

/-- What the limits promise of a value. -/
structure Respects (limits : ParseLimits) (value : Value) : Prop where
  strings : ∀ text ∈ value.strings, text.utf8ByteSize ≤ limits.maxStringLen
  lengths : value.LengthsWithin limits
  levels : value.levels ≤ limits.maxDepth

def stringBytes (value : Value) : Nat := (value.strings.map String.utf8ByteSize).sum

end Value

/-! ## What the frame itself gives -/

namespace Wire

mutual

def literals : Wire → List Bytes
  | text token => token.raw?.toList
  | scalar _ => []
  | array items => literalsOf items
  | hash entries => literalsOfEntries entries

def literalsOf : List Wire → List Bytes
  | [] => []
  | item :: items => item.literals ++ literalsOf items

def literalsOfEntries : List (Text × Wire) → List Bytes
  | [] => []
  | (key, wire) :: entries => key.raw?.toList ++ wire.literals ++ literalsOfEntries entries

end

mutual

/-- No empty container has `limits.maxDepth` containers or more around it, `depth` being around this one. -/
def NoEmptyAtBottom (limits : ParseLimits) (depth : Nat) : Wire → Prop
  | text _ | scalar _ => True
  | array items => (items = [] → depth < limits.maxDepth) ∧ ItemsNoEmptyAtBottom limits (depth + 1) items
  | hash entries => (entries = [] → depth < limits.maxDepth) ∧ EntriesNoEmptyAtBottom limits (depth + 1) entries

def ItemsNoEmptyAtBottom (limits : ParseLimits) (depth : Nat) : List Wire → Prop
  | [] => True
  | item :: items => item.NoEmptyAtBottom limits depth ∧ ItemsNoEmptyAtBottom limits depth items

def EntriesNoEmptyAtBottom (limits : ParseLimits) (depth : Nat) : List (Text × Wire) → Prop
  | [] => True
  | (_, wire) :: entries => wire.NoEmptyAtBottom limits depth ∧ EntriesNoEmptyAtBottom limits depth entries

end

/-- What the parser does not check: replacement characters may take a string over the limit, and an empty
container is not a value that starts one level deeper. -/
structure Tame (limits : ParseLimits) (wire : Wire) : Prop where
  literals : ∀ raw ∈ wire.literals, fromUtf8 raw = none → (fromUtf8Lossy raw).utf8ByteSize ≤ limits.maxStringLen
  bottom : wire.NoEmptyAtBottom limits 0

end Wire

/-! ## Strings -/

theorem utf8ByteSize_fromUtf8Lossy_le (raw : Bytes) : (fromUtf8Lossy raw).utf8ByteSize ≤ 3 * raw.length := by
  rw [fromUtf8Lossy, Utf8.utf8ByteSize_ofList]
  exact Utf8.size_lossy_le raw

/-! ## The value of a derivation -/

section Denotation

variable {limits : ParseLimits}

/-- A string of `texts` is in the table, or one of the literals of the frame. -/
def ComesFrom (table : List String) (literals : List Bytes) (texts : List String) : Prop :=
  ∀ text ∈ texts, text ∈ table ∨ text ∈ literals.map fromUtf8Lossy

/-- What a derivation adds: strings from the table and from its own literals, all of these included. -/
structure Accounts (table rest : List String) (literals : List Bytes) (texts : List String) : Prop where
  texts_from : ComesFrom table literals texts
  rest_from : ComesFrom table literals rest
  literals_in : ∀ raw ∈ literals, fromUtf8Lossy raw ∈ texts

theorem Accounts.nil (table : List String) : Accounts table table [] [] :=
  ⟨by simp [ComesFrom], fun _ h => .inl h, by simp⟩

theorem Accounts.append {table middle rest : List String} {literals literals' : List Bytes} {texts texts' : List String}
    (h : Accounts table middle literals texts) (h' : Accounts middle rest literals' texts') :
    Accounts table rest (literals ++ literals') (texts ++ texts') := by
  have hmiddle : ∀ text, text ∈ middle ∨ text ∈ literals'.map fromUtf8Lossy →
      text ∈ table ∨ text ∈ (literals ++ literals').map fromUtf8Lossy := by
    intro text htext
    rw [List.map_append, List.mem_append]
    rcases htext with htext | htext
    · rcases h.rest_from text htext with htext | htext
      · exact .inl htext
      · exact .inr (.inl htext)
    · exact .inr (.inr htext)
  constructor
  · intro text htext
    rcases List.mem_append.mp htext with htext | htext
    · rw [List.map_append, List.mem_append]
      rcases h.texts_from text htext with htext | htext
      · exact .inl htext
      · exact .inr (.inl htext)
    · exact hmiddle text (h'.texts_from text htext)
  · intro text htext
    exact hmiddle text (h'.rest_from text htext)
  · intro raw hraw
    rw [List.mem_append] at hraw ⊢
    rcases hraw with hraw | hraw
    · exact .inl (h.literals_in raw hraw)
    · exact .inr (h'.literals_in raw hraw)

theorem accounts_remember (table : List String) (raw : Bytes) :
    Accounts table (remember limits table (fromUtf8Lossy raw)) [raw] [fromUtf8Lossy raw] := by
  refine ⟨by simp [ComesFrom], ?_, by simp⟩
  intro text htext
  unfold remember at htext
  split at htext
  · simpa using htext
  · exact .inl htext

theorem accounts_reuse {table : List String} {id : Nat} {text : String} (h : table[id]? = some text) :
    Accounts table table [] [text] := by
  refine ⟨?_, fun _ h => .inl h, by simp⟩
  intro text' htext
  rw [List.mem_singleton.mp htext]
  exact .inl (List.mem_of_getElem? h)

theorem accounts_text {token : Text} {table rest : List String} {text : String}
    (h : token.denote limits table = some (text, rest)) : Accounts table rest token.raw?.toList [text] := by
  rcases token with ⟨_, raw, _⟩ | ⟨raw, _⟩ | id | id
  · cases h
    exact accounts_remember table raw
  · cases h
    exact accounts_remember table raw
  · obtain ⟨htext, rfl⟩ : table[id.value]? = some text ∧ table = rest := by simpa [Text.denote] using h
    exact accounts_reuse htext
  · obtain ⟨htext, rfl⟩ : table[id.val]? = some text ∧ table = rest := by simpa [Text.denote] using h
    exact accounts_reuse htext

end Denotation

mutual

theorem accounts_wire {limits : ParseLimits} {table rest : List String} {value : Value} : (wire : Wire) →
    wire.denote limits table = some (value, rest) → Accounts table rest wire.literals value.strings
  | .text token, h => by
    obtain ⟨text, _, htoken, ⟨⟩⟩ := Wire.denote_text.mp h
    simpa only [Wire.literals, Value.strings] using accounts_text htoken
  | .scalar token, h => by
    cases h
    rcases token with _ | _ | _ | _ <;>
    exact Accounts.nil table
  | .array items, h => by
    obtain ⟨values, _, hitems, ⟨⟩⟩ := Wire.denote_array.mp h
    simpa only [Wire.literals, Value.strings] using accounts_items items hitems
  | .hash entries, h => by
    obtain ⟨values, _, hentries, ⟨⟩⟩ := Wire.denote_hash.mp h
    simpa only [Wire.literals, Value.strings] using accounts_entries entries hentries

theorem accounts_items {limits : ParseLimits} {table rest : List String} {values : List Value} :
    (items : List Wire) → Wire.denoteItems limits table items = some (values, rest) →
    Accounts table rest (Wire.literalsOf items) (Value.stringsOf values)
  | [], h => by
    cases h
    exact Accounts.nil table
  | item :: items, h => by
    obtain ⟨value, middle, values, _, hitem, hitems, ⟨⟩⟩ := Wire.denoteItems_cons.mp h
    exact (accounts_wire item hitem).append (accounts_items items hitems)

theorem accounts_entries {limits : ParseLimits} {table rest : List String} {values : List (String × Value)} :
    (entries : List (Text × Wire)) → Wire.denoteEntries limits table entries = some (values, rest) →
    Accounts table rest (Wire.literalsOfEntries entries) (Value.stringsOfEntries values)
  | [], h => by
    cases h
    exact Accounts.nil table
  | (key, wire) :: entries, h => by
    obtain ⟨name, _, value, _, values, _, hkey, hwire, hentries, ⟨⟩⟩ := Wire.denoteEntries_cons.mp h
    exact ((accounts_text hkey).append (accounts_wire wire hwire)).append (accounts_entries entries hentries)

end

/-! ## Lengths -/

mutual

theorem lengthsWithin_wire {limits : ParseLimits} {depth : Nat} {table rest : List String} {value : Value} :
    (wire : Wire) → wire.Within limits depth → wire.denote limits table = some (value, rest) →
    value.LengthsWithin limits
  | .text token, _, h => by
    obtain ⟨text, _, _, ⟨⟩⟩ := Wire.denote_text.mp h
    trivial
  | .scalar token, _, h => by
    cases h
    rcases token <;> trivial
  | .array items, hwithin, h => by
    obtain ⟨values, _, hitems, ⟨⟩⟩ := Wire.denote_array.mp h
    obtain ⟨hlen, hall⟩ := lengthsWithin_items items hwithin.2.2 hitems
    exact ⟨hlen ▸ hwithin.2.1, hall⟩
  | .hash entries, hwithin, h => by
    obtain ⟨values, _, hentries, ⟨⟩⟩ := Wire.denote_hash.mp h
    obtain ⟨hlen, hall⟩ := lengthsWithin_entries entries hwithin.2.2 hentries
    exact ⟨hlen ▸ hwithin.2.1, hall⟩

theorem lengthsWithin_items {limits : ParseLimits} {depth : Nat} {table rest : List String} {values : List Value} :
    (items : List Wire) → Wire.ItemsWithin limits depth items → Wire.denoteItems limits table items = some (values, rest) →
    items.length = values.length ∧ Value.AllLengthsWithin limits values
  | [], _, h => by
    cases h
    exact ⟨rfl, trivial⟩
  | item :: items, hwithin, h => by
    obtain ⟨value, middle, values, _, hitem, hitems, ⟨⟩⟩ := Wire.denoteItems_cons.mp h
    obtain ⟨hlen, hall⟩ := lengthsWithin_items items hwithin.2 hitems
    exact ⟨congrArg (· + 1) hlen, lengthsWithin_wire item hwithin.1 hitem, hall⟩

theorem lengthsWithin_entries {limits : ParseLimits} {depth : Nat} {table rest : List String}
    {values : List (String × Value)} : (entries : List (Text × Wire)) → Wire.EntriesWithin limits depth entries →
    Wire.denoteEntries limits table entries = some (values, rest) →
    entries.length = values.length ∧ Value.EntriesLengthsWithin limits values
  | [], _, h => by
    cases h
    exact ⟨rfl, trivial⟩
  | (key, wire) :: entries, hwithin, h => by
    obtain ⟨name, _, value, _, values, _, _, hwire, hentries, ⟨⟩⟩ := Wire.denoteEntries_cons.mp h
    obtain ⟨hlen, hall⟩ := lengthsWithin_entries entries hwithin.2.2 hentries
    exact ⟨congrArg (· + 1) hlen, lengthsWithin_wire wire hwithin.2.1 hwire, hall⟩

end

/-! ## Levels -/

theorem Wire.Within.depth_le {limits : ParseLimits} {depth : Nat} {wire : Wire} (h : wire.Within limits depth) :
    depth ≤ limits.maxDepth := by
  rcases wire with _ | _ | _ | _
  · exact h.1
  · exact h
  · exact h.1
  · exact h.1

mutual

theorem levels_wire {limits : ParseLimits} {depth : Nat} {table rest : List String} {value : Value} :
    (wire : Wire) → wire.Within limits depth → wire.denote limits table = some (value, rest) →
    (value.levels + depth ≤ limits.maxDepth ↔ wire.NoEmptyAtBottom limits depth)
  | .text token, hwithin, h => by
    obtain ⟨text, _, _, ⟨⟩⟩ := Wire.denote_text.mp h
    have := hwithin.depth_le
    simp only [Value.levels, Wire.NoEmptyAtBottom, iff_true]
    omega
  | .scalar token, hwithin, h => by
    cases h
    have := hwithin.depth_le
    rcases token <;> simp only [Scalar.denote, Value.levels, Wire.NoEmptyAtBottom, iff_true] <;> omega
  | .array items, hwithin, h => by
    obtain ⟨values, _, hitems, ⟨⟩⟩ := Wire.denote_array.mp h
    have := levels_items items hwithin.2.2 hitems
    rw [Value.levels, Wire.NoEmptyAtBottom, Nat.add_assoc, Nat.add_comm 1 depth, this, Nat.succ_le_iff]
  | .hash entries, hwithin, h => by
    obtain ⟨values, _, hentries, ⟨⟩⟩ := Wire.denote_hash.mp h
    have := levels_entries entries hwithin.2.2 hentries
    rw [Value.levels, Wire.NoEmptyAtBottom, Nat.add_assoc, Nat.add_comm 1 depth, this, Nat.succ_le_iff]

theorem levels_items {limits : ParseLimits} {depth : Nat} {table rest : List String} {values : List Value} :
    (items : List Wire) → Wire.ItemsWithin limits depth items → Wire.denoteItems limits table items = some (values, rest) →
    (Value.levelsOf values + depth ≤ limits.maxDepth ↔
      (items = [] → depth ≤ limits.maxDepth) ∧ Wire.ItemsNoEmptyAtBottom limits depth items)
  | [], _, h => by
    cases h
    simp [Value.levelsOf, Wire.ItemsNoEmptyAtBottom]
  | item :: items, hwithin, h => by
    obtain ⟨value, middle, values, _, hitem, hitems, ⟨⟩⟩ := Wire.denoteItems_cons.mp h
    have hdepth := hwithin.1.depth_le
    have hvalue := levels_wire item hwithin.1 hitem
    have hvalues := levels_items items hwithin.2 hitems
    simp only [Value.levelsOf, Wire.ItemsNoEmptyAtBottom, reduceCtorEq, false_implies, true_and, ← hvalue]
    simp only [hdepth, implies_true, true_and] at hvalues
    rw [← hvalues]
    omega

theorem levels_entries {limits : ParseLimits} {depth : Nat} {table rest : List String}
    {values : List (String × Value)} : (entries : List (Text × Wire)) → Wire.EntriesWithin limits depth entries →
    Wire.denoteEntries limits table entries = some (values, rest) →
    (Value.levelsOfEntries values + depth ≤ limits.maxDepth ↔
      (entries = [] → depth ≤ limits.maxDepth) ∧ Wire.EntriesNoEmptyAtBottom limits depth entries)
  | [], _, h => by
    cases h
    simp [Value.levelsOfEntries, Wire.EntriesNoEmptyAtBottom]
  | (key, wire) :: entries, hwithin, h => by
    obtain ⟨name, _, value, _, values, _, _, hwire, hentries, ⟨⟩⟩ := Wire.denoteEntries_cons.mp h
    have hdepth := hwithin.2.1.depth_le
    have hvalue := levels_wire wire hwithin.2.1 hwire
    have hvalues := levels_entries entries hwithin.2.2 hentries
    simp only [Value.levelsOfEntries, Wire.EntriesNoEmptyAtBottom, reduceCtorEq, false_implies, true_and, ← hvalue]
    simp only [hdepth, implies_true, true_and] at hvalues
    rw [← hvalues]
    omega

end

/-! ## How many strings -/

theorem Text.encode_pos (text : Text) : 1 ≤ text.encode.length := by
  rcases text with ⟨_, _, _⟩ | ⟨_, _⟩ | _ | _ <;>
  simp [encode]

mutual

theorem length_strings_wire {limits : ParseLimits} {table rest : List String} {value : Value} : (wire : Wire) →
    wire.denote limits table = some (value, rest) → value.strings.length ≤ wire.encode.length
  | .text token, h => by
    obtain ⟨text, _, _, ⟨⟩⟩ := Wire.denote_text.mp h
    rw [Value.strings, Wire.encode]
    exact token.encode_pos
  | .scalar token, h => by
    cases h
    rcases token <;> simp [Scalar.denote, Value.strings]
  | .array items, h => by
    obtain ⟨values, _, hitems, ⟨⟩⟩ := Wire.denote_array.mp h
    have := length_strings_items items hitems
    simp only [Value.strings, Wire.encode, List.length_cons, List.length_append]
    omega
  | .hash entries, h => by
    obtain ⟨values, _, hentries, ⟨⟩⟩ := Wire.denote_hash.mp h
    have := length_strings_entries entries hentries
    simp only [Value.strings, Wire.encode, List.length_cons, List.length_append]
    omega

theorem length_strings_items {limits : ParseLimits} {table rest : List String} {values : List Value} :
    (items : List Wire) → Wire.denoteItems limits table items = some (values, rest) →
    (Value.stringsOf values).length ≤ (Wire.encodeItems items).length
  | [], h => by
    cases h
    simp [Value.stringsOf]
  | item :: items, h => by
    obtain ⟨value, middle, values, _, hitem, hitems, ⟨⟩⟩ := Wire.denoteItems_cons.mp h
    have hvalue := length_strings_wire item hitem
    have hvalues := length_strings_items items hitems
    simp only [Value.stringsOf, Wire.encodeItems, List.length_append]
    omega

theorem length_strings_entries {limits : ParseLimits} {table rest : List String} {values : List (String × Value)} :
    (entries : List (Text × Wire)) → Wire.denoteEntries limits table entries = some (values, rest) →
    (Value.stringsOfEntries values).length ≤ (Wire.encodeEntries entries).length
  | [], h => by
    cases h
    simp [Value.stringsOfEntries]
  | (key, wire) :: entries, h => by
    obtain ⟨name, _, value, _, values, _, _, hwire, hentries, ⟨⟩⟩ := Wire.denoteEntries_cons.mp h
    have hkey := key.encode_pos
    have hvalue := length_strings_wire wire hwire
    have hvalues := length_strings_entries entries hentries
    simp only [Value.stringsOfEntries, Wire.encodeEntries, List.length_cons, List.length_append]
    omega

end

/-! ## The limits on a parsed value -/

theorem Text.length_raw_le {limits : ParseLimits} {text : Text} (h : text.Within limits) :
    ∀ raw ∈ text.raw?.toList, raw.length ≤ limits.maxStringLen := by
  intro raw hraw
  exact h raw (Option.mem_toList.mp hraw)

mutual

theorem length_literals_wire {limits : ParseLimits} {depth : Nat} : (wire : Wire) → wire.Within limits depth →
    ∀ raw ∈ wire.literals, raw.length ≤ limits.maxStringLen
  | .text token, hwithin => by
    rw [Wire.literals]
    exact Text.length_raw_le hwithin.2
  | .scalar token, _ => by simp [Wire.literals]
  | .array items, hwithin => by
    rw [Wire.literals]
    exact length_literals_items items hwithin.2.2
  | .hash entries, hwithin => by
    rw [Wire.literals]
    exact length_literals_entries entries hwithin.2.2

theorem length_literals_items {limits : ParseLimits} {depth : Nat} : (items : List Wire) →
    Wire.ItemsWithin limits depth items → ∀ raw ∈ Wire.literalsOf items, raw.length ≤ limits.maxStringLen
  | [], _ => by simp [Wire.literalsOf]
  | item :: items, hwithin => by
    rw [Wire.literalsOf, List.forall_mem_append]
    exact ⟨length_literals_wire item hwithin.1, length_literals_items items hwithin.2⟩

theorem length_literals_entries {limits : ParseLimits} {depth : Nat} : (entries : List (Text × Wire)) →
    Wire.EntriesWithin limits depth entries → ∀ raw ∈ Wire.literalsOfEntries entries, raw.length ≤ limits.maxStringLen
  | [], _ => by simp [Wire.literalsOfEntries]
  | (key, wire) :: entries, hwithin => by
    rw [Wire.literalsOfEntries, List.forall_mem_append, List.forall_mem_append]
    exact ⟨⟨Text.length_raw_le hwithin.1, length_literals_wire wire hwithin.2.1⟩,
      length_literals_entries entries hwithin.2.2⟩

end

section Parsed

variable {limits : ParseLimits} {bytes : Bytes} {value : Value} {wire : Wire} {table : List String}

theorem IsFrame.string_from (hdenote : wire.denote limits [] = some (value, table)) {text : String}
    (h : text ∈ value.strings) : ∃ raw ∈ wire.literals, fromUtf8Lossy raw = text := by
  rcases (accounts_wire wire hdenote).texts_from text h with htable | hliteral
  · exact absurd htable List.not_mem_nil
  · exact List.mem_map.mp hliteral

theorem IsFrame.strings_iff (hframe : IsFrame limits bytes wire) (hdenote : wire.denote limits [] = some (value, table)) :
    (∀ text ∈ value.strings, text.utf8ByteSize ≤ limits.maxStringLen) ↔
      ∀ raw ∈ wire.literals, fromUtf8 raw = none → (fromUtf8Lossy raw).utf8ByteSize ≤ limits.maxStringLen := by
  constructor
  · intro h raw hraw _
    exact h _ ((accounts_wire wire hdenote).literals_in raw hraw)
  · intro h text htext
    obtain ⟨raw, hraw, rfl⟩ := IsFrame.string_from hdenote htext
    cases hutf8 : fromUtf8 raw with
    | none => exact h raw hraw hutf8
    | some text =>
      obtain ⟨hlossy, hsize⟩ := fromUtf8Lossy_of_fromUtf8 hutf8
      rw [hlossy, hsize]
      exact length_literals_wire wire hframe.within raw hraw

theorem IsFrame.respects_iff (hframe : IsFrame limits bytes wire) (hdenote : wire.denote limits [] = some (value, table)) :
    value.Respects limits ↔ wire.Tame limits := by
  have hstrings := hframe.strings_iff hdenote
  have hlevels : value.levels ≤ limits.maxDepth ↔ wire.NoEmptyAtBottom limits 0 := levels_wire wire hframe.within hdenote
  constructor
  · intro h
    exact ⟨hstrings.mp h.strings, hlevels.mp h.levels⟩
  · intro h
    exact ⟨hstrings.mpr h.literals, lengthsWithin_wire wire hframe.within hdenote, hlevels.mpr h.bottom⟩

theorem parseResponseFrame_array_nil :
    parseResponseFrame [2, 0, 0, 0, 17, 255] { maxDepth := 0 } = .ok (.array []) := by
  rw [parseResponseFrame_eq_ok]
  exact ⟨.array [], [], ⟨by decide, by decide, by decide, by decide, by decide, by decide, trivial⟩, rfl⟩

theorem parseResponseFrame_replacement :
    parseResponseFrame [2, 0, 0, 0, 101, 255] { maxStringLen := 1 } = .ok (.string "\uFFFD") := by
  rw [parseResponseFrame_eq_ok]
  refine ⟨.text (.shortLiteral [255] (by decide)), ["\uFFFD"], ⟨by decide, by decide, by decide, by decide, by decide, ?_⟩, rfl⟩
  rintro _ ⟨⟩
  decide

/-- The limits are kept but for text that grows where it is not UTF-8, and for empty containers at the bottom. -/
theorem parseResponseFrame_respects_iff (limits : ParseLimits) (bytes : Bytes) (value : Value)
    (h : parseResponseFrame bytes limits = .ok value) :
    ∃ wire, IsFrame limits bytes wire ∧ (value.Respects limits ↔ wire.Tame limits) := by
  obtain ⟨wire, table, hframe, hdenote⟩ := parseResponseFrame_eq_ok.mp h
  exact ⟨wire, hframe, hframe.respects_iff hdenote⟩

theorem parseResponseFrame_respects_iff_array_nil :
    ∃ wire, IsFrame { maxDepth := 0 } [2, 0, 0, 0, 17, 255] wire ∧
      ((Value.array []).Respects { maxDepth := 0 } ↔ wire.Tame { maxDepth := 0 }) :=
  parseResponseFrame_respects_iff _ _ _ parseResponseFrame_array_nil

/-- An empty array has one level where none is allowed, and one byte becomes the three of a replacement character. -/
theorem not_parsed_respects :
    (parseResponseFrame [2, 0, 0, 0, 17, 255] { maxDepth := 0 } = .ok (.array []) ∧
      ¬ (Value.array []).Respects { maxDepth := 0 }) ∧
    (parseResponseFrame [2, 0, 0, 0, 101, 255] { maxStringLen := 1 } = .ok (.string "\uFFFD") ∧
      ¬ (Value.string "\uFFFD").Respects { maxStringLen := 1 }) := by
  refine ⟨⟨parseResponseFrame_array_nil, ?_⟩, ⟨parseResponseFrame_replacement, ?_⟩⟩
  · intro h
    exact absurd h.levels (by decide)
  · intro h
    exact absurd (h.strings "\uFFFD" (by simp [Value.strings])) (by decide)

/-! ## The bytes of a parsed value -/

theorem sum_le_of_forall_le {sizes : List Nat} {bound : Nat} (h : ∀ size ∈ sizes, size ≤ bound) :
    sizes.sum ≤ bound * sizes.length := by
  rw [Nat.mul_comm]
  exact List.sum_le_card_nsmul sizes bound h

theorem stringBytes_le (h : parseResponseFrame bytes limits = .ok value) :
    value.stringBytes ≤ 3 * limits.maxStringLen * frameLen bytes := by
  obtain ⟨wire, table, hframe, hdenote⟩ := parseResponseFrame_eq_ok.mp h
  have hsize : ∀ size ∈ value.strings.map String.utf8ByteSize, size ≤ 3 * limits.maxStringLen := by
    intro size hsize
    obtain ⟨text, htext, rfl⟩ := List.mem_map.mp hsize
    obtain ⟨raw, hraw, rfl⟩ := IsFrame.string_from hdenote htext
    have hlossy := utf8ByteSize_fromUtf8Lossy_le raw
    have hlen := length_literals_wire wire hframe.within raw hraw
    omega
  have hcount : value.strings.length ≤ frameLen bytes :=
    calc value.strings.length ≤ wire.encode.length := length_strings_wire wire hdenote
      _ = frameLen bytes := Nat.add_left_cancel (hframe.spells.stop_eq.symm)
  calc value.stringBytes ≤ 3 * limits.maxStringLen * (value.strings.map String.utf8ByteSize).length :=
        sum_le_of_forall_le hsize
    _ ≤ 3 * limits.maxStringLen * frameLen bytes := by
        rw [List.length_map]
        exact Nat.mul_le_mul_left _ hcount

/-- A reference costs a byte or more and stands for three times the longest string at most, so the default limits
bound a value by its frame. -/
theorem exists_stringBytes_le :
    ∃ c, ∀ bytes value, parseResponseFrame bytes {} = .ok value → value.stringBytes ≤ c * frameLen bytes :=
  ⟨3 * 65536, fun _ _ h => stringBytes_le h⟩

end Parsed

end Pcloud
