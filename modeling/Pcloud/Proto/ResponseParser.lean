import Pcloud.Proto.ResponseGrammar

/-!
# The parser and its grammar

The parser accepts the frames of the grammar, each with its meaning, and looks at nothing after
them.
-/

open Span

namespace Pcloud

/-! ## What a reading spells -/

section Reads

variable {bytes : Bytes} {cursor start stop : Nat} {α β : Type}

def Reads (x : Except ResponseParseError (Reading bytes cursor α)) (a : α) (stop : Nat) : Prop :=
  ∃ reading, x = .ok reading ∧ reading.value = a ∧ reading.stop = stop

theorem Reads.forward {x : Except ResponseParseError (Reading bytes cursor α)} {a : α} (h : Reads x a stop) :
    cursor ≤ stop := by
  obtain ⟨reading, _, _, rfl⟩ := h
  exact reading.forward

theorem Reads.inside {x : Except ResponseParseError (Reading bytes cursor α)} {a : α} (h : Reads x a stop) :
    stop ≤ bytes.length := by
  obtain ⟨reading, _, _, rfl⟩ := h
  exact reading.inside

theorem reads_pure {a b : α} {next : Nat} {hforward : cursor ≤ next} {hinside : next ≤ bytes.length} :
    Reads (pure ⟨a, next, hforward, hinside⟩ : Except ResponseParseError (Reading bytes cursor α)) b stop ↔
      a = b ∧ next = stop := by
  constructor
  · rintro ⟨_, ⟨⟩, ha, hnext⟩
    exact ⟨ha, hnext⟩
  · rintro ⟨ha, hnext⟩
    exact ⟨_, rfl, ha, hnext⟩

theorem not_reads_error {err : ResponseParseError} {a : α} :
    ¬ Reads (.error err : Except ResponseParseError (Reading bytes cursor α)) a stop := by
  rintro ⟨_, ⟨⟩, _⟩

theorem reads_bind {x : Except ResponseParseError (Reading bytes start α)}
    {f : Reading bytes start α → Except ResponseParseError (Reading bytes cursor β)} {b : β} :
    Reads (x >>= f) b stop ↔
      ∃ a next hforward hinside, Reads x a next ∧ Reads (f ⟨a, next, hforward, hinside⟩) b stop := by
  cases x with
  | error err =>
    constructor
    · intro h
      exact absurd h not_reads_error
    · rintro ⟨_, _, _, _, ⟨_, ⟨⟩, _⟩, _⟩
  | ok reading =>
    obtain ⟨a, next, hforward, hinside⟩ := reading
    constructor
    · intro h
      exact ⟨a, next, hforward, hinside, ⟨_, rfl, rfl, rfl⟩, h⟩
    · rintro ⟨_, _, _, _, ⟨_, ⟨⟩, rfl, rfl⟩, h⟩
      exact h

theorem reads_since {x : Except ResponseParseError (Reading bytes start α)} {h : cursor ≤ start} {a : α} :
    Reads (x >>= fun reading => pure (reading.since cursor h)) a stop ↔ Reads x a stop := by
  rw [reads_bind]
  constructor
  · rintro ⟨_, _, _, _, hx, hpure⟩
    obtain ⟨rfl, rfl⟩ := reads_pure.mp hpure
    exact hx
  · rintro ⟨reading, rfl, rfl, rfl⟩
    exact ⟨_, _, reading.forward, reading.inside, ⟨_, rfl, rfl, rfl⟩, reads_pure.mpr ⟨rfl, rfl⟩⟩

theorem reads_ite {p : Prop} [Decidable p] {x y : Except ResponseParseError (Reading bytes cursor α)} {a : α} :
    Reads (if p then x else y) a stop ↔ (p ∧ Reads x a stop) ∨ (¬ p ∧ Reads y a stop) := by
  split <;> simp [*]

theorem reads_map {x : Except ResponseParseError (Reading bytes cursor α)} {f : α → β} {b : β} :
    Reads (x >>= fun reading => pure (reading.map f)) b stop ↔ ∃ a, Reads x a stop ∧ f a = b := by
  rw [reads_bind]
  constructor
  · rintro ⟨a, _, _, _, hx, hpure⟩
    obtain ⟨rfl, rfl⟩ := reads_pure.mp hpure
    exact ⟨a, hx, rfl⟩
  · rintro ⟨_, ⟨reading, rfl, rfl, rfl⟩, rfl⟩
    exact ⟨_, _, reading.forward, reading.inside, ⟨_, rfl, rfl, rfl⟩, reads_pure.mpr ⟨rfl, rfl⟩⟩

theorem reads_readU8 {byte : UInt8} : Reads (readU8 bytes cursor) byte stop ↔ Spells bytes cursor [byte] stop := by
  rw [spells_singleton]
  unfold readU8
  split
  next h =>
    show Reads (pure ⟨bytes[cursor], cursor + 1, _, h⟩) byte stop ↔ _
    rw [reads_pure, List.getElem?_eq_getElem h, Option.some_inj, eq_comm (a := cursor + 1)]
  next h =>
    simp only [List.getElem?_eq_none (Nat.le_of_not_lt h), reduceCtorEq, false_and, iff_false]
    exact not_reads_error

/-! ## Numbers -/

theorem toNat_or_shift {value : UInt64} {k : Nat} (byte : UInt8) (hk : k < 8) (hvalue : value.toNat < 2 ^ (8 * k)) :
    (value ||| byte.toUInt64 <<< UInt64.ofNat (k * 8)).toNat = value.toNat + 2 ^ (8 * k) * byte.toNat := by
  have hbyte := byte.toNat_lt
  have hamount : (UInt64.ofNat (k * 8)).toNat % 64 = 8 * k := by
    rw [UInt64.toNat_ofNat']
    omega
  have hfits : byte.toNat * 2 ^ (8 * k) < 2 ^ 64 :=
    calc byte.toNat * 2 ^ (8 * k) < 2 ^ 8 * 2 ^ (8 * k) := Nat.mul_lt_mul_of_pos_right hbyte (Nat.two_pow_pos _)
      _ = 2 ^ (8 + 8 * k) := (Nat.pow_add 2 8 (8 * k)).symm
      _ ≤ 2 ^ 64 := Nat.pow_le_pow_right (by omega) (by omega)
  rw [UInt64.toNat_or, UInt64.toNat_shiftLeft, hamount, UInt8.toNat_toUInt64, Nat.shiftLeft_eq, Nat.mod_eq_of_lt hfits,
    Nat.or_comm, Nat.mul_comm byte.toNat, ← Nat.two_pow_add_eq_or_of_lt hvalue, Nat.add_comm]

theorem toNat_foldl_or (bytes : Bytes) (k : Nat) (value : UInt64) (hk : k + bytes.length ≤ 8)
    (hvalue : value.toNat < 2 ^ (8 * k)) :
    ((bytes.zipIdx k).foldl (fun value byte => value ||| byte.1.toUInt64 <<< UInt64.ofNat (byte.2 * 8)) value).toNat =
      value.toNat + 2 ^ (8 * k) * LittleEndian.value bytes := by
  induction bytes generalizing k value with
  | nil => simp
  | cons byte bytes ih =>
    rw [List.length_cons] at hk
    have hbyte := byte.toNat_lt
    have hstep := toNat_or_shift byte (show k < 8 by omega) hvalue
    have hpow : 2 ^ (8 * (k + 1)) = 2 ^ (8 * k) * 256 := Nat.pow_add 2 (8 * k) 8
    have hnext : (value ||| byte.toUInt64 <<< UInt64.ofNat (k * 8)).toNat < 2 ^ (8 * (k + 1)) := by
      have hmul : 2 ^ (8 * k) * (byte.toNat + 1) ≤ 2 ^ (8 * k) * 256 := Nat.mul_le_mul_left _ hbyte
      rw [Nat.mul_add] at hmul
      omega
    rw [List.zipIdx_cons, List.foldl_cons, ih (k + 1) _ (by omega) hnext, hstep, hpow, LittleEndian.value_cons,
      Nat.mul_add, Nat.mul_assoc, Nat.add_assoc]

theorem toNat_orBytes {bytes : Bytes} (h : bytes.length ≤ 8) : (orBytes bytes).toNat = LittleEndian.value bytes := by
  unfold orBytes
  rw [toNat_foldl_or bytes 0 0 (by omega) (by simp)]
  simp
theorem reads_readVarU64 {len : Nat} {n : UInt64} :
    Reads (readVarU64 bytes cursor len) n stop ↔
      ∃ digits : Field 8, digits.len = len ∧ Spells bytes cursor digits.bytes stop ∧ n.toNat = digits.value := by
  unfold readVarU64
  split
  next h =>
    constructor
    · intro hread
      exact absurd hread not_reads_error
    · rintro ⟨digits, rfl, _⟩
      have := digits.nonempty
      have := digits.short
      unfold Field.len at h
      omega
  next h =>
    have hlen : 0 < len ∧ len ≤ 8 := by omega
    split
    next hinside =>
      have hslice := spells_slice hinside
      have hwidth : ((bytes.drop cursor).take len).length = len := by
        simp only [List.length_take, List.length_drop]
        omega
      have hvalue := toNat_orBytes (hwidth ▸ hlen.2)
      show Reads (pure ⟨_, cursor + len, _, hinside⟩) n stop ↔ _
      rw [reads_pure]
      constructor
      · rintro ⟨rfl, rfl⟩
        exact ⟨⟨_, by omega, by omega⟩, hwidth, hslice, hvalue⟩
      · rintro ⟨digits, hdigits, hspells, hn⟩
        obtain ⟨hbytes, rfl⟩ := hspells.unique hslice (hdigits.trans hwidth.symm)
        refine ⟨UInt64.toNat_inj.mp (hvalue.trans ?_), rfl⟩
        rw [hn, Field.value, hbytes]
    next hinside =>
      constructor
      · intro hread
        exact absurd hread not_reads_error
      · rintro ⟨digits, rfl, hspells, _⟩
        have hfits : cursor + digits.len ≤ bytes.length := hspells.stop_eq ▸ hspells.inside
        exact absurd hfits hinside

theorem reads_readVarU32 {len : Nat} {n : UInt32} (hlen : len ≤ 4) :
    Reads (readVarU32 bytes cursor len) n stop ↔
      ∃ digits : Field 4, digits.len = len ∧ Spells bytes cursor digits.bytes stop ∧ n.toNat = digits.value := by
  unfold readVarU32
  rw [reads_map]
  constructor
  · rintro ⟨wide, hread, rfl⟩
    obtain ⟨digits, rfl, hspells, hwide⟩ := reads_readVarU64.mp hread
    -- The cast to `u32` keeps what at most four bytes spell.
    have hpow : 256 ^ digits.bytes.length ≤ 256 ^ 4 := Nat.pow_le_pow_right (by omega) hlen
    have hsmall : digits.value < 2 ^ 32 := Nat.lt_of_lt_of_le (LittleEndian.value_lt digits.bytes) hpow
    refine ⟨⟨digits.bytes, digits.nonempty, hlen⟩, rfl, hspells, ?_⟩
    rw [UInt64.toNat_toUInt32, hwide, Nat.mod_eq_of_lt hsmall]
    rfl
  · rintro ⟨digits, hdigits, hspells, hn⟩
    have hshort := digits.short
    refine ⟨n.toUInt64, reads_readVarU64.mpr ⟨⟨digits.bytes, digits.nonempty, by omega⟩, hdigits, hspells, ?_⟩, ?_⟩
    · rw [UInt32.toNat_toUInt64, hn]
      rfl
    · exact UInt32.toUInt32_toUInt64 n

theorem reads_readString {limits : ParseLimits} {len : Nat} {reused : List String} {result : Value × List String} :
    Reads (readString limits bytes cursor len reused) result stop ↔
      len ≤ limits.maxStringLen ∧
        ∃ raw, raw.length = len ∧ Spells bytes cursor raw stop ∧
          (.string (fromUtf8Lossy raw), remember limits reused (fromUtf8Lossy raw)) = result := by
  unfold readString
  split
  next h =>
    constructor
    · intro hread
      exact absurd hread not_reads_error
    · omega
  next h =>
    simp only [Nat.le_of_not_lt h, true_and]
    split
    next hinside =>
      have hslice := spells_slice hinside
      have hwidth : ((bytes.drop cursor).take len).length = len := by
        simp only [List.length_take, List.length_drop]
        omega
      show Reads (pure ⟨_, cursor + len, _, hinside⟩) result stop ↔ _
      rw [reads_pure]
      constructor
      · rintro ⟨rfl, rfl⟩
        exact ⟨_, hwidth, hslice, rfl⟩
      · rintro ⟨raw, hraw, hspells, rfl⟩
        obtain ⟨rfl, rfl⟩ := hspells.unique hslice (hraw.trans hwidth.symm)
        exact ⟨rfl, rfl⟩
    next hinside =>
      constructor
      · intro hread
        exact absurd hread not_reads_error
      · rintro ⟨raw, rfl, hspells, _⟩
        rw [← hspells.stop_eq] at hinside
        exact absurd hspells.inside hinside

theorem reads_reuse {reused : List String} {id : Nat} {a : α} {f : Value → Except ResponseParseError (Reading bytes cursor α)} :
    Reads (reuse reused id >>= f) a stop ↔ ∃ text, reused[id]? = some text ∧ Reads (f (.string text)) a stop := by
  unfold reuse
  cases hid : reused[id]? with
  | none =>
    simp only [reduceCtorEq, false_and, exists_false, iff_false]
    exact not_reads_error
  | some text =>
    simp only [Option.some.injEq, exists_eq_left']
    rfl

end Reads

/-! ## The arms of the parser -/

section Arms

variable {limits : ParseLimits} {bytes : Bytes} {cursor depth start stop : Nat} {reused : List String}
  {result : Value × List String}

-- The attribute has the equations of the two made here, once for all the proofs below.
attribute [local simp] parseValue parsePayload in
theorem reads_parseValue {result : Value × List String} :
    Reads (parseValue limits bytes cursor depth reused) result stop ↔
      depth ≤ limits.maxDepth ∧
        ∃ (tag : RparamTag) (start : Nat) (hinside : start ≤ bytes.length), tag.InRange ∧
          Spells bytes cursor [tag.byte] start ∧
          Reads (parsePayload limits bytes depth tag start hinside reused) result stop := by
  rw [parseValue, reads_ite, reads_bind]
  constructor
  · rintro (⟨_, h⟩ | ⟨hdepth, byte, start, _, hinside, hbyte, h⟩)
    · exact absurd h not_reads_error
    refine ⟨Nat.le_of_not_lt hdepth, ?_⟩
    rw [reads_readU8] at hbyte
    dsimp only at h
    split at h
    next tag htag =>
      obtain ⟨rfl, hrange⟩ := RparamTag.ofNat?_eq_some.mp htag
      exact ⟨tag, start, hinside, hrange, hbyte, reads_since.mp h⟩
    next => exact absurd h not_reads_error
  · rintro ⟨hdepth, tag, start, hinside, hrange, hbyte, h⟩
    refine .inr ⟨Nat.not_lt_of_le hdepth, tag.byte, start, (Nat.le_of_eq hbyte.stop_eq.symm), hinside, reads_readU8.mpr hbyte, ?_⟩
    dsimp only
    rw [RparamTag.ofNat?_eq_some.mpr ⟨rfl, hrange⟩]
    exact reads_since.mpr h
section Payload

variable {hinside : start ≤ bytes.length}

theorem reads_str {lenLen : Nat} (hlen : lenLen ≤ 4) :
    Reads (parsePayload limits bytes depth (.str lenLen) start hinside reused) result stop ↔
      ∃ (length : Field 4) (raw : Bytes), length.len = lenLen ∧ length.value = raw.length ∧
        raw.length ≤ limits.maxStringLen ∧ Spells bytes start (length.bytes ++ raw) stop ∧
        (.string (fromUtf8Lossy raw), remember limits reused (fromUtf8Lossy raw)) = result := by
  rw [parsePayload, reads_bind]
  simp only [reads_since, reads_readVarU32 hlen, reads_readString, spells_append]
  constructor
  · rintro ⟨len, next, _, _, ⟨length, hlength, hspells, hvalue⟩, hmax, raw, hraw, hrest, hresult⟩
    exact ⟨length, raw, hlength, hvalue.symm.trans hraw.symm, hraw ▸ hmax, ⟨next, hspells, hrest⟩, hresult⟩
  · rintro ⟨length, raw, hlength, hvalue, hmax, ⟨next, hspells, hrest⟩, hresult⟩
    have hsmall : length.value < 2 ^ 32 := length.value_lt
    have hnat : (UInt32.ofNat length.value).toNat = length.value := UInt32.toNat_ofNat_of_lt' hsmall
    refine ⟨UInt32.ofNat length.value, next, hspells.forward, hspells.inside, ⟨length, hlength, hspells, hnat⟩, ?_⟩
    rw [hnat]
    exact ⟨hvalue ▸ hmax, raw, hvalue.symm, hrest, hresult⟩

theorem reads_rstr {lenLen : Nat} (hlen : lenLen ≤ 4) :
    Reads (parsePayload limits bytes depth (.rstr lenLen) start hinside reused) result stop ↔
      ∃ id : Field 4, id.len = lenLen ∧ Spells bytes start id.bytes stop ∧
        ∃ text, reused[id.value]? = some text ∧ (.string text, reused) = result := by
  rw [parsePayload, reads_bind]
  simp only [reads_reuse, reads_pure, reads_readVarU32 hlen]
  constructor
  · rintro ⟨n, next, _, _, ⟨id, hid, hspells, hvalue⟩, text, htext, hresult, rfl⟩
    exact ⟨id, hid, hspells, text, hvalue ▸ htext, hresult⟩
  · rintro ⟨id, hid, hspells, text, htext, hresult⟩
    have hsmall : id.value < 2 ^ 32 := id.value_lt
    have hnat : (UInt32.ofNat id.value).toNat = id.value := UInt32.toNat_ofNat_of_lt' hsmall
    refine ⟨UInt32.ofNat id.value, stop, hspells.forward, hspells.inside, ⟨id, hid, hspells, hnat⟩, text, ?_, hresult, rfl⟩
    rw [hnat, htext]

theorem reads_num {lenLen : Nat} :
    Reads (parsePayload limits bytes depth (.num lenLen) start hinside reused) result stop ↔
      ∃ digits : Field 8, digits.len = lenLen ∧ Spells bytes start digits.bytes stop ∧
        (.number (UInt64.ofNat digits.value), reused) = result := by
  rw [parsePayload, reads_bind]
  simp only [reads_pure, reads_readVarU64]
  constructor
  · rintro ⟨n, next, _, _, ⟨digits, hdigits, hspells, hvalue⟩, hresult, rfl⟩
    refine ⟨digits, hdigits, hspells, ?_⟩
    rw [← hvalue, UInt64.ofNat_toNat, hresult]
  · rintro ⟨digits, hdigits, hspells, hresult⟩
    have hsmall : digits.value < 2 ^ 64 := digits.value_lt
    exact ⟨_, stop, hspells.forward, hspells.inside,
      ⟨digits, hdigits, hspells, UInt64.toNat_ofNat_of_lt' hsmall⟩, hresult, rfl⟩

theorem reads_data :
    Reads (parsePayload limits bytes depth .data start hinside reused) result stop ↔
      ∃ digits : Bytes, digits.length = 8 ∧ Spells bytes start digits stop ∧
        (.data (UInt64.ofNat (LittleEndian.value digits)), reused) = result := by
  rw [parsePayload, reads_bind]
  simp only [reads_pure, reads_readVarU64]
  constructor
  · rintro ⟨n, next, _, _, ⟨digits, hdigits, hspells, hvalue⟩, hresult, rfl⟩
    refine ⟨digits.bytes, hdigits, hspells, ?_⟩
    rw [← hresult, ← UInt64.ofNat_toNat (x := n), hvalue]
    rfl
  · rintro ⟨digits, hdigits, hspells, hresult⟩
    let field : Field 8 := ⟨digits, by omega, by omega⟩
    have hsmall : field.value < 2 ^ 64 := field.value_lt
    exact ⟨_, stop, hspells.forward, hspells.inside,
      ⟨field, hdigits, hspells, UInt64.toNat_ofNat_of_lt' hsmall⟩, hresult, rfl⟩

theorem reads_shortStr {n : Nat} :
    Reads (parsePayload limits bytes depth (.shortStr n) start hinside reused) result stop ↔
      ∃ raw : Bytes, raw.length = n ∧ raw.length ≤ limits.maxStringLen ∧ Spells bytes start raw stop ∧
        (.string (fromUtf8Lossy raw), remember limits reused (fromUtf8Lossy raw)) = result := by
  rw [parsePayload, reads_readString]
  constructor
  · rintro ⟨hmax, raw, rfl, h⟩
    exact ⟨raw, rfl, hmax, h⟩
  · rintro ⟨raw, rfl, hmax, h⟩
    exact ⟨hmax, raw, rfl, h⟩

theorem reads_shortRstr {id : Nat} :
    Reads (parsePayload limits bytes depth (.shortRstr id) start hinside reused) result stop ↔
      (∃ text, reused[id]? = some text ∧ (.string text, reused) = result) ∧ start = stop := by
  rw [parsePayload]
  simp only [reads_reuse, reads_pure]
  grind

theorem reads_bool {value : Bool} :
    Reads (parsePayload limits bytes depth (.bool value) start hinside reused) result stop ↔
      (.bool value, reused) = result ∧ start = stop := by
  rw [parsePayload, reads_pure]

theorem reads_smallNum {n : Nat} :
    Reads (parsePayload limits bytes depth (.smallNum n) start hinside reused) result stop ↔
      (.number (UInt64.ofNat n), reused) = result ∧ start = stop := by
  rw [parsePayload, reads_pure]

theorem reads_hash :
    Reads (parsePayload limits bytes depth .hash start hinside reused) result stop ↔
      Reads (parseHash limits bytes (depth + 1) [] start reused) result stop := by
  rw [parsePayload, reads_since]

theorem reads_array :
    Reads (parsePayload limits bytes depth .array start hinside reused) result stop ↔
      Reads (parseArray limits bytes (depth + 1) [] start reused) result stop := by
  rw [parsePayload, reads_since]

end Payload

/-! ## The loops -/

theorem toNat_eq_endTag {byte : UInt8} : byte.toNat = Rparam.endTag ↔ byte = endByte := by
  constructor
  · intro h
    exact UInt8.toNat_inj.mp h
  · rintro rfl
    rfl

theorem Reads.byte_ne_endByte (h : Reads (parseValue limits bytes cursor depth reused) result stop) :
    ∃ byte start, Spells bytes cursor [byte] start ∧ byte ≠ endByte := by
  obtain ⟨_, tag, start, _, hrange, hbyte, _⟩ := reads_parseValue.mp h
  exact ⟨tag.byte, start, hbyte, RparamTag.byte_ne_endByte hrange⟩

theorem reads_parseArray {values : List Value} :
    Reads (parseArray limits bytes depth values cursor reused) result stop ↔
      (Spells bytes cursor [endByte] stop ∧ (.array values, reused) = result) ∨
        values.length < limits.maxArrayLen ∧
          ∃ item middle, Reads (parseValue limits bytes cursor depth reused) item middle ∧
            Reads (parseArray limits bytes depth (values ++ [item.1]) middle item.2) result stop := by
  rw [parseArray, reads_bind]
  simp only [reads_ite, reads_pure, reads_readU8, toNat_eq_endTag]
  constructor
  · rintro ⟨byte, start, _, _, hbyte, ⟨rfl, hresult, rfl⟩ | ⟨_, ⟨_, h⟩ | ⟨hmax, h⟩⟩⟩
    · exact .inl ⟨hbyte, hresult⟩
    · exact absurd h not_reads_error
    · rw [reads_bind] at h
      obtain ⟨item, middle, _, _, hitem, h⟩ := h
      exact .inr ⟨Nat.lt_of_not_le hmax, item, middle, hitem, reads_since.mp h⟩
  · rintro (⟨hend, hresult⟩ | ⟨hmax, item, middle, hitem, h⟩)
    · exact ⟨endByte, stop, Nat.le_of_eq hend.stop_eq.symm, hend.inside, hend, .inl ⟨rfl, hresult, rfl⟩⟩
    · obtain ⟨byte, start, hbyte, hne⟩ := hitem.byte_ne_endByte
      refine ⟨byte, start, Nat.le_of_eq hbyte.stop_eq.symm, hbyte.inside, hbyte,
        .inr ⟨hne, .inr ⟨Nat.not_le_of_lt hmax, ?_⟩⟩⟩
      rw [reads_bind]
      exact ⟨item, middle, hitem.forward, hitem.inside, hitem, reads_since.mpr h⟩

theorem reads_parseHash {values : List (String × Value)} :
    Reads (parseHash limits bytes depth values cursor reused) result stop ↔
      (Spells bytes cursor [endByte] stop ∧ (.hash values, reused) = result) ∨
        values.length < limits.maxHashLen ∧
          ∃ name table middle item next,
            Reads (parseValue limits bytes cursor depth reused) (.string name, table) middle ∧
            Reads (parseValue limits bytes middle depth table) item next ∧
            Reads (parseHash limits bytes depth (values ++ [(name, item.1)]) next item.2) result stop := by
  rw [parseHash, reads_bind]
  simp only [reads_ite, reads_pure, reads_readU8, toNat_eq_endTag]
  constructor
  · rintro ⟨byte, start, _, _, hbyte, ⟨rfl, hresult, rfl⟩ | ⟨_, ⟨_, h⟩ | ⟨hmax, h⟩⟩⟩
    · exact .inl ⟨hbyte, hresult⟩
    · exact absurd h not_reads_error
    · rw [reads_bind] at h
      obtain ⟨⟨key, table⟩, middle, _, _, hkey, h⟩ := h
      dsimp only at h
      split at h
      next name =>
        rw [reads_bind] at h
        obtain ⟨item, next, _, _, hitem, h⟩ := h
        exact .inr ⟨Nat.lt_of_not_le hmax, name, table, middle, item, next, hkey, hitem, reads_since.mp h⟩
      next => exact absurd h not_reads_error
  · rintro (⟨hend, hresult⟩ | ⟨hmax, name, table, middle, item, next, hkey, hitem, h⟩)
    · exact ⟨endByte, stop, Nat.le_of_eq hend.stop_eq.symm, hend.inside, hend, .inl ⟨rfl, hresult, rfl⟩⟩
    · obtain ⟨byte, start, hbyte, hne⟩ := hkey.byte_ne_endByte
      refine ⟨byte, start, Nat.le_of_eq hbyte.stop_eq.symm, hbyte.inside, hbyte,
        .inr ⟨hne, .inr ⟨Nat.not_le_of_lt hmax, ?_⟩⟩⟩
      rw [reads_bind]
      refine ⟨_, middle, hkey.forward, hkey.inside, hkey, ?_⟩
      dsimp only
      rw [reads_bind]
      exact ⟨item, next, hitem.forward, hitem.inside, hitem, reads_since.mpr h⟩

end Arms

/-! ## Derivations are parsed -/

section Complete

variable {limits : ParseLimits} {bytes : Bytes} {cursor depth stop : Nat} {reused table : List String}

theorem reads_text {text : Text} {value : String} (hdepth : depth ≤ limits.maxDepth) (hwithin : text.Within limits)
    (hspells : Spells bytes cursor text.encode stop) (hdenote : text.denote limits reused = some (value, table)) :
    Reads (parseValue limits bytes cursor depth reused) (.string value, table) stop := by
  rw [reads_parseValue]
  refine ⟨hdepth, ?_⟩
  rcases text with ⟨length, raw, fits⟩ | ⟨raw, fits⟩ | id | id
  · obtain ⟨start, htag, hrest⟩ := spells_cons.mp hspells
    obtain ⟨rfl, rfl⟩ : fromUtf8Lossy raw = value ∧ remember limits reused (fromUtf8Lossy raw) = table := by
      simpa [Text.denote] using hdenote
    refine ⟨.str length.len, start, htag.inside, ⟨length.nonempty, length.short⟩, htag, ?_⟩
    apply (reads_str length.short).mpr
    exact ⟨length, raw, rfl, fits, hwithin raw rfl, hrest, rfl⟩
  · obtain ⟨start, htag, hrest⟩ := spells_cons.mp hspells
    obtain ⟨rfl, rfl⟩ : fromUtf8Lossy raw = value ∧ remember limits reused (fromUtf8Lossy raw) = table := by
      simpa [Text.denote] using hdenote
    refine ⟨.shortStr raw.length, start, htag.inside, fits, htag, ?_⟩
    rw [reads_shortStr]
    exact ⟨raw, rfl, hwithin raw rfl, hrest, rfl⟩
  · obtain ⟨start, htag, hrest⟩ := spells_cons.mp hspells
    obtain ⟨htext, rfl⟩ : reused[id.value]? = some value ∧ reused = table := by
      simpa [Text.denote] using hdenote
    refine ⟨.rstr id.len, start, htag.inside, ⟨id.nonempty, id.short⟩, htag, ?_⟩
    apply (reads_rstr id.short).mpr
    exact ⟨id, rfl, hrest, value, htext, rfl⟩
  · obtain ⟨htext, rfl⟩ : reused[id.val]? = some value ∧ reused = table := by
      simpa [Text.denote] using hdenote
    refine ⟨.shortRstr id, stop, hspells.inside, id.isLt, hspells, ?_⟩
    rw [reads_shortRstr]
    exact ⟨⟨value, htext, rfl⟩, rfl⟩

theorem reads_scalar {scalar : Scalar} (hdepth : depth ≤ limits.maxDepth)
    (hspells : Spells bytes cursor scalar.encode stop) :
    Reads (parseValue limits bytes cursor depth reused) (scalar.denote, reused) stop := by
  rw [reads_parseValue]
  refine ⟨hdepth, ?_⟩
  rcases scalar with digits | n | value | ⟨length, wide⟩
  · obtain ⟨start, htag, hrest⟩ := spells_cons.mp hspells
    refine ⟨.num digits.len, start, htag.inside, ⟨digits.nonempty, digits.short⟩, htag, ?_⟩
    rw [reads_num]
    exact ⟨digits, rfl, hrest, rfl⟩
  · refine ⟨.smallNum n, stop, hspells.inside, n.isLt, hspells, ?_⟩
    rw [reads_smallNum]
    exact ⟨rfl, rfl⟩
  · refine ⟨.bool value, stop, hspells.inside, trivial, hspells, ?_⟩
    rw [reads_bool]
    exact ⟨rfl, rfl⟩
  · obtain ⟨start, htag, hrest⟩ := spells_cons.mp hspells
    refine ⟨.data, start, htag.inside, trivial, htag, ?_⟩
    rw [reads_data]
    exact ⟨length, wide, hrest, rfl⟩

end Complete

mutual

theorem reads_wire {limits : ParseLimits} {bytes : Bytes} {cursor depth stop : Nat} {reused table : List String}
    {value : Value} : (wire : Wire) → wire.Within limits depth → Spells bytes cursor wire.encode stop →
      wire.denote limits reused = some (value, table) →
      Reads (parseValue limits bytes cursor depth reused) (value, table) stop
  | .text token, hwithin, hspells, hdenote => by
    obtain ⟨text, _, htoken, ⟨⟩⟩ := Wire.denote_text.mp hdenote
    exact reads_text hwithin.1 hwithin.2 hspells htoken
  | .scalar token, hwithin, hspells, hdenote => by
    cases hdenote
    exact reads_scalar hwithin hspells
  | .array items, hwithin, hspells, hdenote => by
    obtain ⟨values, _, hitems, ⟨⟩⟩ := Wire.denote_array.mp hdenote
    obtain ⟨hdepth, hlen, hwithin⟩ := hwithin
    obtain ⟨start, htag, hrest⟩ := spells_cons.mp hspells
    refine reads_parseValue.mpr ⟨hdepth, .array, start, htag.inside, trivial, htag, reads_array.mpr ?_⟩
    exact reads_items items [] hwithin (by simpa using hlen) hrest hitems
  | .hash entries, hwithin, hspells, hdenote => by
    obtain ⟨values, _, hentries, ⟨⟩⟩ := Wire.denote_hash.mp hdenote
    obtain ⟨hdepth, hlen, hwithin⟩ := hwithin
    obtain ⟨start, htag, hrest⟩ := spells_cons.mp hspells
    refine reads_parseValue.mpr ⟨hdepth, .hash, start, htag.inside, trivial, htag, reads_hash.mpr ?_⟩
    exact reads_entries entries [] hwithin (by simpa using hlen) hrest hentries

theorem reads_items {limits : ParseLimits} {bytes : Bytes} {cursor depth stop : Nat} {reused table : List String}
    {read : List Value} : (items : List Wire) → (values : List Value) → Wire.ItemsWithin limits depth items →
      values.length + items.length ≤ limits.maxArrayLen →
      Spells bytes cursor (Wire.encodeItems items ++ [endByte]) stop →
      Wire.denoteItems limits reused items = some (read, table) →
      Reads (parseArray limits bytes depth values cursor reused) (.array (values ++ read), table) stop
  | [], values, _, _, hspells, hdenote => by
    cases hdenote
    rw [reads_parseArray, List.append_nil]
    exact .inl ⟨hspells, rfl⟩
  | item :: items, values, hwithin, hlen, hspells, hdenote => by
    obtain ⟨value, _, rest, _, hitem, hitems, ⟨⟩⟩ := Wire.denoteItems_cons.mp hdenote
    rw [Wire.encodeItems, List.append_assoc] at hspells
    obtain ⟨middle, hfirst, hrest⟩ := spells_append.mp hspells
    rw [List.length_cons] at hlen
    rw [reads_parseArray, List.append_cons]
    refine .inr ⟨by omega, _, middle, reads_wire item hwithin.1 hfirst hitem, ?_⟩
    refine reads_items items _ hwithin.2 ?_ hrest hitems
    rw [List.length_append, List.length_singleton]
    omega

theorem reads_entries {limits : ParseLimits} {bytes : Bytes} {cursor depth stop : Nat} {reused table : List String}
    {read : List (String × Value)} : (entries : List (Text × Wire)) → (values : List (String × Value)) →
      Wire.EntriesWithin limits depth entries → values.length + entries.length ≤ limits.maxHashLen →
      Spells bytes cursor (Wire.encodeEntries entries ++ [endByte]) stop →
      Wire.denoteEntries limits reused entries = some (read, table) →
      Reads (parseHash limits bytes depth values cursor reused) (.hash (values ++ read), table) stop
  | [], values, _, _, hspells, hdenote => by
    cases hdenote
    rw [reads_parseHash, List.append_nil]
    exact .inl ⟨hspells, rfl⟩
  | (key, wire) :: entries, values, hwithin, hlen, hspells, hdenote => by
    obtain ⟨name, _, value, _, rest, _, hkey, hvalue, hentries, ⟨⟩⟩ := Wire.denoteEntries_cons.mp hdenote
    obtain ⟨hkeyWithin, hvalueWithin, hwithin⟩ := hwithin
    rw [Wire.encodeEntries, List.append_assoc, List.append_assoc] at hspells
    obtain ⟨middle, hname, hspells⟩ := spells_append.mp hspells
    obtain ⟨next, hfirst, hrest⟩ := spells_append.mp hspells
    have hread := reads_wire wire hvalueWithin hfirst hvalue
    rw [List.length_cons] at hlen
    rw [reads_parseHash, List.append_cons]
    refine .inr ⟨by omega, name, _, middle, _, next, ?_, hread, ?_⟩
    · exact reads_text (reads_parseValue.mp hread).1 hkeyWithin hname hkey
    · refine reads_entries entries _ hwithin ?_ hrest hentries
      rw [List.length_append, List.length_singleton]
      omega

end

/-! ## What is parsed is a derivation -/

section Sound

variable {limits : ParseLimits} {bytes : Bytes} {cursor depth start stop : Nat} {reused : List String}

/-- The reading is that of a derivation. -/
def IsDerived (limits : ParseLimits) (bytes : Bytes) (cursor depth : Nat) (reused : List String)
    (result : Value × List String) (stop : Nat) : Prop :=
  ∃ wire : Wire, wire.Within limits depth ∧ Spells bytes cursor wire.encode stop ∧
    wire.denote limits reused = some result

theorem isDerived_text (text : Text) {value : String} {table : List String} (hdepth : depth ≤ limits.maxDepth)
    (hwithin : text.Within limits) (hspells : Spells bytes cursor text.encode stop)
    (hdenote : text.denote limits reused = some (value, table)) :
    IsDerived limits bytes cursor depth reused (.string value, table) stop :=
  ⟨.text text, ⟨hdepth, hwithin⟩, hspells, Wire.denote_text.mpr ⟨value, table, hdenote, rfl⟩⟩

theorem isDerived_of_payload {tag : RparamTag} {hinside : start ≤ bytes.length} {result : Value × List String}
    (hdepth : depth ≤ limits.maxDepth) (hrange : tag.InRange) (htag : Spells bytes cursor [tag.byte] start)
    (h : Reads (parsePayload limits bytes depth tag start hinside reused) result stop) :
    (tag = .hash ∨ tag = .array) ∨ IsDerived limits bytes cursor depth reused result stop := by
  rcases tag with lenLen | lenLen | lenLen | _ | _ | value | _ | n | id | n
  · obtain ⟨length, raw, rfl, fits, hmax, hrest, rfl⟩ := (reads_str hrange.2).mp h
    right
    apply isDerived_text (.literal length raw fits) hdepth _ (spells_cons.mpr ⟨start, htag, hrest⟩) rfl
    rintro _ ⟨⟩
    exact hmax
  · obtain ⟨id, rfl, hrest, text, htext, rfl⟩ := (reads_rstr hrange.2).mp h
    right
    apply isDerived_text (.reference id) hdepth (by rintro _ ⟨⟩) (spells_cons.mpr ⟨start, htag, hrest⟩)
    simp [Text.denote, htext]
  · obtain ⟨digits, rfl, hrest, rfl⟩ := reads_num.mp h
    exact .inr ⟨.scalar (.number digits), hdepth, spells_cons.mpr ⟨start, htag, hrest⟩, rfl⟩
  · exact .inl (.inl rfl)
  · exact .inl (.inr rfl)
  · obtain ⟨rfl, rfl⟩ := reads_bool.mp h
    exact .inr ⟨.scalar (.bool value), hdepth, htag, rfl⟩
  · obtain ⟨digits, wide, hrest, rfl⟩ := reads_data.mp h
    exact .inr ⟨.scalar (.data digits wide), hdepth, spells_cons.mpr ⟨start, htag, hrest⟩, rfl⟩
  · obtain ⟨raw, rfl, hmax, hrest, rfl⟩ := reads_shortStr.mp h
    right
    apply isDerived_text (.shortLiteral raw hrange) hdepth _ (spells_cons.mpr ⟨start, htag, hrest⟩) rfl
    rintro _ ⟨⟩
    exact hmax
  · obtain ⟨⟨text, htext, rfl⟩, rfl⟩ := reads_shortRstr.mp h
    right
    apply isDerived_text (.shortReference ⟨id, hrange⟩) hdepth (by rintro _ ⟨⟩) htag
    simp [Text.denote, htext]
  · obtain ⟨rfl, rfl⟩ := reads_smallNum.mp h
    exact .inr ⟨.scalar (.smallNumber ⟨n, hrange⟩), hdepth, htag, rfl⟩

theorem text_of_string {wire : Wire} {name : String} {table : List String} (hwithin : wire.Within limits depth)
    (h : wire.denote limits reused = some (.string name, table)) :
    ∃ token, wire = .text token ∧ token.Within limits ∧ token.denote limits reused = some (name, table) := by
  rcases wire with token | token | items | entries
  · obtain ⟨_, _, htoken, ⟨⟩⟩ := Wire.denote_text.mp h
    exact ⟨token, rfl, hwithin.2, htoken⟩
  · rcases token <;> cases h
  · obtain ⟨_, _, _, ⟨⟩⟩ := Wire.denote_array.mp h
  · obtain ⟨_, _, _, ⟨⟩⟩ := Wire.denote_hash.mp h

def ValuesDerived (limits : ParseLimits) (bytes : Bytes) (n : Nat) : Prop :=
  ∀ ⦃cursor depth reused result stop⦄, bytes.length - cursor < n →
    Reads (parseValue limits bytes cursor depth reused) result stop →
      IsDerived limits bytes cursor depth reused result stop

def ArraysDerived (limits : ParseLimits) (bytes : Bytes) (n : Nat) : Prop :=
  ∀ ⦃cursor depth reused values result stop⦄, bytes.length - cursor < n → values.length ≤ limits.maxArrayLen →
    Reads (parseArray limits bytes depth values cursor reused) result stop →
      ∃ items read, Wire.ItemsWithin limits depth items ∧ values.length + items.length ≤ limits.maxArrayLen ∧
        Spells bytes cursor (Wire.encodeItems items ++ [endByte]) stop ∧
        Wire.denoteItems limits reused items = some (read, result.2) ∧ result.1 = .array (values ++ read)

def HashesDerived (limits : ParseLimits) (bytes : Bytes) (n : Nat) : Prop :=
  ∀ ⦃cursor depth reused values result stop⦄, bytes.length - cursor < n → values.length ≤ limits.maxHashLen →
    Reads (parseHash limits bytes depth values cursor reused) result stop →
      ∃ entries read, Wire.EntriesWithin limits depth entries ∧ values.length + entries.length ≤ limits.maxHashLen ∧
        Spells bytes cursor (Wire.encodeEntries entries ++ [endByte]) stop ∧
        Wire.denoteEntries limits reused entries = some (read, result.2) ∧ result.1 = .hash (values ++ read)

theorem valuesDerived_succ {n : Nat} (harrays : ArraysDerived limits bytes n) (hhashes : HashesDerived limits bytes n) :
    ValuesDerived limits bytes (n + 1) := by
  intro cursor depth reused result stop hn h
  obtain ⟨hdepth, tag, start, hinside, hrange, htag, h⟩ := reads_parseValue.mp h
  have hstart : start = cursor + 1 := htag.stop_eq
  obtain (rfl | rfl) | hderived := isDerived_of_payload hdepth hrange htag h
  · obtain ⟨entries, read, hwithin, hlen, hspells, hdenote, hvalue⟩ :=
      hhashes (by omega) (Nat.zero_le _) (reads_hash.mp h)
    refine ⟨.hash entries, ⟨hdepth, by simpa using hlen, hwithin⟩, spells_cons.mpr ⟨start, htag, hspells⟩, ?_⟩
    exact Wire.denote_hash.mpr ⟨read, _, hdenote, Prod.ext hvalue.symm rfl⟩
  · obtain ⟨items, read, hwithin, hlen, hspells, hdenote, hvalue⟩ :=
      harrays (by omega) (Nat.zero_le _) (reads_array.mp h)
    refine ⟨.array items, ⟨hdepth, by simpa using hlen, hwithin⟩, spells_cons.mpr ⟨start, htag, hspells⟩, ?_⟩
    exact Wire.denote_array.mpr ⟨read, _, hdenote, Prod.ext hvalue.symm rfl⟩
  · exact hderived

theorem arraysDerived_succ {n : Nat} (hvalues : ValuesDerived limits bytes (n + 1))
    (harrays : ArraysDerived limits bytes n) : ArraysDerived limits bytes (n + 1) := by
  intro cursor depth reused values result stop hn hvaluesLen h
  obtain ⟨hend, rfl⟩ | ⟨hmax, item, middle, hitem, h⟩ := reads_parseArray.mp h
  · exact ⟨[], [], trivial, hvaluesLen, hend, rfl, by rw [List.append_nil]⟩
  · have hforward : cursor + 1 ≤ middle := hitem.forward
    have hinside := hitem.inside
    obtain ⟨wire, hwithin, hspells, hdenote⟩ := hvalues hn hitem
    obtain ⟨items, read, hitemsWithin, hlen, hrest, hitems, hvalue⟩ := harrays (by omega) (by
      rw [List.length_append, List.length_singleton]
      omega) h
    rw [List.length_append, List.length_singleton] at hlen
    refine ⟨wire :: items, item.1 :: read, ⟨hwithin, hitemsWithin⟩, ?_, ?_, ?_, ?_⟩
    · rw [List.length_cons]
      omega
    · rw [Wire.encodeItems, List.append_assoc]
      exact spells_append.mpr ⟨middle, hspells, hrest⟩
    · exact Wire.denoteItems_cons.mpr ⟨item.1, item.2, read, _, hdenote, hitems, rfl⟩
    · rw [hvalue, ← List.append_cons]

theorem hashesDerived_succ {n : Nat} (hvalues : ValuesDerived limits bytes (n + 1))
    (hhashes : HashesDerived limits bytes n) : HashesDerived limits bytes (n + 1) := by
  intro cursor depth reused values result stop hn hvaluesLen h
  obtain ⟨hend, rfl⟩ | ⟨hmax, name, table, middle, item, next, hkey, hitem, h⟩ := reads_parseHash.mp h
  · exact ⟨[], [], trivial, hvaluesLen, hend, rfl, by rw [List.append_nil]⟩
  · have hforward : cursor + 1 ≤ middle := hkey.forward
    have hforward' : middle + 1 ≤ next := hitem.forward
    have hinside := hitem.inside
    obtain ⟨key, hkeyWithin, hkeySpells, hkeyDenote⟩ := hvalues hn hkey
    obtain ⟨token, rfl, htokenWithin, htoken⟩ := text_of_string hkeyWithin hkeyDenote
    obtain ⟨wire, hwithin, hspells, hdenote⟩ := hvalues (by omega) hitem
    obtain ⟨entries, read, hentriesWithin, hlen, hrest, hentries, hvalue⟩ := hhashes (by omega) (by
      rw [List.length_append, List.length_singleton]
      omega) h
    rw [List.length_append, List.length_singleton] at hlen
    refine ⟨(token, wire) :: entries, (name, item.1) :: read, ⟨htokenWithin, hwithin, hentriesWithin⟩, ?_, ?_, ?_, ?_⟩
    · rw [List.length_cons]
      omega
    · rw [Wire.encodeEntries, List.append_assoc, List.append_assoc]
      exact spells_append.mpr ⟨middle, hkeySpells, spells_append.mpr ⟨next, hspells, hrest⟩⟩
    · exact Wire.denoteEntries_cons.mpr ⟨name, table, item.1, item.2, read, _, htoken, hdenote, hentries, rfl⟩
    · rw [hvalue, ← List.append_cons]

/-- By induction on the bytes that are left. -/
theorem derived_upTo (limits : ParseLimits) (bytes : Bytes) (n : Nat) :
    ValuesDerived limits bytes n ∧ ArraysDerived limits bytes n ∧ HashesDerived limits bytes n := by
  induction n with
  | zero =>
    refine ⟨?_, ?_, ?_⟩
    · intro _ _ _ _ _ hn
      omega
    · intro _ _ _ _ _ _ hn
      omega
    · intro _ _ _ _ _ _ hn
      omega
  | succ n ih =>
    obtain ⟨_, harrays, hhashes⟩ := ih
    have hvalues : ValuesDerived limits bytes (n + 1) := valuesDerived_succ harrays hhashes
    exact ⟨hvalues, arraysDerived_succ hvalues harrays, hashesDerived_succ hvalues hhashes⟩

theorem isDerived_of_reads {result : Value × List String}
    (h : Reads (parseValue limits bytes cursor depth reused) result stop) :
    IsDerived limits bytes cursor depth reused result stop :=
  (derived_upTo limits bytes (bytes.length - cursor + 1)).1 (Nat.lt_succ_self _) h

theorem reads_parseValue_iff {result : Value × List String} :
    Reads (parseValue limits bytes cursor depth reused) result stop ↔
      IsDerived limits bytes cursor depth reused result stop := by
  constructor
  · intro h
    exact isDerived_of_reads h
  · rintro ⟨wire, hwithin, hspells, hdenote⟩
    exact reads_wire wire hwithin hspells hdenote

end Sound

/-! ## Frames -/

section Frames

variable {limits : ParseLimits} {bytes : Bytes}

theorem toNat_u32OfLeBytes_take : (u32OfLeBytes (bytes.take 4)).toNat = frameLen bytes := by
  have hlen : (bytes.take 4).length ≤ 4 := by
    rw [List.length_take]
    omega
  have hpow : 256 ^ (bytes.take 4).length ≤ 256 ^ 4 := Nat.pow_le_pow_right (by omega) hlen
  have hsmall : frameLen bytes < 2 ^ 32 := Nat.lt_of_lt_of_le (LittleEndian.value_lt _) hpow
  exact UInt32.toNat_ofNat_of_lt' hsmall

theorem IsFrame.spells {wire : Wire} (h : IsFrame limits bytes wire) :
    Spells bytes 4 wire.encode (4 + frameLen bytes) := by
  rw [← h.body]
  exact spells_slice h.complete

theorem parseResponseFrame_eq_ok {value : Value} :
    parseResponseFrame bytes limits = .ok value ↔
      ∃ wire table, IsFrame limits bytes wire ∧ wire.denote limits [] = some (value, table) := by
  unfold parseResponseFrame
  simp only [toNat_u32OfLeBytes_take]
  constructor
  · intro h
    split at h
    · cases h
    next hheader =>
    split at h
    · cases h
    next hfits =>
    split at h
    · cases h
    next hcomplete =>
    split at h
    · cases h
    next reading hread =>
    split at h
    · cases h
    next hstop =>
    obtain rfl := Except.ok.inj h
    have hstop' : reading.stop = 4 + frameLen bytes := Decidable.not_not.mp hstop
    obtain ⟨wire, hwithin, hspells, hdenote⟩ := isDerived_of_reads ⟨reading, hread, rfl, hstop'⟩
    refine ⟨wire, reading.value.2, ⟨by omega, by omega, by omega, ?_, hwithin⟩, hdenote⟩
    have hlen : frameLen bytes = wire.encode.length := by
      have := hspells.stop_eq
      omega
    rw [hlen]
    exact hspells.slice_eq
  · rintro ⟨wire, table, hframe, hdenote⟩
    obtain ⟨reading, hread, hvalue, hstop⟩ := reads_wire wire hframe.within hframe.spells hdenote
    rw [if_neg (Nat.not_lt_of_le hframe.header), if_neg (Nat.not_lt_of_le hframe.fits),
      if_neg (Nat.not_lt_of_le hframe.complete), hread]
    dsimp only
    rw [if_neg (not_not_intro hstop), hvalue]

theorem IsFrame.unique {wire wire' : Wire} (h : IsFrame limits bytes wire) (h' : IsFrame limits bytes wire') :
    wire = wire' := (Wire.unique wire wire' h.spells h'.spells).1

theorem frameLen_append {frame : Bytes} (rest : Bytes) (h : 4 ≤ frame.length) :
    frameLen (frame ++ rest) = frameLen frame := by
  unfold frameLen
  rw [List.take_append_of_le_length h]

theorem isFrame_append {frame : Bytes} (rest : Bytes) (hlen : frame.length = 4 + frameLen frame) {wire : Wire} :
    IsFrame limits (frame ++ rest) wire ↔ IsFrame limits frame wire := by
  have hheader : 4 ≤ frame.length := by omega
  have hframeLen := frameLen_append rest hheader
  have hbody : ((frame ++ rest).drop 4).take (frameLen frame) = (frame.drop 4).take (frameLen frame) := by
    rw [List.drop_append_of_le_length hheader, List.take_append_of_le_length]
    rw [List.length_drop]
    omega
  constructor
  · rintro ⟨_, hfits, _, hwire, hwithin⟩
    rw [hframeLen] at hfits hwire
    exact ⟨hheader, hfits, Nat.le_of_eq hlen.symm, hbody.symm.trans hwire, hwithin⟩
  · rintro ⟨_, hfits, _, hwire, hwithin⟩
    refine ⟨?_, hframeLen ▸ hfits, ?_, ?_, hwithin⟩
    · rw [List.length_append]
      omega
    · rw [hframeLen, List.length_append]
      omega
    · rw [hframeLen, hbody, hwire]

/-- The parser accepts exactly the frames of the grammar. A frame has one derivation, and what comes after the
frame decides nothing. -/
theorem parseResponseFrame_ok_iff_frame (limits : ParseLimits) :
    (∀ bytes value, parseResponseFrame bytes limits = .ok value ↔
      ∃ wire table, IsFrame limits bytes wire ∧ wire.denote limits [] = some (value, table)) ∧
    (∀ bytes wire wire', IsFrame limits bytes wire → IsFrame limits bytes wire' → wire = wire') ∧
    (∀ frame rest rest' value, frame.length = 4 + frameLen frame →
      (parseResponseFrame (frame ++ rest) limits = .ok value ↔
        parseResponseFrame (frame ++ rest') limits = .ok value)) := by
  refine ⟨fun _ _ => parseResponseFrame_eq_ok, fun _ _ _ h h' => h.unique h', ?_⟩
  intro frame rest rest' value hlen
  rw [parseResponseFrame_eq_ok, parseResponseFrame_eq_ok]
  simp only [isFrame_append _ hlen]

end Frames

end Pcloud
