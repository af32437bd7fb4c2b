import Pcloud.Lib.Span
import Pcloud.Model.Bytes

/-!
# Response frames (`pcloud-proto/src/response.rs`)

The cursor of the source is an index into the whole slice, which may go on after the frame. A
`Reading` is what a function returns together with the cursor it leaves behind, which is never
before the cursor it was given and never after the slice.
-/

namespace Pcloud

/-! ## Values -/

inductive Value
  | string (value : String)
  | number (value : UInt64)
  | bool (value : Bool)
  | array (values : List Value)
  | hash (values : List (String × Value))
  | data (length : UInt64)

abbrev HashView := List (String × Value)

namespace Value

def asHash : Value → Option HashView
  | hash values => some values
  | _ => none

def asString : Value → Option String
  | string value => some value
  | _ => none

def asNumber : Value → Option UInt64
  | number value | data value => some value
  | _ => none

def asBool : Value → Option Bool
  | bool value => some value
  | _ => none

def asArray : Value → Option (List Value)
  | array values => some values
  | _ => none

end Value

namespace HashView

variable (view : HashView) (key : String)

def get : Option Value := (view.find? (·.1 = key)).map (·.2)

def getString : Option String := (view.get key).bind Value.asString

def getNumber : Option UInt64 := (view.get key).bind Value.asNumber

def getBool : Option Bool := (view.get key).bind Value.asBool

def getHash : Option HashView := (view.get key).bind Value.asHash

def getArray : Option (List Value) := (view.get key).bind Value.asArray

end HashView

/-! ## Limits and errors -/

structure ParseLimits where
  maxFrameLen : Nat := 1024 * 1024
  maxDepth : Nat := 32
  maxArrayLen : Nat := 4096
  maxHashLen : Nat := 4096
  maxStringLen : Nat := 64 * 1024
  maxReusedStrings : Nat := 4096
deriving DecidableEq, Repr

inductive ResponseParseError
  | truncatedFrame
  | frameTooLarge
  | unexpectedEof
  | invalidTag (tag : UInt8)
  | nestingLimitExceeded
  | arrayLimitExceeded
  | hashLimitExceeded
  | stringTooLarge
  | invalidReuseReference (id : Nat)
  | invalidHashKeyType
  | trailingBytes
deriving DecidableEq, Repr

namespace Rparam

abbrev str1 : Nat := 0
abbrev str4 : Nat := 3
abbrev rstr1 : Nat := 4
abbrev rstr4 : Nat := 7
abbrev num1 : Nat := 8
abbrev num8 : Nat := 15
abbrev hash : Nat := 16
abbrev array : Nat := 17
abbrev bfalse : Nat := 18
abbrev btrue : Nat := 19
abbrev data : Nat := 20
abbrev shortStrBase : Nat := 100
abbrev shortStrMax : Nat := 149
abbrev shortRstrBase : Nat := 150
abbrev shortRstrMax : Nat := 199
abbrev smallNumBase : Nat := 200
abbrev smallNumMax : Nat := 219
abbrev endTag : Nat := 255

end Rparam

/-- What a tag byte announces. -/
inductive RparamTag
  | str (lenLen : Nat)
  | rstr (lenLen : Nat)
  | num (lenLen : Nat)
  | hash
  | array
  | bool (value : Bool)
  | data
  | shortStr (stringLen : Nat)
  | shortRstr (id : Nat)
  | smallNum (n : Nat)
deriving DecidableEq, Repr

/-- The ranges of the `match` in `parse_value`. -/
def RparamTag.ofNat? (tag : Nat) : Option RparamTag :=
  if Rparam.str1 ≤ tag ∧ tag ≤ Rparam.str4 then some (.str (tag - Rparam.str1 + 1))
  else if Rparam.rstr1 ≤ tag ∧ tag ≤ Rparam.rstr4 then some (.rstr (tag - Rparam.rstr1 + 1))
  else if Rparam.num1 ≤ tag ∧ tag ≤ Rparam.num8 then some (.num (tag - Rparam.num1 + 1))
  else if tag = Rparam.hash then some .hash
  else if tag = Rparam.array then some .array
  else if tag = Rparam.bfalse then some (.bool false)
  else if tag = Rparam.btrue then some (.bool true)
  else if tag = Rparam.data then some .data
  else if Rparam.shortStrBase ≤ tag ∧ tag ≤ Rparam.shortStrMax then some (.shortStr (tag - Rparam.shortStrBase))
  else if Rparam.shortRstrBase ≤ tag ∧ tag ≤ Rparam.shortRstrMax then some (.shortRstr (tag - Rparam.shortRstrBase))
  else if Rparam.smallNumBase ≤ tag ∧ tag ≤ Rparam.smallNumMax then some (.smallNum (tag - Rparam.smallNumBase))
  else none

/-! ## Reading -/

structure Reading (bytes : Bytes) (cursor : Nat) (α : Type) where
  value : α
  stop : Nat
  forward : cursor ≤ stop
  inside : stop ≤ bytes.length

namespace Reading

variable {bytes : Bytes} {cursor : Nat} {α β : Type}

/-- The same reading, as one from an earlier cursor. -/
def since (start : Nat) (reading : Reading bytes cursor α) (h : start ≤ cursor) : Reading bytes start α :=
  { reading with forward := Nat.le_trans h reading.forward }

def map (f : α → β) (reading : Reading bytes cursor α) : Reading bytes cursor β :=
  { reading with value := f reading.value }

end Reading

def readU8 (bytes : Bytes) (cursor : Nat) : Except ResponseParseError (Reading bytes (cursor + 1) UInt8) :=
  if h : cursor < bytes.length then .ok ⟨bytes[cursor], cursor + 1, Nat.le_refl _, h⟩ else .error .unexpectedEof

/-- The loop of `read_var_u64`. -/
def orBytes (bytes : Bytes) : UInt64 :=
  bytes.zipIdx.foldl (fun value byte => value ||| byte.1.toUInt64 <<< UInt64.ofNat (byte.2 * 8)) 0

def readVarU64 (bytes : Bytes) (cursor len : Nat) : Except ResponseParseError (Reading bytes cursor UInt64) :=
  if len = 0 ∨ len > 8 then .error .unexpectedEof
  else if h : cursor + len ≤ bytes.length then
    .ok ⟨orBytes ((bytes.drop cursor).take len), cursor + len, Nat.le_add_right _ _, h⟩
  else .error .unexpectedEof

def readVarU32 (bytes : Bytes) (cursor len : Nat) : Except ResponseParseError (Reading bytes cursor UInt32) :=
  return (← readVarU64 bytes cursor len).map UInt64.toUInt32

def remember (limits : ParseLimits) (reused : List String) (value : String) : List String :=
  if reused.length < limits.maxReusedStrings then reused ++ [value] else reused

def readString (limits : ParseLimits) (bytes : Bytes) (cursor stringLen : Nat) (reused : List String) :
    Except ResponseParseError (Reading bytes cursor (Value × List String)) :=
  if stringLen > limits.maxStringLen then .error .stringTooLarge
  else if h : cursor + stringLen ≤ bytes.length then
    let value := fromUtf8Lossy ((bytes.drop cursor).take stringLen)
    .ok ⟨(.string value, remember limits reused value), cursor + stringLen, Nat.le_add_right _ _, h⟩
  else .error .unexpectedEof

def reuse (reused : List String) (id : Nat) : Except ResponseParseError Value :=
  match reused[id]? with
  | some value => .ok (.string value)
  | none => .error (.invalidReuseReference id)

/-! ## The parser -/

mutual

def parseValue (limits : ParseLimits) (bytes : Bytes) (cursor depth : Nat) (reused : List String) :
    Except ResponseParseError (Reading bytes (cursor + 1) (Value × List String)) :=
  if depth > limits.maxDepth then .error .nestingLimitExceeded
  else do
    let ⟨byte, start, hstart, hinside⟩ ← readU8 bytes cursor
    match RparamTag.ofNat? byte.toNat with
    | some tag => return (← parsePayload limits bytes depth tag start hinside reused).since _ hstart
    | none => .error (.invalidTag byte)
termination_by (bytes.length - cursor, 0)
decreasing_by omega

/-- The arms of the `match` on the tag. -/
def parsePayload (limits : ParseLimits) (bytes : Bytes) (depth : Nat) (tag : RparamTag) (start : Nat)
    (hinside : start ≤ bytes.length) (reused : List String) :
    Except ResponseParseError (Reading bytes start (Value × List String)) :=
  match tag with
  | .str lenLen => do
    let ⟨len, next, hnext, _⟩ ← readVarU32 bytes start lenLen
    return (← readString limits bytes next len.toNat reused).since _ hnext
  | .rstr lenLen => do
    let ⟨id, next, hnext, hend⟩ ← readVarU32 bytes start lenLen
    return ⟨(← reuse reused id.toNat, reused), next, hnext, hend⟩
  | .num lenLen => do
    let ⟨n, next, hnext, hend⟩ ← readVarU64 bytes start lenLen
    return ⟨(.number n, reused), next, hnext, hend⟩
  | .hash => do return (← parseHash limits bytes (depth + 1) [] start reused).since _ (by omega)
  | .array => do return (← parseArray limits bytes (depth + 1) [] start reused).since _ (by omega)
  | .bool value => return ⟨(.bool value, reused), start, Nat.le_refl _, hinside⟩
  | .data => do
    let ⟨n, next, hnext, hend⟩ ← readVarU64 bytes start 8
    return ⟨(.data n, reused), next, hnext, hend⟩
  | .shortStr stringLen => readString limits bytes start stringLen reused
  | .shortRstr id => do return ⟨(← reuse reused id, reused), start, Nat.le_refl _, hinside⟩
  | .smallNum n => return ⟨(.number (UInt64.ofNat n), reused), start, Nat.le_refl _, hinside⟩
termination_by (bytes.length - start, 2)
decreasing_by all_goals omega

/-- The loop of the source, `values` being what it has pushed. The peek at the next tag and the step over the
end tag are one read. -/
def parseArray (limits : ParseLimits) (bytes : Bytes) (depth : Nat) (values : List Value) (cursor : Nat)
    (reused : List String) : Except ResponseParseError (Reading bytes (cursor + 1) (Value × List String)) := do
  let ⟨byte, start, hstart, hinside⟩ ← readU8 bytes cursor
  if byte.toNat = Rparam.endTag then return ⟨(.array values, reused), start, hstart, hinside⟩
  else if values.length ≥ limits.maxArrayLen then .error .arrayLimitExceeded
  else
    let ⟨value, next, hnext, _⟩ ← parseValue limits bytes cursor depth reused
    return (← parseArray limits bytes depth (values ++ [value.1]) next value.2).since _ (by omega)
termination_by (bytes.length - cursor, 1)
decreasing_by all_goals omega

def parseHash (limits : ParseLimits) (bytes : Bytes) (depth : Nat) (values : List (String × Value)) (cursor : Nat)
    (reused : List String) : Except ResponseParseError (Reading bytes (cursor + 1) (Value × List String)) := do
  let ⟨byte, start, hstart, hinside⟩ ← readU8 bytes cursor
  if byte.toNat = Rparam.endTag then return ⟨(.hash values, reused), start, hstart, hinside⟩
  else if values.length ≥ limits.maxHashLen then .error .hashLimitExceeded
  else
    let ⟨key, middle, hmiddle, _⟩ ← parseValue limits bytes cursor depth reused
    match key.1 with
    | .string name =>
      let ⟨value, next, hnext, _⟩ ← parseValue limits bytes middle depth key.2
      return (← parseHash limits bytes depth (values ++ [(name, value.1)]) next value.2).since _ (by omega)
    | _ => .error .invalidHashKeyType
termination_by (bytes.length - cursor, 1)
decreasing_by all_goals omega

end

def parseResponseFrame (bytes : Bytes) (limits : ParseLimits) : Except ResponseParseError Value :=
  if bytes.length < 4 then .error .truncatedFrame
  else
    let frameLen := (u32OfLeBytes (bytes.take 4)).toNat
    if frameLen > limits.maxFrameLen then .error .frameTooLarge
    else if bytes.length < 4 + frameLen then .error .truncatedFrame
    else
      match parseValue limits bytes 4 0 [] with
      | .error err => .error err
      | .ok reading => if reading.stop ≠ 4 + frameLen then .error .trailingBytes else .ok reading.value.1

end Pcloud
