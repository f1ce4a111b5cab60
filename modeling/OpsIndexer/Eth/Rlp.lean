import OpsIndexer.Eth.Common
import OpsIndexer.Lib.Rlp

/-!
# The RLP encoder

`pkg/eth/rlp` walks a value by reflection: the kinds it can meet are the constructors here, with the type names its
errors print. Lengths are numbers; the encoder narrows them to a byte or to 64 bits where the source does.
-/

namespace OpsIndexer.Eth.Rlp

open Eth

mutual

/-- What reflection finds: a pointer to a `big.Int` is told from any other pointer. -/
inductive Value where
  | bigInt (pointee : Option Int)
  | nilPtr
  | ptr (pointee : Value)
  | struct (fields : Fields)
  | byteSlice (bytes : Bytes)
  | slice (elem : String)
  | byteArray (bytes : Bytes)
  | array (elem : String)
  | uint64 (value : UInt64)
  | bool (value : Bool)
  | other (type : String)

inductive Fields where
  | nil
  | cons (name : String) (exported : Bool) (value : Value) (rest : Fields)

end

def putUintBE (v : Nat) : Bytes :=
  ([v >>> 56, v >>> 48, v >>> 40, v >>> 32, v >>> 24, v >>> 16, v >>> 8, v].map UInt8.ofNat).dropWhile (· = 0)

def encodeStringHeader (length : Nat) : Bytes :=
  if length ≤ 55 then [UInt8.ofNat (0x80 + length)]
  else
    let lenBytes := putUintBE (length % 2 ^ 64)
    UInt8.ofNat (0xb7 + lenBytes.length) :: lenBytes

def appendListHeader (payload : Bytes) : Bytes :=
  if payload.length ≤ 55 then UInt8.ofNat (0xc0 + payload.length) :: payload
  else
    let lenBytes := putUintBE (payload.length % 2 ^ 64)
    UInt8.ofNat (0xf7 + lenBytes.length) :: (lenBytes ++ payload)

def encodeBytes (b : Bytes) : Bytes :=
  if b.length = 1 && b.all (· ≤ 0x7f) then b
  else encodeStringHeader b.length ++ b

def encodeBigInt (i : Int) : Bytes :=
  if i = 0 then [0x80] else encodeBytes (Lib.Rlp.minimal i.natAbs)

def encodeUint64 (v : UInt64) : Bytes :=
  if v = 0 then [0x80] else encodeBytes (putUintBE v.toNat)

def encodeBool (b : Bool) : Bytes :=
  if b then [0x01] else [0x80]

mutual

def encode : Value → Except String Bytes
  | .bigInt none => .ok [0x80]
  | .bigInt (some i) => .ok (encodeBigInt i)
  | .nilPtr => .ok [0x80]
  | .ptr pointee => encode pointee
  | .struct fields => (encodeFields fields).map appendListHeader
  | .byteSlice bytes => .ok (encodeBytes bytes)
  | .slice elem => .error ("rlp: unsupported slice element type " ++ elem)
  | .byteArray bytes => .ok (encodeBytes bytes)
  | .array elem => .error ("rlp: unsupported array element type " ++ elem)
  | .uint64 value => .ok (encodeUint64 value)
  | .bool value => .ok (encodeBool value)
  | .other type => .error ("rlp: unsupported type " ++ type)

def encodeFields : Fields → Except String Bytes
  | .nil => .ok []
  | .cons name exported value rest =>
    if exported then
      match encode value with
      | .error failure => .error ("rlp: field " ++ name ++ ": " ++ failure)
      | .ok first => (encodeFields rest).map (first ++ ·)
    else encodeFields rest

end

def encodeToBytes (val : Value) : Except String Bytes :=
  encode val

/-! ## Agreement with the encoding by length prefixes -/

theorem putUintBE_eq {v : Nat} (small : v < 2 ^ 64) : putUintBE v = Lib.Rlp.minimal v := by
  have bytes : ([v >>> 56, v >>> 48, v >>> 40, v >>> 32, v >>> 24, v >>> 16, v >>> 8, v].map UInt8.ofNat) =
      Lib.Rlp.fixed 8 v := by
    have low (number : Nat) : UInt8.ofNat (number % 256) = UInt8.ofNat number := by
      apply UInt8.toNat_inj.mp
      simp
    simp only [Lib.Rlp.fixed, low, List.nil_append, List.cons_append, List.map_cons, List.map_nil,
      Nat.shiftRight_eq_div_pow, Nat.div_div_eq_div_mul]
  rw [putUintBE, bytes]
  exact Lib.Rlp.dropWhile_fixed small

theorem encodeBytes_eq {b : Bytes} (small : b.length < 2 ^ 64) : Lib.Rlp.encodeBytes b = some (encodeBytes b) := by
  have low (byte : UInt8) : decide (byte < 0x80) = decide (byte ≤ 0x7f) := by
    rw [decide_eq_decide, UInt8.lt_iff_toNat_lt, UInt8.le_iff_toNat_le]
    exact Nat.lt_succ_iff
  have same : Lib.Rlp.isSingle b = (b.length = 1 && b.all (· ≤ 0x7f)) := by
    simp only [Lib.Rlp.isSingle, low]
  unfold Lib.Rlp.encodeBytes encodeBytes
  rw [same]
  split
  · rfl
  · unfold Lib.Rlp.header encodeStringHeader
    by_cases short : b.length < 56
    · rw [if_pos short, if_pos (by omega)]
      rfl
    · rw [if_neg short, if_pos small, if_neg (by omega), Nat.mod_eq_of_lt small, putUintBE_eq small]
      rfl

theorem appendListHeader_eq {payload : Bytes} (small : payload.length < 2 ^ 64) :
    (Lib.Rlp.header 0xc0 0xf7 payload.length).map (· ++ payload) = some (appendListHeader payload) := by
  unfold Lib.Rlp.header appendListHeader
  by_cases short : payload.length < 56
  · rw [if_pos short, if_pos (by omega)]
    rfl
  · rw [if_neg short, if_pos small, if_neg (by omega), Nat.mod_eq_of_lt small, putUintBE_eq small]
    rfl

theorem encodeBigInt_eq (i : Int) : encodeBigInt i = encodeBytes (Lib.Rlp.minimal i.natAbs) := by
  unfold encodeBigInt
  split
  · next zero =>
    rw [zero, Int.natAbs_zero, Lib.Rlp.minimal_zero]
    rfl
  · rfl

theorem encodeUint64_eq (v : UInt64) : encodeUint64 v = encodeBytes (Lib.Rlp.minimal v.toNat) := by
  unfold encodeUint64
  split
  · next zero =>
    rw [zero, UInt64.toNat_zero, Lib.Rlp.minimal_zero]
    rfl
  · rw [putUintBE_eq v.toNat_lt]

theorem encodeBool_eq (b : Bool) : encodeBool b = encodeBytes (Lib.Rlp.minimal b.toNat) := by
  cases b with
  | false => simp [encodeBool]; rfl
  | true => decide +kernel

end OpsIndexer.Eth.Rlp
