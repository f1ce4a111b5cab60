import OpsIndexer.Eth.Rlp

/-!
# The hash of a deposit transaction

`internal/opdeposits/hash.go`: the L2 transaction hash is the keccak of the type byte and the RLP list of eight fields.
The list is read back to the fields.
-/

namespace OpsIndexer.Opdeposits

open Eth List

def depositTxType : UInt8 := 0x7e

structure DepositTxFields where
  sourceHash : Hash
  fromAddress : Address
  toAddress : Option Address
  mint : Option Int
  value : Option Int
  gas : UInt64
  isSystemTx : Bool
  data : Bytes

def hashBytes (hash : Hash) : Bytes :=
  Lib.Rlp.fixed 32 hash.toNat

def addressBytes (address : Address) : Bytes :=
  Lib.Rlp.fixed 20 address.toNat

def DepositTxFields.reflected (fields : DepositTxFields) : Rlp.Value :=
  .struct (.cons "SourceHash" true (.byteArray (hashBytes fields.sourceHash))
    (.cons "From" true (.byteArray (addressBytes fields.fromAddress))
    (.cons "To" true ((fields.toAddress.map fun address => .ptr (.byteArray (addressBytes address))).getD .nilPtr)
    (.cons "Mint" true (.bigInt fields.mint)
    (.cons "Value" true (.bigInt fields.value)
    (.cons "Gas" true (.uint64 fields.gas)
    (.cons "IsSystemTx" true (.bool fields.isSystemTx)
    (.cons "Data" true (.byteSlice fields.data) .nil))))))))

def computeL2DepositTxHash (keccak256 : Bytes → Hash) (fields : DepositTxFields) : Except String Hash :=
  let fields := { fields with mint := some (fields.mint.getD 0), value := some (fields.value.getD 0) }
  (Rlp.encodeToBytes fields.reflected).map fun encoded => keccak256 (depositTxType :: encoded)

/-! ## The fields as an RLP list -/

structure DepositTx where
  sourceHash : Hash
  fromAddress : Address
  toAddress : Option Address
  mint : Nat
  value : Nat
  gas : UInt64
  isSystemTx : Bool
  data : Bytes

def DepositTx.strings (tx : DepositTx) : List Bytes :=
  [hashBytes tx.sourceHash, addressBytes tx.fromAddress, (tx.toAddress.map addressBytes).getD [],
    Lib.Rlp.minimal tx.mint, Lib.Rlp.minimal tx.value, Lib.Rlp.minimal tx.gas.toNat,
    Lib.Rlp.minimal tx.isSystemTx.toNat, tx.data]

def DepositTx.item (tx : DepositTx) : Lib.Rlp.Item :=
  .list (tx.strings.map .bytes)

def DepositTx.payload (tx : DepositTx) : Bytes :=
  tx.strings.flatMap Rlp.encodeBytes

def Amount (amount : Option Int) (number : Nat) : Prop :=
  amount.getD 0 = number

structure DepositTx.Fills (tx : DepositTx) (fields : DepositTxFields) : Prop where
  sourceHash : fields.sourceHash = tx.sourceHash
  fromAddress : fields.fromAddress = tx.fromAddress
  toAddress : fields.toAddress = tx.toAddress
  mint : Amount fields.mint tx.mint
  value : Amount fields.value tx.value
  gas : fields.gas = tx.gas
  isSystemTx : fields.isSystemTx = tx.isSystemTx
  data : fields.data = tx.data

def depositTxOf : Lib.Rlp.Item → Option DepositTx
  | .list [.bytes sourceHash, .bytes fromAddress, .bytes toAddress, .bytes mint, .bytes value, .bytes gas,
      .bytes isSystemTx, .bytes data] =>
    some
      { sourceHash := bytesToHash sourceHash
        fromAddress := bytesToAddress fromAddress
        toAddress := if toAddress = [] then none else some (bytesToAddress toAddress)
        mint := setBytes mint
        value := setBytes value
        gas := UInt64.ofNat (setBytes gas)
        isSystemTx := decide (setBytes isSystemTx = 1)
        data := data }
  | _ => none

/-! ## Reading back -/

theorem bytesToHash_hashBytes (hash : Hash) : bytesToHash (hashBytes hash) = hash := by
  rw [bytesToHash, hashBytes, setBytes, Lib.Rlp.value_fixed, Nat.mod_eq_of_lt]
  · exact (BitVec.ofNat_toNat 256 hash).trans (BitVec.setWidth_eq hash)
  · exact hash.isLt

theorem bytesToAddress_addressBytes (address : Address) : bytesToAddress (addressBytes address) = address := by
  rw [bytesToAddress, addressBytes, setBytes, Lib.Rlp.value_fixed, Nat.mod_eq_of_lt]
  · exact (BitVec.ofNat_toNat 160 address).trans (BitVec.setWidth_eq address)
  · exact address.isLt

theorem addressBytes_ne_nil (address : Address) : addressBytes address ≠ [] := by
  intro empty
  have length := congrArg List.length empty
  rw [addressBytes, Lib.Rlp.length_fixed] at length
  cases length

theorem depositTxOf_item (tx : DepositTx) : depositTxOf tx.item = some tx := by
  obtain ⟨sourceHash, fromAddress, toAddress, mint, value, gas, isSystemTx, data⟩ := tx
  simp only [DepositTx.item, DepositTx.strings, map_cons, map_nil, depositTxOf, bytesToHash_hashBytes,
    bytesToAddress_addressBytes, setBytes, Lib.Rlp.value_minimal, UInt64.ofNat_toNat, Option.some.injEq,
    DepositTx.mk.injEq, true_and, and_true]
  constructor
  · cases toAddress with
    | none => rfl
    | some address =>
      rw [Option.map_some, Option.getD_some, if_neg (addressBytes_ne_nil address), bytesToAddress_addressBytes]
  · cases isSystemTx <;> rfl

/-! ## The encoder's bytes -/

theorem length_le_encodeBytes (b : Bytes) : b.length ≤ (Rlp.encodeBytes b).length := by
  unfold Rlp.encodeBytes
  split
  · exact le_rfl
  · rw [length_append]
    omega

theorem length_le_flatMap {strings : List Bytes} {string : Bytes} (listed : string ∈ strings) :
    string.length ≤ (strings.flatMap Rlp.encodeBytes).length := by
  have part := sublist_flatten_of_mem (mem_map_of_mem (f := Rlp.encodeBytes) listed)
  exact (length_le_encodeBytes string).trans (flatMap_def ▸ part.length_le)

theorem encodeAll_strings (strings : List Bytes) (short : ∀ string ∈ strings, string.length < 2 ^ 64) :
    Lib.Rlp.encodeAll (strings.map .bytes) = some (strings.flatMap Rlp.encodeBytes) := by
  induction strings with
  | nil => rfl
  | cons string rest ih =>
    rw [forall_mem_cons] at short
    rw [map_cons, Lib.Rlp.encodeAll, Lib.Rlp.encode, Rlp.encodeBytes_eq short.1, Option.bind_some, ih short.2,
      Option.map_some, flatMap_cons]

variable {tx : DepositTx} {fields : DepositTxFields}

theorem encode_item (fits : tx.payload.length < 2 ^ 64) :
    Lib.Rlp.encode tx.item = some (Rlp.appendListHeader tx.payload) := by
  have short : ∀ string ∈ tx.strings, string.length < 2 ^ 64 :=
    fun string listed => (length_le_flatMap listed).trans_lt fits
  rw [DepositTx.item, Lib.Rlp.encode, encodeAll_strings tx.strings short, Option.bind_some]
  exact Rlp.appendListHeader_eq fits

theorem encode_bigInt {amount : Option Int} {number : Nat} (given : Amount amount number) :
    Rlp.encode (.bigInt amount) = .ok (Rlp.encodeBytes (Lib.Rlp.minimal number)) := by
  unfold Amount at given
  cases amount with
  | none =>
    have zero : number = 0 := by
      rw [Option.getD_none] at given
      omega
    rw [zero, Lib.Rlp.minimal_zero]
    rfl
  | some i =>
    rw [Option.getD_some] at given
    rw [Rlp.encode, Rlp.encodeBigInt_eq, given, Int.natAbs_natCast]

theorem encodeToBytes_reflected (fills : tx.Fills fields) :
    Rlp.encodeToBytes fields.reflected = .ok (Rlp.appendListHeader tx.payload) := by
  have recipient : Rlp.encode
      ((fields.toAddress.map fun address => .ptr (.byteArray (addressBytes address))).getD .nilPtr) =
        .ok (Rlp.encodeBytes ((tx.toAddress.map addressBytes).getD [])) := by
    rw [fills.toAddress]
    cases tx.toAddress with
    | none => rfl
    | some address => simp only [Option.map_some, Option.getD_some, Rlp.encode]
  simp only [Rlp.encodeToBytes, DepositTxFields.reflected, Rlp.encode, Rlp.encodeFields, if_true, recipient,
    encode_bigInt fills.mint, encode_bigInt fills.value, Rlp.encodeUint64_eq, Rlp.encodeBool_eq, Except.map,
    fills.sourceHash, fills.fromAddress, fills.gas, fills.isSystemTx, fills.data, DepositTx.payload,
    DepositTx.strings, flatMap_cons, flatMap_nil]

theorem DepositTx.Fills.completed (fills : tx.Fills fields) :
    tx.Fills { fields with mint := some (fields.mint.getD 0), value := some (fields.value.getD 0) } :=
  { fills with }

/-- Deposits whose fields take fewer than `2 ^ 64` bytes: the encoder's bytes are the RLP list of the eight fields,
they are read back as the deposit, and two deposits have different preimages. -/
theorem depositTx_encoding {tx other : DepositTx} {fields otherFields : DepositTxFields} (fills : tx.Fills fields)
    (otherFills : other.Fills otherFields) (fits : tx.payload.length < 2 ^ 64)
    (otherFits : other.payload.length < 2 ^ 64) :
    ∃ encoded otherEncoded, Rlp.encodeToBytes fields.reflected = .ok encoded ∧
      Lib.Rlp.encode tx.item = some encoded ∧ (Lib.Rlp.decode encoded).bind depositTxOf = some tx ∧
      Rlp.encodeToBytes otherFields.reflected = .ok otherEncoded ∧
      (encoded = otherEncoded ↔ tx = other) ∧
      ∀ keccak256, computeL2DepositTxHash keccak256 fields = .ok (keccak256 (depositTxType :: encoded)) ∧
        computeL2DepositTxHash keccak256 otherFields = .ok (keccak256 (depositTxType :: otherEncoded)) ∧
        (depositTxType :: encoded = depositTxType :: otherEncoded ↔ tx = other) := by
  have read : (Lib.Rlp.decode (Rlp.appendListHeader tx.payload)).bind depositTxOf = some tx := by
    rw [Lib.Rlp.decode_encode (encode_item fits), Option.bind_some, depositTxOf_item]
  have same : Rlp.appendListHeader tx.payload = Rlp.appendListHeader other.payload ↔ tx = other := by
    constructor
    · intro equal
      rw [equal, Lib.Rlp.decode_encode (encode_item otherFits), Option.bind_some, depositTxOf_item] at read
      exact (Option.some.inj read).symm
    · rintro rfl
      rfl
  refine ⟨_, _, encodeToBytes_reflected fills, encode_item fits, read, encodeToBytes_reflected otherFills, same, ?_⟩
  intro keccak256
  refine ⟨?_, ?_, ?_⟩
  · rw [computeL2DepositTxHash, encodeToBytes_reflected fills.completed]
    rfl
  · rw [computeL2DepositTxHash, encodeToBytes_reflected otherFills.completed]
    rfl
  · rw [cons_inj_right]
    exact same

def smallDeposit (mint : Nat) : DepositTx where
  sourceHash := 1
  fromAddress := 2
  toAddress := none
  mint := mint
  value := 0
  gas := 21000
  isSystemTx := false
  data := [0xff]

def smallFields (mint : Nat) : DepositTxFields where
  sourceHash := 1
  fromAddress := 2
  toAddress := none
  mint := some mint
  value := none
  gas := 21000
  isSystemTx := false
  data := [0xff]

theorem depositTx_encoding_mints :
    (Rlp.encodeToBytes (smallFields 300).reflected).toOption ≠ (Rlp.encodeToBytes (smallFields 301).reflected).toOption := by
  have fills (mint : Nat) : (smallDeposit mint).Fills (smallFields mint) := ⟨rfl, rfl, rfl, rfl, rfl, rfl, rfl, rfl⟩
  obtain ⟨encoded, otherEncoded, first, _, _, second, same, _⟩ :=
    depositTx_encoding (fills 300) (fills 301) (by decide +kernel) (by decide +kernel)
  rw [first, second]
  intro equal
  have mint := congrArg DepositTx.mint (same.mp (Option.some.inj equal))
  cases mint

def longDeposit : DepositTx :=
  { smallDeposit 0 with data := List.replicate (2 ^ 64 - 1) 0 }

/-- The data alone leaves no room for the other fields: the encoder returns bytes, but the list has no encoding. -/
theorem longDeposit_unencodable :
    longDeposit.data.length < 2 ^ 64 ∧
      (∃ encoded, Rlp.encodeToBytes { smallFields 0 with data := longDeposit.data }.reflected = .ok encoded) ∧
      Lib.Rlp.encode longDeposit.item = none := by
  have data : longDeposit.data.length = 2 ^ 64 - 1 := length_replicate
  have fills : longDeposit.Fills { smallFields 0 with data := longDeposit.data } :=
    ⟨rfl, rfl, rfl, rfl, rfl, rfl, rfl, rfl⟩
  have strings : longDeposit.strings = (smallDeposit 0).strings.take 7 ++ [longDeposit.data] := rfl
  have others : ∀ string ∈ (smallDeposit 0).strings.take 7, string.length < 2 ^ 64 := by
    decide +kernel
  have short : ∀ string ∈ longDeposit.strings, string.length < 2 ^ 64 := by
    intro string listed
    rw [strings, mem_append, mem_singleton] at listed
    rcases listed with small | own
    · exact others string small
    · rw [own]
      omega
  have long : ¬(longDeposit.strings.flatMap Rlp.encodeBytes).length < 2 ^ 64 := by
    have first : 0 < (((smallDeposit 0).strings.take 7).flatMap Rlp.encodeBytes).length := by
      decide +kernel
    have last := length_le_encodeBytes longDeposit.data
    rw [strings, flatMap_append, flatMap_singleton, length_append]
    omega
  refine ⟨by omega, ⟨_, encodeToBytes_reflected fills⟩, ?_⟩
  rw [DepositTx.item, Lib.Rlp.encode, encodeAll_strings _ short, Option.bind_some, Lib.Rlp.header,
    if_neg (by omega), if_neg long, Option.map_none]

end OpsIndexer.Opdeposits
