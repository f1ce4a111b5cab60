import OpsIndexer.Lib.Rlp

/-!
# Addresses, hashes and their texts

`pkg/eth/common`: the fixed-size byte arrays are bit vectors, so an all-zero value is `0` and cutting a
longer byte string to its last bytes is a remainder. Texts are compared as the source compares them: in the
checksum case the client writes, or lowered.
-/

namespace OpsIndexer.Eth

open List

abbrev Bytes := List UInt8

abbrev Address := BitVec 160

abbrev Hash := BitVec 256

/-- `strings.ToLower` and SQL `LOWER` on the texts the indexer compares. -/
def lower (text : String) : String :=
  String.ofList (text.toList.map Char.toLower)

def setBytes (bytes : Bytes) : Nat :=
  Lib.Rlp.value bytes

/-- `data[low:high]`, none where it panics. -/
def slice (data : Bytes) (low high : Nat) : Option Bytes :=
  if low ≤ high ∧ high ≤ data.length then some ((data.take high).drop low) else none

def bytesToHash (bytes : Bytes) : Hash :=
  BitVec.ofNat 256 (setBytes bytes)

def bytesToAddress (bytes : Bytes) : Address :=
  BitVec.ofNat 160 (setBytes bytes)

def Hash.toAddress (word : Hash) : Address :=
  word.setWidth 160

def hexDigits : Nat → Nat → List Char
  | 0, _ => []
  | width + 1, value => hexDigits width (value / 16) ++ [Nat.digitChar (value % 16)]

def bytes2Hex (bytes : Bytes) : String :=
  String.ofList (bytes.flatMap fun byte => hexDigits 2 byte.toNat)

def Hash.hex (hash : Hash) : String :=
  "0x" ++ String.ofList (hexDigits 64 hash.toNat)

def Address.key (address : Address) : String :=
  "0x" ++ String.ofList (hexDigits 40 address.toNat)

def checksumNibble (hash : Hash) (index : Nat) : Nat :=
  hash.toNat / 16 ^ (63 - index) % 16

def checksumDigit (hash : Hash) (digit : Char) (index : Nat) : Char :=
  if digit.isDigit then digit
  else if 8 ≤ checksumNibble hash index then digit.toUpper
  else digit

/-- `Address.Hex`: the EIP-55 text. Keccak is a parameter: the indexer only ever relies on the digits. -/
def Address.hex (keccak256 : Bytes → Hash) (address : Address) : String :=
  let unchecksummed := hexDigits 40 address.toNat
  let hash := keccak256 (unchecksummed.map fun digit => UInt8.ofNat digit.toNat)
  "0x" ++ String.ofList (unchecksummed.zipIdx.map fun (digit, index) => checksumDigit hash digit index)

/-- `big.Int.Uint64`: the low word of the magnitude. -/
def uint64 (value : Int) : Nat :=
  value.natAbs % 2 ^ 64

/-- `big.Int.Int64`: the low word of the magnitude as a signed word, under the sign of the value. -/
def int64 (value : Int) : Int :=
  let word := (value.natAbs % 2 ^ 64 : Nat)
  let signed := (word : Int).bmod (2 ^ 64)
  if value < 0 then (-signed).bmod (2 ^ 64) else signed

def hexValue (digit : Char) : Option Nat :=
  if digit.isDigit then some (digit.toNat - '0'.toNat)
  else if 'a' ≤ digit ∧ digit ≤ 'f' then some (digit.toNat - 'a'.toNat + 10)
  else if 'A' ≤ digit ∧ digit ≤ 'F' then some (digit.toNat - 'A'.toNat + 10)
  else none

def decodeHex : List Char → Option Bytes
  | high :: low :: rest => do
    let high ← hexValue high
    let low ← hexValue low
    let rest ← decodeHex rest
    pure (UInt8.ofNat (high * 16 + low) :: rest)
  | [] => some []
  | [_] => none

/-- `FromHex`: an odd text is padded, a text that is not hex decodes to no bytes. -/
def fromHex (text : String) : Bytes :=
  let digits := match text.toList with
    | '0' :: 'x' :: rest => rest
    | '0' :: 'X' :: rest => rest
    | digits => digits
  let padded := if digits.length % 2 = 0 then digits else '0' :: digits
  (decodeHex padded).getD []

def hexToAddress (text : String) : Address :=
  bytesToAddress (fromHex text)

@[simp] theorem toList_lower (text : String) : (lower text).toList = text.toList.map Char.toLower := by
  simp [lower]

@[simp] theorem lower_lower (text : String) : lower (lower text) = lower text := by
  simp only [← String.toList_inj, toList_lower, map_map]
  congr 1
  funext digit
  exact Char.toLower_toLower_eq_toLower digit

private theorem digitChar_injective :
    ∀ d < 16, ∀ e < 16, Nat.digitChar d = Nat.digitChar e → d = e := by
  decide

private theorem digitChar_toLower : ∀ d < 16, (Nat.digitChar d).toLower = Nat.digitChar d := by
  decide

private theorem digitChar_toUpper_toLower :
    ∀ d < 16, (Nat.digitChar d).toUpper.toLower = Nat.digitChar d := by
  decide

@[simp] theorem length_hexDigits (width value : Nat) : (hexDigits width value).length = width := by
  induction width generalizing value with
  | zero => rfl
  | succ width ih => simp [hexDigits, ih]

theorem hexDigits_mem (width value : Nat) (digit : Char) (member : digit ∈ hexDigits width value) :
    ∃ d < 16, digit = Nat.digitChar d := by
  induction width generalizing value with
  | zero => simp [hexDigits] at member
  | succ width ih =>
    simp only [hexDigits, mem_append, mem_singleton] at member
    rcases member with member | last
    · exact ih (value / 16) member
    · exact ⟨value % 16, Nat.mod_lt _ (by decide), last⟩

theorem hexDigits_injective (width : Nat) :
    ∀ a < 16 ^ width, ∀ b < 16 ^ width, hexDigits width a = hexDigits width b → a = b := by
  induction width with
  | zero =>
    intro a boundA b boundB _
    simp only [pow_zero, Nat.lt_one_iff] at boundA boundB
    rw [boundA, boundB]
  | succ width ih =>
    intro a boundA b boundB same
    rw [pow_succ] at boundA boundB
    have split := append_inj' same rfl
    have high := ih (a / 16) (by omega) (b / 16) (by omega) split.1
    have low := digitChar_injective (a % 16) (Nat.mod_lt _ (by decide)) (b % 16) (Nat.mod_lt _ (by decide))
      (by simpa using split.2)
    omega

theorem map_toLower_hexDigits (width value : Nat) :
    (hexDigits width value).map Char.toLower = hexDigits width value := by
  conv_rhs => rw [← map_id (hexDigits width value)]
  apply map_congr_left
  intro digit member
  obtain ⟨d, bound, rfl⟩ := hexDigits_mem width value digit member
  exact digitChar_toLower d bound

theorem Hash.hex_injective (a b : Hash) (same : Hash.hex a = Hash.hex b) : a = b := by
  have digits : hexDigits 64 a.toNat = hexDigits 64 b.toNat := by
    simpa [Hash.hex, ← String.toList_inj] using same
  exact BitVec.eq_of_toNat_eq (hexDigits_injective 64 _ a.isLt _ b.isLt digits)

@[simp] theorem Hash.hex_inj (a b : Hash) : Hash.hex a = Hash.hex b ↔ a = b :=
  ⟨Hash.hex_injective a b, congrArg Hash.hex⟩

@[simp] theorem lower_hashHex (hash : Hash) : lower (Hash.hex hash) = Hash.hex hash := by
  simp only [← String.toList_inj, toList_lower, Hash.hex, String.toList_append, map_append,
    String.toList_ofList, map_toLower_hexDigits]
  rfl

theorem Address.key_injective (a b : Address) (same : Address.key a = Address.key b) : a = b := by
  have digits : hexDigits 40 a.toNat = hexDigits 40 b.toNat := by
    simpa [Address.key, ← String.toList_inj] using same
  exact BitVec.eq_of_toNat_eq (hexDigits_injective 40 _ a.isLt _ b.isLt digits)

@[simp] theorem Address.key_inj (a b : Address) : Address.key a = Address.key b ↔ a = b :=
  ⟨Address.key_injective a b, congrArg Address.key⟩

private theorem checksumDigit_toLower (hash : Hash) (d index : Nat) (bound : d < 16) :
    (checksumDigit hash (Nat.digitChar d) index).toLower = Nat.digitChar d := by
  unfold checksumDigit
  split
  · exact digitChar_toLower d bound
  · split
    · exact digitChar_toUpper_toLower d bound
    · exact digitChar_toLower d bound

/-- The checksum only picks letter cases: lowered, an address's text is its key. -/
@[simp] theorem lower_addressHex (keccak256 : Bytes → Hash) (address : Address) :
    lower (Address.hex keccak256 address) = Address.key address := by
  have digits (hash : Hash) : ((hexDigits 40 address.toNat).zipIdx.map
      fun (digit, index) => checksumDigit hash digit index).map Char.toLower =
        hexDigits 40 address.toNat := by
    rw [map_map]
    conv_rhs => rw [← zipIdx_map_fst 0 (hexDigits 40 address.toNat)]
    apply map_congr_left
    intro entry member
    obtain ⟨d, bound, same⟩ := hexDigits_mem 40 address.toNat entry.1 (fst_mem_of_mem_zipIdx member)
    simp only [Function.comp_apply, same]
    exact checksumDigit_toLower hash d entry.2 bound
  simp only [← String.toList_inj, toList_lower, Address.hex, Address.key, String.toList_append,
    map_append, String.toList_ofList, digits]
  rfl

theorem Address.hex_inj (keccak256 : Bytes → Hash) (a b : Address) :
    Address.hex keccak256 a = Address.hex keccak256 b ↔ a = b := by
  constructor
  · intro same
    apply Address.key_injective
    rw [← lower_addressHex keccak256 a, ← lower_addressHex keccak256 b, same]
  · exact congrArg (Address.hex keccak256)

/-! ## Big-endian numbers and their digits -/

theorem setBytes_concat (bytes : Bytes) (byte : UInt8) :
    setBytes (bytes ++ [byte]) = setBytes bytes * 256 + byte.toNat :=
  Lib.Rlp.value_concat bytes byte

theorem setBytes_append (high low : Bytes) :
    setBytes (high ++ low) = setBytes high * 256 ^ low.length + setBytes low := by
  induction low using List.reverseRecOn with
  | nil => simp [setBytes, Lib.Rlp.value]
  | append_singleton low byte ih =>
    rw [← append_assoc, setBytes_concat, ih, setBytes_concat, length_append, length_singleton, pow_succ]
    ring

theorem setBytes_lt (bytes : Bytes) : setBytes bytes < 256 ^ bytes.length := by
  induction bytes using List.reverseRecOn with
  | nil => decide
  | append_singleton bytes byte ih =>
    have bound := byte.toNat_lt
    rw [setBytes_concat, length_append, length_singleton, pow_succ]
    omega

private theorem hexValue_digitChar : ∀ d < 16, hexValue (Nat.digitChar d) = some d := by
  decide

theorem decodeHex_append_pair {high low : Char} {h l : Nat} (highValue : hexValue high = some h)
    (lowValue : hexValue low = some l) {digits : List Char} {bytes : Bytes} (decoded : decodeHex digits = some bytes) :
    decodeHex (digits ++ [high, low]) = some (bytes ++ [UInt8.ofNat (h * 16 + l)]) := by
  induction digits using decodeHex.induct generalizing bytes with
  | case1 first second rest ih =>
    simp only [decodeHex, Option.bind_eq_bind, Option.bind_eq_some_iff] at decoded
    obtain ⟨a, firstValue, b, secondValue, others, tail, whole⟩ := decoded
    rw [← Option.some.inj whole]
    simp only [cons_append, decodeHex, firstValue, secondValue, ih tail, Option.bind_eq_bind, Option.bind_some,
      Option.pure_def]
  | case2 =>
    rw [← Option.some.inj decoded]
    simp [decodeHex, highValue, lowValue]
  | case3 => cases decoded

theorem decodeHex_hexDigits (count value : Nat) :
    ∃ bytes, decodeHex (hexDigits (2 * count) value) = some bytes ∧ setBytes bytes = value % 256 ^ count := by
  induction count generalizing value with
  | zero => exact ⟨[], rfl, (Nat.mod_one value).symm⟩
  | succ count ih =>
    obtain ⟨bytes, decoded, held⟩ := ih (value / 16 / 16)
    have digits : hexDigits (2 * (count + 1)) value =
        hexDigits (2 * count) (value / 16 / 16) ++
          [Nat.digitChar (value / 16 % 16), Nat.digitChar (value % 16)] := by
      rw [Nat.mul_succ, hexDigits, hexDigits, append_assoc, singleton_append]
    have highValue := hexValue_digitChar (value / 16 % 16) (Nat.mod_lt _ (by decide))
    have lowValue := hexValue_digitChar (value % 16) (Nat.mod_lt _ (by decide))
    refine ⟨_, by rw [digits, decodeHex_append_pair highValue lowValue decoded], ?_⟩
    have last : value / 16 % 16 * 16 + value % 16 = value % 256 := by omega
    have byte : setBytes [UInt8.ofNat (value % 256)] = value % 256 := by
      simp [setBytes, Lib.Rlp.value]
    rw [setBytes_append, last, byte, held, length_singleton, pow_one, Nat.div_div_eq_div_mul, pow_succ,
      mul_comm (256 ^ count), Nat.mod_mul, mul_comm, Nat.add_comm]

@[simp] theorem hexToAddress_key (address : Address) : hexToAddress (Address.key address) = address := by
  obtain ⟨bytes, decoded, held⟩ := decodeHex_hexDigits 20 address.toNat
  have digits : fromHex (Address.key address) = bytes := by
    have text : (Address.key address).toList = '0' :: 'x' :: hexDigits 40 address.toNat := by
      simp [Address.key]
    have even : decodeHex (hexDigits 40 address.toNat) = some bytes := decoded
    simp only [fromHex, text, length_hexDigits, Nat.reduceMod, if_true, even, Option.getD_some]
  have width : (256 : Nat) ^ 20 = 2 ^ 160 := by decide
  rw [hexToAddress, digits, bytesToAddress, held, width, Nat.mod_eq_of_lt address.isLt, BitVec.ofNat_toNat,
    BitVec.setWidth_eq]

theorem setBytes_injective {first second : Bytes} (length : first.length = second.length)
    (same : setBytes first = setBytes second) : first = second := by
  induction first using List.reverseRecOn generalizing second with
  | nil => exact (length_eq_zero_iff.mp length.symm).symm
  | append_singleton first byte ih =>
    obtain rfl | ⟨second, other, rfl⟩ := eq_nil_or_concat' second
    · simp at length
    · rw [setBytes_concat, setBytes_concat] at same
      have bound := byte.toNat_lt
      have bound' := other.toNat_lt
      rw [ih (by simpa using length) (by omega), UInt8.toNat_inj.mp (by omega : byte.toNat = other.toNat)]

theorem length_bytes2Hex (bytes : Bytes) : (bytes2Hex bytes).length = 2 * bytes.length := by
  rw [bytes2Hex, String.length_ofList]
  induction bytes with
  | nil => rfl
  | cons byte rest ih =>
    rw [flatMap_cons, length_append, length_hexDigits, ih, length_cons]
    omega

theorem digit_ne_x {bytes : Bytes} {digit : Char} (member : digit ∈ (bytes2Hex bytes).toList) :
    digit ≠ 'x' ∧ digit ≠ 'X' := by
  rw [bytes2Hex, String.toList_ofList, mem_flatMap] at member
  obtain ⟨byte, _, written⟩ := member
  obtain ⟨value, bound, rfl⟩ := hexDigits_mem 2 byte.toNat digit written
  clear written
  revert value
  decide

theorem decodeHex_bytes2Hex (bytes : Bytes) : decodeHex (bytes2Hex bytes).toList = some bytes := by
  rw [bytes2Hex, String.toList_ofList]
  induction bytes with
  | nil => rfl
  | cons byte rest ih =>
    have high := hexValue_digitChar (byte.toNat / 16 % 16) (Nat.mod_lt _ (by decide))
    have low := hexValue_digitChar (byte.toNat % 16) (Nat.mod_lt _ (by decide))
    have whole : byte.toNat / 16 % 16 * 16 + byte.toNat % 16 = byte.toNat := by
      have bound := byte.toNat_lt
      omega
    have digits : hexDigits 2 byte.toNat =
        [Nat.digitChar (byte.toNat / 16 % 16), Nat.digitChar (byte.toNat % 16)] := rfl
    simp only [flatMap_cons, digits, nil_append, cons_append, decodeHex, high, low, ih, whole,
      Option.bind_eq_bind, Option.bind_some, Option.pure_def, UInt8.ofNat_toNat]

@[simp] theorem fromHex_bytes2Hex (bytes : Bytes) : fromHex (bytes2Hex bytes) = bytes := by
  have even : (bytes2Hex bytes).toList.length % 2 = 0 := by
    rw [String.length_toList, length_bytes2Hex]
    omega
  have plain : ∀ digit ∈ (bytes2Hex bytes).toList, digit ≠ 'x' ∧ digit ≠ 'X' := fun _ => digit_ne_x
  rw [fromHex]
  split
  · next rest prefixed =>
    rw [prefixed] at plain
    exact absurd rfl (plain 'x' (by simp)).1
  · next rest prefixed =>
    rw [prefixed] at plain
    exact absurd rfl (plain 'X' (by simp)).2
  · simp only [even, if_true, decodeHex_bytes2Hex, Option.getD_some]

end OpsIndexer.Eth
