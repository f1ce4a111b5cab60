import Mathlib

/-!
# Recursive length prefixes

Numbers as big-endian byte strings, of a fixed width or minimal, and the encoding of nested lists of byte strings by
length prefixes. The encoding is partial: nothing of `2 ^ 64` bytes or more has one. A decoder that stops after the
first item reads back every encoding, whatever follows it.
-/

namespace OpsIndexer.Lib.Rlp

open List

/-! ## Big-endian numbers -/

def value (bytes : List UInt8) : Nat :=
  bytes.foldl (fun value byte => value * 256 + byte.toNat) 0

def fixed : Nat → Nat → List UInt8
  | 0, _ => []
  | width + 1, number => fixed width (number / 256) ++ [UInt8.ofNat (number % 256)]

def minimal (number : Nat) : List UInt8 :=
  (Nat.digits 256 number).reverse.map UInt8.ofNat

theorem value_concat (bytes : List UInt8) (byte : UInt8) : value (bytes ++ [byte]) = value bytes * 256 + byte.toNat := by
  rw [value, foldl_concat, value]

theorem toNat_ofNat_mod (number : Nat) : (UInt8.ofNat (number % 256)).toNat = number % 256 := by
  simp

@[simp] theorem minimal_zero : minimal 0 = [] := by
  simp [minimal]

variable {number width length : Nat} {prefixed encoded : List UInt8} {item : Item}

theorem minimal_step (positive : 0 < number) :
    minimal number = minimal (number / 256) ++ [UInt8.ofNat (number % 256)] := by
  rw [minimal, Nat.digits_def' (by decide) positive, reverse_cons, map_append, map_singleton, minimal]

@[simp] theorem value_minimal (number : Nat) : value (minimal number) = number := by
  induction number using Nat.strongRecOn with
  | ind number ih =>
    rcases Nat.eq_zero_or_pos number with rfl | positive
    · rw [minimal_zero]
      rfl
    · rw [minimal_step positive, value_concat, ih _ (Nat.div_lt_self positive (by decide)), toNat_ofNat_mod]
      omega

theorem length_minimal (small : number < 256 ^ width) : (minimal number).length ≤ width := by
  rw [minimal, length_map, length_reverse]
  exact (Nat.digits_length_le_iff (by decide) number).mpr small

theorem length_minimal_pos (positive : 0 < number) : 0 < (minimal number).length := by
  rw [minimal_step positive, length_append, length_singleton]
  omega

@[simp] theorem length_fixed (width number : Nat) : (fixed width number).length = width := by
  induction width generalizing number with
  | zero => rfl
  | succ width ih => rw [fixed, length_append, ih, length_singleton]

theorem value_fixed (width number : Nat) : value (fixed width number) = number % 256 ^ width := by
  induction width generalizing number with
  | zero => rw [pow_zero, Nat.mod_one]; rfl
  | succ width ih =>
    rw [fixed, value_concat, ih, toNat_ofNat_mod, pow_succ, mul_comm (256 ^ width), Nat.mod_mul, mul_comm, add_comm]

theorem dropWhile_fixed (small : number < 256 ^ width) :
    (fixed width number).dropWhile (· = 0) = minimal number := by
  induction width generalizing number with
  | zero =>
    rw [pow_zero, Nat.lt_one_iff] at small
    rw [small, minimal_zero]
    rfl
  | succ width ih =>
    have upper : number / 256 < 256 ^ width := by
      rw [Nat.div_lt_iff_lt_mul (by decide), ← pow_succ]
      exact small
    rw [fixed, dropWhile_append, ih upper]
    rcases Nat.eq_zero_or_pos number with rfl | positive
    · simp
    · rw [minimal_step positive]
      rcases Nat.eq_zero_or_pos (number / 256) with single | more
      · have last : UInt8.ofNat (number % 256) ≠ 0 := by
          intro zero
          have byte := congrArg UInt8.toNat zero
          rw [toNat_ofNat_mod] at byte
          have whole : number % 256 = 0 := byte
          omega
        simp [single, last]
      · have headed : (minimal (number / 256)).isEmpty = false := by
          have length := length_minimal_pos more
          cases bytes : minimal (number / 256) with
          | nil => simp [bytes] at length
          | cons byte rest => rfl
        simp [headed]

/-! ## Items -/

inductive Item where
  | bytes (content : List UInt8)
  | list (items : List Item)

/-- A prefix for the given length: one byte up to 55, and above that the length's own bytes with their number. -/
def header (short long length : Nat) : Option (List UInt8) :=
  if length < 56 then some [UInt8.ofNat (short + length)]
  else if length < 2 ^ 64 then some (UInt8.ofNat (long + (minimal length).length) :: minimal length)
  else none

def isSingle (content : List UInt8) : Bool :=
  content.length = 1 && content.all (· < 0x80)

def encodeBytes (content : List UInt8) : Option (List UInt8) :=
  if isSingle content then some content
  else (header 0x80 0xb7 content.length).map (· ++ content)

mutual

def encode : Item → Option (List UInt8)
  | .bytes content => encodeBytes content
  | .list items => (encodeAll items).bind fun payload => (header 0xc0 0xf7 payload.length).map (· ++ payload)

def encodeAll : List Item → Option (List UInt8)
  | [] => some []
  | item :: items => (encode item).bind fun first => (encodeAll items).map (first ++ ·)

end

inductive Head where
  | single (byte : UInt8)
  | bytes (length : Nat)
  | list (length : Nat)
  deriving DecidableEq, Repr

def readLength (width : Nat) (input : List UInt8) : Option (Nat × List UInt8) :=
  if input.length < width then none else some (value (input.take width), input.drop width)

def readHead : List UInt8 → Option (Head × List UInt8)
  | [] => none
  | first :: rest =>
    if first.toNat < 0x80 then some (.single first, rest)
    else if first.toNat < 0xb8 then some (.bytes (first.toNat - 0x80), rest)
    else if first.toNat < 0xc0 then
      (readLength (first.toNat - 0xb7) rest).map fun (length, rest) => (.bytes length, rest)
    else if first.toNat < 0xf8 then some (.list (first.toNat - 0xc0), rest)
    else (readLength (first.toNat - 0xf7) rest).map fun (length, rest) => (.list length, rest)

mutual

def decodeItem : Nat → List UInt8 → Option (Item × List UInt8)
  | 0, _ => none
  | fuel + 1, input =>
    match readHead input with
    | none => none
    | some (.single byte, rest) => some (.bytes [byte], rest)
    | some (.bytes length, rest) =>
      if rest.length < length then none else some (.bytes (rest.take length), rest.drop length)
    | some (.list length, rest) =>
      if rest.length < length then none
      else (decodeAll fuel (rest.take length)).map fun items => (.list items, rest.drop length)

def decodeAll : Nat → List UInt8 → Option (List Item)
  | 0, _ => none
  | _ + 1, [] => some []
  | fuel + 1, input => (decodeItem fuel input).bind fun (item, rest) => (decodeAll fuel rest).map (item :: ·)

end

def decode (input : List UInt8) : Option Item :=
  match decodeItem (2 * input.length) input with
  | some (item, []) => some item
  | _ => none

/-! ### Prefixes -/

theorem readLength_append (bytes rest : List UInt8) : readLength bytes.length (bytes ++ rest) = some (value bytes, rest) := by
  simp [readLength]

theorem toNat_ofNat_lt (small : number < 256) : (UInt8.ofNat number).toNat = number := by
  rw [UInt8.toNat_ofNat']
  exact Nat.mod_eq_of_lt small

theorem header_eq_some {short long : Nat} (done : header short long length = some prefixed) :
    length < 56 ∧ prefixed = [UInt8.ofNat (short + length)] ∨
      (0 < (minimal length).length ∧ (minimal length).length ≤ 8) ∧
        prefixed = UInt8.ofNat (long + (minimal length).length) :: minimal length := by
  unfold header at done
  split at done
  · next small => exact .inl ⟨small, (Option.some.inj done).symm⟩
  · split at done
    · next large bounded =>
      refine .inr ⟨⟨?_, ?_⟩, (Option.some.inj done).symm⟩
      · exact length_minimal_pos (show 0 < length by omega)
      · exact length_minimal (show length < 256 ^ 8 by omega)
    · cases done

theorem header_length_pos {short long : Nat} (done : header short long length = some prefixed) :
    0 < prefixed.length := by
  rcases header_eq_some done with ⟨_, rfl⟩ | ⟨_, rfl⟩ <;> exact Nat.succ_pos _

theorem readHead_bytes (done : header 0x80 0xb7 length = some prefixed) (rest : List UInt8) :
    readHead (prefixed ++ rest) = some (.bytes length, rest) := by
  rcases header_eq_some done with ⟨small, rfl⟩ | ⟨width, rfl⟩
  · have first := toNat_ofNat_lt (show 0x80 + length < 256 by omega)
    rw [singleton_append, readHead, first, if_neg (by omega), if_pos (by omega), Nat.add_sub_cancel_left]
  · have first := toNat_ofNat_lt (show 0xb7 + (minimal length).length < 256 by omega)
    rw [cons_append, readHead, first, if_neg (by omega), if_neg (by omega), if_pos (by omega),
      Nat.add_sub_cancel_left, readLength_append, value_minimal]
    rfl

theorem readHead_list (done : header 0xc0 0xf7 length = some prefixed) (rest : List UInt8) :
    readHead (prefixed ++ rest) = some (.list length, rest) := by
  rcases header_eq_some done with ⟨small, rfl⟩ | ⟨width, rfl⟩
  · have first := toNat_ofNat_lt (show 0xc0 + length < 256 by omega)
    rw [singleton_append, readHead, first, if_neg (by omega), if_neg (by omega), if_neg (by omega),
      if_pos (by omega), Nat.add_sub_cancel_left]
  · have first := toNat_ofNat_lt (show 0xf7 + (minimal length).length < 256 by omega)
    rw [cons_append, readHead, first, if_neg (by omega), if_neg (by omega), if_neg (by omega),
      if_neg (by omega), Nat.add_sub_cancel_left, readLength_append, value_minimal]
    rfl

/-! ### Reading back -/

theorem decodeItem_bytes {content : List UInt8} (done : encodeBytes content = some encoded) (rest : List UInt8)
    (fuel : Nat) : decodeItem (fuel + 1) (encoded ++ rest) = some (.bytes content, rest) := by
  unfold encodeBytes at done
  split at done
  · next single =>
    simp only [isSingle, Bool.and_eq_true, decide_eq_true_eq, length_eq_one_iff] at single
    obtain ⟨⟨byte, rfl⟩, low⟩ := single
    have small : byte.toNat < 0x80 := by simpa [UInt8.lt_iff_toNat_lt] using low
    rw [← Option.some.inj done, decodeItem, singleton_append, readHead, if_pos small]
  · obtain ⟨prefixed, first, rfl⟩ := Option.map_eq_some_iff.mp done
    rw [decodeItem, append_assoc, readHead_bytes first]
    simp

theorem encode_length_pos (done : encode item = some encoded) :
    0 < encoded.length := by
  cases item with
  | bytes content =>
    rw [encode, encodeBytes] at done
    split at done
    · next single =>
      simp only [isSingle, Bool.and_eq_true, decide_eq_true_eq] at single
      rw [← Option.some.inj done]
      omega
    · obtain ⟨prefixed, first, rfl⟩ := Option.map_eq_some_iff.mp done
      have positive := header_length_pos first
      rw [length_append]
      omega
  | list items =>
    rw [encode] at done
    obtain ⟨payload, _, done⟩ := Option.bind_eq_some_iff.mp done
    obtain ⟨prefixed, first, rfl⟩ := Option.map_eq_some_iff.mp done
    have positive := header_length_pos first
    rw [length_append]
    omega

mutual

/-- An encoding is read back, whatever follows it; every level takes two steps of the decoder. -/
theorem decodeItem_encode (item : Item) (encoded rest : List UInt8) (fuel : Nat) (done : encode item = some encoded)
    (enough : 2 * encoded.length ≤ fuel) : decodeItem fuel (encoded ++ rest) = some (item, rest) := by
  have positive := encode_length_pos done
  obtain ⟨fuel, rfl⟩ : ∃ less, fuel = less + 1 := ⟨fuel - 1, by omega⟩
  match item with
  | .bytes content =>
    rw [encode] at done
    exact decodeItem_bytes done rest fuel
  | .list items =>
    rw [encode] at done
    obtain ⟨payload, inner, done⟩ := Option.bind_eq_some_iff.mp done
    obtain ⟨prefixed, first, rfl⟩ := Option.map_eq_some_iff.mp done
    have headed := header_length_pos first
    rw [length_append] at enough
    have within := decodeAll_encodeAll items payload fuel inner (by omega)
    rw [decodeItem, append_assoc, readHead_list first]
    simp [within]

theorem decodeAll_encodeAll (items : List Item) (payload : List UInt8) (fuel : Nat)
    (done : encodeAll items = some payload) (enough : 2 * payload.length + 1 ≤ fuel) :
    decodeAll fuel payload = some items := by
  obtain ⟨fuel, rfl⟩ : ∃ less, fuel = less + 1 := ⟨fuel - 1, by omega⟩
  match items with
  | [] =>
    rw [encodeAll] at done
    rw [← Option.some.inj done, decodeAll]
  | item :: items =>
    rw [encodeAll] at done
    obtain ⟨encoded, first, done⟩ := Option.bind_eq_some_iff.mp done
    obtain ⟨others, later, rfl⟩ := Option.map_eq_some_iff.mp done
    have positive := encode_length_pos first
    rw [length_append] at enough
    have head := decodeItem_encode item encoded others fuel first (by omega)
    have tail := decodeAll_encodeAll items others fuel later (by omega)
    have filled : encoded ++ others ≠ [] := by
      intro empty
      rw [(append_eq_nil_iff.mp empty).1] at positive
      cases positive
    rw [decodeAll, head]
    · simp only [Option.bind_some, tail, Option.map_some]
    · exact filled

end

theorem decode_encode (done : encode item = some encoded) :
    decode encoded = some item := by
  have read := decodeItem_encode item encoded [] (2 * encoded.length) done le_rfl
  rw [append_nil] at read
  rw [decode, read]

end OpsIndexer.Lib.Rlp
