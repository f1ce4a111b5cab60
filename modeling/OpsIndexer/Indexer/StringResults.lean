import OpsIndexer.Indexer.BalanceWorker
import OpsIndexer.Opdeposits.Fetcher

/-!
# Untrusted offsets and lengths

The decoders of what a contract or a log returns: both `parseStringResult`, the `opaqueData` of a deposit and the words
of the `BalanceReader`. Each checks a sum of numbers it was sent, and the sum wraps; a slice out of range ends the
process. A slice is shorter than `2 ^ 63`.
-/

namespace OpsIndexer.Indexing

open Eth Rpc Opdeposits Lib.Table List

/-! ## Texts -/

/-- `strings.TrimRight(text, "\x00")`. -/
def trimRightNul (text : Bytes) : Bytes :=
  (text.reverse.dropWhile fun byte => byte = 0).reverse

def parseStringResult : Bytes → Option Bytes :=
  textResult trimRightNul

def offsetWord (data : Bytes) : Nat :=
  setBytes (data.take 32) % 2 ^ 64

def lengthWord (data : Bytes) (offset : Nat) : Nat :=
  setBytes ((data.drop offset).take 32) % 2 ^ 64

def LengthWraps (data : Bytes) : Prop :=
  64 ≤ data.length ∧ offsetWord data + 32 ≤ data.length ∧
    2 ^ 64 ≤ offsetWord data + 32 + lengthWord data (offsetWord data)

def OffsetWraps (data : Bytes) : Prop :=
  64 ≤ data.length ∧ 2 ^ 64 ≤ offsetWord data + 32

/-- An ABI encoding of a text: an offset past the head, and there the length and the text. -/
def AbiString (data text : Bytes) : Prop :=
  ∃ offset, 32 ≤ offset ∧ setBytes (data.take 32) = offset ∧ offset + 32 + text.length ≤ data.length ∧
    setBytes ((data.drop offset).take 32) = text.length ∧ (data.drop (offset + 32)).take text.length = text

def abiEncode (text : Bytes) : Bytes :=
  Lib.Rlp.fixed 32 32 ++ Lib.Rlp.fixed 32 text.length ++ text ++ List.replicate ((32 - text.length % 32) % 32) 0

theorem abiEncode_string (text : Bytes) (sized : (abiEncode text).length < 2 ^ 63) :
    AbiString (abiEncode text) text := by
  have small : text.length < 2 ^ 63 := by
    simp only [abiEncode, length_append, Lib.Rlp.length_fixed, length_replicate] at sized
    omega
  have head : (abiEncode text).take 32 = Lib.Rlp.fixed 32 32 := by
    simp [abiEncode, Lib.Rlp.length_fixed]
  have tail : (abiEncode text).drop 32 =
      Lib.Rlp.fixed 32 text.length ++ (text ++ List.replicate ((32 - text.length % 32) % 32) 0) := by
    simp [abiEncode, Lib.Rlp.length_fixed, append_assoc]
  have rest : (abiEncode text).drop 64 = text ++ List.replicate ((32 - text.length % 32) % 32) 0 := by
    simp [abiEncode, drop_append, Lib.Rlp.length_fixed, append_assoc]
  refine ⟨32, le_rfl, ?_, ?_, ?_, ?_⟩
  · rw [head]
    exact Lib.Rlp.value_fixed 32 32
  · simp only [abiEncode, length_append, Lib.Rlp.length_fixed, length_replicate]
    omega
  · rw [tail, take_left' (Lib.Rlp.length_fixed 32 text.length)]
    refine (Lib.Rlp.value_fixed 32 text.length).trans ?_
    exact Nat.mod_eq_of_lt (small.trans (by decide))
  · rw [rest, take_left' rfl]

section Texts

variable {cut : Bytes → Bytes} {data : Bytes}

theorem textResult_fits (sized : data.length < 2 ^ 63) (words : 64 ≤ data.length)
    (fits : offsetWord data + 32 ≤ data.length) :
    textResult cut data =
      if data.length < (offsetWord data + 32 + lengthWord data (offsetWord data)) % 2 ^ 64 then some []
      else (slice data (offsetWord data + 32)
        ((offsetWord data + 32 + lengthWord data (offsetWord data)) % 2 ^ 64)).map cut := by
  have unwrapped : (offsetWord data + 32) % 2 ^ 64 = offsetWord data + 32 := Nat.mod_eq_of_lt (by omega)
  have word : slice data (offsetWord data) (offsetWord data + 32) =
      some ((data.drop (offsetWord data)).take 32) := by
    rw [slice, if_pos (by omega), drop_take, Nat.add_sub_cancel_left]
  unfold textResult
  rw [if_neg (by omega)]
  change (if data.length ≤ offsetWord data then some [] else
    if data.length < (offsetWord data + 32) % 2 ^ 64 then some [] else _) = _
  rw [if_neg (by omega), unwrapped, if_neg (by omega)]
  change (slice data (offsetWord data) ((offsetWord data + 32) % 2 ^ 64) >>= _) = _
  rw [unwrapped, word]
  change (if data.length < (offsetWord data + 32 + lengthWord data (offsetWord data)) % 2 ^ 64 then some [] else
    (slice data ((offsetWord data + 32) % 2 ^ 64) _ >>= fun text => some (cut text))) = _
  rw [unwrapped]
  congr 1
  exact Option.map_eq_bind.symm

theorem textResult_eq_none (sized : data.length < 2 ^ 63) : textResult cut data = none ↔ LengthWraps data := by
  by_cases words : 64 ≤ data.length
  · by_cases fits : offsetWord data + 32 ≤ data.length
    · have small : lengthWord data (offsetWord data) < 2 ^ 64 := Nat.mod_lt _ (by decide)
      rw [textResult_fits sized words fits]
      by_cases wraps : 2 ^ 64 ≤ offsetWord data + 32 + lengthWord data (offsetWord data)
      · have short : (offsetWord data + 32 + lengthWord data (offsetWord data)) % 2 ^ 64 < offsetWord data + 32 := by
          omega
        rw [if_neg (by omega), slice, if_neg (by omega)]
        exact iff_of_true rfl ⟨words, fits, wraps⟩
      · rw [Nat.mod_eq_of_lt (by omega)]
        refine iff_of_false ?_ fun overflow => wraps overflow.2.2
        split
        · simp
        · rw [slice, if_pos (by omega)]
          simp
    · refine iff_of_false ?_ fun overflow => fits overflow.2.1
      unfold textResult
      rw [if_neg (by omega)]
      change ¬(if data.length ≤ offsetWord data then some [] else
        if data.length < (offsetWord data + 32) % 2 ^ 64 then some [] else _) = none
      by_cases beyond : data.length ≤ offsetWord data
      · rw [if_pos beyond]
        simp
      · rw [if_neg beyond, Nat.mod_eq_of_lt (by omega), if_pos (by omega)]
        simp
  · refine iff_of_false ?_ fun overflow => words overflow.1
    unfold textResult
    rw [if_pos (by omega)]
    simp

theorem textResult_abi {text : Bytes} (sized : data.length < 2 ^ 63) (encoded : AbiString data text) :
    textResult cut data = some (cut text) := by
  obtain ⟨offset, past, start, fits, length, content⟩ := encoded
  have offsetIs : offsetWord data = offset := by
    rw [offsetWord, start]
    exact Nat.mod_eq_of_lt (by omega)
  have lengthIs : lengthWord data offset = text.length := by
    rw [lengthWord, length]
    exact Nat.mod_eq_of_lt (by omega)
  rw [textResult_fits sized (by omega) (by omega), offsetIs, lengthIs, Nat.mod_eq_of_lt (by omega), if_neg (by omega),
    slice, if_pos (by omega), drop_take, Nat.add_sub_cancel_left, content]
  rfl

end Texts

/-! ## The bytes of a deposit -/

theorem opaqueDataOf_eq_none {data : Bytes} (sized : data.length < 2 ^ 63) :
    opaqueDataOf data = none ↔ OffsetWraps data ∨ LengthWraps data := by
  have smallOffset : offsetWord data < 2 ^ 64 := Nat.mod_lt _ (by decide)
  have smallLength : lengthWord data (offsetWord data) < 2 ^ 64 := Nat.mod_lt _ (by decide)
  by_cases words : 64 ≤ data.length
  · unfold opaqueDataOf
    rw [if_neg (by omega)]
    change (if data.length < (offsetWord data + 32) % 2 ^ 64 then some none else
      (slice data (offsetWord data) ((offsetWord data + 32) % 2 ^ 64)).bind _) = none ↔ _
    by_cases wraps : 2 ^ 64 ≤ offsetWord data + 32
    · rw [if_neg (by omega), slice, if_neg (by omega)]
      exact iff_of_true rfl (.inl ⟨words, wraps⟩)
    · have unwrapped : (offsetWord data + 32) % 2 ^ 64 = offsetWord data + 32 := Nat.mod_eq_of_lt (by omega)
      rw [unwrapped]
      by_cases fits : offsetWord data + 32 ≤ data.length
      · have word : slice data (offsetWord data) (offsetWord data + 32) =
            some ((data.drop (offsetWord data)).take 32) := by
          rw [slice, if_pos (by omega), drop_take, Nat.add_sub_cancel_left]
        rw [if_neg (by omega), word, Option.bind_some]
        change (if data.length < (offsetWord data + 32 + lengthWord data (offsetWord data)) % 2 ^ 64 then some none else
          (slice data ((offsetWord data + 32) % 2 ^ 64)
            ((offsetWord data + 32 + lengthWord data (offsetWord data)) % 2 ^ 64)).map some) = none ↔ _
        rw [unwrapped]
        by_cases overflow : 2 ^ 64 ≤ offsetWord data + 32 + lengthWord data (offsetWord data)
        · rw [if_neg (by omega), slice, if_neg (by omega)]
          exact iff_of_true rfl (.inr ⟨words, fits, overflow⟩)
        · rw [Nat.mod_eq_of_lt (not_le.mp overflow)]
          refine iff_of_false ?_ fun bad => bad.elim (fun out => wraps out.2) fun out => overflow out.2.2
          split
          · simp
          · rw [slice, if_pos (by omega)]
            simp
      · rw [if_pos (by omega)]
        exact iff_of_false (by simp) fun bad => bad.elim (fun out => wraps out.2) fun out => fits out.2.1
  · refine iff_of_false ?_ fun bad => words (bad.elim (·.1) (·.1))
    unfold opaqueDataOf
    rw [if_pos (by omega)]
    simp

/-! ## The words of the reader -/

def WordFits (res : Bytes) (off : Int) : Prop :=
  0 ≤ off ∧ off + 32 ≤ res.length

/-- The offset is so large that 32 more is negative. -/
def WordWraps (off : Int) : Prop :=
  2 ^ 63 - 32 ≤ off

variable {res : Bytes} {off : Int}

theorem readerWord_eq_ok (sized : res.length < 2 ^ 63) (below : off < 2 ^ 63) :
    (∃ value, readerWord res off = .ok value) ↔ WordFits res off := by
  unfold readerWord WordFits
  have wrapped : off < 2 ^ 63 - 32 → 0 ≤ off → (off + 32).bmod (2 ^ 64) = off + 32 := by
    intro small positive
    exact Int.bmod_eq_of_le (by omega) (by omega)
  split
  · rename_i refused
    refine iff_of_false (by simp) fun fits => ?_
    rw [wrapped (by omega) fits.1] at refused
    omega
  · rename_i checked
    split
    · exact iff_of_false (by simp) (by omega)
    · exact iff_of_true ⟨_, rfl⟩ (by omega)

theorem readerWord_eq_panic (sized : res.length < 2 ^ 63) (below : off < 2 ^ 63) :
    readerWord res off = .error .sliceOutOfRange ↔ WordWraps off := by
  unfold readerWord WordWraps
  by_cases top : 2 ^ 63 - 32 ≤ off
  · have wrapped : (off + 32).bmod (2 ^ 64) = off + 32 - 2 ^ 64 := by
      rw [Int.bmod_def]
      omega
    rw [wrapped, if_neg (by omega), if_pos (by omega)]
    exact iff_of_true rfl top
  · refine iff_of_false ?_ top
    split
    · simp
    · rename_i checked
      rw [Int.bmod_eq_of_le (by omega) (by omega)] at checked
      rw [if_neg (by omega)]
      simp

def valueOffset (res : Bytes) (i : Nat) : Int :=
  readerOffset (setBytes (res.take 32)) i

def flagOffset (res : Bytes) (i : Nat) : Int :=
  readerOffset (setBytes ((res.drop 32).take 32)) i

/-- The first word that does not fit the reply is asked for within 32 bytes of the largest offset. -/
def ReaderWraps (res : Bytes) (n : Nat) : Prop :=
  64 ≤ res.length ∧ ∃ i < n, (∀ j < i, WordFits res (valueOffset res j) ∧ WordFits res (flagOffset res j)) ∧
    (WordWraps (valueOffset res i) ∨ WordFits res (valueOffset res i) ∧ WordWraps (flagOffset res i))

theorem readerOffset_lt (base i : Nat) : readerOffset base i < 2 ^ 63 :=
  Int.bmod_lt (by decide)

theorem readerWord_first (near : off = 0 ∨ off = 32) :
    readerWord res off =
      if (res.length : Int) < off + 32 then .error (.shortResult res.length)
      else .ok (setBytes ((res.drop off.toNat).take 32)) := by
  have unwrapped : (off + 32).bmod (2 ^ 64) = off + 32 := by
    rcases near with zero | next
    · rw [zero]; rfl
    · rw [next]; rfl
  have positive : ¬off < 0 := by omega
  unfold readerWord
  rw [unwrapped]
  by_cases short : (res.length : Int) < off + 32
  · rw [if_pos (.inr short), if_pos short]
  · rw [if_neg (by omega), if_neg short, if_neg short]

theorem reader_turn (sized : res.length < 2 ^ 63) (i : Nat) :
    let turn : Except ReaderFailure (Nat × Bool) := do
      let value ← readerWord res (valueOffset res i)
      let flag ← readerWord res (flagOffset res i)
      .ok (value, flag ≠ 0)
    ((∃ pair, turn = .ok pair) ↔ WordFits res (valueOffset res i) ∧ WordFits res (flagOffset res i)) ∧
      (turn = .error .sliceOutOfRange ↔ WordWraps (valueOffset res i) ∨
        WordFits res (valueOffset res i) ∧ WordWraps (flagOffset res i)) := by
  have value := readerWord_eq_ok sized (readerOffset_lt (setBytes (res.take 32)) i)
  have flag := readerWord_eq_ok sized (readerOffset_lt (setBytes ((res.drop 32).take 32)) i)
  have valuePanic := readerWord_eq_panic sized (readerOffset_lt (setBytes (res.take 32)) i)
  have flagPanic := readerWord_eq_panic sized (readerOffset_lt (setBytes ((res.drop 32).take 32)) i)
  change (∃ read, readerWord res (valueOffset res i) = .ok read) ↔ WordFits res (valueOffset res i) at value
  change (∃ read, readerWord res (flagOffset res i) = .ok read) ↔ WordFits res (flagOffset res i) at flag
  change readerWord res (valueOffset res i) = _ ↔ WordWraps (valueOffset res i) at valuePanic
  change readerWord res (flagOffset res i) = _ ↔ WordWraps (flagOffset res i) at flagPanic
  rw [← value, ← flag, ← valuePanic, ← flagPanic]
  cases readerWord res (valueOffset res i) with
  | error failure => simp [bind, Except.bind]
  | ok read => cases readerWord res (flagOffset res i) <;> simp [bind, Except.bind]

theorem balancesOf_eq_panic (sized : res.length < 2 ^ 63) (n : Nat) :
    balancesOf (.ok res) n = .error .sliceOutOfRange ↔ ReaderWraps res n := by
  unfold balancesOf ReaderWraps
  dsimp only
  rw [readerWord_first (.inl rfl)]
  by_cases words : 64 ≤ res.length
  · rw [if_neg (by omega), readerWord_first (.inr rfl), if_neg (by omega)]
    refine Iff.trans mapM_range_eq_error ?_
    simp only [words, true_and]
    apply exists_congr
    intro i
    have turns (j : Nat) := (reader_turn sized j).1
    exact and_congr_right fun _ => and_congr (forall₂_congr fun j _ => turns j) (reader_turn sized i).2
  · refine iff_of_false ?_ fun wraps => words wraps.1
    split
    · simp [bind, Except.bind]
    · rw [readerWord_first (.inr rfl), if_pos (by omega)]
      simp [bind, Except.bind]

/-! ## What is in range -/

/-- For every reply: both text decoders are in range unless the length wraps, the one of `internal/rpc` gives an encoded
text up to its first NUL, the deposit's bytes are in range unless the offset or the length wraps, and the reader's words
unless an offset does. -/
theorem decoders_in_range (data : Bytes) (sized : data.length < 2 ^ 63) (n : Nat) :
    (Rpc.parseStringResult data ≠ none ↔ ¬LengthWraps data) ∧
      (parseStringResult data ≠ none ↔ ¬LengthWraps data) ∧
      (∀ text, AbiString data text → Rpc.parseStringResult data = some (untilNul text)) ∧
      (∀ text, data = abiEncode text → AbiString data text) ∧
      (opaqueDataOf data ≠ none ↔ ¬(OffsetWraps data ∨ LengthWraps data)) ∧
      (balancesOf (.ok data) n ≠ .error .sliceOutOfRange ↔ ¬ReaderWraps data n) := by
  refine ⟨not_congr ?_, not_congr (textResult_eq_none sized), ?_, ?_, not_congr (opaqueDataOf_eq_none sized),
    not_congr (balancesOf_eq_panic sized n)⟩
  · exact textResult_eq_none sized
  · intro text encoded
    exact textResult_abi sized encoded
  · intro text form
    subst form
    exact abiEncode_string text sized

theorem decoders_in_range_symbol :
    Rpc.parseStringResult (abiEncode [0x41, 0x42]) = some [0x41, 0x42] :=
  ((decoders_in_range (abiEncode [0x41, 0x42]) (by decide) 0).2.2.1 [0x41, 0x42]
    ((decoders_in_range (abiEncode [0x41, 0x42]) (by decide) 0).2.2.2.1 [0x41, 0x42] rfl)).trans (by decide)

def longString : Bytes :=
  Lib.Rlp.fixed 32 32 ++ Lib.Rlp.fixed 32 (2 ^ 64 - 1)

def farWords : Bytes :=
  Lib.Rlp.fixed 32 (2 ^ 63 - 33) ++ Lib.Rlp.fixed 32 (2 ^ 63 - 33)

/-- A contract's reply of 64 bytes ends the process. -/
theorem decoders_panic :
    Rpc.parseStringResult longString = none ∧ parseStringResult longString = none ∧ opaqueDataOf longString = none ∧
      balancesOf (.ok farWords) 1 = .error .sliceOutOfRange := by
  decide +kernel

end OpsIndexer.Indexing
