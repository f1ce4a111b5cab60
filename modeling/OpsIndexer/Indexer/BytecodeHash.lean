import OpsIndexer.Indexer.BlockRows

/-!
# The stored bytecode hash

Every path from a deployed code to its `bytecode_hash` ends in `BytesToHash`, which takes the last 32 bytes of the code
and hashes nothing: codes that end alike have one hash.
-/

namespace OpsIndexer.Indexing

open Eth OpsIndexer.Types Db Rpc List

def lastWord (code : Bytes) : Bytes :=
  (List.replicate 32 0 ++ code).drop code.length

theorem length_lastWord (code : Bytes) : (lastWord code).length = 32 := by
  rw [lastWord, length_drop, length_append, length_replicate, Nat.add_sub_cancel]

theorem setBytes_lastWord (code : Bytes) : setBytes (lastWord code) = setBytes code % 256 ^ 32 := by
  have zeros : setBytes (List.replicate 32 0) = 0 := by decide
  have padded := setBytes_append (List.replicate 32 0) code
  rw [zeros, Nat.zero_mul, Nat.zero_add, ← take_append_drop code.length (List.replicate 32 0 ++ code),
    setBytes_append] at padded
  have small := setBytes_lt (lastWord code)
  rw [length_lastWord] at small
  rw [← padded, ← lastWord, length_lastWord, Nat.mul_add_mod_self_right, Nat.mod_eq_of_lt small]

theorem bytesToHash_eq_iff (first second : Bytes) :
    bytesToHash first = bytesToHash second ↔ lastWord first = lastWord second := by
  have width : (2 : Nat) ^ 256 = 256 ^ 32 := by decide
  rw [bytesToHash, bytesToHash, ← BitVec.toNat_inj, BitVec.toNat_ofNat, BitVec.toNat_ofNat, width,
    ← setBytes_lastWord, ← setBytes_lastWord]
  apply Iff.intro
  · exact setBytes_injective ((length_lastWord first).trans (length_lastWord second).symm)
  · exact congrArg setBytes

/-! ## Deployed codes -/

inductive Deployed (indexer : Indexer) (raw : RawBlock) (receipts : Hash → Option Receipt) : Contract → Bytes → Prop
  | receipt {tx : RawTransaction} {address : Address} {code : Bytes} (listed : tx ∈ raw.transactions)
      (created : createdAddress (receipts tx.hash) tx = some address)
      (kept : contractCode indexer address raw.numberU64 = some code) :
      Deployed indexer raw receipts (createdContract indexer raw.numberU64 tx address code) code
  | output {frame : InternalTransaction} {contract : Contract}
      (listed : frame ∈ internalCreations (framesOf indexer raw)) (written : outputCode frame.output ≠ "")
      (recorded : frameCreation indexer raw frame = some contract) :
      Deployed indexer raw receipts contract (fromHex (outputCode frame.output))
  | node {frame : InternalTransaction} {contract : Contract} {code : Bytes}
      (listed : frame ∈ internalCreations (framesOf indexer raw)) (blank : outputCode frame.output = "")
      (kept : contractCode indexer (hexToAddress (frame.toAddress.getD "")) raw.numberU64 = some code)
      (recorded : frameCreation indexer raw frame = some contract) : Deployed indexer raw receipts contract code

variable {indexer : Indexer} {raw : RawBlock} {receipts : Hash → Option Receipt} {built : BuiltBlock}
  {contract : Contract} {code : Bytes}

theorem trimSpace_eq {text : List Char} (plain : ∀ letter ∈ text, isSpace letter = false) :
    trimSpace text = text := by
  have kept : ∀ letters : List Char, (∀ letter ∈ letters, isSpace letter = false) →
      letters.dropWhile isSpace = letters := by
    intro letters plain
    cases letters with
    | nil => rfl
    | cons letter rest => exact dropWhile_cons_of_neg (by simp [plain letter])
  rw [trimSpace, kept text plain, kept _ (fun letter member => plain letter (mem_reverse.mp member)),
    reverse_reverse]

theorem digit_not_space {digit : Char} (member : digit ∈ (bytes2Hex code).toList) :
    isSpace digit = false := by
  rw [bytes2Hex, String.toList_ofList, mem_flatMap] at member
  obtain ⟨byte, _, written⟩ := member
  obtain ⟨value, bound, rfl⟩ := hexDigits_mem 2 byte.toNat digit written
  clear written
  revert value
  decide

/-- The output of a creation is read as the code it is the hex text of, with the prefix or without it. -/
theorem fromHex_outputCode (code : Bytes) :
    fromHex (outputCode (some (bytes2Hex code))) = code ∧
      fromHex (outputCode (some ("0x" ++ bytes2Hex code))) = code := by
  have plain : trimSpace (bytes2Hex code).toList = (bytes2Hex code).toList := trimSpace_eq fun _ => digit_not_space
  apply And.intro
  · have digits : ∀ digit ∈ (bytes2Hex code).toList, digit ≠ 'x' ∧ digit ≠ 'X' := fun _ => digit_ne_x
    rw [outputCode, Option.getD_some, plain]
    split
    · next rest prefixed =>
      rw [prefixed] at digits
      exact absurd rfl (digits 'x' (by simp)).1
    · rw [String.ofList_toList, fromHex_bytes2Hex]
  · have prefixed : trimSpace ("0x" ++ bytes2Hex code).toList = '0' :: 'x' :: (bytes2Hex code).toList := by
      rw [trimSpace_eq]
      · simp
      · intro letter member
        rw [String.toList_append, mem_append] at member
        rcases member with lead | digit
        · have sign : letter = '0' ∨ letter = 'x' := by simpa using lead
          rcases sign with rfl | rfl <;> decide
        · exact digit_not_space digit
    simp only [outputCode, Option.getD_some, prefixed, String.ofList_toList, fromHex_bytes2Hex]

variable {frame : InternalTransaction}

theorem Deployed.of_output (nonempty : code ≠ [])
    (text : frame.output = some (bytes2Hex code) ∨ frame.output = some ("0x" ++ bytes2Hex code))
    (listed : frame ∈ internalCreations (framesOf indexer raw))
    (recorded : frameCreation indexer raw frame = some contract) : Deployed indexer raw receipts contract code := by
  have read : fromHex (outputCode frame.output) = code := by
    rcases text with plain | prefixed
    · rw [plain, (fromHex_outputCode code).1]
    · rw [prefixed, (fromHex_outputCode code).2]
  have written : outputCode frame.output ≠ "" := by
    intro blank
    rw [blank] at read
    exact nonempty read.symm
  exact read ▸ .output listed written recorded

theorem frameCreation_bytecodeHash
    (recorded : frameCreation indexer raw frame = some contract) :
    ∃ text, creationCode (fun address => contractCode indexer address raw.numberU64) frame = some text ∧
      contract.bytecodeHash = some (Hash.hex (bytesToHash (fromHex text))) := by
  rw [frameCreation, contractFromCreation, Option.map_eq_some_iff] at recorded
  obtain ⟨text, found, rfl⟩ := recorded
  exact ⟨text, found, rfl⟩

theorem Deployed.bytecodeHash (deployed : Deployed indexer raw receipts contract code) :
    contract.bytecodeHash = some (Hash.hex (bytesToHash code)) := by
  cases deployed with
  | receipt listed created kept => simp only [createdContract, fromHex_bytes2Hex]
  | output listed written recorded =>
    obtain ⟨text, found, hash⟩ := frameCreation_bytecodeHash recorded
    rw [creationCode, if_pos written, Option.some.injEq] at found
    rw [hash, found]
  | node listed blank kept recorded =>
    obtain ⟨text, found, hash⟩ := frameCreation_bytecodeHash recorded
    rw [creationCode, if_neg (not_not.mpr blank), kept] at found
    cases code with
    | nil => cases found
    | cons byte rest =>
      rw [← Option.some.inj found, fromHex_bytes2Hex] at hash
      exact hash

theorem exists_deployed (done : buildBlock indexer raw receipts = some built) (member : contract ∈ built.data.contracts) :
    ∃ code, Deployed indexer raw receipts contract code := by
  obtain ⟨_, _, _, _, contracts, _⟩ := buildBlock_rows done
  rw [contracts, mem_append, mem_filterMap, mem_filterMap] at member
  rcases member with ⟨tx, listed, recorded⟩ | ⟨frame, listed, recorded⟩
  · rw [creationOf] at recorded
    split at recorded
    · cases recorded
    · next address created =>
      split at recorded
      · cases recorded
      · cases recorded
      · next code _ kept =>
        cases recorded
        exact ⟨code, .receipt listed created kept⟩
  · by_cases written : outputCode frame.output = ""
    · obtain ⟨text, found, _⟩ := frameCreation_bytecodeHash recorded
      rw [creationCode, if_neg (not_not.mpr written)] at found
      split at found
      · cases found
      · cases found
      · next code _ kept => exact ⟨code, .node listed written kept recorded⟩
    · exact ⟨_, .output listed written recorded⟩

/-! ## The hashes of two contracts -/

structure Recording where
  indexer : Indexer
  raw : RawBlock
  receipts : Hash → Option Receipt
  built : BuiltBlock
  done : buildBlock indexer raw receipts = some built
  contract : Contract
  member : contract ∈ built.data.contracts
  code : Bytes
  deployed : Deployed indexer raw receipts contract code

/-- Every contract of a built block has a code, and the hashes of two recorded contracts tell their codes apart exactly
when the codes do not differ in front of their last 32 bytes alone. -/
theorem bytecodeHash_identifies_iff (first second : Recording) :
    (∀ contract ∈ first.built.data.contracts, ∃ code, Deployed first.indexer first.raw first.receipts contract code) ∧
      ((first.contract.bytecodeHash = second.contract.bytecodeHash ↔ first.code = second.code) ↔
        (lastWord first.code = lastWord second.code → first.code = second.code)) := by
  apply And.intro
  · intro contract member
    exact exists_deployed first.done member
  · rw [first.deployed.bytecodeHash, second.deployed.bytecodeHash, Option.some.injEq, Hash.hex_inj, bytesToHash_eq_iff]
    apply Iff.intro
    · exact Iff.mp
    · intro apart
      exact ⟨apart, congrArg lastWord⟩

/-! ## Two contracts of one block -/

def deployingBlock : RawBlock where
  number := some 7
  hash := 70
  parentHash := 60
  transactions := [{ hash := 2, fromAddress := 0xa, toAddress := none }]

def deployingReceipts (_ : Hash) : Option Receipt :=
  some { status := 1, contractAddress := 0xd }

def writtenFrame (written : Bytes) : InternalTransaction :=
  internalTransaction (Hash.hex 2) 7 0 [0]
    { type := "CREATE2", fromAddress := Address.key 0xd, toAddress := Address.key 0xe
      output := "0x" ++ bytes2Hex written }

def deployingNode (kept written : Bytes) : Indexer :=
  { plainNode with
    tracingSupported := true
    getCode := fun _ => some kept
    fetchTraces := fun _ _ _ => some [writtenFrame written] }

def deployingBuilt (kept written : Bytes) : Option BuiltBlock :=
  buildBlock (deployingNode kept written) deployingBlock deployingReceipts

section

variable {kept written : Bytes} {built : BuiltBlock} (done : deployingBuilt kept written = some built)

def receiptRecording (member : createdContract (deployingNode kept written) 7
      { hash := 2, fromAddress := 0xa, toAddress := none } 0xd kept ∈ built.data.contracts) : Recording :=
  ⟨_, _, _, built, done, _, member, kept, .receipt (mem_singleton.mpr rfl) rfl rfl⟩

def frameRecording (contract : Contract) (member : contract ∈ built.data.contracts)
    (listed : writtenFrame written ∈ internalCreations (framesOf (deployingNode kept written) deployingBlock))
    (recorded : frameCreation (deployingNode kept written) deployingBlock (writtenFrame written) = some contract)
    (output : (writtenFrame written).output = some ("0x" ++ bytes2Hex written)) (nonempty : written ≠ []) :
    Recording :=
  ⟨_, _, _, built, done, contract, member, written, .of_output nonempty (.inr output) listed recorded⟩

end

def writtenContract (kept written : Bytes) : Option Contract :=
  frameCreation (deployingNode kept written) deployingBlock (writtenFrame written)

theorem bytecodeHash_identifies_iff_short :
    ∃ first second : Recording, first.code = [1] ∧ second.code = [2] ∧
      (first.contract.bytecodeHash = second.contract.bytecodeHash ↔ first.code = second.code) := by
  have done : deployingBuilt [1] [2] = some ((deployingBuilt [1] [2]).get (by decide +kernel)) :=
    (Option.some_get _).symm
  let first := receiptRecording done (by decide +kernel)
  let second := frameRecording done ((writtenContract [1] [2]).get (by decide +kernel)) (by decide +kernel)
    (by decide +kernel) (Option.some_get _).symm (by decide +kernel) (by decide)
  have apart : lastWord [1] ≠ lastWord [2] := by decide
  exact ⟨first, second, rfl, rfl, (bytecodeHash_identifies_iff first second).2.mpr fun alike => absurd alike apart⟩

/-- Of two codes of 33 bytes, one kept by the node and one written by a frame, only the first byte differs. -/
theorem codes_ending_alike_share_hash :
    ∃ first second : Recording, first.code = 1 :: List.replicate 32 0 ∧ second.code = 2 :: List.replicate 32 0 ∧
      first.contract.bytecodeHash = second.contract.bytecodeHash := by
  have done : deployingBuilt (1 :: List.replicate 32 0) (2 :: List.replicate 32 0) =
      some ((deployingBuilt (1 :: List.replicate 32 0) (2 :: List.replicate 32 0)).get (by decide +kernel)) :=
    (Option.some_get _).symm
  let first := receiptRecording done (by decide +kernel)
  let second := frameRecording done ((writtenContract _ (2 :: List.replicate 32 0)).get (by decide +kernel))
    (by decide +kernel) (by decide +kernel) (Option.some_get _).symm (by decide +kernel) (by decide)
  have alike : bytesToHash (1 :: List.replicate 32 0) = bytesToHash (2 :: List.replicate 32 0) := by decide +kernel
  refine ⟨first, second, rfl, rfl, ?_⟩
  rw [first.deployed.bytecodeHash, second.deployed.bytecodeHash]
  exact congrArg (fun hash => some (Hash.hex hash)) alike

end OpsIndexer.Indexing
