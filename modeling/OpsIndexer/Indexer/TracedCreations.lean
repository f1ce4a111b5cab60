import OpsIndexer.Indexer.BlockRows
import OpsIndexer.Rpc.CallTree

/-!
# The creations buildBlock records of a call tree

`internalCreations` works on the flattened frames, from which `fetchTraces` has cut the root. A path cut at its commas
reaches every enclosing frame below the root, and the key of the root itself is never among the failed ones.
-/

namespace OpsIndexer.Indexing

open Eth OpsIndexer.Types Db Rpc List

/-! ## The failed frames -/

theorem anyEnclosingFailed_iff (failed : List String) (tx : String) (path : List Nat) :
    anyEnclosingFailed failed tx (traceAddress path) = true ↔
      ∃ count, 0 < count ∧ count < path.length ∧ tx ++ "/" ++ traceAddress (path.take count) ∈ failed := by
  unfold anyEnclosingFailed
  simp only [any_eq_true, mem_range, Bool.and_eq_true, decide_eq_true_eq, contains_iff_mem]
  constructor
  · intro found
    obtain ⟨index, _, ⟨positive, comma⟩, member⟩ := found
    obtain ⟨count, some, below, same⟩ := (cut_traceAddress path _).mp ⟨index, positive, comma, rfl⟩
    rw [same, String.ofList_toList] at member
    exact ⟨count, some, below, member⟩
  · intro found
    obtain ⟨count, positive, below, member⟩ := found
    obtain ⟨index, some, comma, same⟩ := (cut_traceAddress path _).mpr ⟨count, positive, below, rfl⟩
    refine ⟨index, (List.getElem?_eq_some_iff.mp comma).1, ⟨some, comma⟩, ?_⟩
    rw [same, String.ofList_toList]
    exact member

theorem frameKey_inj {first second : Hash} {path other : List Nat}
    (same : Hash.hex first ++ "/" ++ traceAddress path = Hash.hex second ++ "/" ++ traceAddress other) :
    first = second ∧ path = other := by
  have lists := congrArg String.toList same
  simp only [String.toList_append, append_assoc] at lists
  have length : (Hash.hex first).toList.length = (Hash.hex second).toList.length := by
    simp [Hash.hex]
  obtain ⟨hashes, rest⟩ := append_inj lists length
  obtain ⟨_, paths⟩ := append_inj rest rfl
  exact ⟨(Hash.hex_inj first second).mp (String.toList_injective hashes),
    (traceAddress_inj path other).mp (String.toList_injective paths)⟩

section

variable {tracer : Tracer} {blockNumber timestamp : Nat} {hash : Hash} {root : CallFrame} {order : List Hash}

theorem mem_framesOfHash (frame : InternalTransaction) (other : Hash) :
    frame ∈ framesOfHash tracer blockNumber timestamp other → ∃ tree path fields,
      traceOf tracer blockNumber other = .ok tree ∧ path ≠ [] ∧ frameAt tree path = some fields ∧
      frame = internalTransaction (Hash.hex other) blockNumber timestamp path fields := by
  intro member
  unfold framesOfHash at member
  cases trace : traceOf tracer blockNumber other with
  | error failure => simp [trace] at member
  | ok tree =>
    rw [trace] at member
    obtain ⟨⟨path, fields⟩, listed, rfl⟩ := mem_map.mp member
    obtain ⟨below, found⟩ := (mem_drop_preorder tree path fields).mp listed
    exact ⟨tree, path, fields, rfl, below, found, rfl⟩

theorem mem_failedFrames (timestamp : Nat) (listed : hash ∈ order) (trace : traceOf tracer blockNumber hash = .ok root)
    (path : List Nat) :
    Hash.hex hash ++ "/" ++ traceAddress path ∈
        failedFrames (order.flatMap (framesOfHash tracer blockNumber timestamp)) ↔
      path ≠ [] ∧ failsAt root path = true := by
  unfold failedFrames
  rw [mem_map]
  constructor
  · intro found
    obtain ⟨frame, member, key⟩ := found
    obtain ⟨member, failed⟩ := mem_filter.mp member
    obtain ⟨other, _, member⟩ := mem_flatMap.mp member
    obtain ⟨tree, own, fields, otherTrace, below, reached, rfl⟩ := mem_framesOfHash frame other member
    obtain ⟨rfl, rfl⟩ := frameKey_inj key
    rw [trace, Except.ok.injEq] at otherTrace
    subst otherTrace
    refine ⟨below, ?_⟩
    rw [failsAt, reached]
    by_cases error : fields.error = ""
    · simp [internalTransaction, error] at failed
    · simpa using error
  · intro found
    obtain ⟨below, failed⟩ := found
    unfold failsAt at failed
    cases reached : frameAt root path with
    | none => simp [reached] at failed
    | some fields =>
      have error : fields.error ≠ "" := by simpa [reached] using failed
      refine ⟨internalTransaction (Hash.hex hash) blockNumber timestamp path fields, ?_, rfl⟩
      refine mem_filter.mpr ⟨mem_flatMap.mpr ⟨hash, listed, ?_⟩, by simp [internalTransaction, error]⟩
      rw [framesOfHash, trace]
      exact mem_map.mpr ⟨(path, fields), (mem_drop_preorder root path fields).mpr ⟨below, reached⟩, rfl⟩

/-- Of one transaction's frames `internalCreations` keeps the creations no failed frame below the root encloses. -/
theorem kept_iff (listed : hash ∈ order) (trace : traceOf tracer blockNumber hash = .ok root) (path : List Nat)
    (fields : FrameFields) (below : path ≠ []) :
    (isCreation (internalTransaction (Hash.hex hash) blockNumber timestamp path fields) &&
        !(failedFrames (order.flatMap (framesOfHash tracer blockNumber timestamp))).contains (Hash.hex hash ++ "/") &&
        !anyEnclosingFailed (failedFrames (order.flatMap (framesOfHash tracer blockNumber timestamp)))
          (Hash.hex hash) (traceAddress path)) =
      (fields.creates && (List.range path.length).all fun count => count = 0 || !failsAt root (path.take count)) := by
  have own : isCreation (internalTransaction (Hash.hex hash) blockNumber timestamp path fields) = fields.creates := by
    have named : traceAddress path ≠ "" := by
      intro empty
      exact below ((traceAddress_inj path []).mp empty)
    unfold isCreation FrameFields.creates internalTransaction
    by_cases absent : fields.toAddress = "" <;> by_cases error : fields.error = "" <;> simp [absent, error, named]
  have rootKey : (failedFrames (order.flatMap (framesOfHash tracer blockNumber timestamp))).contains
      (Hash.hex hash ++ "/") = false := by
    have absent := (mem_failedFrames timestamp listed trace []).not.mpr (by simp)
    have text : Hash.hex hash ++ "/" ++ traceAddress [] = Hash.hex hash ++ "/" := String.append_empty
    rw [text] at absent
    simpa using absent
  have enclosing : anyEnclosingFailed (failedFrames (order.flatMap (framesOfHash tracer blockNumber timestamp)))
      (Hash.hex hash) (traceAddress path) =
      !(List.range path.length).all fun count => count = 0 || !failsAt root (path.take count) := by
    rw [Bool.eq_iff_iff, anyEnclosingFailed_iff]
    simp only [mem_failedFrames timestamp listed trace, Bool.not_eq_true', all_eq_false, mem_range,
      Bool.or_eq_true, decide_eq_true_eq, Bool.not_eq_true', not_or, Bool.not_eq_false]
    constructor
    · intro found
      obtain ⟨count, positive, short, _, failed⟩ := found
      exact ⟨count, short, by omega, failed⟩
    · intro found
      obtain ⟨count, short, positive, failed⟩ := found
      refine ⟨count, by omega, short, ?_, failed⟩
      rw [ne_eq, take_eq_nil_iff, not_or]
      exact ⟨positive, below⟩
  rw [own, rootKey, enclosing, Bool.not_false, Bool.and_true, Bool.not_not]

private theorem filter_owned {α β : Type} [DecidableEq α] (order : List α) (rows : α → List β) (keep own : β → Bool)
    (target : α) (owned : ∀ other, (rows other).filter own = if other = target then rows other else []) :
    ((order.flatMap rows).filter keep).filter own =
      (order.filter fun other => other = target).flatMap fun _ => (rows target).filter keep := by
  induction order with
  | nil => rfl
  | cons first rest ih =>
    have swapped : ((rows first).filter keep).filter own = ((rows first).filter own).filter keep := by
      simp only [filter_filter, Bool.and_comm]
    rw [flatMap_cons, filter_append, filter_append, ih, swapped, owned first]
    by_cases same : first = target
    · simp [same]
    · simp [same]

theorem internalCreations_of_hash (timestamp : Nat) (listed : hash ∈ order) (trace : traceOf tracer blockNumber hash = .ok root) :
    ((internalCreations (order.flatMap (framesOfHash tracer blockNumber timestamp))).filter fun frame =>
        frame.txHash = Hash.hex hash) =
      (order.filter fun other => other = hash).flatMap fun _ => (creationsBelowRoot root).map fun entry =>
        internalTransaction (Hash.hex hash) blockNumber timestamp entry.1 entry.2 := by
  have ownFrames (other : Hash) : ((framesOfHash tracer blockNumber timestamp other).filter fun frame =>
      frame.txHash = Hash.hex hash) =
      if other = hash then framesOfHash tracer blockNumber timestamp other else [] := by
    by_cases same : other = hash
    · rw [if_pos same, filter_eq_self]
      intro frame member
      obtain ⟨_, _, _, _, _, _, rfl⟩ := mem_framesOfHash frame other member
      simp [internalTransaction, same]
    · rw [if_neg same, filter_eq_nil_iff]
      intro frame member
      obtain ⟨_, _, _, _, _, _, rfl⟩ := mem_framesOfHash frame other member
      simp [internalTransaction, same]
  have kept : ((framesOfHash tracer blockNumber timestamp hash).filter fun frame => isCreation frame &&
      !(failedFrames (order.flatMap (framesOfHash tracer blockNumber timestamp))).contains (frame.txHash ++ "/") &&
      !anyEnclosingFailed (failedFrames (order.flatMap (framesOfHash tracer blockNumber timestamp))) frame.txHash
        frame.traceAddress) = (creationsBelowRoot root).map fun entry =>
        internalTransaction (Hash.hex hash) blockNumber timestamp entry.1 entry.2 := by
    rw [framesOfHash, trace]
    dsimp only
    rw [filter_map, creationsBelowRoot]
    congr 1
    apply filter_congr
    intro entry member
    exact kept_iff listed trace entry.1 entry.2 ((mem_drop_preorder root entry.1 entry.2).mp member).1
  unfold internalCreations
  dsimp only
  rw [filter_owned order _ _ _ hash ownFrames, kept]

end

/-! ## The contracts of one transaction's traces -/

section

variable {indexer : Indexer} {raw : RawBlock} {receipts : Hash → Option Receipt} {built : BuiltBlock}
  {tracer : Tracer} {mode : TraceMode} {hash : Hash} {root : CallFrame}

def tracedContracts (indexer : Indexer) (raw : RawBlock) (receipts : Hash → Option Receipt) (built : BuiltBlock)
    (hash : Hash) : List Contract :=
  (built.data.contracts.drop (raw.transactions.filterMap (creationOf indexer raw receipts)).length).filter
    fun contract => contract.creationTx = Hash.hex hash

def creationContract (indexer : Indexer) (raw : RawBlock) (hash : Hash) (entry : List Nat × FrameFields) :
    Option Contract :=
  frameCreation indexer raw (internalTransaction (Hash.hex hash) raw.numberU64 raw.timestamp entry.1 entry.2)

def HasCode (indexer : Indexer) (raw : RawBlock) (fields : FrameFields) : Prop :=
  outputCode (payload fields.output) ≠ "" ∨
    ∃ byte rest, contractCode indexer (hexToAddress fields.toAddress) raw.numberU64 = some (byte :: rest)

theorem creationContract_isSome {entry : List Nat × FrameFields} (creates : entry.2.creates = true)
    (coded : HasCode indexer raw entry.2) : (creationContract indexer raw hash entry).isSome = true := by
  unfold creationContract frameCreation contractFromCreation creationCode
  rw [Option.isSome_map]
  by_cases output : outputCode (payload entry.2.output) = ""
  · rcases coded with some | ⟨byte, rest, read⟩
    · exact absurd output some
    · have named : entry.2.toAddress ≠ "" := by
        simp only [FrameFields.creates, Bool.and_eq_true, decide_eq_true_eq] at creates
        exact creates.1.2
      simp [internalTransaction, output, named, read]
  · simp [internalTransaction, output]

theorem framesOf_fetched (done : buildBlock indexer raw receipts = some built) (fetched : built.tracesErr = false)
    (tracing : indexer.tracingSupported = true) (listed : hash ∈ receiptTxHashes indexer raw) :
    indexer.fetchTraces (receiptTxHashes indexer raw) raw.numberU64 raw.timestamp =
      some (framesOf indexer raw) := by
  have some : (receiptTxHashes indexer raw).isEmpty = false := by
    rw [isEmpty_eq_false_iff]
    exact ne_nil_of_mem listed
  have traces : (recordTraces indexer raw (recordTransactions indexer raw receipts)).2 = false := by
    unfold buildBlock at done
    obtain ⟨tokens, _, done⟩ := Option.bind_eq_some_iff.mp done
    obtain ⟨nfts, _, done⟩ := Option.bind_eq_some_iff.mp done
    simp only [Option.some.injEq] at done
    rw [← done] at fetched
    exact fetched
  unfold framesOf
  unfold recordTraces at traces
  simp only [tracing, some, Bool.not_false, Bool.and_self, if_true] at traces ⊢
  cases reply : indexer.fetchTraces (receiptTxHashes indexer raw) raw.numberU64 raw.timestamp with
  | none => simp [reply] at traces
  | some frames => rfl

variable {α β : Type}

private theorem map_some_filterMap (convert : α → Option β) (inputs : List α)
    (total : ∀ input ∈ inputs, (convert input).isSome = true) :
    (inputs.filterMap convert).map some = inputs.map convert := by
  induction inputs with
  | nil => rfl
  | cons input rest ih =>
    obtain ⟨value, converted⟩ := Option.isSome_iff_exists.mp (total input mem_cons_self)
    rw [filterMap_cons_some converted, map_cons, map_cons, converted,
      ih fun other member => total other (mem_cons_of_mem _ member)]

private theorem filter_filterMap_of (convert : α → Option β) (own : β → Bool) (mine : α → Bool) (inputs : List α)
    (agree : ∀ input value, convert input = some value → own value = mine input) :
    (inputs.filterMap convert).filter own = (inputs.filter mine).filterMap convert := by
  induction inputs with
  | nil => rfl
  | cons input rest ih =>
    cases converted : convert input with
    | none =>
      rw [filterMap_cons_none converted, ih]
      cases kept : mine input <;> simp [converted, kept]
    | some value =>
      have same := agree input value converted
      rw [filterMap_cons_some converted]
      cases kept : mine input <;> simp [converted, same, kept, ih]

theorem frameCreation_creationTx {frame : InternalTransaction} {contract : Contract}
    (created : frameCreation indexer raw frame = some contract) : contract.creationTx = frame.txHash := by
  unfold frameCreation contractFromCreation at created
  obtain ⟨code, _, same⟩ := Option.map_eq_some_iff.mp created
  rw [← same]

/-- What is recorded: every creation that no failed frame below the root encloses. -/
theorem tracedContracts_eq (source : indexer.fetchTraces = fetchTraces tracer mode)
    (tracing : indexer.tracingSupported = true) (done : buildBlock indexer raw receipts = some built)
    (fetched : built.tracesErr = false) (listed : hash ∈ receiptTxHashes indexer raw)
    (trace : traceOf tracer raw.numberU64 hash = .ok root)
    (coded : ∀ path fields, path ≠ [] → frameAt root path = some fields → fields.creates = true →
      HasCode indexer raw fields) :
    (tracedContracts indexer raw receipts built hash).map some =
      ((receiptTxHashes indexer raw).filter fun other => other = hash).flatMap fun _ =>
        (creationsBelowRoot root).map (creationContract indexer raw hash) := by
  have reply := framesOf_fetched done fetched tracing listed
  rw [source] at reply
  obtain ⟨order, permuted, frames⟩ := fetchTraces_frames reply
  have kept := internalCreations_of_hash raw.timestamp (permuted.mem_iff.mpr listed) trace
  rw [← frames] at kept
  have owned : ((internalCreations (framesOf indexer raw)).filterMap (frameCreation indexer raw)).filter
      (fun contract => contract.creationTx = Hash.hex hash) =
      ((internalCreations (framesOf indexer raw)).filter fun frame => frame.txHash = Hash.hex hash).filterMap
        (frameCreation indexer raw) := by
    apply filter_filterMap_of
    intro frame contract created
    rw [frameCreation_creationTx created]
  have copies : (order.filter fun other => other = hash) =
      (receiptTxHashes indexer raw).filter fun other => other = hash := by
    have replicated (list : List Hash) : (list.filter fun other => other = hash) =
        List.replicate (list.count hash) hash := filter_beq hash
    rw [replicated, replicated, permuted.count_eq]
  unfold tracedContracts
  rw [(buildBlock_rows done).2.2.2.2.1, drop_left, owned, kept, copies, map_some_filterMap]
  · rw [map_flatMap]
    simp only [map_map]
    rfl
  · intro frame member
    obtain ⟨_, _, member⟩ := mem_flatMap.mp member
    obtain ⟨⟨path, fields⟩, effective, rfl⟩ := mem_map.mp member
    obtain ⟨flattened, effective⟩ := mem_filter.mp effective
    obtain ⟨below, reached⟩ := (mem_drop_preorder root path fields).mp flattened
    have creates := (Bool.and_eq_true_iff.mp effective).1
    exact creationContract_isSome creates (coded path fields below reached creates)

/-- The recorded contracts are those of the creations that took effect, once for each listing of the transaction,
exactly when the root has no error or nothing below it would be recorded. -/
theorem tracedContracts_exact_iff (source : indexer.fetchTraces = fetchTraces tracer mode)
    (tracing : indexer.tracingSupported = true) (done : buildBlock indexer raw receipts = some built)
    (fetched : built.tracesErr = false) (listed : hash ∈ receiptTxHashes indexer raw)
    (trace : traceOf tracer raw.numberU64 hash = .ok root)
    (coded : ∀ path fields, path ≠ [] → frameAt root path = some fields → fields.creates = true →
      HasCode indexer raw fields) :
    ((tracedContracts indexer raw receipts built hash).map some =
        ((receiptTxHashes indexer raw).filter fun other => other = hash).flatMap fun _ =>
          (effectiveCreations root).map (creationContract indexer raw hash)) ↔
      root.fields.error = "" ∨ creationsBelowRoot root = [] := by
  rw [tracedContracts_eq source tracing done fetched listed trace coded]
  by_cases passed : root.fields.error = ""
  · rw [effectiveCreations_of_passed root passed]
    exact iff_of_true rfl (.inl passed)
  · rw [effectiveCreations_of_failed root passed]
    have copied : hash ∈ (receiptTxHashes indexer raw).filter fun other => other = hash := by simp [listed]
    have none : (((receiptTxHashes indexer raw).filter fun other => other = hash).flatMap fun _ =>
        ([] : List (List Nat × FrameFields)).map (creationContract indexer raw hash)) = [] := by simp
    rw [none]
    simp only [flatMap_eq_nil_iff, map_eq_nil_iff, passed, false_or]
    exact ⟨fun empty => empty hash copied, fun empty _ _ => empty⟩

end

/-! ## One transaction traced -/

def treeTracer (root : CallFrame) : Tracer where
  traceBlock := fun _ => none
  traceTransaction := fun _ => .ok root
  schedule := id
  schedule_perm := fun _ => .refl _

def treeIndexer (root : CallFrame) : Indexer :=
  { plainNode with
    tracingSupported := true
    fetchTraces := fetchTraces (treeTracer root) .skipFailures }

def creationFrame (address error : String) : CallFrame :=
  .mk { type := "CREATE2", fromAddress := "0xb", toAddress := address, output := "0xfe", error := error } []

def creationTree (error : String) : CallFrame :=
  .mk { type := "CALL", fromAddress := "0xa", toAddress := "0xb", error := error }
    [creationFrame "0xC1" "", creationFrame "0xC2" "out of gas",
      .mk { type := "CALL", fromAddress := "0xb", toAddress := "0xd", error := "execution reverted" }
        [creationFrame "0xC3" ""]]

def passedBuilt : BuiltBlock :=
  (buildBlock (treeIndexer (creationTree "")) (callBlock []) fun _ => none).get (by decide +kernel)

def failedBuilt : BuiltBlock :=
  (buildBlock (treeIndexer (creationTree "execution reverted")) (callBlock []) fun _ => none).get (by decide +kernel)

theorem tracedContracts_exact_iff_passed :
    effectiveCreations (creationTree "") ≠ [] ∧
      (tracedContracts (treeIndexer (creationTree "")) (callBlock []) (fun _ => none) passedBuilt 1).map some =
        ((receiptTxHashes (treeIndexer (creationTree "")) (callBlock [])).filter fun other => other = 1).flatMap fun _ =>
          (effectiveCreations (creationTree "")).map
            (creationContract (treeIndexer (creationTree "")) (callBlock []) 1) := by
  have built : buildBlock (treeIndexer (creationTree "")) (callBlock []) (fun _ => none) = some passedBuilt := by
    rw [passedBuilt, Option.some_get]
  have coded : ∀ entry ∈ (preorder (creationTree "") []).drop 1, entry.2.creates = true →
      outputCode (payload entry.2.output) ≠ "" := by decide +kernel
  have source : (treeIndexer (creationTree "")).fetchTraces = fetchTraces (treeTracer (creationTree "")) .skipFailures :=
    rfl
  refine ⟨by decide +kernel,
    (tracedContracts_exact_iff source rfl built (by decide +kernel) (by decide) rfl ?_).mpr (.inl rfl)⟩
  intro path fields below reached creates
  exact .inl (coded (path, fields) ((mem_drop_preorder _ path fields).mpr ⟨below, reached⟩) creates)

/-- The top-level call failed, and the creation below it is recorded all the same. -/
theorem failedRoot_creation_recorded :
    failedBuilt.tracesErr = false ∧ effectiveCreations (creationTree "execution reverted") = [] ∧
      (tracedContracts (treeIndexer (creationTree "execution reverted")) (callBlock []) (fun _ => none) failedBuilt 1).map
        (·.address) = ["0xc1"] := by
  decide +kernel

/-- The rows of a fetch that succeeds are the frames below the roots, each under its own transaction and path: the
call trees can be read back from the rows. -/
theorem fetchTraces_reads_back {tracer : Tracer} {mode : TraceMode} {hashes : List Hash} {blockNumber timestamp : Nat}
    {frames : List InternalTransaction} (reply : fetchTraces tracer mode hashes blockNumber timestamp = some frames)
    (hash : Hash) (path : List Nat) (row : InternalTransaction) :
    (row ∈ frames ∧ row.txHash = Hash.hex hash ∧ row.traceAddress = traceAddress path) ↔
      hash ∈ hashes ∧ path ≠ [] ∧ ∃ root fields, traceOf tracer blockNumber hash = .ok root ∧
        frameAt root path = some fields ∧
        row = internalTransaction (Hash.hex hash) blockNumber timestamp path fields := by
  obtain ⟨order, permuted, rfl⟩ := fetchTraces_frames reply
  constructor
  · rintro ⟨member, sameHash, samePath⟩
    obtain ⟨other, listed, member⟩ := mem_flatMap.mp member
    obtain ⟨root, own, fields, trace, below, reached, rfl⟩ := mem_framesOfHash row other member
    cases (Hash.hex_inj other hash).mp sameHash
    cases (traceAddress_inj own path).mp samePath
    exact ⟨permuted.mem_iff.mp listed, below, root, fields, trace, reached, rfl⟩
  · rintro ⟨listed, below, root, fields, trace, reached, rfl⟩
    refine ⟨mem_flatMap.mpr ⟨hash, permuted.mem_iff.mpr listed, ?_⟩, rfl, rfl⟩
    rw [framesOfHash, trace]
    exact mem_map.mpr ⟨(path, fields), (mem_drop_preorder root path fields).mpr ⟨below, reached⟩, rfl⟩

theorem fetchTraces_reads_back_creation :
    ∃ frames row, fetchTraces (treeTracer (creationTree "")) .skipFailures [1] 5 0 = some frames ∧
      row ∈ frames ∧ row.txHash = Hash.hex 1 ∧ row.traceAddress = traceAddress [2, 0] := by
  have reply : fetchTraces (treeTracer (creationTree "")) .skipFailures [1] 5 0 =
      some (framesOfHash (treeTracer (creationTree "")) 5 0 1 ++ []) := rfl
  exact ⟨_, _, reply, (fetchTraces_reads_back reply 1 [2, 0] _).mpr ⟨by decide, by decide, _, _, rfl, rfl, rfl⟩⟩

end OpsIndexer.Indexing
