import OpsIndexer.Opdeposits.Fetcher
import OpsIndexer.Lib.Fold

/-!
# Which deposits the fetcher stores

Every poll that finds a stored row, or a configured start, takes up after the last block it covered. A poll that
starts at the head again, or after a revert that took a row below another, leaves a gap for good.
-/

namespace OpsIndexer.Opdeposits

open Eth OpsIndexer.Types Db Lib.Table Lib.Runs Lib.Fold List

/-! ## Logs -/

structure WellFormed (log : L1Log) : Prop where
  topics : 4 ≤ log.topics.length
  words : 64 ≤ log.data.length
  offset : setBytes (log.data.take 32) + 32 ≤ log.data.length
  length : setBytes (log.data.take 32) + 32 +
    setBytes ((log.data.take (setBytes (log.data.take 32) + 32)).drop (setBytes (log.data.take 32))) ≤ log.data.length

structure PortalEvent (cfg : FetcherConfig) (chain : L1Chain) (log : L1Log) : Prop where
  served : log ∈ chain.logs log.blockNumber
  address : log.address = cfg.optimismPortalAddress
  topic : log.topics.head? = some cfg.transactionDepositedTopic

theorem opaqueDataOf_wellFormed {log : L1Log} (formed : WellFormed log) :
    ∃ opaqueData, opaqueDataOf log.data = some (some opaqueData) := by
  have counted := log.counted
  have words := formed.words
  have offset := formed.offset
  have length := formed.length
  unfold opaqueDataOf
  rw [if_neg (by omega)]
  generalize setBytes (log.data.take 32) = start at offset length ⊢
  have wordStart : start % 2 ^ 64 = start := Nat.mod_eq_of_lt (by omega)
  have wordEnd : (start + 32) % 2 ^ 64 = start + 32 := Nat.mod_eq_of_lt (by omega)
  simp only [wordStart, wordEnd]
  rw [if_neg (by omega), slice, if_pos (by omega), Option.bind_some]
  generalize setBytes ((log.data.take (start + 32)).drop start) = size at length ⊢
  have sized : size % 2 ^ 64 = size := Nat.mod_eq_of_lt (by omega)
  have bytesEnd : (start + 32 + size) % 2 ^ 64 = start + 32 + size := Nat.mod_eq_of_lt (by omega)
  simp only [sized, bytesEnd]
  rw [if_neg (by omega), slice, if_pos (by omega), Option.map_some]
  exact ⟨_, rfl⟩

theorem parseOpaqueData_amounts (opaqueData : Bytes) :
    ∃ mint value : Nat, Amount (parseOpaqueData opaqueData).mint mint ∧ Amount (parseOpaqueData opaqueData).value value := by
  unfold parseOpaqueData
  split
  · exact ⟨0, 0, rfl, rfl⟩
  · exact ⟨_, _, rfl, rfl⟩

theorem computeL2DepositTxHash_ok (keccak256 : Bytes → Hash) (log : L1Log) (opaqueData : Bytes) :
    ∃ hash, computeL2DepositTxHash keccak256 (depositFields keccak256 log opaqueData) = .ok hash := by
  obtain ⟨mint, value, minted, valued⟩ := parseOpaqueData_amounts opaqueData
  have fills : DepositTx.Fills
      { sourceHash := (depositFields keccak256 log opaqueData).sourceHash
        fromAddress := (depositFields keccak256 log opaqueData).fromAddress
        toAddress := (depositFields keccak256 log opaqueData).toAddress
        mint := mint
        value := value
        gas := (depositFields keccak256 log opaqueData).gas
        isSystemTx := (depositFields keccak256 log opaqueData).isSystemTx
        data := (depositFields keccak256 log opaqueData).data } (depositFields keccak256 log opaqueData) :=
    ⟨rfl, rfl, rfl, minted, valued, rfl, rfl, rfl⟩
  rw [computeL2DepositTxHash, encodeToBytes_reflected fills.completed]
  exact ⟨_, rfl⟩

def l2TxHashOf (keccak256 : Bytes → Hash) (log : L1Log) : Option String :=
  (depositOf keccak256 (fun _ => none) log).join.map (·.l2TxHash)

theorem depositOf_wellFormed (keccak256 : Bytes → Hash) (headerTime : Nat → Option Nat) {log : L1Log}
    (formed : WellFormed log) :
    ∃ deposit, depositOf keccak256 headerTime log = some (some deposit) ∧
      l2TxHashOf keccak256 log = some deposit.l2TxHash := by
  obtain ⟨opaqueData, read⟩ := opaqueDataOf_wellFormed formed
  obtain ⟨hash, hashed⟩ := computeL2DepositTxHash_ok keccak256 log opaqueData
  have topics := formed.topics
  unfold l2TxHashOf depositOf
  simp only [if_neg (show ¬log.topics.length < 4 by omega), read, Option.map_some, Option.bind_some, hashed,
    Option.some.injEq]
  exact ⟨_, rfl, rfl⟩

theorem depositOf_block {keccak256 : Bytes → Hash} {headerTime : Nat → Option Nat} {log : L1Log} {deposit : OPDeposit}
    (decoded : (depositOf keccak256 headerTime log).join = some deposit) : deposit.l1BlockNumber = log.blockNumber := by
  unfold depositOf at decoded
  split at decoded
  · cases decoded
  · cases read : opaqueDataOf log.data with
    | none =>
      rw [read] at decoded
      cases decoded
    | some opaqueData =>
      cases opaqueData with
      | none =>
        rw [read] at decoded
        cases decoded
      | some opaqueData =>
        rw [read] at decoded
        simp only [Option.map_some, Option.bind_some, Option.join_some] at decoded
        split at decoded
        · cases decoded
        · rw [← Option.some.inj decoded]

/-! ## One batch -/

theorem fetchDepositEvents_eq {keccak256 : Bytes → Hash} {cfg : FetcherConfig} {chain : L1Chain}
    {headerTime : Nat → Option Nat} {fromBlock toBlock : Nat} {deposits : List OPDeposit}
    (fetched : fetchDepositEvents keccak256 cfg chain headerTime fromBlock toBlock = some deposits) :
    deposits = (filterLogs cfg chain fromBlock toBlock).filterMap fun log => (depositOf keccak256 headerTime log).join := by
  obtain ⟨outputs, done, rfl⟩ := Option.map_eq_some_iff.mp fetched
  exact reduceOption_mapM done

theorem mem_filterLogs {cfg : FetcherConfig} {chain : L1Chain} {fromBlock toBlock : Nat} {log : L1Log} :
    log ∈ filterLogs cfg chain fromBlock toBlock ↔
      PortalEvent cfg chain log ∧ fromBlock ≤ log.blockNumber ∧ log.blockNumber ≤ toBlock := by
  simp only [filterLogs, mem_filter, mem_flatMap, mem_range'_1, Bool.and_eq_true, decide_eq_true_eq]
  constructor
  · rintro ⟨⟨number, inside, served⟩, address, topic⟩
    have numbered := chain.numbered number log served
    subst numbered
    exact ⟨⟨served, address, topic⟩, by omega, by omega⟩
  · rintro ⟨event, above, below⟩
    exact ⟨⟨log.blockNumber, by omega, event.served⟩, event.address, event.topic⟩

theorem filterLogs_ordered (cfg : FetcherConfig) (chain : L1Chain) (fromBlock toBlock : Nat) :
    (filterLogs cfg chain fromBlock toBlock).Pairwise fun first second => first.blockNumber ≤ second.blockNumber := by
  unfold filterLogs
  refine List.Pairwise.filter _ ?_
  rw [pairwise_flatMap]
  constructor
  · intro number _
    rw [pairwise_iff_forall_sublist]
    intro first second both
    rw [chain.numbered number first (both.subset (by simp)), chain.numbered number second (both.subset (by simp))]
  · refine (pairwise_lt_range' ..).imp ?_
    intro low high below first firstServed second secondServed
    rw [chain.numbered low first firstServed, chain.numbered high second secondServed]
    exact below.le

section

variable (keccak256 : Bytes → Hash) (cfg : FetcherConfig) (chain : L1Chain)

def Held (table : List OPDeposit) (log : L1Log) : Prop :=
  ∃ row ∈ table, l2TxHashOf keccak256 log = some row.l2TxHash ∧ row.l1BlockNumber ≤ log.blockNumber

structure Reached (start next : Nat) (table : List OPDeposit) : Prop where
  below : ∀ row ∈ table, row.l1BlockNumber < next
  held : ∀ log, PortalEvent cfg chain log → WellFormed log → start ≤ log.blockNumber → log.blockNumber < next →
    Held keccak256 table log

variable {keccak256 cfg chain}

theorem Held.mono {table more : List OPDeposit} {log : L1Log} (held : Held keccak256 table log) (sub : table ⊆ more) :
    Held keccak256 more log := by
  obtain ⟨row, member, rest⟩ := held
  exact ⟨row, sub member, rest⟩

theorem depositConflicts_iff (written row : OPDeposit) :
    depositConflicts written row = true ↔ row.l2TxHash = written.l2TxHash := by
  simp [depositConflicts]

theorem insertOPDepositsBatch_key {deposits table : List OPDeposit} {deposit : OPDeposit}
    (ordered : deposits.Pairwise fun first second => first.l1BlockNumber ≤ second.l1BlockNumber)
    (listed : deposit ∈ deposits) (below : ∀ row ∈ table, row.l1BlockNumber ≤ deposit.l1BlockNumber) :
    ∃ row ∈ insertOPDepositsBatch deposits table,
      row.l2TxHash = deposit.l2TxHash ∧ row.l1BlockNumber ≤ deposit.l1BlockNumber := by
  rw [insertOPDepositsBatch, insertAll_eq, map_id]
  by_cases taken : ∃ row ∈ table, row.l2TxHash = deposit.l2TxHash
  · obtain ⟨row, member, same⟩ := taken
    exact ⟨row, mem_append_left _ member, same, below row member⟩
  · cases found : deposits.find? fun other => other.l2TxHash = deposit.l2TxHash with
    | none =>
      have absent := List.find?_eq_none.mp found deposit listed
      simp at absent
    | some first =>
      obtain ⟨same, before, after, split, _⟩ := List.find?_eq_some_iff_append.mp found
      have key : first.l2TxHash = deposit.l2TxHash := by
        simpa using same
      have lands : first ∈ landed id depositConflicts deposits table := by
        refine (mem_landed_iff id depositConflicts_iff deposits table first).mpr ⟨?_, ?_⟩
        · intro row member equal
          exact taken ⟨row, member, equal.trans key⟩
        · simpa only [id_eq, key] using found
      refine ⟨first, mem_append_right _ lands, key, ?_⟩
      rw [split, pairwise_append, pairwise_cons] at ordered
      rw [split, mem_append, mem_cons] at listed
      rcases listed with earlier | rfl | later
      · next none =>
        have unequal := none deposit earlier
        simp at unequal
      · exact le_rfl
      · exact ordered.2.1.1 deposit later

theorem Reached.batch {start batchStart batchEnd : Nat} {table : List OPDeposit}
    (reached : Reached keccak256 cfg chain start batchStart table) (forward : batchStart ≤ batchEnd)
    {headerTime : Nat → Option Nat} {deposits : List OPDeposit}
    (fetched : fetchDepositEvents keccak256 cfg chain headerTime batchStart batchEnd = some deposits) :
    Reached keccak256 cfg chain start (batchEnd + 1) (insertOPDepositsBatch deposits table) := by
  have rows := fetchDepositEvents_eq fetched
  have kept : table ⊆ insertOPDepositsBatch deposits table := by
    rw [insertOPDepositsBatch, insertAll_eq]
    exact subset_append_left ..
  have source : ∀ deposit ∈ deposits, batchStart ≤ deposit.l1BlockNumber ∧ deposit.l1BlockNumber ≤ batchEnd := by
    intro deposit member
    rw [rows] at member
    obtain ⟨log, listed, decoded⟩ := mem_filterMap.mp member
    rw [depositOf_block decoded]
    exact (mem_filterLogs.mp listed).2
  have ordered : deposits.Pairwise fun first second => first.l1BlockNumber ≤ second.l1BlockNumber := by
    rw [rows, pairwise_filterMap]
    refine (filterLogs_ordered cfg chain batchStart batchEnd).imp ?_
    intro low high below first firstDecoded second secondDecoded
    rw [depositOf_block firstDecoded, depositOf_block secondDecoded]
    exact below
  constructor
  · intro row member
    rw [insertOPDepositsBatch, insertAll_eq, map_id, mem_append] at member
    rcases member with old | new
    · have below := reached.below row old
      omega
    · have inside := source row (mem_of_mem_landed new)
      omega
  · intro log event formed above below
    by_cases earlier : log.blockNumber < batchStart
    · exact (reached.held log event formed above earlier).mono kept
    · obtain ⟨deposit, decoded, key⟩ := depositOf_wellFormed keccak256 headerTime formed
      have joined : (depositOf keccak256 headerTime log).join = some deposit := by
        rw [decoded]
        rfl
      have listed : deposit ∈ deposits := by
        rw [rows]
        exact mem_filterMap.mpr ⟨log, mem_filterLogs.mpr ⟨event, by omega, by omega⟩, joined⟩
      have block := depositOf_block joined
      have before : ∀ row ∈ table, row.l1BlockNumber ≤ deposit.l1BlockNumber := by
        intro row old
        have below := reached.below row old
        omega
      obtain ⟨row, member, same, lower⟩ := insertOPDepositsBatch_key ordered listed before
      exact ⟨row, member, key.trans (congrArg some same.symm), by omega⟩

/-! ## One poll -/

/-- The loop stops at a block everything below which is settled, past the safe head when nothing failed. -/
theorem Reached.batches (headerTime : Nat → Option Nat) {start safeHead : Nat} (turns : Nat) {batchStart : Nat}
    {outcomes : List BatchOutcome} {table : List OPDeposit}
    (reached : Reached keccak256 cfg chain start (min batchStart (safeHead + 1)) table)
    (enough : safeHead + 1 - batchStart ≤ turns) :
    ∃ next, Reached keccak256 cfg chain start next
        (pollBatches keccak256 cfg chain headerTime safeHead turns batchStart outcomes table).1 ∧
      ((pollBatches keccak256 cfg chain headerTime safeHead turns batchStart outcomes table).2 = true →
        safeHead < next) := by
  induction turns generalizing batchStart outcomes table with
  | zero => exact ⟨_, reached, fun _ => by omega⟩
  | succ turns ih =>
    have batched := cfg.batched
    unfold pollBatches
    by_cases more : batchStart ≤ safeHead
    · have failed : ∃ next, Reached keccak256 cfg chain start next table ∧ (false = true → safeHead < next) :=
        ⟨_, reached, by simp⟩
      have here : min batchStart (safeHead + 1) = batchStart := by omega
      rw [here] at reached
      simp only [if_pos more]
      split
      · exact failed
      · have ended : min (batchStart + cfg.batchSize - 1) safeHead + 1 =
            min (batchStart + cfg.batchSize) (safeHead + 1) := by omega
        have forward : batchStart ≤ min (batchStart + cfg.batchSize - 1) safeHead := by omega
        cases fetched : fetchDepositEvents keccak256 cfg chain headerTime batchStart
            (min (batchStart + cfg.batchSize - 1) safeHead) with
        | none => exact failed
        | some deposits =>
          have inserted := reached.batch forward fetched
          rw [ended] at inserted
          cases deposits with
          | nil => exact ih inserted (by omega)
          | cons deposit rest =>
            dsimp only
            cases outcomes.headD .done with
            | insertFails => exact failed
            | insertUnacknowledged => exact ⟨_, inserted, by simp⟩
            | done => exact ih inserted (by omega)
            | filterLogsFails => exact ih inserted (by omega)
    · rw [if_neg more]
      exact ⟨_, reached, fun _ => by omega⟩

theorem getLastIndexedL1Block_le {table : List OPDeposit} {row : OPDeposit} (member : row ∈ table) :
    row.l1BlockNumber ≤ getLastIndexedL1Block table := by
  unfold getLastIndexedL1Block
  have listed := mem_map_of_mem (f := OPDeposit.l1BlockNumber) member
  cases last : (table.map (·.l1BlockNumber)).max? with
  | none =>
    rw [List.max?_eq_none_iff] at last
    rw [last] at listed
    cases listed
  | some highest => exact (List.max?_eq_some_iff.mp last).2 _ listed

theorem getLastIndexedL1Block_mem {table : List OPDeposit} (positive : 0 < getLastIndexedL1Block table) :
    ∃ row ∈ table, row.l1BlockNumber = getLastIndexedL1Block table := by
  unfold getLastIndexedL1Block at positive ⊢
  cases last : (table.map (·.l1BlockNumber)).max? with
  | none =>
    rw [last] at positive
    cases positive
  | some highest => exact mem_map.mp (List.max?_eq_some_iff.mp last).1

variable (keccak256 cfg chain) in
structure Settled (system : DepositSystem) : Prop where
  fresh : system.firstStart = none → system.opDeposits = []
  configured : ∀ start, system.firstStart = some start → 0 < cfg.startBlock → start = cfg.startBlock
  covered : ∀ start, system.firstStart = some start → ∀ row ∈ system.opDeposits, ∀ log, PortalEvent cfg chain log →
    WellFormed log → start ≤ log.blockNumber → log.blockNumber ≤ row.l1BlockNumber →
      Held keccak256 system.opDeposits log

def startsBehind (cfg : FetcherConfig) (system : DepositSystem) : Prop :=
  system.firstStart.isSome → 0 < cfg.startBlock ∨ 0 < getLastIndexedL1Block system.opDeposits

theorem Settled.start {system : DepositSystem} (settled : Settled keccak256 cfg chain system)
    (behind : startsBehind cfg system) {answers : PollAnswers} {fromBlock : Nat}
    (started : getStartBlock cfg answers system.opDeposits = some fromBlock) :
    Reached keccak256 cfg chain (system.firstStart.getD fromBlock) fromBlock system.opDeposits := by
  unfold getStartBlock at started
  split at started
  · split at started
    · next positive =>
      obtain rfl := Option.some.inj started
      obtain ⟨last, member, highest⟩ := getLastIndexedL1Block_mem positive
      cases first : system.firstStart with
      | none =>
        rw [settled.fresh first] at member
        cases member
      | some start =>
        constructor
        · intro row listed
          exact Nat.lt_succ_of_le (getLastIndexedL1Block_le listed)
        · intro log event formed above below
          exact settled.covered start first last member log event formed above (by omega)
    · next empty =>
      -- Every row is of block 0, and the first poll started where this one does.
      have low : ∀ row ∈ system.opDeposits, row.l1BlockNumber = 0 := by
        intro row listed
        have bound := getLastIndexedL1Block_le listed
        omega
      split at started
      · next given =>
        obtain rfl := Option.some.inj started
        have same : system.firstStart.getD cfg.startBlock = cfg.startBlock := by
          cases first : system.firstStart with
          | none => rfl
          | some start => exact settled.configured start first given
        rw [same]
        constructor
        · intro row listed
          rw [low row listed]
          exact given
        · intro log _ _ above below
          omega
      · next unset =>
        have first : system.firstStart = none := by
          cases known : system.firstStart with
          | none => rfl
          | some start =>
            rcases behind (by rw [known]; rfl) with given | indexed
            · exact absurd given unset
            · exact absurd indexed empty
        rw [first, settled.fresh first]
        constructor
        · intro row listed
          cases listed
        · intro log _ _ above below
          rw [Option.getD_none] at above
          omega
  · cases started

theorem Settled.poll_reached {system : DepositSystem} (settled : Settled keccak256 cfg chain system)
    (behind : startsBehind cfg system) {answers : PollAnswers} {fromBlock : Nat}
    (started : getStartBlock cfg answers system.opDeposits = some fromBlock) :
    (poll keccak256 cfg chain answers system.opDeposits).fromBlock = some fromBlock ∧
      ∃ next, Reached keccak256 cfg chain (system.firstStart.getD fromBlock) next
          (poll keccak256 cfg chain answers system.opDeposits).table ∧
        ((poll keccak256 cfg chain answers system.opDeposits).ok = true →
          ∀ safeHead, safeHeadOf cfg answers = some safeHead → safeHead < next) := by
  have reached := settled.start behind started
  unfold Opdeposits.poll
  rw [started]
  cases headed : safeHeadOf cfg answers with
  | none => exact ⟨rfl, fromBlock, reached, by simp⟩
  | some safeHead =>
    simp only [Option.some.injEq, forall_eq', true_and]
    by_cases ahead : fromBlock ≤ safeHead
    · have here : min fromBlock (safeHead + 1) = fromBlock := by omega
      refine Reached.batches answers.headerTime (safeHead + 1 - fromBlock) ?_ le_rfl
      rw [here]
      exact reached
    · have none : safeHead + 1 - fromBlock = 0 := by omega
      rw [none]
      exact ⟨fromBlock, reached, fun _ => by omega⟩

theorem Settled.polled {system : DepositSystem} (settled : Settled keccak256 cfg chain system)
    (behind : startsBehind cfg system) (answers : PollAnswers) :
    Settled keccak256 cfg chain (system.step keccak256 cfg chain (.poll answers)) ∧
      ((poll keccak256 cfg chain answers system.opDeposits).ok = true →
        ∀ safeHead, safeHeadOf cfg answers = some safeHead →
          ∀ start, (system.step keccak256 cfg chain (.poll answers)).firstStart = some start →
            ∀ log, PortalEvent cfg chain log → WellFormed log → start ≤ log.blockNumber → log.blockNumber ≤ safeHead →
              Held keccak256 (system.step keccak256 cfg chain (.poll answers)).opDeposits log) := by
  cases started : getStartBlock cfg answers system.opDeposits with
  | none =>
    have refused : poll keccak256 cfg chain answers system.opDeposits = ⟨system.opDeposits, none, false⟩ := by
      rw [Opdeposits.poll, started]
    simp only [DepositSystem.step, refused, Option.or_none]
    exact ⟨{ settled with }, by simp⟩
  | some fromBlock =>
    obtain ⟨asked, next, reached, done⟩ := settled.poll_reached behind started
    have first : system.firstStart.or (some fromBlock) = some (system.firstStart.getD fromBlock) := by
      cases system.firstStart <;> rfl
    simp only [DepositSystem.step, asked, first]
    refine ⟨⟨by simp, ?_, ?_⟩, ?_⟩
    · intro start same given
      obtain rfl := Option.some.inj same
      cases known : system.firstStart with
      | some start => exact settled.configured start known given
      | none =>
        have empty := settled.fresh known
        unfold getStartBlock at started
        rw [empty] at started
        simp only [getLastIndexedL1Block, map_nil, List.max?_nil, Option.getD_none, lt_irrefl, if_false, given,
          if_true] at started
        split at started
        · exact (Option.some.inj started).symm
        · cases started
    · intro start same row listed log event formed above below
      obtain rfl := Option.some.inj same
      have before := reached.below row listed
      exact reached.held log event formed above (by omega)
    · intro ok safeHead headed start same log event formed above below
      obtain rfl := Option.some.inj same
      have past := done ok safeHead headed
      exact reached.held log event formed above (by omega)

/-! ## Reverts -/

def takesFromTop (system : DepositSystem) (number : Nat) : Prop :=
  ∀ taken ∈ system.opDeposits, revertsDeposit system.store number taken = true →
    ∀ kept ∈ system.opDeposits, revertsDeposit system.store number kept = false →
      kept.l1BlockNumber < taken.l1BlockNumber

theorem Settled.deleteBlock {system : DepositSystem} (settled : Settled keccak256 cfg chain system) {number : Nat}
    (top : takesFromTop system number) :
    Settled keccak256 cfg chain (system.step keccak256 cfg chain (.deleteBlock number)) := by
  simp only [DepositSystem.step]
  refine ⟨?_, settled.configured, ?_⟩
  · intro first
    simp only [settled.fresh first, filter_nil]
  · intro start first row member log event formed above below
    obtain ⟨listed, stays⟩ := mem_filter.mp member
    obtain ⟨own, ownListed, key, lower⟩ := settled.covered start first row listed log event formed above below
    refine ⟨own, mem_filter.mpr ⟨ownListed, ?_⟩, key, lower⟩
    cases taken : revertsDeposit system.store number own with
    | false => rfl
    | true =>
      have higher := top own ownListed taken row listed (by simpa using stays)
      omega

end

/-! ## Runs -/

/-- Each poll but the first has a configured start or a stored row to start from, and no revert takes a deposit's row
from under another. -/
def progressKept (cfg : FetcherConfig) (system : DepositSystem) : DepositEvent → Prop
  | .writeBlock _ _ => True
  | .deleteBlock number => takesFromTop system number
  | .poll _ => startsBehind cfg system

/-- In a run of such events, after every poll without an error each well-formed event of the portal from the first
poll's start up to the poll's safe head has its row. -/
theorem deposits_indexed (keccak256 : Bytes → Hash) (cfg : FetcherConfig) (chain : L1Chain) (events : List DepositEvent)
    (admitted : Admits (DepositSystem.step keccak256 cfg chain) {} (progressKept cfg) events) {past : List DepositEvent}
    {answers : PollAnswers} (polled : past ++ [.poll answers] <+: events)
    (ok : (poll keccak256 cfg chain answers (run (DepositSystem.step keccak256 cfg chain) {} past).opDeposits).ok = true)
    {safeHead start : Nat} (headed : safeHeadOf cfg answers = some safeHead)
    (first : (run (DepositSystem.step keccak256 cfg chain) {} (past ++ [.poll answers])).firstStart = some start)
    {log : L1Log} (event : PortalEvent cfg chain log) (formed : WellFormed log) (above : start ≤ log.blockNumber)
    (below : log.blockNumber ≤ safeHead) :
    ∃ row ∈ (run (DepositSystem.step keccak256 cfg chain) {} (past ++ [.poll answers])).opDeposits,
      l2TxHashOf keccak256 log = some row.l2TxHash := by
  have begun : Settled keccak256 cfg chain {} := ⟨fun _ => rfl, by simp, by simp⟩
  have settled : Settled keccak256 cfg chain (run (DepositSystem.step keccak256 cfg chain) {} past) := by
    refine admitted.invariant (Settled keccak256 cfg chain) begun ?_ ((prefix_append _ _).trans polled)
    intro system event settled allowed
    cases event with
    | writeBlock partitionOf data =>
      simp only [DepositSystem.step]
      split <;> exact { settled with }
    | deleteBlock number => exact settled.deleteBlock allowed
    | poll answers => exact (settled.polled allowed answers).1
  have allowed := admitted past (.poll answers) polled
  rw [run_concat] at first ⊢
  obtain ⟨row, member, key, _⟩ :=
    (settled.polled allowed answers).2 ok safeHead headed start first log event formed above below
  exact ⟨row, member, key⟩

def depositLog (block recipient : Nat) : L1Log where
  address := 1
  topics := [7, 2, BitVec.ofNat 256 recipient, 0]
  data := Lib.Rlp.fixed 32 32 ++ Lib.Rlp.fixed 32 0
  blockNumber := block
  blockHash := BitVec.ofNat 256 block
  txHash := BitVec.ofNat 256 block
  index := 0
  counted := by decide +kernel

def twoDeposits : L1Chain where
  logs number := if number = 11 then [depositLog 11 6] else if number = 12 then [depositLog 12 7] else []
  numbered := by
    intro number log member
    split at member
    · next same => rw [mem_singleton.mp member, same]; rfl
    · split at member
      · next same => rw [mem_singleton.mp member, same]; rfl
      · cases member

def portal (startBlock : Nat) : FetcherConfig where
  optimismPortalAddress := 1
  transactionDepositedTopic := 7
  batchSize := 1
  startBlock := startBlock
  confirmationBlocks := 0
  batched := le_rfl

theorem depositLog_event (startBlock block recipient : Nat) (served : depositLog block recipient ∈ twoDeposits.logs block) :
    PortalEvent (portal startBlock) twoDeposits (depositLog block recipient) ∧ WellFormed (depositLog block recipient) := by
  refine ⟨⟨served, rfl, rfl⟩, ⟨by simp [depositLog], ?_, ?_, ?_⟩⟩
  all_goals
    simp only [depositLog]
    decide +kernel

def answersAt (head : Nat) : PollAnswers where
  startHead := some head
  l1Head := some head

/-- A first poll at block 10 finds no deposit, a second one at block 12 starts where the first did. -/
theorem deposits_indexed_configured :
    ∃ row ∈ (run (DepositSystem.step bytesToHash (portal 10) twoDeposits) {}
        [.poll (answersAt 10), .poll (answersAt 12)]).opDeposits,
      l2TxHashOf bytesToHash (depositLog 11 6) = some row.l2TxHash := by
  have admitted : Admits (DepositSystem.step bytesToHash (portal 10) twoDeposits) {} (progressKept (portal 10))
      [.poll (answersAt 10), .poll (answersAt 12)] :=
    admits_cons (fun _ => .inl (by decide)) (admits_cons (fun _ => .inl (by decide)) (admits_nil _))
  have polled : [.poll (answersAt 10)] ++ [.poll (answersAt 12)] <+:
      [DepositEvent.poll (answersAt 10), .poll (answersAt 12)] := prefix_rfl
  have headed : safeHeadOf (portal 10) (answersAt 12) = some 12 := by decide +kernel
  have first : (run (DepositSystem.step bytesToHash (portal 10) twoDeposits) {}
      ([.poll (answersAt 10)] ++ [.poll (answersAt 12)])).firstStart = some 10 := by decide +kernel
  obtain ⟨event, formed⟩ := depositLog_event 10 11 6 (mem_singleton_self _)
  exact deposits_indexed bytesToHash (portal 10) twoDeposits _ admitted polled (by decide +kernel) headed first event
    formed (by decide) (by decide)

def depositBlock : BlockData where
  block := some { number := 5, hash := "0x5", parentHash := "0x4" }
  transactions :=
    [{ hash := (l2TxHashOf bytesToHash (depositLog 11 6)).getD "", blockNumber := 5, txIndex := 0
       fromAddress := "0x02", toAddress := some "0x06" }]

def polledOnce : DepositSystem :=
  run (DepositSystem.step bytesToHash (portal 0) twoDeposits) {} [.poll (answersAt 10)]

def revertedOnce : DepositSystem :=
  run (DepositSystem.step bytesToHash (portal 10) twoDeposits) {}
    [.poll (answersAt 12), .writeBlock id depositBlock, .deleteBlock 5, .writeBlock id depositBlock]

/-- Two runs that lose the deposit of block 11. Without a configured start and a row, the second poll starts at its
head, 12. With one, the row is taken by a revert while the row of block 12 stays, and the last poll starts at 13. -/
theorem deposit_lost :
    (PortalEvent (portal 0) twoDeposits (depositLog 11 6) ∧ WellFormed (depositLog 11 6)) ∧
      (polledOnce.firstStart = some 10 ∧
        (poll bytesToHash (portal 0) twoDeposits (answersAt 12) polledOnce.opDeposits).ok = true ∧
        ∀ row ∈ (poll bytesToHash (portal 0) twoDeposits (answersAt 12) polledOnce.opDeposits).table,
          l2TxHashOf bytesToHash (depositLog 11 6) ≠ some row.l2TxHash) ∧
      revertedOnce.firstStart = some 10 ∧
        (poll bytesToHash (portal 10) twoDeposits (answersAt 20) revertedOnce.opDeposits).ok = true ∧
        ∀ row ∈ (poll bytesToHash (portal 10) twoDeposits (answersAt 20) revertedOnce.opDeposits).table,
          l2TxHashOf bytesToHash (depositLog 11 6) ≠ some row.l2TxHash := by
  refine ⟨depositLog_event 0 11 6 (mem_singleton_self _), ?_, ?_⟩ <;> decide +kernel

end OpsIndexer.Opdeposits
