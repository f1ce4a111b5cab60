import OpsIndexer.Db.TokenCounters

/-!
# The counters and the rows they count

The chain counters and the token counters move only by deltas: of the rows a write lands, of the history a late token
row is seeded from, and of the rows a revert deletes. Each operation on a block keeps them equal to a recount of the
stored rows.
-/

namespace OpsIndexer.Db

open Eth OpsIndexer.Types Lib.Table List

/-! ## What one write adds -/

structure OwnRows (data : BlockData) (tx : Store) (write : OpenWrite) : Prop where
  data : write.data = data
  blocks : write.tx.blocks = tx.blocks
  tokens : write.tx.tokens = tx.tokens
  counters : write.tx.chainCounters = tx.chainCounters
  indexEntry : write.tx.indexEntry = tx.indexEntry
  transactions : ∃ rows, write.tx.transactions = tx.transactions ++ rows ∧ rows.length = write.deltaTxs
  transfers : ∃ landed : List TokenTransfer,
    write.tx.tokenTransfers = tx.tokenTransfers ++ landed.map transferRow ∧
    landed.length = write.deltaTransfers ∧
    (∀ transfer ∈ landed, checkTransfer transfer = .ok ()) ∧
    landed.foldlM addTransfer ∅ = .ok write.tokenDeltas

variable {partitionOf : Nat → Nat} {data : BlockData} {tx store next : Store} {shared : SharedRows} {block : Block}
  {token : String}

theorem writeOwnRows_ok {deltaBlocks : Nat} {write : OpenWrite}
    (done : writeOwnRows partitionOf data deltaBlocks tx = .ok write) :
    OwnRows data tx write ∧ write.deltaBlocks = deltaBlocks := by
  simp only [writeOwnRows, bind_eq_ok, Except.ok.injEq] at done
  obtain ⟨_, _, _, _, _, _, _, checked, deltas, collected, _, _, _, _, rfl⟩ := done
  refine ⟨⟨rfl, rfl, rfl, rfl, rfl, ⟨_, insertAll_eq _ _ _ _, by simp⟩, ⟨_, insertAll_eq _ _ _ _, rfl, ?_, collected⟩⟩,
    rfl⟩
  intro transfer member
  exact forM_eq_ok.mp checked transfer (mem_of_mem_landed member)

theorem beginBlockData_cases {write : BlockWrite} (begun : beginBlockData partitionOf data store = .ok write) :
    write = .stored ∨ ∃ opened, write = .opened opened ∧
      (∀ block ∈ data.block, store.blocks.any (blockConflicts partitionOf block) = false) ∧
      writeOwnRows partitionOf data data.block.toList.length
        { store with blocks := store.blocks ++ data.block.toList } = .ok opened := by
  unfold beginBlockData at begun
  cases named : data.block with
  | none =>
    simp only [named] at begun
    cases own : writeOwnRows partitionOf data 0 store with
    | error failure => simp [own, Except.map] at begun
    | ok opened =>
      simp only [own, Except.map, Except.ok.injEq] at begun
      exact .inr ⟨opened, begun.symm, by simp, by simpa using own⟩
  | some block =>
    simp only [named] at begun
    obtain ⟨_, _, begun⟩ := bind_eq_ok.mp begun
    split at begun
    · obtain ⟨_, _, begun⟩ := bind_eq_ok.mp begun
      simp only [Except.ok.injEq] at begun
      exact .inl begun.symm
    · next fresh =>
      cases own : writeOwnRows partitionOf data 1 { store with blocks := store.blocks ++ [block] } with
      | error failure => simp [own, Except.map] at begun
      | ok opened =>
        simp only [own, Except.map, Except.ok.injEq] at begun
        refine .inr ⟨opened, begun.symm, ?_, own⟩
        intro other found
        rw [Option.mem_some_iff.mp found] at fresh
        simpa using fresh

theorem insertBlockDataBatch_cases (done : insertBlockDataBatch partitionOf data store = .ok next) :
    next = store ∨ ∃ blocks write,
      (blocks = [] ∨ ∃ block, blocks = [block] ∧ store.blocks.any (blockConflicts partitionOf block) = false) ∧
      OwnRows data { store with blocks := store.blocks ++ blocks } write ∧
      write.deltaBlocks = blocks.length ∧
      writeSharedRows
        { data := write.data, blocks := write.deltaBlocks, txs := write.deltaTxs,
          transfers := write.deltaTransfers, tokenDeltas := write.tokenDeltas, seedCountsOwnRows := true }
        write.tx = .ok next := by
  unfold insertBlockDataBatch at done
  obtain ⟨write, begun, finished⟩ := bind_eq_ok.mp done
  rcases beginBlockData_cases begun with stored | ⟨opened, rfl, free, own⟩
  · subst stored
    simp only [finish, Except.ok.injEq] at finished
    exact .inl finished.symm
  · obtain ⟨rows, count⟩ := writeOwnRows_ok own
    refine .inr ⟨data.block.toList, opened, ?_, rows, count, finished⟩
    cases named : data.block with
    | none => exact .inl rfl
    | some block => exact .inr ⟨block, rfl, free block named⟩

/-! ## The chain counters -/

def counterOf (counters : ChainCounters) (name : CounterName) : Int :=
  (counters.lookup name).getD 0

theorem counterOf_addCounter (counters : ChainCounters) (name other : CounterName) (delta : Int) :
    counterOf (addCounter counters (other, delta)) name =
      if name = other then counterOf counters name + delta else counterOf counters name := by
  by_cases same : name = other
  · subst same
    simp [counterOf, addCounter]
  · simp [counterOf, addCounter, same]

theorem counterOf_revertCounter_ne (counters : ChainCounters) (name other : CounterName) (delta : Int)
    (apart : name ≠ other) :
    counterOf (revertCounter counters (other, delta)) name = counterOf counters name := by
  simp [counterOf, revertCounter, apart]

theorem counterOf_revertCounter_self (counters : ChainCounters) (name : CounterName) (delta : Int)
    (covered : 0 ≤ counterOf counters name + delta) :
    counterOf (revertCounter counters (name, delta)) name = counterOf counters name + delta := by
  cases stored : counters.lookup name with
  | none => simp [counterOf, revertCounter, stored]
  | some count =>
    simp only [counterOf, stored, Option.getD_some] at covered
    simp [counterOf, revertCounter, stored, covered]

theorem counterOf_revertCounters (counters : ChainCounters) (blocks txs transfers forgotten : Nat)
    (enoughBlocks : (blocks : Int) ≤ counterOf counters .blocksTotal)
    (enoughTxs : (txs : Int) ≤ counterOf counters .transactionsTotal)
    (enoughTransfers : (transfers : Int) ≤ counterOf counters .transfersTotal) :
    counterOf (revertCounters counters blocks txs transfers forgotten) .blocksTotal =
        counterOf counters .blocksTotal - blocks ∧
      counterOf (revertCounters counters blocks txs transfers forgotten) .transactionsTotal =
        counterOf counters .transactionsTotal - txs ∧
      counterOf (revertCounters counters blocks txs transfers forgotten) .transfersTotal =
        counterOf counters .transfersTotal - transfers := by
  unfold revertCounters
  split
  · simp only [foldl_cons, foldl_nil]
    refine ⟨?_, ?_, ?_⟩
    · iterate 3 rw [counterOf_revertCounter_ne _ _ _ _ (by decide)]
      rw [counterOf_revertCounter_self _ _ _ (by omega)]
      omega
    · iterate 2 rw [counterOf_revertCounter_ne _ _ _ _ (by decide)]
      have inner := counterOf_revertCounter_ne counters .transactionsTotal .blocksTotal (-(blocks : Int)) (by decide)
      rw [counterOf_revertCounter_self _ _ _ (by omega), inner]
      omega
    · rw [counterOf_revertCounter_ne _ _ _ _ (by decide)]
      have first := counterOf_revertCounter_ne counters .transfersTotal .blocksTotal (-(blocks : Int)) (by decide)
      have inner := counterOf_revertCounter_ne (revertCounter counters (.blocksTotal, -(blocks : Int)))
        .transfersTotal .transactionsTotal (-(txs : Int)) (by decide)
      rw [counterOf_revertCounter_self _ _ _ (by omega), inner, first]
      omega
  · next still =>
    simp only [not_or, ne_eq, not_not] at still
    simp [still]

/-- What `writeSharedRows` leaves of the tables the chain counters count, and how it moves the counters. -/
theorem writeSharedRows_ok (done : writeSharedRows shared tx = .ok next) :
    next.blocks = tx.blocks ∧ next.transactions = tx.transactions ∧ next.tokenTransfers = tx.tokenTransfers ∧
      next.counter .blocksTotal = tx.counter .blocksTotal + shared.blocks ∧
      next.counter .transactionsTotal = tx.counter .transactionsTotal + shared.txs ∧
      next.counter .transfersTotal = tx.counter .transfersTotal + shared.transfers := by
  simp only [writeSharedRows, bind_eq_ok, Except.ok.injEq] at done
  obtain ⟨_, _, _, _, rfl⟩ := done
  refine ⟨rfl, rfl, rfl, ?_⟩
  have counter (store : Store) (name : CounterName) : store.counter name = counterOf store.chainCounters name := rfl
  simp only [counter]
  split
  · simp [counterOf_addCounter]
  · next still =>
    simp only [Bool.or_eq_true, decide_eq_true_eq, not_or, ne_eq, not_not] at still
    simp [still]

theorem writeSharedRows_tokens (own : shared.seedCountsOwnRows = true) (done : writeSharedRows shared tx = .ok next) :
    next.tokens = applyDeltas
      ((upsertTokens shared.data tx.tokens).2.foldl (fun deltas address => deltas.erase address) shared.tokenDeltas)
      (seedTokens tx.tokenTransfers (upsertTokens shared.data tx.tokens).2 (upsertTokens shared.data tx.tokens).1) := by
  simp only [writeSharedRows, bind_eq_ok, Except.ok.injEq, own, if_true] at done
  obtain ⟨_, _, _, _, rfl⟩ := done
  rfl

/-! ## One operation keeps the counters equal to a recount -/

structure Counted (store : Store) : Prop where
  numbers : (store.blocks.map (·.number)).Nodup
  blocks : store.counter .blocksTotal = store.blocks.length
  transactions : store.counter .transactionsTotal = store.transactions.length
  transfers : store.counter .transfersTotal = store.tokenTransfers.length
  tokens : ∀ row ∈ store.tokens, row.transferCount = (transfersOf store.tokenTransfers row.address).length

def SupplyCounted (token : String) (store : Store) : Prop :=
  ∀ row ∈ store.tokens, row.address = token → row.tokenType = .erc20 →
    row.totalSupply = some (netSupply (transfersOf store.tokenTransfers token))

def InsideBound (token : String) (store : Store) : Prop :=
  ∀ row ∈ store.tokens, row.address = token → ∀ supply ∈ row.totalSupply,
    -numeric78Max < supply ∧ supply < numeric78Max

theorem clampSupply_inside {supply : Int}
    (inside : -numeric78Max < clampSupply supply ∧ clampSupply supply < numeric78Max) :
    clampSupply supply = supply := by
  unfold clampSupply at inside ⊢
  omega

theorem Counted.empty : Counted {} :=
  ⟨nodup_nil, rfl, rfl, rfl, by simp⟩

theorem numbers_append {blocks : List Block} (distinct : (blocks.map (·.number)).Nodup)
    (fresh : blocks.any (blockConflicts partitionOf block) = false) :
    ((blocks ++ [block]).map (·.number)).Nodup := by
  rw [map_append, nodup_append]
  refine ⟨distinct, by simp, ?_⟩
  intro number member other otherMember same
  obtain ⟨row, found, rfl⟩ := mem_map.mp member
  rw [any_eq_false] at fresh
  apply fresh row found
  simp only [map_cons, map_nil, mem_singleton] at otherMember
  simp [blockConflicts, same, otherMember]

theorem insertBlock_cases (done : insertBlock partitionOf block store = .ok next) :
    next = store ∨ store.blocks.any (blockConflicts partitionOf block) = false ∧
      next = { store with
        blocks := store.blocks ++ [block]
        chainCounters := addCounter store.chainCounters (.blocksTotal, 1) } := by
  unfold insertBlock at done
  obtain ⟨_, _, done⟩ := bind_eq_ok.mp done
  split at done
  · obtain ⟨_, _, done⟩ := bind_eq_ok.mp done
    simp only [Except.ok.injEq] at done
    exact .inl done.symm
  · next fresh =>
    simp only [Except.ok.injEq] at done
    exact .inr ⟨by simpa using fresh, done.symm⟩

theorem insertBlock_counted (counted : Counted store) (done : insertBlock partitionOf block store = .ok next) :
    Counted next := by
  rcases insertBlock_cases done with same | ⟨fresh, rfl⟩
  · exact same ▸ counted
  · have moved (name : CounterName) :
        counterOf (addCounter store.chainCounters (.blocksTotal, 1)) name =
          if name = .blocksTotal then store.counter name + 1 else store.counter name :=
      counterOf_addCounter _ _ _ _
    refine ⟨numbers_append counted.numbers fresh, ?_, ?_, ?_, counted.tokens⟩
    · exact (moved .blocksTotal).trans (by simp [counted.blocks])
    · exact (moved .transactionsTotal).trans (by simp [counted.transactions])
    · exact (moved .transfersTotal).trans (by simp [counted.transfers])

theorem insertBlock_supply (counted : SupplyCounted token store)
    (done : insertBlock partitionOf block store = .ok next) :
    SupplyCounted token next := by
  rcases insertBlock_cases done with same | ⟨_, rfl⟩
  · exact same ▸ counted
  · exact counted

theorem insertBlockDataBatch_counted (counted : Counted store)
    (done : insertBlockDataBatch partitionOf data store = .ok next) :
    Counted next := by
  rcases insertBlockDataBatch_cases done with same | ⟨blocks, write, fresh, own, blockCount, finished⟩
  · exact same ▸ counted
  · obtain ⟨sameBlocks, sameTxs, sameTransfers, blockTotal, txTotal, transferTotal⟩ := writeSharedRows_ok finished
    obtain ⟨txRows, txTable, txCount⟩ := own.transactions
    obtain ⟨landed, transferTable, transferCount, checked, collected⟩ := own.transfers
    have before (name : CounterName) : write.tx.counter name = store.counter name := by
      simp only [Store.counter, own.counters]
    refine ⟨?_, ?_, ?_, ?_, ?_⟩
    · rw [sameBlocks, own.blocks]
      rcases fresh with none | ⟨block, rfl, free⟩
      · simpa [none] using counted.numbers
      · exact numbers_append counted.numbers free
    · rw [blockTotal, before, counted.blocks, sameBlocks, own.blocks, length_append, blockCount]
      push_cast
      rfl
    · rw [txTotal, before, counted.transactions, sameTxs, txTable, length_append, txCount]
      push_cast
      rfl
    · rw [transferTotal, before, counted.transfers, sameTransfers, transferTable, length_append,
        length_map, transferCount]
      push_cast
      rfl
    · intro row member
      rw [writeSharedRows_tokens rfl finished] at member
      rw [sameTransfers]
      rcases applyDeltas_seedTokens _ _ _ _ row member with seeded | ⟨old, oldMember, address, count, _⟩
      · exact seeded.1
      · rw [own.tokens] at oldMember
        have delta := (foldlM_addTransfer landed ∅ _ row.address checked collected).1
        rw [count, counted.tokens old oldMember, address, delta, transferTable, transfersOf_append,
          length_append]
        simp [deltaOf]

theorem insertBlockDataBatch_supply (counted : SupplyCounted token store)
    (done : insertBlockDataBatch partitionOf data store = .ok next)
    (none : token ∈ store.tokens.map (·.address) → SuppliesNone data.tokens token) (inside : InsideBound token next) :
    SupplyCounted token next := by
  rcases insertBlockDataBatch_cases done with same | ⟨blocks, write, _, own, _, finished⟩
  · exact same ▸ counted
  · obtain ⟨_, _, sameTransfers, _⟩ := writeSharedRows_ok finished
    obtain ⟨landed, transferTable, _, checked, collected⟩ := own.transfers
    intro row member rfl kind
    have bound := inside row member rfl
    rw [writeSharedRows_tokens rfl finished] at member
    rw [sameTransfers]
    rcases applyDeltas_seedTokens _ _ _ _ row member with seeded | ⟨old, oldMember, address, _, supply⟩
    · have value := seeded.2 kind
      rw [value]
      exact congrArg some (clampSupply_inside (bound _ value))
    · rw [own.tokens] at oldMember
      obtain ⟨oldKind, cases⟩ := supply kind
      have before := counted old oldMember address oldKind
      obtain ⟨_, sum, absent⟩ := foldlM_addTransfer landed ∅ _ row.address checked collected
      rw [transferTable, transfersOf_append, netSupply_append]
      rcases cases (own.data ▸ none (address ▸ mem_map_of_mem oldMember)) with untouched | value
      · rw [untouched.2, before, (absent untouched.1).2]
        simp
      · have plain := clampSupply_inside (bound _ value)
        rw [value, plain, before, sum]
        simp [deltaOf]

theorem count_number (blocks : List Block) (number : Nat) (distinct : (blocks.map (·.number)).Nodup) :
    (blocks.filter fun row => row.number = number).length =
      if blocks.any (fun row => row.number = number) then 1 else 0 := by
  induction blocks with
  | nil => rfl
  | cons block rest ih =>
    rw [map_cons, nodup_cons] at distinct
    have step := ih distinct.2
    by_cases own : block.number = number
    · have absent : rest.filter (fun row => row.number = number) = [] := by
        rw [filter_eq_nil_iff]
        intro row member same
        exact distinct.1 (mem_map.mpr ⟨row, member, by simpa [own] using same⟩)
      simp [own, absent]
    · simpa [own] using step

theorem deleteBlock_counter_sub (keccak256 : Bytes → Hash) (number : Nat) (store : Store)
    (distinct : (store.blocks.map (·.number)).Nodup)
    (enoughBlocks : ((store.blocks.filter fun row => row.number = number).length : Int) ≤ store.counter .blocksTotal)
    (enoughTxs : ((store.transactions.filter fun row => row.blockNumber = number).length : Int) ≤
      store.counter .transactionsTotal)
    (enoughTransfers : ((store.tokenTransfers.filter fun row => row.blockNumber = number).length : Int) ≤
      store.counter .transfersTotal) :
    (deleteBlock keccak256 number store).counter .blocksTotal =
        store.counter .blocksTotal - (store.blocks.filter fun row => row.number = number).length ∧
      (deleteBlock keccak256 number store).counter .transactionsTotal =
        store.counter .transactionsTotal - (store.transactions.filter fun row => row.blockNumber = number).length ∧
      (deleteBlock keccak256 number store).counter .transfersTotal =
        store.counter .transfersTotal - (store.tokenTransfers.filter fun row => row.blockNumber = number).length := by
  have start (name : CounterName) (apart : name ≠ .addressStatsReverts) :
      counterOf (addCounter store.chainCounters (.addressStatsReverts, 1)) name = store.counter name := by
    rw [counterOf_addCounter, if_neg apart]
    rfl
  have moved := counterOf_revertCounters (addCounter store.chainCounters (.addressStatsReverts, 1))
    (store.blocks.filter fun row => row.number = number).length
    (store.transactions.filter fun row => row.blockNumber = number).length
    (store.tokenTransfers.filter fun row => row.blockNumber = number).length
    (store.addressStats.length - (store.addressStats.filterMap (revertAddressStats store number)).length)
    (by rwa [start _ (by decide)]) (by rwa [start _ (by decide)]) (by rwa [start _ (by decide)])
  rw [start _ (by decide), start _ (by decide), start _ (by decide)] at moved
  simp only [Store.counter, deleteBlock, ← count_number store.blocks number distinct]
  simp only [counterOf, Store.counter] at moved
  exact moved

theorem deleteBlock_counter (keccak256 : Bytes → Hash) (number : Nat) (store : Store) (counted : Counted store) :
    (deleteBlock keccak256 number store).counter .blocksTotal =
        (store.blocks.filter fun row => row.number ≠ number).length ∧
      (deleteBlock keccak256 number store).counter .transactionsTotal =
        (store.transactions.filter fun row => row.blockNumber ≠ number).length ∧
      (deleteBlock keccak256 number store).counter .transfersTotal =
        (store.tokenTransfers.filter fun row => row.blockNumber ≠ number).length := by
  have blocks := length_filter_add (fun row : Block => decide (row.number ≠ number)) store.blocks
  have txs := length_filter_add (fun row : TransactionRow => decide (row.blockNumber ≠ number)) store.transactions
  have transfers := length_filter_add (fun row : TransferRow => decide (row.blockNumber ≠ number))
    store.tokenTransfers
  simp only [ne_eq, decide_not, Bool.not_not] at blocks txs transfers ⊢
  obtain ⟨movedBlocks, movedTxs, movedTransfers⟩ := deleteBlock_counter_sub keccak256 number store counted.numbers
    (by rw [counted.blocks]; omega) (by rw [counted.transactions]; omega) (by rw [counted.transfers]; omega)
  rw [movedBlocks, movedTxs, movedTransfers, counted.blocks, counted.transactions, counted.transfers]
  omega

theorem deleteBlock_counted (keccak256 : Bytes → Hash) (number : Nat) (store : Store) (counted : Counted store) :
    Counted (deleteBlock keccak256 number store) := by
  obtain ⟨blocks, transactions, transfers⟩ := deleteBlock_counter keccak256 number store counted
  refine ⟨?_, blocks, transactions, transfers, ?_⟩
  · exact counted.numbers.sublist (List.Sublist.map _ filter_sublist)
  · intro row member
    simp only [deleteBlock, revertTokens_eq] at member
    obtain ⟨old, found, rfl⟩ := mem_map.mp member
    have split := (transfersOf_split store.tokenTransfers old.address number).1
    have before := counted.tokens old found
    by_cases touched : old.address ∈ (store.tokenTransfers.filter fun row => row.blockNumber = number).map
        (·.tokenAddress)
    · rw [if_pos touched]
      simp only [revertToken, deleteBlock]
      omega
    · rw [if_neg touched]
      have gone : transfersOf (store.tokenTransfers.filter fun row => row.blockNumber = number) old.address = [] := by
        rw [transfersOf, filter_eq_nil_iff]
        intro transfer transferMember same
        exact touched (mem_map.mpr ⟨transfer, transferMember, by simpa using same⟩)
      rw [gone, length_nil] at split
      simp only [deleteBlock]
      omega

theorem deleteBlock_supply (keccak256 : Bytes → Hash) (number : Nat) (store : Store) (token : String)
    (counted : SupplyCounted token store) (inside : InsideBound token (deleteBlock keccak256 number store)) :
    SupplyCounted token (deleteBlock keccak256 number store) := by
  intro row member address kind
  have bound := inside row member address
  simp only [deleteBlock, revertTokens_eq] at member
  obtain ⟨old, found, rfl⟩ := mem_map.mp member
  have split := (transfersOf_split store.tokenTransfers token number).2
  by_cases touched : old.address ∈ (store.tokenTransfers.filter fun row => row.blockNumber = number).map
      (·.tokenAddress)
  · rw [if_pos touched] at address kind bound ⊢
    have same : old.address = token := address
    have before := counted old found same kind
    have value : (revertToken (transfersOf (store.tokenTransfers.filter fun row => row.blockNumber = number)
        old.address) old).totalSupply =
          some (clampSupply (netSupply (transfersOf store.tokenTransfers token) - netSupply
            (transfersOf (store.tokenTransfers.filter fun row => row.blockNumber = number) token))) := by
      have oldKind : old.tokenType = .erc20 := kind
      simp [revertToken, oldKind, before, same]
    rw [value, clampSupply_inside (bound _ value)]
    simp only [deleteBlock, Option.some.injEq]
    omega
  · rw [if_neg touched] at address kind ⊢
    have gone : transfersOf (store.tokenTransfers.filter fun row => row.blockNumber = number) token = [] := by
      rw [transfersOf, filter_eq_nil_iff]
      intro transfer transferMember same
      exact touched (mem_map.mpr ⟨transfer, transferMember, by simpa [address] using same⟩)
    rw [gone, netSupply_nil] at split
    rw [counted old found address kind]
    simp only [deleteBlock, Option.some.injEq]
    omega

end OpsIndexer.Db
