import OpsIndexer.Indexer.StagedAddresses

/-!
# Groups that add up block by block

`AddBlock` joins a block's entries to those of the blocks before it. An entry is the group of the contributions its
block stores, dated with the block; groups of rows that share no transaction join the same way.
-/

namespace OpsIndexer.Indexing

open Eth OpsIndexer.Types Db Rpc Lib.Table List

/-! ## The block of an entry -/

def Dated (number : Nat) (counts : AddressCounts) : Prop :=
  ∀ key delta, counts.stats.lookup key = some delta → delta.blockNumber = number

section

variable {number : Nat} {counts : AddressCounts}

theorem Dated.addressDelta (dated : Dated number counts) (address : String)
    (change : AddressStatsDelta → AddressStatsDelta)
    (keeps : ∀ delta, (change delta).blockNumber = delta.blockNumber) :
    Dated number (addressDelta counts address number change) := by
  intro key delta found
  rw [lookup_addressDelta] at found
  split at found
  · rw [← Option.some.inj found, keeps]
    cases held : counts.stats.lookup key with
    | none => rfl
    | some old => exact dated key old held
  · exact dated key delta found

theorem Dated.touchAddressTx (dated : Dated number counts) (address : String) (index : Nat)
    (change : AddressStatsDelta → AddressStatsDelta)
    (keeps : ∀ delta, (change delta).blockNumber = delta.blockNumber) :
    Dated number (touchAddressTx counts address index number change) :=
  dated.addressDelta address change keeps

theorem Dated.countTransferParticipant (dated : Dated number counts) (keccak256 : Bytes → Hash) (address : Address)
    (index : Nat) : Dated number (countTransferParticipant keccak256 counts address index number) := by
  unfold Indexing.countTransferParticipant
  split
  · exact dated
  · exact dated.touchAddressTx _ index _ fun _ => rfl

variable {raw : RawBlock} {state : Building}

theorem Dated.countParticipants (dated : Dated raw.numberU64 counts) (indexer : Indexer) (index : Nat)
    (decoded : DecodedTransfer) : Dated raw.numberU64 (countParticipants indexer index raw decoded counts) := by
  unfold Indexing.countParticipants
  have sender := dated.countTransferParticipant indexer.keccak256 decoded.fromAddr index
  dsimp only
  split
  · exact sender
  · exact sender.countTransferParticipant indexer.keccak256 decoded.toAddr index

theorem Dated.touchParties (dated : Dated number counts) (indexer : Indexer) (index : Nat) (cache : List String)
    (tx : RawTransaction) : Dated number (touchParties indexer number index cache tx counts) := by
  unfold Indexing.touchParties
  have sender := dated.touchAddressTx (Address.hex indexer.keccak256 tx.fromAddress) index
    (fun delta => { delta with sentDelta := delta.sentDelta + if bumpsNonce (rawTxType tx) then 1 else 0 }) fun _ => rfl
  cases tx.toAddress with
  | none => exact sender
  | some address => exact sender.touchAddressTx _ index _ fun _ => rfl

theorem Dated.recordCreation (dated : Dated number state.counts) (indexer : Indexer) (receipt : Option Receipt)
    (tx : RawTransaction) :
    Dated number (recordCreation indexer number receipt tx state).counts := by
  unfold Indexing.recordCreation
  cases createdAddress receipt tx with
  | none => exact dated
  | some address =>
    dsimp only
    cases contractCode indexer address number with
    | none => exact dated
    | some code =>
      cases code with
      | nil => exact dated
      | cons byte rest => exact dated.addressDelta _ flagContract fun _ => rfl

theorem Dated.countFrame (dated : Dated number counts) (frame : InternalTransaction) :
    Dated number (countFrame number counts frame) := by
  unfold Indexing.countFrame
  have caller := dated.addressDelta frame.fromAddress countInternal fun _ => rfl
  cases frame.toAddress with
  | none => exact caller
  | some address =>
    dsimp only
    split
    · exact caller
    · exact caller.addressDelta address countInternal fun _ => rfl

theorem Dated.recordFrameCreation (dated : Dated raw.numberU64 state.counts) (indexer : Indexer)
    (frame : InternalTransaction) :
    Dated raw.numberU64 (recordFrameCreation indexer raw.numberU64 state frame).counts := by
  rw [(recordFrameCreation_rows indexer raw state frame).2.2.2.2]
  cases frameCreation indexer raw frame with
  | none => exact dated
  | some contract => exact dated.addressDelta _ flagContract fun _ => rfl

theorem Dated.recordLog (dated : Dated raw.numberU64 state.counts) (indexer : Indexer) (index : Nat) (txHash : String)
    (log : ReceiptLog) :
    Dated raw.numberU64 (recordLog indexer raw index txHash state log).counts := by
  rw [(recordLog_rows indexer raw index txHash state log).2.2.2.1]
  cases decodeTransfer log with
  | none => exact dated
  | some decoded => exact dated.countParticipants indexer index decoded

theorem Dated.addTxCounts (dated : Dated number counts) : Dated number (addTxCounts counts) := by
  intro key delta found
  rw [lookup_addTxCounts] at found
  obtain ⟨old, held, rfl⟩ := Option.map_eq_some_iff.mp found
  exact dated key old held

end

theorem buildBlock_dated {indexer : Indexer} {raw : RawBlock} {receipts : Hash → Option Receipt} {built : BuiltBlock}
    (done : buildBlock indexer raw receipts = some built) (key : String) (delta : AddressStatsDelta)
    (found : built.data.addressStats.lookup key = some delta) : delta.blockNumber = raw.numberU64 := by
  have empty : Dated raw.numberU64 {} := by
    intro key delta found
    simp at found
  have transactions : Dated raw.numberU64 (recordTransactions indexer raw receipts).counts := by
    refine Dated.addTxCounts ?_
    refine List.foldlRecOn (motive := fun state : Building => Dated raw.numberU64 state.counts) _ _ empty ?_
    intro state dated entry _
    have parties := dated.touchParties indexer entry.2 state.contractCache entry.1
    refine List.foldlRecOn (motive := fun state : Building => Dated raw.numberU64 state.counts) _ _
      (Dated.recordCreation parties indexer (receipts entry.1.hash) entry.1) ?_
    intro state dated log _
    exact dated.recordLog indexer entry.2 (Hash.hex entry.1.hash) log
  have frames : Dated raw.numberU64 (recordFrames indexer raw.numberU64 (framesOf indexer raw)
      (recordTransactions indexer raw receipts)).counts := by
    refine List.foldlRecOn (motive := fun state : Building => Dated raw.numberU64 state.counts) _ _ ?_ ?_
    · refine List.foldlRecOn (motive := Dated raw.numberU64) _ _ transactions ?_
      intro counts dated frame _
      exact dated.countFrame frame
    · intro state dated frame _
      exact dated.recordFrameCreation indexer frame
  rw [(buildBlock_rows done).2.2.2.2.2] at found
  exact frames key delta found

/-! ## Joining groups -/

def joinSpan (first second : SpanAddress) : SpanAddress :=
  mergeSpanAddress (some first) (some second)

def entrySpan (delta : AddressStatsDelta) : SpanAddress :=
  ⟨delta.txCountDelta, delta.sentDelta, delta.internalTxCountDelta, delta.tokenTransferDelta, delta.blockNumber,
    delta.blockNumber⟩

theorem lookup_addSpanAddress (addresses : AList fun _ : String => SpanAddress)
    (entry : Sigma fun _ : String => AddressStatsDelta) (key : String) :
    (addSpanAddress addresses entry).lookup key = if key = entry.1 then
      Option.merge joinSpan (addresses.lookup key) (some (entrySpan entry.2)) else addresses.lookup key := by
  unfold addSpanAddress
  by_cases own : key = entry.1
  · subst own
    rw [if_pos rfl, AList.lookup_insert]
    cases addresses.lookup entry.1 with
    | none => simp [entrySpan]
    | some held => simp [entrySpan, joinSpan, mergeSpanAddress]
  · rw [if_neg own, AList.lookup_insert_ne own]

theorem lookup_foldl_addSpanAddress (entries : List (Sigma fun _ : String => AddressStatsDelta))
    (addresses : AList fun _ : String => SpanAddress) (key : String) (distinct : entries.NodupKeys) :
    (entries.foldl addSpanAddress addresses).lookup key =
      Option.merge joinSpan (addresses.lookup key) ((entries.dlookup key).map entrySpan) := by
  induction entries generalizing addresses with
  | nil => simp
  | cons entry rest ih =>
    obtain ⟨own, delta⟩ := entry
    rw [nodupKeys_cons] at distinct
    rw [foldl_cons, ih _ distinct.2, lookup_addSpanAddress]
    by_cases same : key = own
    · subst same
      have absent : rest.dlookup key = none := dlookup_eq_none.mpr distinct.1
      simp [absent]
    · have apart : key ≠ (⟨own, delta⟩ : Sigma fun _ : String => AddressStatsDelta).1 := same
      rw [if_neg apart, dlookup_cons_ne rest _ apart]

variable {first second : List Contribution} {key : String} {rows : List TransferRow} {deltas : TokenDeltas}

theorem contributionAddress_congr
    (same : (first.filter fun row => row.address = key) = second.filter fun row => row.address = key) :
    contributionAddress first key = contributionAddress second key := by
  unfold contributionAddress addressTotals
  rw [same]

theorem contributionGroups_perm (perm : first.Perm second) (key : String) :
    (contributionGroups first).lookup key = (contributionGroups second).lookup key := by
  have own := perm.filter fun row => row.address = key
  have named : key ∈ first.map (·.address) ↔ key ∈ second.map (·.address) := (perm.map _).mem_iff
  have blocks (block : Nat) := (own.map (·.block)).mem_iff (a := block)
  have group : contributionAddress first key = contributionAddress second key := by
    simp only [contributionAddress, addressTotals, SpanAddress.mk.injEq]
    exact ⟨((own.filterMap (·.tx)).dedup).length_eq, (own.map _).sum_eq, (own.map _).sum_eq, (own.map _).sum_eq,
      congrArg (·.getD 0) (min?_congr blocks), congrArg (·.getD 0) (max?_congr blocks)⟩
  unfold contributionGroups
  rw [lookup_groupBy, lookup_groupBy, group]
  simp only [named]

theorem contributors_append (key : String) (first second : List Contribution) :
    contributors key (first ++ second) = contributors key first ∪ contributors key second := by
  unfold contributors
  rw [filter_append, filterMap_append, toFinset_append]

theorem contributionAddress_append (apart : Disjoint (contributors key first) (contributors key second))
    (ahead : key ∈ first.map (·.address)) (behind : key ∈ second.map (·.address)) :
    contributionAddress (first ++ second) key =
      joinSpan (contributionAddress first key) (contributionAddress second key) := by
  have sums := weight_append key first second
  rw [weight_eq, weight_eq, weight_eq] at sums
  simp only [Prod.mk_add_mk, Prod.mk.injEq] at sums
  have txs : (addressTotals (first ++ second) key).txs = (addressTotals first key).txs + (addressTotals second key).txs := by
    rw [txs_eq, txs_eq, txs_eq, contributors_append, Finset.card_union_of_disjoint apart]
  have seen (rows : List Contribution) (named : key ∈ rows.map (·.address)) :
      (rows.filter fun row => row.address = key).map (·.block) ≠ [] := by
    obtain ⟨row, member, own⟩ := mem_map.mp named
    intro empty
    have listed : row ∈ rows.filter fun row => row.address = key := mem_filter.mpr ⟨member, by simpa using own⟩
    rw [map_eq_nil_iff.mp empty] at listed
    cases listed
  have aheadSeen := seen first ahead
  have behindSeen := seen second behind
  simp only [contributionAddress, joinSpan, mergeSpanAddress, SpanAddress.mk.injEq, filter_append, map_append,
    min?_append, max?_append]
  generalize (first.filter fun row => row.address = key).map (·.block) = before at aheadSeen ⊢
  generalize (second.filter fun row => row.address = key).map (·.block) = after at behindSeen ⊢
  obtain ⟨low, least⟩ := Option.isSome_iff_exists.mp (isSome_min?_iff.mpr aheadSeen)
  obtain ⟨otherLow, otherLeast⟩ := Option.isSome_iff_exists.mp (isSome_min?_iff.mpr behindSeen)
  obtain ⟨high, greatest⟩ := Option.isSome_iff_exists.mp (isSome_max?_iff.mpr aheadSeen)
  obtain ⟨otherHigh, otherGreatest⟩ := Option.isSome_iff_exists.mp (isSome_max?_iff.mpr behindSeen)
  rw [least, otherLeast, greatest, otherGreatest]
  exact ⟨txs, sums.1, sums.2.1, sums.2.2.1, rfl, rfl⟩

theorem filter_unnamed {rows : List Contribution} (absent : key ∉ rows.map (·.address)) :
    (rows.filter fun row => row.address = key) = [] := by
  rw [filter_eq_nil_iff]
  intro row member own
  exact absent (mem_map.mpr ⟨row, member, by simpa using own⟩)

theorem contributionGroups_append (apart : Disjoint (contributors key first) (contributors key second)) :
    (contributionGroups (first ++ second)).lookup key =
      Option.merge joinSpan ((contributionGroups first).lookup key) ((contributionGroups second).lookup key) := by
  unfold contributionGroups
  simp only [lookup_groupBy, map_append, mem_append]
  by_cases ahead : key ∈ first.map (·.address)
  · by_cases behind : key ∈ second.map (·.address)
    · rw [if_pos (.inl ahead), if_pos ahead, if_pos behind, contributionAddress_append apart ahead behind,
        Option.merge_some_some]
    · have same : contributionAddress (first ++ second) key = contributionAddress first key := by
        apply contributionAddress_congr
        rw [filter_append, filter_unnamed behind, append_nil]
      rw [if_pos (.inl ahead), if_pos ahead, if_neg behind, same, Option.merge_none_right]
  · by_cases behind : key ∈ second.map (·.address)
    · have same : contributionAddress (first ++ second) key = contributionAddress second key := by
        apply contributionAddress_congr
        rw [filter_append, filter_unnamed ahead, nil_append]
      rw [if_pos (.inr behind), if_neg ahead, if_pos behind, same, Option.merge_none_left]
    · rw [if_neg (not_or.mpr ⟨ahead, behind⟩), if_neg ahead, if_neg behind, Option.merge_none_left]

/-! ## An entry is a group -/

theorem batchContributions_block {data : BlockData} {block : Block} (one : OneBlock data block) (known : List Contract)
    (row : Contribution) (member : row ∈ batchContributions data known) : row.block = block.number := by
  unfold batchContributions at member
  simp only [mem_append, mem_flatMap, mem_map] at member
  rcases member with ((⟨_, ⟨tx, stored, rfl⟩, listed⟩ | ⟨_, ⟨transfer, stored, rfl⟩, listed⟩) |
    ⟨_, ⟨frame, stored, rfl⟩, listed⟩) | ⟨contract, stored, listed⟩
  · obtain ⟨_, _, number⟩ := (exists_transactionContributions _ row.address _ _).mp ⟨row, listed, rfl, rfl, rfl⟩
    exact number.symm.trans (one.transactions tx stored)
  · obtain ⟨_, _, number⟩ := (exists_transferContributions _ row.address _ _).mp ⟨row, listed, rfl, rfl, rfl⟩
    exact number.symm.trans (one.transfers transfer stored)
  · have here := one.internal frame stored
    rw [internalContributions, mem_cons, mem_map] at listed
    rcases listed with rfl | ⟨address, _, rfl⟩
    · exact here
    · exact here
  · rw [contractContributions, mem_singleton] at listed
    subst listed
    exact newContracts_number one.contracts contract stored

section

variable {indexer : Indexer} {raw : RawBlock} {receipts : Hash → Option Receipt} {built : BuiltBlock}

/-- Where no created contract is known yet, a block's entries are the groups of the rows it stores. -/
theorem batch_groups (done : buildBlock indexer raw receipts = some built) (distinct : Distinct indexer raw receipts)
    {known : List Contract} {key : String}
    (unknown : ∀ tx ∈ raw.transactions, createsAt indexer raw receipts key tx → ∀ row ∈ known, row.address ≠ key) :
    (contributionGroups (batchContributions built.data known)).lookup key =
      (built.data.addressStats.lookup key).map entrySpan := by
  have one := buildBlock_oneBlock done distinct
  have totals := entryTotals_batch done distinct known key
  have named : (built.data.addressStats.lookup key).isSome ↔
      key ∈ (batchContributions built.data known).map (·.address) := by
    rw [addressStats_isSome done known key, mem_map]
    refine or_iff_left ?_
    intro both
    obtain ⟨⟨tx, mined, creates⟩, row, held, same⟩ := both
    exact unknown tx mined creates row held same
  unfold contributionGroups
  rw [lookup_groupBy]
  cases found : built.data.addressStats.lookup key with
  | none =>
    rw [found] at named
    rw [if_neg fun listed => by simpa using named.mpr listed, Option.map_none]
  | some delta =>
    rw [found] at named
    have listed := named.mp rfl
    obtain ⟨row, member, own⟩ := mem_map.mp listed
    have blocks (block : Nat) : block ∈ ((batchContributions built.data known).filter fun row => row.address = key).map
        (·.block) ↔ block ∈ [raw.numberU64] := by
      rw [mem_singleton, mem_map]
      constructor
      · intro seen
        obtain ⟨other, filtered, rfl⟩ := seen
        exact batchContributions_block one known other (mem_of_mem_filter filtered)
      · intro here
        subst here
        exact ⟨row, mem_filter.mpr ⟨member, by simpa using own⟩, batchContributions_block one known row member⟩
    have first := congrArg (·.getD 0) (min?_congr blocks)
    have last := congrArg (·.getD 0) (max?_congr blocks)
    have dated := buildBlock_dated done key delta found
    rw [entryTotals, found] at totals
    simp only [Option.map_some, Option.getD_some] at totals
    rw [if_pos listed, Option.map_some]
    simp only [contributionAddress, entrySpan, ← totals, deltaTotals, dated, Option.some.injEq, SpanAddress.mk.injEq,
      true_and]
    exact ⟨first, last⟩

end

/-! ## Token groups -/

def tokenGroups (rows : List TransferRow) : TokenDeltas :=
  groupBy (rows.map (·.tokenAddress)) fun token =>
    { transferDelta := (transfersOf rows token).length, supplyDelta := netSupply (transfersOf rows token) }

theorem deltaOf_tokenGroups (rows : List TransferRow) (token : String) :
    deltaOf (tokenGroups rows) token =
      { transferDelta := (transfersOf rows token).length, supplyDelta := netSupply (transfersOf rows token) } := by
  unfold deltaOf tokenGroups
  rw [lookup_groupBy]
  split
  · rfl
  · next absent =>
    have none : transfersOf rows token = [] := by
      rw [transfersOf, filter_eq_nil_iff]
      intro row member own
      exact absent (mem_map.mpr ⟨row, member, by simpa using own⟩)
    rw [none]
    rfl

theorem addTransfer_groups {next : TokenDeltas} {transfer : TokenTransfer}
    (held : ∀ token, deltas.lookup token = (tokenGroups rows).lookup token)
    (checked : checkTransfer transfer = .ok ()) (done : addTransfer deltas transfer = .ok next) (token : String) :
    next.lookup token = (tokenGroups (rows ++ [transferRow transfer])).lookup token := by
  obtain ⟨supply, found, rfl⟩ := addTransfer_ok done
  have moved := transferSupply_eq transfer supply checked found
  have before : deltaOf deltas (lower transfer.tokenAddress) = deltaOf (tokenGroups rows) (lower transfer.tokenAddress) := by
    rw [deltaOf, deltaOf, held]
  rw [before, deltaOf_tokenGroups]
  by_cases own : token = lower transfer.tokenAddress
  · subst own
    rw [AList.lookup_insert, tokenGroups, lookup_groupBy]
    have listed : lower transfer.tokenAddress ∈ (rows ++ [transferRow transfer]).map (·.tokenAddress) := by
      rw [map_append, mem_append]
      exact .inr mem_cons_self
    have one : transfersOf [transferRow transfer] (lower transfer.tokenAddress) = [transferRow transfer] := by
      simp [transfersOf, transferRow]
    rw [if_pos listed, transfersOf_append, netSupply_append, one]
    simp [netSupply, moved]
  · have none : transfersOf [transferRow transfer] token = [] := by
      simp [transfersOf, transferRow, Ne.symm own]
    have named : token ∈ (rows ++ [transferRow transfer]).map (·.tokenAddress) ↔ token ∈ rows.map (·.tokenAddress) := by
      simp [transferRow, own]
    rw [AList.lookup_insert_ne own, held, tokenGroups, tokenGroups, lookup_groupBy, lookup_groupBy, transfersOf_append,
      none, append_nil]
    simp only [named]

theorem foldlM_addTransfer_groups (transfers : List TokenTransfer)
    (held : ∀ token, deltas.lookup token = (tokenGroups rows).lookup token)
    (checked : ∀ transfer ∈ transfers, checkTransfer transfer = .ok ())
    (supplied : ∀ transfer ∈ transfers, ∃ supply, transferSupply transfer = .ok supply) :
    ∃ next, transfers.foldlM addTransfer deltas = .ok next ∧
      ∀ token, next.lookup token = (tokenGroups (rows ++ transfers.map transferRow)).lookup token := by
  induction transfers generalizing rows deltas with
  | nil => exact ⟨deltas, rfl, by simpa using held⟩
  | cons transfer rest ih =>
    obtain ⟨supply, found⟩ := supplied transfer mem_cons_self
    obtain ⟨middle, first⟩ : ∃ middle, addTransfer deltas transfer = .ok middle := by
      unfold addTransfer
      rw [found]
      exact ⟨_, rfl⟩
    obtain ⟨next, later, groups⟩ := ih (addTransfer_groups held (checked transfer mem_cons_self) first)
      (fun other member => checked other (mem_cons_of_mem _ member))
      fun other member => supplied other (mem_cons_of_mem _ member)
    refine ⟨next, ?_, ?_⟩
    · rw [foldlM_cons, first]
      exact later
    · simpa using groups

end OpsIndexer.Indexing
