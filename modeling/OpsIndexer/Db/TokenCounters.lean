import OpsIndexer.Db.DeleteBlock

/-!
# A token's counters through one write

What `addTransfer` collects is the count and the net supply of the rows that landed, and what `writeSharedRows` does to
a token's row is one of two things: a row created here is seeded from every stored transfer, and a row that was there
moves by the collected delta.
-/

namespace OpsIndexer.Db

open Eth OpsIndexer.Types Lib.Table List

theorem refuseUnless_eq_ok {column : Column} {accepted : Bool} :
    refuseUnless column accepted = .ok () ↔ accepted = true := by
  cases accepted <;> simp [refuseUnless]

theorem checkRow_eq_ok {cells : List (Column × Bool)} : checkRow cells = .ok () ↔ ∀ cell ∈ cells, cell.2 = true := by
  rw [checkRow, forM_eq_ok]
  simp only [refuseUnless_eq_ok]

@[simp] theorem checkRow_nil : checkRow [] = .ok () := rfl

theorem checkRow_cons {cell : Column × Bool} {rest : List (Column × Bool)} :
    checkRow (cell :: rest) = .ok () ↔ cell.2 = true ∧ checkRow rest = .ok () := by
  simp only [checkRow_eq_ok, forall_mem_cons]

theorem checkTransfer_value {transfer : TokenTransfer} (checked : checkTransfer transfer = .ok ()) :
    (numeric78 transfer.value).isSome = true :=
  checkRow_eq_ok.mp checked (.tokenTransfersValue, (numeric78 transfer.value).isSome) (by simp)

theorem checkTransaction_value {tx : Transaction} (checked : checkTransaction tx = .ok ()) :
    (numeric78 tx.value).isSome = true :=
  checkRow_eq_ok.mp checked (.transactionsValue, (numeric78 tx.value).isSome) (by simp)

@[simp] theorem netSupply_nil : netSupply [] = 0 := rfl

@[simp] theorem netSupply_append (first second : List TransferRow) :
    netSupply (first ++ second) = netSupply first + netSupply second := by
  simp only [netSupply, map_append, sum_append]
  omega

theorem netSupply_cons (row : TransferRow) (rest : List TransferRow) :
    netSupply (row :: rest) = minted row - burned row + netSupply rest := by
  simp only [netSupply, map_cons, sum_cons]
  omega

@[simp] theorem transfersOf_append (first second : List TransferRow) (token : String) :
    transfersOf (first ++ second) token = transfersOf first token ++ transfersOf second token := by
  simp [transfersOf]

theorem transfersOf_split (rows : List TransferRow) (token : String) (number : Nat) :
    (transfersOf (rows.filter fun row => row.blockNumber ≠ number) token).length +
        (transfersOf (rows.filter fun row => row.blockNumber = number) token).length =
      (transfersOf rows token).length ∧
    netSupply (transfersOf (rows.filter fun row => row.blockNumber ≠ number) token) +
        netSupply (transfersOf (rows.filter fun row => row.blockNumber = number) token) =
      netSupply (transfersOf rows token) := by
  have kept : transfersOf (rows.filter fun row => row.blockNumber ≠ number) token =
      (transfersOf rows token).filter fun row => row.blockNumber ≠ number := by
    simp only [transfersOf, filter_filter, Bool.and_comm]
  have gone : transfersOf (rows.filter fun row => row.blockNumber = number) token =
      (transfersOf rows token).filter fun row => !decide (row.blockNumber ≠ number) := by
    simp [transfersOf, filter_filter, Bool.and_comm]
  rw [kept, gone]
  constructor
  · exact length_filter_add (fun row : TransferRow => decide (row.blockNumber ≠ number)) _
  · have mints := sum_filter_add minted (fun row : TransferRow => decide (row.blockNumber ≠ number))
      (transfersOf rows token)
    have burns := sum_filter_add burned (fun row : TransferRow => decide (row.blockNumber ≠ number))
      (transfersOf rows token)
    simp only [netSupply]
    omega

/-! ## What a batch's transfers add up to -/

def deltaOf (deltas : TokenDeltas) (token : String) : TokenStatsDelta :=
  (deltas.lookup token).getD {}

theorem deltaOf_insert_self (deltas : TokenDeltas) (token : String) (delta : TokenStatsDelta) :
    deltaOf (deltas.insert token delta) token = delta := by
  simp [deltaOf]

theorem deltaOf_insert_ne (deltas : TokenDeltas) (token other : String) (delta : TokenStatsDelta)
    (apart : token ≠ other) : deltaOf (deltas.insert other delta) token = deltaOf deltas token := by
  simp [deltaOf, AList.lookup_insert_ne apart]

theorem numeric78_decimal {value : Int} (accepted : (numeric78 (.decimal value)).isSome = true) :
    numeric78 (.decimal value) = some value := by
  simp only [numeric78] at accepted ⊢
  split at accepted
  · next small => exact if_pos small
  · simp at accepted

theorem transferSupply_eq (transfer : TokenTransfer) (supply : Int)
    (checked : checkTransfer transfer = .ok ()) (done : transferSupply transfer = .ok supply) :
    minted (transferRow transfer) - burned (transferRow transfer) = supply := by
  have accepted := checkTransfer_value checked
  unfold transferSupply at done
  by_cases kind : transfer.tokenType = .erc20
  · rw [if_pos kind] at done
    cases amount : transfer.value with
    | text numeric => simp [amount] at done
    | decimal value =>
      have fits := numeric78_decimal (amount ▸ accepted)
      simp only [amount, Except.ok.injEq] at done
      simp [minted, burned, transferRow, kind, amount, fits, ← done]
  · simp only [if_neg kind, Except.ok.injEq] at done
    simp [minted, burned, transferRow, kind, ← done]

theorem addTransfer_ok {deltas next : TokenDeltas} {transfer : TokenTransfer}
    (done : addTransfer deltas transfer = .ok next) :
    ∃ supply, transferSupply transfer = .ok supply ∧
      next = deltas.insert (lower transfer.tokenAddress)
        { transferDelta := (deltaOf deltas (lower transfer.tokenAddress)).transferDelta + 1
          supplyDelta := (deltaOf deltas (lower transfer.tokenAddress)).supplyDelta + supply } := by
  unfold addTransfer at done
  obtain ⟨supply, found, rest⟩ := bind_eq_ok.mp done
  simp only [Except.ok.injEq] at rest
  exact ⟨supply, found, rest.symm⟩

theorem foldlM_addTransfer (transfers : List TokenTransfer) (deltas next : TokenDeltas) (token : String)
    (checked : ∀ transfer ∈ transfers, checkTransfer transfer = .ok ())
    (done : transfers.foldlM addTransfer deltas = .ok next) :
    (deltaOf next token).transferDelta =
        (deltaOf deltas token).transferDelta + (transfersOf (transfers.map transferRow) token).length ∧
      (deltaOf next token).supplyDelta =
        (deltaOf deltas token).supplyDelta + netSupply (transfersOf (transfers.map transferRow) token) ∧
      (next.lookup token = none →
        deltas.lookup token = none ∧ transfersOf (transfers.map transferRow) token = []) := by
  induction transfers generalizing deltas with
  | nil =>
    cases done
    simp [transfersOf]
  | cons transfer rest ih =>
    rw [foldlM_cons] at done
    obtain ⟨middle, first, others⟩ := bind_eq_ok.mp done
    obtain ⟨supply, found, rfl⟩ := addTransfer_ok first
    have moved := transferSupply_eq transfer supply (checked transfer mem_cons_self) found
    have step := ih _ (fun later member => checked later (mem_cons_of_mem _ member)) others
    by_cases own : lower transfer.tokenAddress = token
    · have here : transfersOf ((transfer :: rest).map transferRow) token =
          transferRow transfer :: transfersOf (rest.map transferRow) token := by
        simp [transfersOf, transferRow, own]
      subst own
      rw [deltaOf_insert_self] at step
      refine ⟨?_, ?_, ?_⟩
      · rw [here, step.1, length_cons]
        push_cast
        omega
      · rw [here, netSupply_cons, step.2.1]
        dsimp only
        omega
      · intro absent
        exact absurd (step.2.2 absent).1 (by simp)
    · have here : transfersOf ((transfer :: rest).map transferRow) token =
          transfersOf (rest.map transferRow) token := by
        simp [transfersOf, transferRow, own]
      rw [deltaOf_insert_ne _ _ _ _ (Ne.symm own), AList.lookup_insert_ne (Ne.symm own)] at step
      rw [here]
      exact step

/-! ## The rows a write leaves -/

def SuppliesNone (tokens : List Token) (address : String) : Prop :=
  ∀ token ∈ tokens, lower token.address = address → token.totalSupply = none

structure Upserted (before : List TokenRow) (written : List Token) (tables : List TokenRow × List String) :
    Prop where
  distinct : tables.2.Nodup
  present : ∀ address ∈ tables.2, ∃ row ∈ tables.1, row.address = address
  origin : ∀ row ∈ tables.1, row.address ∈ tables.2 ∨
    ∃ old ∈ before, old.address = row.address ∧ old.transferCount = row.transferCount ∧
      (row.tokenType = .erc20 → old.tokenType = .erc20 ∧
        (SuppliesNone written row.address → old.totalSupply = row.totalSupply))

theorem upsertToken_upserted (before : List TokenRow) (written : List Token) (tables : List TokenRow × List String)
    (token : Token) (holds : Upserted before written tables) :
    Upserted before (written ++ [token]) (upsertToken tables token) := by
  have earlier (address : String) (none : SuppliesNone (written ++ [token]) address) :
      SuppliesNone written address := fun other member => none other (mem_append_left _ member)
  unfold upsertToken
  split
  · refine ⟨holds.distinct, ?_, ?_⟩
    · intro address member
      obtain ⟨row, found, same⟩ := holds.present address member
      by_cases own : row.address = lower token.address
      · exact ⟨mergeToken token row, mem_map.mpr ⟨row, found, if_pos own⟩, same⟩
      · exact ⟨row, mem_map.mpr ⟨row, found, if_neg own⟩, same⟩
    · intro row member
      obtain ⟨source, found, rfl⟩ := mem_map.mp member
      by_cases own : source.address = lower token.address
      · rw [if_pos own]
        rcases holds.origin source found with seeded | ⟨old, oldMember, address, count, supply⟩
        · exact .inl seeded
        · refine .inr ⟨old, oldMember, address, count, ?_⟩
          intro kind
          have plain : source.tokenType = .erc20 := by
            simp only [mergeToken] at kind
            split at kind
            · next promoted => exact absurd kind promoted
            · exact kind
          refine ⟨(supply plain).1, ?_⟩
          intro none
          have absent := none token (mem_append_right _ mem_cons_self) own.symm
          simp [mergeToken, absent, (supply plain).2 (earlier _ none)]
      · rw [if_neg own]
        rcases holds.origin source found with seeded | ⟨old, oldMember, address, count, supply⟩
        · exact .inl seeded
        · exact .inr ⟨old, oldMember, address, count, fun kind =>
            ⟨(supply kind).1, fun none => (supply kind).2 (earlier _ none)⟩⟩
  · next absent =>
    have fresh : lower token.address ∉ tables.2 := by
      intro member
      obtain ⟨row, found, same⟩ := holds.present _ member
      exact absent (any_eq_true.mpr ⟨row, found, by simpa using same⟩)
    refine ⟨?_, ?_, ?_⟩
    · rw [nodup_append]
      refine ⟨holds.distinct, nodup_singleton _, ?_⟩
      intro address member other otherMember
      rw [mem_singleton] at otherMember
      exact fun same => fresh (otherMember ▸ same ▸ member)
    · intro address member
      rcases mem_append.mp member with old | new
      · obtain ⟨row, found, same⟩ := holds.present address old
        exact ⟨row, mem_append_left _ found, same⟩
      · exact ⟨tokenRow token, mem_append_right _ mem_cons_self, (mem_singleton.mp new).symm⟩
    · intro row member
      rcases mem_append.mp member with found | new
      · rcases holds.origin row found with seeded | ⟨old, oldMember, address, count, supply⟩
        · exact .inl (mem_append_left _ seeded)
        · exact .inr ⟨old, oldMember, address, count, fun kind =>
            ⟨(supply kind).1, fun none => (supply kind).2 (earlier _ none)⟩⟩
      · rw [mem_singleton.mp new]
        exact .inl (mem_append_right _ mem_cons_self)

theorem upsertTokens_upserted (data : BlockData) (tokens : List TokenRow) :
    Upserted tokens data.tokens (upsertTokens data tokens) := by
  have run (rest written : List Token) (tables : List TokenRow × List String)
      (holds : Upserted tokens written tables) :
      Upserted tokens (written ++ rest) (rest.foldl upsertToken tables) := by
    induction rest generalizing written tables with
    | nil => simpa using holds
    | cons token rest ih =>
      have step := ih (written ++ [token]) _ (upsertToken_upserted tokens written tables token holds)
      simpa using step
  have start : Upserted tokens [] (tokens, []) :=
    ⟨nodup_nil, by simp, fun row member => .inr ⟨row, member, rfl, rfl, fun kind => ⟨kind, fun _ => rfl⟩⟩⟩
  exact run data.tokens [] _ start

theorem seedTokens_eq (transfers : List TransferRow) (seeds : List String) (tokens : List TokenRow)
    (distinct : seeds.Nodup) :
    seedTokens transfers seeds tokens =
      tokens.map fun row => if row.address ∈ seeds then seedToken transfers row else row := by
  rw [seedTokens, updateKeys_eq]
  · apply map_congr_left
    intro row _
    rw [lookup_map_keys seeds fun _ => seedToken transfers]
    split <;> rfl
  · simpa [map_map, Function.comp_def] using distinct
  · intro change member row
    obtain ⟨address, _, rfl⟩ := mem_map.mp member
    rfl

theorem applyDeltas_eq (deltas : TokenDeltas) (tokens : List TokenRow) :
    applyDeltas deltas tokens =
      tokens.map fun row => ((deltas.lookup row.address).map applyDelta).getD id row := by
  rw [applyDeltas, updateKeys_eq]
  · apply map_congr_left
    intro row _
    rw [lookup_map_entries deltas.entries applyDelta]
    rfl
  · have keys : (deltas.entries.map fun entry => (entry.1, applyDelta entry.2)).map Prod.fst = deltas.keys := by
      simp [AList.keys, List.keys, Function.comp_def]
    rw [keys]
    exact deltas.keys_nodup
  · intro change member row
    obtain ⟨entry, _, rfl⟩ := mem_map.mp member
    rfl

theorem revertTokens_eq (doomed : List TransferRow) (tokens : List TokenRow) :
    revertTokens doomed tokens = tokens.map fun row =>
      if row.address ∈ doomed.map (·.tokenAddress) then revertToken (transfersOf doomed row.address) row
      else row := by
  rw [revertTokens, updateKeys_eq]
  · apply map_congr_left
    intro row _
    rw [lookup_map_keys _ fun token => revertToken (transfersOf doomed token)]
    simp only [mem_dedup]
    split <;> rfl
  · simpa [map_map, Function.comp_def] using nodup_dedup (doomed.map (·.tokenAddress))
  · intro change member row
    obtain ⟨address, _, rfl⟩ := mem_map.mp member
    rfl

/-- What a write does to a token's row: it is seeded, or it moves by the token's delta. -/
theorem applyDeltas_seedTokens (data : BlockData) (deltas : TokenDeltas) (transfers : List TransferRow)
    (tokens : List TokenRow) (row : TokenRow)
    (member : row ∈ applyDeltas
      ((upsertTokens data tokens).2.foldl (fun deltas address => deltas.erase address) deltas)
      (seedTokens transfers (upsertTokens data tokens).2 (upsertTokens data tokens).1)) :
    (row.transferCount = (transfersOf transfers row.address).length ∧
      (row.tokenType = .erc20 →
        row.totalSupply = some (clampSupply (netSupply (transfersOf transfers row.address))))) ∨
    ∃ old ∈ tokens, old.address = row.address ∧
      row.transferCount = old.transferCount + (deltaOf deltas row.address).transferDelta ∧
      (row.tokenType = .erc20 → old.tokenType = .erc20 ∧ (SuppliesNone data.tokens row.address →
        (deltas.lookup row.address = none ∧ row.totalSupply = old.totalSupply) ∨
        row.totalSupply =
          some (clampSupply (old.totalSupply.getD 0 + (deltaOf deltas row.address).supplyDelta)))) := by
  have holds := upsertTokens_upserted data tokens
  rw [applyDeltas_eq, seedTokens_eq _ _ _ holds.distinct, map_map] at member
  obtain ⟨source, found, rfl⟩ := mem_map.mp member
  simp only [Function.comp_apply]
  by_cases seeded : source.address ∈ (upsertTokens data tokens).2
  · left
    have dropped : ((upsertTokens data tokens).2.foldl (fun deltas address => deltas.erase address)
        deltas).lookup source.address = none := by
      rw [lookup_foldl_erase, if_pos seeded]
    rw [if_pos seeded]
    have address : (seedToken transfers source).address = source.address := rfl
    rw [address, dropped]
    simp only [Option.map_none, Option.getD_none, id_eq]
    exact ⟨rfl, fun kind => if_pos kind⟩
  · right
    rw [if_neg seeded, lookup_foldl_erase, if_neg seeded]
    obtain ⟨old, oldMember, address, count, supply⟩ := (holds.origin source found).resolve_left seeded
    cases collected : deltas.lookup source.address with
    | none =>
      refine ⟨old, oldMember, address, ?_, ?_⟩
      · simp [deltaOf, collected, count]
      · intro kind
        exact ⟨(supply kind).1, fun none => .inl ⟨by simpa using collected, ((supply kind).2 none).symm⟩⟩
    | some delta =>
      refine ⟨old, oldMember, address, ?_, ?_⟩
      · simp [deltaOf, applyDelta, collected, count]
      · intro kind
        refine ⟨(supply kind).1, fun none => .inr ?_⟩
        have plain : source.tokenType = .erc20 := kind
        simp [deltaOf, applyDelta, collected, plain, (supply plain).2 none]

end OpsIndexer.Db
