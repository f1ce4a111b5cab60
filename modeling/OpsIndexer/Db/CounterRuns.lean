import OpsIndexer.Db.Counters

/-!
# Runs of block writes and reverts

Any sequence of `InsertBlock`, `InsertBlockDataBatch` and `DeleteBlock`, each committed or rolled back as a whole, from
an empty store.
-/

namespace OpsIndexer.Db

open Eth OpsIndexer.Types Lib.Table

inductive StoreOp where
  | insertBlock (block : Block)
  | insertBlockDataBatch (data : BlockData)
  | deleteBlock (number : Nat)

def StoreOp.apply (keccak256 : Bytes → Hash) (partitionOf : Nat → Nat) (store : Store) :
    StoreOp → Except WriteError Store
  | .insertBlock block => Db.insertBlock partitionOf block store
  | .insertBlockDataBatch data => Db.insertBlockDataBatch partitionOf data store
  | .deleteBlock number => .ok (Db.deleteBlock keccak256 number store)

def StoreOp.tokens : StoreOp → List Token
  | .insertBlockDataBatch data => data.tokens
  | _ => []

structure Attempt where
  op : StoreOp
  partitionOf : Nat → Nat
  committed : Bool

def Attempt.run (keccak256 : Bytes → Hash) (store : Store) (attempt : Attempt) : Store :=
  if attempt.committed then
    match attempt.op.apply keccak256 attempt.partitionOf store with
    | .ok next => next
    | .error _ => store
  else store

def runStore (keccak256 : Bytes → Hash) (attempts : List Attempt) : Store :=
  attempts.foldl (Attempt.run keccak256) {}

def runStores (keccak256 : Bytes → Hash) (attempts : List Attempt) : List Store :=
  attempts.scanl (Attempt.run keccak256) {}

theorem Attempt.run_cases (keccak256 : Bytes → Hash) (store : Store) (attempt : Attempt) :
    attempt.run keccak256 store = store ∨
      attempt.op.apply keccak256 attempt.partitionOf store = .ok (attempt.run keccak256 store) := by
  unfold Attempt.run
  split
  · cases applied : attempt.op.apply keccak256 attempt.partitionOf store with
    | error failure => exact .inl rfl
    | ok next => exact .inr rfl
  · exact .inl rfl

theorem Attempt.run_counted (keccak256 : Bytes → Hash) (store : Store) (attempt : Attempt)
    (counted : Counted store) : Counted (attempt.run keccak256 store) := by
  obtain same | applied := attempt.run_cases keccak256 store
  · rwa [same]
  · cases named : attempt.op with
    | insertBlock block => exact insertBlock_counted counted (named ▸ applied)
    | insertBlockDataBatch data => exact insertBlockDataBatch_counted counted (named ▸ applied)
    | deleteBlock number =>
      rw [named] at applied
      exact Except.ok.inj applied ▸ deleteBlock_counted keccak256 number store counted

theorem Attempt.run_supply (keccak256 : Bytes → Hash) (store : Store) (attempt : Attempt) (token : String)
    (counted : SupplyCounted token store)
    (none : attempt.run keccak256 store ≠ store → token ∈ store.tokens.map (·.address) →
      SuppliesNone attempt.op.tokens token)
    (inside : InsideBound token (attempt.run keccak256 store)) :
    SupplyCounted token (attempt.run keccak256 store) := by
  by_cases changed : attempt.run keccak256 store = store
  · rwa [changed]
  · have applied := (attempt.run_cases keccak256 store).resolve_left changed
    have none := none changed
    generalize attempt.run keccak256 store = next at applied inside ⊢
    cases named : attempt.op with
    | insertBlock block => exact insertBlock_supply counted (named ▸ applied)
    | insertBlockDataBatch data =>
      rw [named] at none applied
      exact insertBlockDataBatch_supply counted applied none inside
    | deleteBlock number =>
      rw [named] at applied
      obtain rfl := Except.ok.inj applied
      exact deleteBlock_supply keccak256 number store token counted inside

/-- Where an attempt changes the store and finds the token's row, it brings no supply for it. -/
def SuppliesNoneFound (keccak256 : Bytes → Hash) (token : String) : Store → List Attempt → Prop
  | _, [] => True
  | store, attempt :: rest =>
    (attempt.run keccak256 store ≠ store → token ∈ store.tokens.map (·.address) →
      SuppliesNone attempt.op.tokens token) ∧
      SuppliesNoneFound keccak256 token (attempt.run keccak256 store) rest

instance (token : String) (store : Store) : Decidable (InsideBound token store) :=
  inferInstanceAs (Decidable (∀ row ∈ store.tokens, row.address = token → ∀ supply ∈ row.totalSupply,
    -numeric78Max < supply ∧ supply < numeric78Max))

instance (tokens : List Token) (address : String) : Decidable (SuppliesNone tokens address) :=
  inferInstanceAs (Decidable (∀ token ∈ tokens, lower token.address = address → token.totalSupply = none))

theorem foldl_counted (keccak256 : Bytes → Hash) (attempts : List Attempt) (store : Store)
    (counted : Counted store) : Counted (attempts.foldl (Attempt.run keccak256) store) := by
  induction attempts generalizing store with
  | nil => exact counted
  | cons attempt rest ih => exact ih _ (attempt.run_counted keccak256 store counted)

theorem foldl_supply (keccak256 : Bytes → Hash) (token : String) (attempts : List Attempt) (store : Store)
    (counted : SupplyCounted token store)
    (inside : ∀ seen ∈ attempts.scanl (Attempt.run keccak256) store, InsideBound token seen)
    (none : SuppliesNoneFound keccak256 token store attempts) :
    SupplyCounted token (attempts.foldl (Attempt.run keccak256) store) := by
  induction attempts generalizing store with
  | nil => exact counted
  | cons attempt rest ih =>
    rw [List.scanl_cons] at inside
    have next : attempt.run keccak256 store ∈ rest.scanl (Attempt.run keccak256) (attempt.run keccak256 store) := by
      cases rest <;> simp [List.scanl_cons]
    apply ih
    · exact attempt.run_supply keccak256 store token counted none.1 (inside _ (List.mem_cons_of_mem _ next))
    · intro seen member
      exact inside seen (List.mem_cons_of_mem _ member)
    · exact none.2

/-- After every run the counters are a recount of the stored rows: the chain counters and each token's transfer count
always, and an ERC20 token's supply as long as it stayed inside the bound and no write gave the stored row one
of its own. -/
theorem counters_equal_recount (keccak256 : Bytes → Hash) (attempts : List Attempt) :
    (runStore keccak256 attempts).counter .blocksTotal = (runStore keccak256 attempts).blocks.length ∧
    (runStore keccak256 attempts).counter .transactionsTotal = (runStore keccak256 attempts).transactions.length ∧
    (runStore keccak256 attempts).counter .transfersTotal = (runStore keccak256 attempts).tokenTransfers.length ∧
    ∀ row ∈ (runStore keccak256 attempts).tokens,
      row.transferCount = (transfersOf (runStore keccak256 attempts).tokenTransfers row.address).length ∧
      (row.tokenType = .erc20 →
        (∀ seen ∈ runStores keccak256 attempts, InsideBound row.address seen) →
        SuppliesNoneFound keccak256 row.address {} attempts →
        row.totalSupply =
          some (netSupply (transfersOf (runStore keccak256 attempts).tokenTransfers row.address))) := by
  have counted : Counted (runStore keccak256 attempts) := foldl_counted keccak256 attempts {} Counted.empty
  refine ⟨counted.blocks, counted.transactions, counted.transfers, ?_⟩
  intro row member
  refine ⟨counted.tokens row member, ?_⟩
  intro kind inside none
  have start : SupplyCounted row.address {} := by
    intro other otherMember
    simp at otherMember
  exact foldl_supply keccak256 row.address attempts {} start inside none row member rfl kind

def mintAttempt (number : Nat) (value : Int) (tokens : List Token) : Attempt where
  op := .insertBlockDataBatch
    { block := some { number := number, hash := toString number, parentHash := toString (number - 1) }
      transfers :=
        [{ txHash := toString number, logIndex := 0, blockNumber := number, tokenAddress := "0xt"
           fromAddress := zeroAddress, toAddress := "0xa", value := .decimal value }]
      tokens := tokens }
  partitionOf := fun _ => 0
  committed := true

/-- The token's row comes with its second block; the first block is then delivered again and the second reverted. -/
def lateTokenRun : List Attempt :=
  [mintAttempt 1 5 [], mintAttempt 2 7 [{ address := "0xT", blockNumber := 2, totalSupply := some (.decimal 100) }],
    mintAttempt 1 5 [],
    { op := .deleteBlock 2, partitionOf := fun _ => 0, committed := true }]

def lateTokenRow : TokenRow where
  address := "0xt"
  symbol := []
  name := none
  decimals := 18
  tokenType := .erc20
  totalSupply := some 5
  transferCount := 1
  blockNumber := 2
  creationTx := none

theorem counters_equal_recount_lateToken :
    lateTokenRow ∈ (runStore (fun _ => 0) lateTokenRun).tokens ∧
      lateTokenRow.transferCount =
        (transfersOf (runStore (fun _ => 0) lateTokenRun).tokenTransfers lateTokenRow.address).length ∧
      lateTokenRow.totalSupply =
        some (netSupply (transfersOf (runStore (fun _ => 0) lateTokenRun).tokenTransfers lateTokenRow.address)) := by
  have member : lateTokenRow ∈ (runStore (fun _ => 0) lateTokenRun).tokens := by decide +kernel
  have recount := (counters_equal_recount (fun _ => 0) lateTokenRun).2.2.2 lateTokenRow member
  refine ⟨member, recount.1, recount.2 rfl (by decide +kernel) ⟨?_, ?_, ?_, ?_, trivial⟩⟩
  · exact fun _ _ => by decide
  · exact fun _ found => absurd found (by decide +kernel)
  · exact fun _ _ => by decide
  · exact fun _ _ => by decide

def suppliedTokenRun : List Attempt :=
  [mintAttempt 1 5 [{ address := "0xt", blockNumber := 1 }],
    mintAttempt 2 7 [{ address := "0xt", blockNumber := 2, totalSupply := some (.decimal 100) }]]

theorem suppliedTokenRun_not_recount :
    ∃ row ∈ (runStore (fun _ => 0) suppliedTokenRun).tokens, row.tokenType = .erc20 ∧
      (∀ seen ∈ runStores (fun _ => 0) suppliedTokenRun, InsideBound row.address seen) ∧
      row.totalSupply ≠
        some (netSupply (transfersOf (runStore (fun _ => 0) suppliedTokenRun).tokenTransfers row.address)) := by
  decide +kernel

end OpsIndexer.Db
