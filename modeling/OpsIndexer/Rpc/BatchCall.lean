import Mathlib

/-!
# Batch calls

`BatchCallContext` of `pkg/eth/rpclient` and `BlockTransactionCounts` of `internal/rpc`. The replies of a batch are
matched to its requests by id; only their number and that each id is known are checked. What `json.Unmarshal` does with
a result is a parameter, and what it may have written before an error is left out.
-/

namespace OpsIndexer.Rpc

open List

structure RPCError where
  code : Int
  message : String
  deriving DecidableEq, Repr

inductive BatchResult (Raw : Type) where
  | absent
  | null
  | raw (value : Raw)
  deriving DecidableEq, Repr

/-- `jsonrpcResponse`; a reply without an id has id 0. -/
structure BatchReply (Raw : Type) where
  id : UInt64
  error : Option RPCError := none
  result : BatchResult Raw
  deriving DecidableEq, Repr

inductive BatchError where
  | sizes (calls results : Nat)
  | unmarshal
  | replies (calls replies : Nat)
  | unknownId (id : UInt64)
  | element (index : Nat) (error : RPCError)
  | undecoded (index : Nat)
  deriving DecidableEq, Repr

/-- One request and its HTTP 200 reply: the ids `nextID` gave the calls, and the body if it is a list of replies. -/
structure Exchange (Raw : Type) (size : Nat) where
  ids : List UInt64
  length : ids.length = size
  distinct : ids.Nodup
  body : Option (List (BatchReply Raw))

section

variable {Raw α : Type}

def callOf (ids : List UInt64) (id : UInt64) : Option Nat :=
  ids.findIdx? fun other => other == id

/-- The loop over the replies. `decode` is `json.Unmarshal` into what is there. -/
def takeReplies (decode : Raw → α → Option α) (ids : List UInt64) :
    List (BatchReply Raw) → List α → Except BatchError (List α)
  | [], results => .ok results
  | reply :: rest, results =>
    match callOf ids reply.id, reply.error with
    | none, _ => .error (.unknownId reply.id)
    | some i, some error => .error (.element i error)
    | some i, none =>
      match reply.result with
      | .absent => takeReplies decode ids rest results
      | .null => takeReplies decode ids rest results
      | .raw value =>
        match results[i]?.bind (decode value) with
        | none => .error (.undecoded i)
        | some decoded => takeReplies decode ids rest (results.set i decoded)

def batchCallContext (decode : Raw → α → Option α) {size : Nat} (exchange : Exchange Raw size) (results : List α) :
    Except BatchError (List α) :=
  if size ≠ results.length then .error (.sizes size results.length)
  else if size = 0 then .ok results
  else
    match exchange.body with
    | none => .error .unmarshal
    | some replies =>
      if replies.length ≠ size then .error (.replies size replies.length)
      else takeReplies decode exchange.ids replies results

/-! ## Answered calls -/

def BatchResult.Settles (decode : Raw → α → Option α) (result : BatchResult Raw) (before after : α) : Prop :=
  match result with
  | .absent => after = before
  | .null => after = before
  | .raw value => decode value before = some after

structure Answered (decode : Raw → α → Option α) (ids : List UInt64) (replies : List (BatchReply Raw))
    (before after : List α) : Prop where
  once : ∀ id ∈ ids, (replies.filter fun reply => reply.id == id).length = 1
  settled : ∀ (i : Nat) (id : UInt64), ids[i]? = some id → ∀ reply ∈ replies, reply.id = id →
    ∃ old new, before[i]? = some old ∧ after[i]? = some new ∧ reply.result.Settles decode old new

theorem callOf_eq_some {ids : List UInt64} (distinct : ids.Nodup) {id : UInt64} {i : Nat} :
    callOf ids id = some i ↔ ids[i]? = some id := by
  rw [callOf, List.findIdx?_eq_some_iff_getElem]
  apply Iff.intro
  · rintro ⟨inside, same, _⟩
    rw [List.getElem?_eq_getElem inside, beq_iff_eq.mp same]
  · intro found
    obtain ⟨inside, same⟩ := List.getElem?_eq_some_iff.mp found
    refine ⟨inside, beq_iff_eq.mpr same, ?_⟩
    intro j before also
    have repeated := (distinct.getElem_inj_iff).mp ((beq_iff_eq.mp also).trans same.symm)
    omega

variable {decode : Raw → α → Option α} {ids : List UInt64}

variable {before : List α}

theorem takeReplies_cons {reply : BatchReply Raw} {rest : List (BatchReply Raw)} {after : List α}
    (done : takeReplies decode ids (reply :: rest) before = .ok after) :
    ∃ i between, callOf ids reply.id = some i ∧ reply.error = none ∧ between.length = before.length ∧
      takeReplies decode ids rest between = .ok after ∧ (∀ j, j ≠ i → between[j]? = before[j]?) ∧
      ∀ old, before[i]? = some old → ∃ new, between[i]? = some new ∧ reply.result.Settles decode old new := by
  rw [takeReplies] at done
  cases call : callOf ids reply.id with
  | none => simp [call] at done
  | some i =>
    cases failed : reply.error with
    | some error => simp [call, failed] at done
    | none =>
      simp only [call, failed] at done
      cases kind : reply.result with
      | absent =>
        simp only [kind] at done
        exact ⟨i, before, rfl, rfl, rfl, done, fun _ _ => rfl, fun old found => ⟨old, found, rfl⟩⟩
      | null =>
        simp only [kind] at done
        exact ⟨i, before, rfl, rfl, rfl, done, fun _ _ => rfl, fun old found => ⟨old, found, rfl⟩⟩
      | raw value =>
        simp only [kind] at done
        cases decoded : before[i]?.bind (decode value) with
        | none => simp [decoded] at done
        | some new =>
          simp only [decoded] at done
          obtain ⟨old, found, settles⟩ := Option.bind_eq_some_iff.mp decoded
          obtain ⟨inside, _⟩ := List.getElem?_eq_some_iff.mp found
          refine ⟨i, before.set i new, rfl, rfl, length_set, done, ?_, ?_⟩
          · intro j other
            exact List.getElem?_set_ne other.symm
          · intro known same
            rw [found] at same
            cases same
            exact ⟨new, List.getElem?_set_self inside, settles⟩

variable {replies : List (BatchReply Raw)}

theorem takeReplies_known {after : List α}
    (done : takeReplies decode ids replies before = .ok after) :
    after.length = before.length ∧ ∀ reply ∈ replies, reply.id ∈ ids ∧ reply.error = none := by
  induction replies generalizing before with
  | nil =>
    rw [takeReplies, Except.ok.injEq] at done
    exact ⟨by rw [done], by simp⟩
  | cons reply rest ih =>
    obtain ⟨i, between, call, clean, length, later, _⟩ := takeReplies_cons done
    obtain ⟨same, known⟩ := ih later
    refine ⟨same.trans length, ?_⟩
    intro other member
    rcases mem_cons.mp member with rfl | member
    · rw [callOf, List.findIdx?_eq_some_iff_getElem] at call
      obtain ⟨inside, found, _⟩ := call
      exact ⟨beq_iff_eq.mp found ▸ getElem_mem inside, clean⟩
    · exact known other member

theorem takeReplies_succeeds (good : α → Prop)
    (calls : ids.Nodup) (fits : ids.length ≤ before.length) (all : ∀ old ∈ before, good old)
    (named : ∀ reply ∈ replies, reply.id ∈ ids ∧ reply.error = none)
    (decodes : ∀ reply ∈ replies, ∀ value, reply.result = .raw value → ∀ old, good old →
      ∃ new, decode value old = some new ∧ good new) :
    ∃ after, takeReplies decode ids replies before = .ok after := by
  induction replies generalizing before with
  | nil => exact ⟨before, rfl⟩
  | cons reply rest ih =>
    obtain ⟨member, clean⟩ := named reply mem_cons_self
    obtain ⟨i, below, same⟩ := mem_iff_getElem.mp member
    have call := (callOf_eq_some calls).mpr (List.getElem?_eq_some_iff.mpr ⟨below, same⟩)
    have next : ∀ {between : List α}, ids.length ≤ between.length → (∀ old ∈ between, good old) →
        ∃ after, takeReplies decode ids rest between = .ok after := fun fits all =>
      ih fits all (fun other there => named other (mem_cons_of_mem _ there))
        fun other there => decodes other (mem_cons_of_mem _ there)
    rw [takeReplies, call, clean]
    cases kind : reply.result with
    | absent => exact next fits all
    | null => exact next fits all
    | raw value =>
      have inside : i < before.length := below.trans_le fits
      obtain ⟨new, decoded, kept⟩ := decodes reply mem_cons_self value kind _ (all _ (getElem_mem inside))
      simp only [List.getElem?_eq_getElem inside, Option.bind_some, decoded]
      apply next (by rwa [length_set])
      intro old there
      rcases mem_or_eq_of_mem_set there with there | rfl
      · exact all old there
      · exact kept

theorem takeReplies_untouched {after : List α} {j : Nat}
    (done : takeReplies decode ids replies before = .ok after)
    (unnamed : ∀ reply ∈ replies, callOf ids reply.id ≠ some j) : after[j]? = before[j]? := by
  induction replies generalizing before with
  | nil =>
    rw [takeReplies, Except.ok.injEq] at done
    rw [done]
  | cons reply rest ih =>
    obtain ⟨i, between, call, _, _, later, others, _⟩ := takeReplies_cons done
    have different : j ≠ i := by
      rintro rfl
      exact unnamed reply mem_cons_self call
    rw [ih later fun other member => unnamed other (mem_cons_of_mem _ member), others j different]

theorem takeReplies_settles {after : List α} (calls : ids.Nodup)
    (done : takeReplies decode ids replies before = .ok after) (distinct : (replies.map BatchReply.id).Nodup)
    {reply : BatchReply Raw} (member : reply ∈ replies) {i : Nat} (call : ids[i]? = some reply.id) {old : α}
    (found : before[i]? = some old) : ∃ new, after[i]? = some new ∧ reply.result.Settles decode old new := by
  induction replies generalizing before with
  | nil => exact absurd member not_mem_nil
  | cons first rest ih =>
    obtain ⟨j, between, named, _, _, later, others, settles⟩ := takeReplies_cons done
    rw [map_cons, nodup_cons] at distinct
    rcases mem_cons.mp member with rfl | member
    · have same : j = i := Option.some.inj (named.symm.trans ((callOf_eq_some calls).mpr call))
      subst same
      obtain ⟨new, changed, settled⟩ := settles old found
      refine ⟨new, ?_, settled⟩
      rw [takeReplies_untouched later, changed]
      intro other there again
      have repeated : other.id = reply.id := by
        have known := (callOf_eq_some calls).mp again
        rw [call, Option.some.injEq] at known
        exact known.symm
      exact distinct.1 (repeated ▸ mem_map_of_mem there)
    · apply ih later distinct.2 member
      rw [others i, found]
      rintro rfl
      have known := (callOf_eq_some calls).mp named
      rw [call, Option.some.injEq] at known
      exact distinct.1 (known ▸ mem_map_of_mem member)

/-! ## Completeness -/

/-- As many replies as calls, each for a call and no two for one: every call has its reply. -/
theorem replied_once (distinct : (replies.map BatchReply.id).Nodup)
    (known : ∀ reply ∈ replies, reply.id ∈ ids ∧ reply.error = none) (calls : ids.Nodup) (length : replies.length = ids.length) {id : UInt64}
    (member : id ∈ ids) : (replies.filter fun reply => reply.id == id).length = 1 := by
  have subset : replies.map BatchReply.id ⊆ ids := by
    intro other named
    obtain ⟨reply, there, rfl⟩ := mem_map.mp named
    exact (known reply there).1
  have perm : (replies.map BatchReply.id).Perm ids :=
    (distinct.subperm subset).perm_of_length_le (by rw [length_map, length])
  have counted : (replies.map BatchReply.id).count id = 1 := by
    rw [perm.count_eq, count_eq_one_of_mem calls member]
  rw [← counted, List.count, countP_map, countP_eq_length_filter]
  rfl

theorem Answered.distinct {after : List α}
    (answered : Answered decode ids replies before after) (known : ∀ reply ∈ replies, reply.id ∈ ids ∧ reply.error = none) :
    (replies.map BatchReply.id).Nodup := by
  rw [nodup_iff_count_le_one]
  intro id
  by_cases member : id ∈ ids
  · have once := answered.once id member
    rw [List.count, countP_map, countP_eq_length_filter]
    exact once.le
  · have absent : id ∉ replies.map BatchReply.id := by
      intro named
      obtain ⟨reply, there, rfl⟩ := mem_map.mp named
      exact member (known reply there).1
    rw [count_eq_zero_of_not_mem absent]
    exact Nat.zero_le 1

theorem batchCallContext_ok {size : Nat} {exchange : Exchange Raw size} {after : List α}
    (done : batchCallContext decode exchange before = .ok after) (calls : 0 < size) :
    before.length = size ∧ ∃ replies, exchange.body = some replies ∧ replies.length = size ∧
      takeReplies decode exchange.ids replies before = .ok after := by
  rw [batchCallContext] at done
  split at done
  · cases done
  · next sizes =>
    rw [if_neg calls.ne'] at done
    refine ⟨(not_not.mp sizes).symm, ?_⟩
    cases sent : exchange.body with
    | none => simp [sent] at done
    | some replies =>
      simp only [sent] at done
      split at done
      · cases done
      · next length => exact ⟨replies, rfl, not_not.mp length, done⟩

theorem batchCallContext_answered {size : Nat} {exchange : Exchange Raw size} {after : List α}
    (done : batchCallContext decode exchange before = .ok after) (calls : 0 < size) (sent : exchange.body = some replies)
    (distinct : (replies.map BatchReply.id).Nodup) : Answered decode exchange.ids replies before after := by
  obtain ⟨fits, others, body, length, taken⟩ := batchCallContext_ok done calls
  rw [sent, Option.some.injEq] at body
  subst body
  obtain ⟨_, known⟩ := takeReplies_known taken
  apply Answered.mk
  · intro id member
    exact replied_once distinct known exchange.distinct (length.trans exchange.length.symm) member
  · intro i id call reply member same
    have inside : i < before.length := by
      obtain ⟨below, _⟩ := List.getElem?_eq_some_iff.mp call
      rw [fits, ← exchange.length]
      exact below
    obtain ⟨new, changed, settles⟩ := takeReplies_settles exchange.distinct taken distinct member (same ▸ call)
      (List.getElem?_eq_getElem inside)
    exact ⟨_, new, List.getElem?_eq_getElem inside, changed, settles⟩

end

/-! ## Transaction counts -/

structure CountsError where
  lo : Nat
  hi : Nat
  cause : BatchError
  deriving DecidableEq, Repr

section

variable {Raw : Type}

def decodeCountAt (decodeCount : Raw → Option UInt64) (value : Raw) : Option UInt64 → Option (Option UInt64)
  | none => none
  | some _ => (decodeCount value).map some

def countResults (lo hi size : Nat) : List (Option UInt64) :=
  (List.range size).map fun i => if lo + i < hi then some 0 else none

def countBatch (decodeCount : Raw → Option UInt64) (exchange : Nat → (size : UInt64) → Exchange Raw size.toNat)
    (lo hi : Nat) (size : UInt64) : Except BatchError (List (Option UInt64)) :=
  batchCallContext (decodeCountAt decodeCount) (exchange lo size) (countResults lo hi size.toNat)

/-- The loop over the batches. Block numbers are `uint64`; `exchange` is the node's side of the batch from a block. -/
def countFrom (decodeCount : Raw → Option UInt64) (exchange : Nat → (size : UInt64) → Exchange Raw size.toNat)
    (to_ batchSize : Nat) : Nat → Nat → UInt64 → Option (Except CountsError UInt64)
  | 0, _, _ => none
  | fuel + 1, lo, total =>
    if lo < to_ then
      let hi := min ((lo + batchSize) % 2 ^ 64) to_
      let size := UInt64.ofNat (2 ^ 64 + hi - lo)
      match countBatch decodeCount exchange lo hi size with
      | .error cause => some (.error ⟨lo, hi, cause⟩)
      | .ok counts =>
        countFrom decodeCount exchange to_ batchSize fuel ((lo + batchSize) % 2 ^ 64)
          (counts.foldl (fun total count => total + count.getD 0) total)
    else some (.ok total)

def blockTransactionCounts (decodeCount : Raw → Option UInt64) (exchange : Nat → (size : UInt64) → Exchange Raw size.toNat)
    (from_ to_ batchSize fuel : Nat) : Option (Except CountsError UInt64) :=
  countFrom decodeCount exchange to_ batchSize fuel from_ 0

/-- What the node's replies have when they are no errors: no id is repeated, no result is null, and the result of a call
for a block is the block's count. -/
structure Counted (decodeCount : Raw → Option UInt64) (exchange : Nat → (size : UInt64) → Exchange Raw size.toNat)
    (counts : Nat → UInt64) : Prop where
  distinct : ∀ lo size replies, (exchange lo size).body = some replies → (replies.map BatchReply.id).Nodup
  counted : ∀ lo size replies, (exchange lo size).body = some replies → ∀ (i : Nat) (id : UInt64),
    (exchange lo size).ids[i]? = some id → ∀ reply ∈ replies, reply.id = id → reply.error = none →
      ∃ value, reply.result = .raw value ∧
        (lo + size.toNat < 2 ^ 64 → decodeCount value = some (counts (lo + i)))

/-- Every call for a block has its reply, and no reply is an error. -/
def Replied (exchange : Nat → (size : UInt64) → Exchange Raw size.toNat) : Prop :=
  ∀ lo size, lo + size.toNat < 2 ^ 64 → ∃ replies, (exchange lo size).body = some replies ∧
    replies.length = size.toNat ∧ ∀ reply ∈ replies, reply.id ∈ (exchange lo size).ids ∧ reply.error = none

/-- Where `lo` is after the last batch, if it does not wrap. -/
def lastLo (from_ to_ batchSize : Nat) : Nat :=
  from_ + (to_ - from_ + batchSize - 1) / batchSize * batchSize

variable {decodeCount : Raw → Option UInt64} {exchange : Nat → (size : UInt64) → Exchange Raw size.toNat} {counts : Nat → UInt64}

variable {lo : Nat}

theorem getElem?_countResults {hi size i : Nat} (inside : i < size) :
    (countResults lo hi size)[i]? = some (if lo + i < hi then some 0 else none) := by
  rw [countResults, List.getElem?_map, List.getElem?_range inside, Option.map_some]

variable {size : UInt64}

theorem Counted.reply (counted : Counted decodeCount exchange counts) {hi i : Nat}
    (inside : i < size.toNat) {after : List (Option UInt64)}
    (done : countBatch decodeCount exchange lo hi size = .ok after) :
    after.length = size.toNat ∧ lo + i < hi ∧
      (lo + size.toNat < 2 ^ 64 → after[i]? = some (some (counts (lo + i)))) := by
  have calls : 0 < size.toNat := Nat.zero_lt_of_lt inside
  obtain ⟨_, replies, sent, _, taken⟩ := batchCallContext_ok done calls
  have answered := batchCallContext_answered done calls sent (counted.distinct lo size replies sent)
  obtain ⟨length, known⟩ := takeReplies_known taken
  have call : (exchange lo size).ids[i]? = some _ :=
    List.getElem?_eq_getElem ((exchange lo size).length.symm ▸ inside)
  obtain ⟨reply, found⟩ := length_eq_one_iff.mp (answered.once _ (mem_of_getElem? call))
  have there : reply ∈ replies ∧ (reply.id == _) = true :=
    mem_filter.mp (found ▸ mem_singleton_self reply)
  have same := beq_iff_eq.mp there.2
  obtain ⟨old, new, before, changed, settles⟩ := answered.settled i _ call reply there.1 same
  obtain ⟨value, raw, decoded⟩ :=
    counted.counted lo size replies sent i _ call reply there.1 same (known reply there.1).2
  rw [getElem?_countResults inside, Option.some.injEq] at before
  rw [raw, BatchResult.Settles, ← before] at settles
  refine ⟨by rw [length, countResults, length_map, length_range], ?_⟩
  by_cases asked : lo + i < hi
  · rw [if_pos asked] at settles
    refine ⟨asked, ?_⟩
    intro small
    rw [decodeCountAt, decoded small, Option.map_some, Option.some.injEq] at settles
    rw [changed, ← settles]
  · rw [if_neg asked] at settles
    cases settles

theorem Counted.batch (counted : Counted decodeCount exchange counts)
    (calls : 0 < size.toNat) (small : lo + size.toNat < 2 ^ 64) {after : List (Option UInt64)}
    (done : countBatch decodeCount exchange lo (lo + size.toNat) size = .ok after) :
    after = ((List.range size.toNat).map fun i => counts (lo + i)).map some := by
  have length : after.length = size.toNat := (counted.reply calls done).1
  apply ext_getElem?
  intro i
  by_cases inside : i < size.toNat
  · rw [(counted.reply inside done).2.2 small, map_map, List.getElem?_map, List.getElem?_range inside]
    rfl
  · rw [List.getElem?_eq_none (by omega), List.getElem?_eq_none]
    rw [length_map, length_map, length_range]
    omega

theorem Counted.replied (counted : Counted decodeCount exchange counts) (replied : Replied exchange) (small : lo + size.toNat < 2 ^ 64) :
    ∃ after, countBatch decodeCount exchange lo (lo + size.toNat) size = .ok after := by
  obtain ⟨replies, sent, length, named⟩ := replied lo size small
  have results : (countResults lo (lo + size.toNat) size.toNat).length = size.toNat := by
    rw [countResults, length_map, length_range]
  rw [countBatch, batchCallContext, if_neg (not_not.mpr results.symm)]
  by_cases none : size.toNat = 0
  · exact ⟨_, if_pos none⟩
  · simp only [if_neg none, sent, if_neg (not_not.mpr length)]
    apply takeReplies_succeeds (fun count => count.isSome = true) (exchange lo size).distinct
    · rw [results, (exchange lo size).length]
    · intro old there
      obtain ⟨i, inside, rfl⟩ := mem_map.mp there
      rw [if_pos (Nat.add_lt_add_left (mem_range.mp inside) lo), Option.isSome_some]
    · exact named
    · intro reply member value raw old present
      obtain ⟨known, clean⟩ := named reply member
      obtain ⟨i, below, same⟩ := mem_iff_getElem.mp known
      obtain ⟨other, equal, decoded⟩ := counted.counted lo size replies sent i reply.id
        (List.getElem?_eq_some_iff.mpr ⟨below, same⟩) reply member rfl clean
      rw [raw, BatchResult.raw.injEq] at equal
      obtain ⟨count, rfl⟩ := Option.isSome_iff_exists.mp present
      refine ⟨_, by rw [decodeCountAt, equal, decoded small, Option.map_some], rfl⟩

/-- Where `hi` is below `lo` the batch has `batchSize` calls without a block, whose results have nowhere to go. -/
theorem Counted.wrapped (counted : Counted decodeCount exchange counts) {batchSize : Nat} (positive : 0 < batchSize)
    (word : batchSize < 2 ^ 64) (small : lo < 2 ^ 64) (wraps : 2 ^ 64 ≤ lo + batchSize) :
    ∃ cause, countBatch decodeCount exchange lo (lo + batchSize - 2 ^ 64)
      (UInt64.ofNat (2 ^ 64 + (lo + batchSize - 2 ^ 64) - lo)) = .error cause := by
  rw [show 2 ^ 64 + (lo + batchSize - 2 ^ 64) - lo = batchSize by omega]
  cases done : countBatch decodeCount exchange lo (lo + batchSize - 2 ^ 64) (UInt64.ofNat batchSize) with
  | error cause => exact ⟨cause, rfl⟩
  | ok after =>
    have width : (UInt64.ofNat batchSize).toNat = batchSize := UInt64.toNat_ofNat_of_lt' word
    have asked := (counted.reply (width.symm ▸ positive) done).2.1
    omega

theorem lastLo_step {to_ batchSize : Nat} (more : lo < to_) (positive : 0 < batchSize) :
    lastLo lo to_ batchSize = lastLo (lo + batchSize) to_ batchSize := by
  have shorter : (to_ - lo + batchSize - 1) / batchSize = (to_ - (lo + batchSize) + batchSize - 1) / batchSize + 1 := by
    by_cases last : to_ ≤ lo + batchSize
    · rw [Nat.sub_eq_zero_of_le last, Nat.zero_add, Nat.div_eq_of_lt (Nat.sub_lt positive Nat.one_pos),
        show to_ - lo + batchSize - 1 = (to_ - lo - 1) + batchSize by omega, Nat.add_div_right _ positive,
        Nat.div_eq_of_lt (by omega)]
    · rw [show to_ - lo + batchSize - 1 = (to_ - (lo + batchSize) + batchSize - 1) + batchSize by omega,
        Nat.add_div_right _ positive]
  rw [lastLo, lastLo, shorter, Nat.add_mul, Nat.one_mul]
  omega

theorem toNat_foldl_counts (counts : List UInt64) (total : UInt64) :
    ((counts.map some).foldl (fun total count => total + count.getD 0) total).toNat =
      (total.toNat + (counts.map UInt64.toNat).sum) % 2 ^ 64 := by
  induction counts generalizing total with
  | nil => exact (Nat.mod_eq_of_lt total.toNat_lt).symm
  | cons count rest ih =>
    rw [map_cons, foldl_cons, ih, map_cons, sum_cons, Option.getD_some, UInt64.toNat_add,
      Nat.mod_add_mod, Nat.add_assoc]

theorem sum_Ico_eq (counts : Nat → UInt64) (lo size : Nat) :
    (((List.range size).map fun i => counts (lo + i)).map UInt64.toNat).sum =
      ∑ n ∈ Finset.Ico lo (lo + size), (counts n).toNat := by
  rw [Finset.sum_Ico_eq_sum_range, Nat.add_sub_cancel_left, map_map]
  rfl

theorem Counted.countFrom (counted : Counted decodeCount exchange counts) {from_ to_ batchSize : Nat}
    (positive : 0 < batchSize) (word : batchSize < 2 ^ 64) (bound : to_ < 2 ^ 64) (fuel : Nat)
    {total : UInt64} (start : from_ ≤ lo) (small : lo < 2 ^ 64) (enough : to_ - lo < fuel)
    (below : total.toNat = (∑ n ∈ Finset.Ico from_ (min lo to_), (counts n).toNat) % 2 ^ 64) :
    ∃ result, Rpc.countFrom decodeCount exchange to_ batchSize fuel lo total = some result ∧
      (∀ sum, result = .ok sum → lastLo lo to_ batchSize < 2 ^ 64 ∧
        sum.toNat = (∑ n ∈ Finset.Ico from_ to_, (counts n).toNat) % 2 ^ 64) ∧
      (Replied exchange → lastLo lo to_ batchSize < 2 ^ 64 → ∃ sum, result = .ok sum) := by
  induction fuel generalizing lo total with
  | zero => exact absurd enough (Nat.not_lt_zero _)
  | succ fuel ih =>
    rw [Rpc.countFrom]
    by_cases more : lo < to_
    · rw [if_pos more, lastLo_step more positive]
      by_cases wraps : 2 ^ 64 ≤ lo + batchSize
      · have past : (lo + batchSize) % 2 ^ 64 = lo + batchSize - 2 ^ 64 := by
          rw [Nat.mod_eq_sub_mod wraps, Nat.mod_eq_of_lt (by omega)]
        have next : min ((lo + batchSize) % 2 ^ 64) to_ = lo + batchSize - 2 ^ 64 := by omega
        have outside : ¬ lastLo (lo + batchSize) to_ batchSize < 2 ^ 64 := by
          rw [lastLo]
          omega
        obtain ⟨cause, fails⟩ := counted.wrapped positive word small wraps
        simp only [next, fails]
        exact ⟨_, rfl, by simp, fun _ within => absurd within outside⟩
      · obtain ⟨size, width⟩ : ∃ size : UInt64, size.toNat = min batchSize (to_ - lo) :=
          ⟨UInt64.ofNat (min batchSize (to_ - lo)), UInt64.toNat_ofNat_of_lt' (by simp only [UInt64.size]; omega)⟩
        have unwrapped : (lo + batchSize) % 2 ^ 64 = lo + batchSize := Nat.mod_eq_of_lt (by omega)
        have next : min (lo + batchSize) to_ = lo + size.toNat := by omega
        have fits : lo + size.toNat < 2 ^ 64 := by omega
        have same : UInt64.ofNat (2 ^ 64 + (lo + size.toNat) - lo) = size := by
          apply UInt64.toNat_inj.mp
          rw [UInt64.toNat_ofNat', show 2 ^ 64 + (lo + size.toNat) - lo = size.toNat + 2 ^ 64 by omega,
            Nat.add_mod_right]
          exact Nat.mod_eq_of_lt size.toNat_lt
        simp only [unwrapped, next, same]
        cases done : countBatch decodeCount exchange lo (lo + size.toNat) size with
        | error cause =>
          refine ⟨_, rfl, by simp, ?_⟩
          intro replied within
          obtain ⟨after, batch⟩ := counted.replied replied fits
          rw [batch] at done
          cases done
        | ok after =>
          apply ih (by omega) (by omega) (by omega)
          rw [min_eq_left more.le] at below
          rw [counted.batch (by omega) fits done, toNat_foldl_counts, sum_Ico_eq, below, Nat.mod_add_mod, next,
            Finset.sum_Ico_consecutive _ start (Nat.le_add_right _ _)]
    · rw [if_neg more]
      rw [min_eq_right (not_lt.mp more)] at below
      have last : lastLo lo to_ batchSize = lo := by
        rw [lastLo, Nat.sub_eq_zero_of_le (not_lt.mp more), Nat.zero_add,
          Nat.div_eq_of_lt (Nat.sub_lt positive Nat.one_pos), Nat.zero_mul, Nat.add_zero]
      refine ⟨_, rfl, ?_, fun _ _ => ⟨total, rfl⟩⟩
      intro sum equal
      cases equal
      exact ⟨last.trans_lt small, below⟩

/-- A batch of calls that succeeds has one reply for each call, and its result, exactly when no id is repeated. Then the
counts of the blocks add up, each counted once: where every call is answered the sum is returned exactly when the last
batch ends below `2 ^ 64`, and it is the sum of the counts exactly when that is. -/
theorem batch_answers_every_call (Raw : Type) :
    (∀ (α : Type) (decode : Raw → α → Option α) (size : Nat) (exchange : Exchange Raw size) (before after : List α)
        (replies : List (BatchReply Raw)), 0 < size → exchange.body = some replies →
        batchCallContext decode exchange before = .ok after →
        (Answered decode exchange.ids replies before after ↔ (replies.map BatchReply.id).Nodup)) ∧
      ∀ (decodeCount : Raw → Option UInt64) (exchange : Nat → (size : UInt64) → Exchange Raw size.toNat)
        (counts : Nat → UInt64) (from_ to_ batchSize : Nat), Counted decodeCount exchange counts → 0 < batchSize →
        batchSize < 2 ^ 64 → from_ < 2 ^ 64 → to_ < 2 ^ 64 → ∀ fuel > to_,
        ∃ result, blockTransactionCounts decodeCount exchange from_ to_ batchSize fuel = some result ∧
          (∀ sum, result = .ok sum → lastLo from_ to_ batchSize < 2 ^ 64 ∧
            (sum.toNat = ∑ n ∈ Finset.Ico from_ to_, (counts n).toNat ↔
              ∑ n ∈ Finset.Ico from_ to_, (counts n).toNat < 2 ^ 64)) ∧
          (Replied exchange → lastLo from_ to_ batchSize < 2 ^ 64 → ∃ sum, result = .ok sum) := by
  apply And.intro
  · intro α decode size exchange before after replies calls sent done
    apply Iff.intro
    · intro answered
      obtain ⟨_, others, body, _, taken⟩ := batchCallContext_ok done calls
      rw [sent, Option.some.injEq] at body
      subst body
      exact answered.distinct (takeReplies_known taken).2
    · exact batchCallContext_answered done calls sent
  · intro decodeCount exchange counts from_ to_ batchSize counted positive word first bound fuel enough
    have below : (0 : UInt64).toNat = (∑ n ∈ Finset.Ico from_ (min from_ to_), (counts n).toNat) % 2 ^ 64 := by
      rw [Finset.Ico_eq_empty (by omega), Finset.sum_empty]
      rfl
    obtain ⟨result, ran, sums, returned⟩ := counted.countFrom positive word bound fuel le_rfl first (by omega) below
    refine ⟨result, ran, ?_, returned⟩
    intro sum same
    obtain ⟨within, sum_eq⟩ := sums sum same
    refine ⟨within, ?_⟩
    rw [sum_eq]
    exact ⟨fun equal => equal ▸ Nat.mod_lt _ (by decide), Nat.mod_eq_of_lt⟩

def numberedExchange (size : UInt64) (body : Option (List (BatchReply UInt64))) : Exchange UInt64 size.toNat where
  ids := (List.range size.toNat).map UInt64.ofNat
  length := by rw [length_map, length_range]
  distinct := by
    apply List.Nodup.map_on _ nodup_range
    intro i inside j also same
    have equal := congrArg UInt64.toNat same
    rwa [UInt64.toNat_ofNat_of_lt' ((mem_range.mp inside).trans size.toNat_lt),
      UInt64.toNat_ofNat_of_lt' ((mem_range.mp also).trans size.toNat_lt)] at equal
  body := body

def reversedExchange (counts : Nat → UInt64) (lo : Nat) (size : UInt64) : Exchange UInt64 size.toNat :=
  numberedExchange size
    (some ((List.range size.toNat).map fun i => ⟨UInt64.ofNat i, none, .raw (counts (lo + i))⟩).reverse)

theorem reversedExchange_ids {counts : Nat → UInt64} {j : Nat} (inside : j ∈ List.range size.toNat) :
    (reversedExchange counts lo size).ids[j]? = some (UInt64.ofNat j) := by
  simp only [reversedExchange, numberedExchange, List.getElem?_map, List.getElem?_range (mem_range.mp inside),
    Option.map_some]

theorem reversedExchange_counted (counts : Nat → UInt64) : Counted some (reversedExchange counts) counts := by
  apply Counted.mk
  · intro lo size replies sent
    cases sent
    rw [map_reverse, nodup_reverse, map_map]
    exact (reversedExchange counts lo size).distinct
  · intro lo size replies sent i id call reply member same _
    cases sent
    obtain ⟨j, inside, rfl⟩ := mem_map.mp (mem_reverse.mp member)
    have distinct := (reversedExchange counts lo size).distinct
    have equal : i = j :=
      Option.some.inj (((callOf_eq_some distinct).mpr call).symm.trans
        ((callOf_eq_some distinct).mpr (same ▸ reversedExchange_ids inside)))
    exact ⟨_, rfl, fun _ => by rw [equal]⟩

theorem reversedExchange_replied (counts : Nat → UInt64) : Replied (reversedExchange counts) := by
  intro lo size _
  refine ⟨_, rfl, by rw [length_reverse, length_map, length_range], ?_⟩
  intro reply member
  obtain ⟨j, inside, rfl⟩ := mem_map.mp (mem_reverse.mp member)
  exact ⟨mem_of_getElem? (reversedExchange_ids inside), rfl⟩

/-- The counts of the last five blocks below `2 ^ 64 - 1`, in one batch that ends there. -/
theorem batch_answers_every_call_reversed :
    Answered (decodeCountAt some) (reversedExchange UInt64.ofNat 0 3).ids
        ((reversedExchange UInt64.ofNat 0 3).body.getD []) [some 0, some 0, some 0] [some 0, some 1, some 2] ∧
      ∃ sum, blockTransactionCounts some (reversedExchange fun _ => 2) (2 ^ 64 - 6) (2 ^ 64 - 1) 5 (2 ^ 64) =
        some (.ok sum) ∧ sum.toNat = 10 := by
  apply And.intro
  · exact ((batch_answers_every_call UInt64).1 _ (decodeCountAt some) _ (reversedExchange UInt64.ofNat 0 3) _ _ _
      (by decide) rfl (by decide +kernel)).mpr (by decide +kernel)
  · obtain ⟨result, ran, sums, returned⟩ := (batch_answers_every_call UInt64).2 some (reversedExchange fun _ => 2)
      (fun _ => 2) (2 ^ 64 - 6) (2 ^ 64 - 1) 5 (reversedExchange_counted _) (by decide) (by decide) (by decide)
      (by decide) (2 ^ 64) (by decide)
    obtain ⟨sum, rfl⟩ := returned (reversedExchange_replied _) (by decide)
    have counted : ∑ n ∈ Finset.Ico (2 ^ 64 - 6) (2 ^ 64 - 1), (2 : UInt64).toNat = 10 := by
      rw [Finset.sum_const, Nat.card_Ico]
      rfl
    have small := (sums sum rfl).2
    rw [counted] at small
    exact ⟨sum, ran, small.mpr (by decide)⟩

def repeatedExchange (_ : Nat) (size : UInt64) : Exchange UInt64 size.toNat :=
  numberedExchange size (some (List.replicate size.toNat ⟨0, none, .raw 5⟩))

/-- The batch succeeds although the second call has no reply, and the second block is counted as 0. -/
theorem repeated_id_unanswered :
    batchCallContext (decodeCountAt some) (repeatedExchange 0 2) [some 0, some 0] = .ok [some 5, some 0] ∧
      1 ∈ (repeatedExchange 0 2).ids ∧ (∀ reply ∈ (repeatedExchange 0 2).body.getD [], reply.id ≠ 1) ∧
      blockTransactionCounts some repeatedExchange 0 2 2 3 = some (.ok 5) := by
  decide +kernel

end

end OpsIndexer.Rpc
