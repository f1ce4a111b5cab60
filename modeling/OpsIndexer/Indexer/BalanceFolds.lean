import OpsIndexer.Indexer.BalanceQueue
import OpsIndexer.Lib.Runs

/-!
# Balance work is folded without loss

Every queued item is in one place: waiting in a channel, held, in a hand, in a worker's round, or part of one read.
A step moves work between places or folds two items of one key into one, so the items of the places and of the reads
together stay the items queued, and what a place holds stays the latest of the items it stands for.
-/

namespace OpsIndexer.Indexing

open Eth Lib.Runs Lib.Keyed List

/-! ## Folding -/

def BalanceWork.rank (work : BalanceWork) : ℕ ×ₗ ℕ :=
  toLex (work.epoch, work.blockNumber)

theorem BalanceWork.rank_le_iff (a b : BalanceWork) :
    a.rank ≤ b.rank ↔ a.epoch < b.epoch ∨ (a.epoch = b.epoch ∧ a.blockNumber ≤ b.blockNumber) :=
  Prod.Lex.toLex_le_toLex

theorem folded_key (a b : BalanceWork) (same : b.key = a.key) : (folded a b).key = a.key := by
  unfold folded
  split
  · exact same
  · split <;> rfl

theorem folded_rank (a b : BalanceWork) : (folded a b).rank = max a.rank b.rank := by
  unfold folded
  split
  · next later =>
    rw [max_eq_right ((BalanceWork.rank_le_iff a b).mpr (.inl later))]
  · next early =>
    split
    · next earlier =>
      rw [max_eq_left ((BalanceWork.rank_le_iff b a).mpr (.inl earlier))]
    · next late =>
      have tied : a.epoch = b.epoch := by omega
      rcases Nat.le_total a.blockNumber b.blockNumber with below | above
      · rw [max_eq_right ((BalanceWork.rank_le_iff a b).mpr (.inr ⟨tied, below⟩))]
        simp only [BalanceWork.rank, max_eq_right below, tied]
      · rw [max_eq_left ((BalanceWork.rank_le_iff b a).mpr (.inr ⟨tied.symm, above⟩))]
        simp only [BalanceWork.rank, max_eq_left above]

structure Sound (queued : List BalanceWork) (work : QueuedWork) : Prop where
  attained : ∃ id ∈ work.items, ∃ item, queued[id]? = some item ∧ item.rank = work.work.rank
  bounded : ∀ id ∈ work.items, ∃ item, queued[id]? = some item ∧ item.key = work.key ∧ item.rank ≤ work.work.rank

variable {work a b : QueuedWork} {taken : List BalanceWork} {round : ReaderWorks}

theorem Sound.grow {queued : List BalanceWork} (sound : Sound queued work) (new : BalanceWork) :
    Sound (queued ++ [new]) work := by
  have still {id : Nat} {item : BalanceWork} (found : queued[id]? = some item) :
      (queued ++ [new])[id]? = some item := by
    obtain ⟨bound, _⟩ := List.getElem?_eq_some_iff.mp found
    rw [List.getElem?_append_left bound, found]
  obtain ⟨id, member, item, found, rank⟩ := sound.attained
  refine ⟨⟨id, member, item, still found, rank⟩, ?_⟩
  intro id member
  obtain ⟨item, found, known⟩ := sound.bounded id member
  exact ⟨item, still found, known⟩

theorem Sound.new (queued : List BalanceWork) (work : BalanceWork) :
    Sound (queued ++ [work]) ⟨work, [queued.length]⟩ := by
  have found : (queued ++ [work])[queued.length]? = some work := by simp
  refine ⟨⟨_, mem_singleton_self _, work, found, rfl⟩, ?_⟩
  intro id member
  rw [mem_singleton.mp member]
  exact ⟨work, found, rfl, le_rfl⟩

theorem Sound.fold {queued : List BalanceWork} (first : Sound queued a) (second : Sound queued b)
    (same : b.key = a.key) : Sound queued (a.fold b) := by
  have key : (a.fold b).key = a.key := folded_key a.work b.work same
  have rank : (a.fold b).work.rank = max a.work.rank b.work.rank := folded_rank a.work b.work
  constructor
  · rcases le_total a.work.rank b.work.rank with below | above
    · obtain ⟨id, member, item, found, top⟩ := second.attained
      exact ⟨id, mem_append_right _ member, item, found, by rw [rank, max_eq_right below, top]⟩
    · obtain ⟨id, member, item, found, top⟩ := first.attained
      exact ⟨id, mem_append_left _ member, item, found, by rw [rank, max_eq_left above, top]⟩
  · intro id member
    rcases mem_append.mp member with inFirst | inSecond
    · obtain ⟨item, found, itemKey, bound⟩ := first.bounded id inFirst
      exact ⟨item, found, by rw [itemKey, key], by rw [rank]; exact bound.trans (le_max_left _ _)⟩
    · obtain ⟨item, found, itemKey, bound⟩ := second.bounded id inSecond
      exact ⟨item, found, by rw [itemKey, key, same], by rw [rank]; exact bound.trans (le_max_right _ _)⟩

/-! ## The account -/

def standing (works : List QueuedWork) : Multiset Nat :=
  ((works.filter fun queued => queued.work.address ≠ 0).flatMap (·.items) : List Nat)

theorem standing_append (first second : List QueuedWork) : standing (first ++ second) = standing first + standing second := by
  simp [standing]

theorem standing_cons_of_ne (address : work.work.address ≠ 0) (rest : List QueuedWork) :
    standing (work :: rest) = (work.items : Multiset Nat) + standing rest := by
  rw [standing, filter_cons_of_pos (by simpa using address), flatMap_cons, ← Multiset.coe_add, standing]

theorem standing_cons_of_zero (zero : work.work.address = 0) (rest : List QueuedWork) :
    standing (work :: rest) = standing rest := by
  rw [standing, filter_cons_of_neg (by simpa using zero), standing]

theorem standing_perm {first second : List QueuedWork} (same : first.Perm second) : standing first = standing second :=
  Multiset.coe_eq_coe.mpr ((same.filter _).flatMap_right _)

def addressedItems (queued : List BalanceWork) : List Nat :=
  (List.range queued.length).filter fun id => (queued[id]?).any fun item => item.address ≠ 0

theorem addressedItems_concat (queued : List BalanceWork) (work : BalanceWork) :
    addressedItems (queued ++ [work]) = addressedItems queued ++ if work.address ≠ 0 then [queued.length] else [] := by
  have earlier : (List.range queued.length).filter (fun id => ((queued ++ [work])[id]?).any fun item =>
      item.address ≠ 0) = addressedItems queued := by
    apply filter_congr
    intro id member
    rw [List.getElem?_append_left (mem_range.mp member)]
  rw [addressedItems, length_append, length_singleton, range_succ, filter_append, earlier]
  have last : (queued ++ [work])[queued.length]? = some work := by simp
  simp only [filter_cons, last, Option.any_some, filter_nil, decide_eq_true_eq]

structure Carries (queued : List BalanceWork) (waiting reads : List QueuedWork) : Prop where
  sound : ∀ work ∈ waiting, Sound queued work
  soundReads : ∀ read ∈ reads, Sound queued read ∧ read.work.address ≠ 0
  account : standing waiting + standing reads = addressedItems queued

variable {queued : List BalanceWork} {waiting reads : List QueuedWork}

theorem Carries.perm (carries : Carries queued waiting reads) {other : List QueuedWork} (same : other.Perm waiting) :
    Carries queued other reads where
  sound := fun work member => carries.sound work (same.mem_iff.mp member)
  soundReads := carries.soundReads
  account := by rw [standing_perm same, carries.account]

theorem Carries.queue (carries : Carries queued waiting reads) (work : BalanceWork) :
    Carries (queued ++ [work]) (⟨work, [queued.length]⟩ :: waiting) reads where
  sound := by
    intro other member
    rcases mem_cons.mp member with rfl | before
    · exact Sound.new queued work
    · exact (carries.sound other before).grow work
  soundReads := fun read member => ⟨(carries.soundReads read member).1.grow work, (carries.soundReads read member).2⟩
  account := by
    rw [addressedItems_concat, ← Multiset.coe_add, ← carries.account]
    by_cases zero : work.address = 0
    · rw [standing_cons_of_zero zero, if_neg (by simpa using zero), Multiset.coe_nil, add_zero]
    · rw [standing_cons_of_ne zero, if_pos zero]
      abel

theorem Carries.fold (carries : Carries queued (a :: b :: waiting) reads) (same : b.key = a.key) :
    Carries queued (a.fold b :: waiting) reads := by
  have first := carries.sound a mem_cons_self
  have second := carries.sound b (mem_cons_of_mem _ mem_cons_self)
  have key : (a.fold b).work.address = a.work.address := congrArg Prod.fst (folded_key a.work b.work same)
  have address : b.work.address = a.work.address := congrArg Prod.fst same
  refine ⟨?_, carries.soundReads, ?_⟩
  · intro work member
    rcases mem_cons.mp member with rfl | before
    · exact first.fold second same
    · exact carries.sound work (mem_cons_of_mem _ (mem_cons_of_mem _ before))
  · rw [← carries.account]
    by_cases zero : a.work.address = 0
    · rw [standing_cons_of_zero (key.trans zero), standing_cons_of_zero zero, standing_cons_of_zero (address.trans zero)]
    · rw [standing_cons_of_ne (key.symm ▸ zero), standing_cons_of_ne zero, standing_cons_of_ne (address.symm ▸ zero)]
      simp only [QueuedWork.fold, ← Multiset.coe_add, add_assoc]

theorem Carries.skip (carries : Carries queued (work :: waiting) reads) (zero : work.work.address = 0) :
    Carries queued waiting reads where
  sound := fun other member => carries.sound other (mem_cons_of_mem _ member)
  soundReads := carries.soundReads
  account := by rw [← carries.account, standing_cons_of_zero zero]

theorem Carries.read {round issued : List QueuedWork} (carries : Carries queued (round ++ waiting) reads)
    (sound : ∀ read ∈ issued, Sound queued read ∧ read.work.address ≠ 0) (same : standing issued = standing round) :
    Carries queued waiting (reads ++ issued) where
  sound := fun other member => carries.sound other (mem_append_right _ member)
  soundReads := by
    intro read member
    rcases mem_append.mp member with before | now
    · exact carries.soundReads read before
    · exact sound read now
  account := by
    rw [← carries.account, standing_append, standing_append, same]
    abel

/-! ## A round of the batched reader -/

def foldKey : List BalanceWork → Option BalanceWork
  | [] => none
  | first :: rest => some (rest.foldl folded first)

theorem foldKey_concat (works : List BalanceWork) (work : BalanceWork) :
    foldKey (works ++ [work]) = some (match foldKey works with
      | none => work
      | some earlier => folded earlier work) := by
  cases works with
  | nil => rfl
  | cons first rest => simp [foldKey]

def takenOf (taken : List BalanceWork) (key : Address × Address) : List BalanceWork :=
  taken.filter fun work => work.address ≠ 0 ∧ work.key = key

structure RoundOf (taken : List BalanceWork) (round : ReaderWorks) : Prop where
  works : ∀ key, round.works.lookup key = foldKey (takenOf taken key)
  tokensNodup : round.tokens.Nodup
  tokens : ∀ token, token ∈ round.tokens ↔ (round.holders.lookup token).isSome
  holdersNodup : ∀ token, ((round.holders.lookup token).getD []).Nodup
  holders : ∀ holder token, holder ∈ (round.holders.lookup token).getD [] ↔ (round.works.lookup (holder, token)).isSome

theorem readerFirst_roundOf (first : BalanceWork) (address : first.address ≠ 0) :
    RoundOf [first] (readerFirst first) := by
  have works (key : Address × Address) : (readerFirst first).works.lookup key = foldKey (takenOf [first] key) := by
    simp only [readerFirst, lookup_singleton_ite, takenOf, filter_cons, filter_nil, decide_eq_true_eq, address,
      ne_eq, not_false_eq_true, true_and]
    by_cases same : key = first.key
    · rw [if_pos same, if_pos same.symm]
      rfl
    · rw [if_neg same, if_neg (fun back => same back.symm)]
      rfl
  refine ⟨works, nodup_singleton _, ?_, ?_, ?_⟩
  · intro token
    simp only [readerFirst, lookup_singleton_ite, mem_singleton]
    by_cases same : token = first.tokenAddress <;> simp [same]
  · intro token
    simp only [readerFirst, lookup_singleton_ite]
    by_cases same : token = first.tokenAddress <;> simp [same]
  · intro holder token
    simp only [readerFirst, lookup_singleton_ite, BalanceWork.key, Prod.mk.injEq]
    by_cases same : token = first.tokenAddress <;> by_cases own : holder = first.address <;> simp [same, own]

theorem readerTake_roundOf (of : RoundOf taken round) (work : BalanceWork) :
    RoundOf (taken ++ [work]) (readerTake round work) := by
  unfold readerTake
  by_cases zero : work.address = 0
  · rw [if_pos zero]
    have same (key : Address × Address) : takenOf (taken ++ [work]) key = takenOf taken key := by
      rw [takenOf, filter_append, takenOf]
      simp [zero]
    exact ⟨fun key => by rw [same]; exact of.works key, of.tokensNodup, of.tokens, of.holdersNodup, of.holders⟩
  · rw [if_neg zero]
    have grown (key : Address × Address) :
        takenOf (taken ++ [work]) key = takenOf taken key ++ if key = work.key then [work] else [] := by
      rw [takenOf, filter_append, takenOf]
      congr 1
      simp only [filter_cons, filter_nil, decide_eq_true_eq, zero, ne_eq, not_false_eq_true, true_and]
      exact if_congr eq_comm rfl rfl
    have known := of.works work.key
    cases found : round.works.lookup work.key with
    | some prev =>
      rw [found] at known
      refine ⟨?_, of.tokensNodup, of.tokens, of.holdersNodup, ?_⟩
      · intro key
        rw [lookup_insert_ite, grown]
        by_cases same : key = work.key
        · rw [if_pos same, if_pos same, foldKey_concat, same, ← known]
        · rw [if_neg same, if_neg same, append_nil, of.works]
      · intro holder token
        rw [of.holders, lookup_insert_ite]
        by_cases same : (holder, token) = work.key
        · rw [if_pos same, same, found]
          simp
        · rw [if_neg same]
    | none =>
      rw [found] at known
      -- The holder is new to its token: its key was not taken yet.
      have fresh : work.address ∉ (round.holders.lookup work.tokenAddress).getD [] := by
        rw [of.holders]
        have none : round.works.lookup (work.address, work.tokenAddress) = none := found
        simp [none]
      refine ⟨?_, ?_, ?_, ?_, ?_⟩
      · intro key
        rw [lookup_insert_ite, grown]
        by_cases same : key = work.key
        · rw [if_pos same, if_pos same, foldKey_concat, same, ← known]
        · rw [if_neg same, if_neg same, append_nil, of.works]
      · dsimp only
        split
        · exact of.tokensNodup
        · next absent =>
          rw [nodup_append_comm, singleton_append, nodup_cons, of.tokens]
          exact ⟨absent, of.tokensNodup⟩
      · intro token
        rw [lookup_insert_ite]
        dsimp only
        by_cases same : token = work.tokenAddress
        · rw [if_pos same, same]
          split
          · next present => simp [of.tokens, present]
          · simp
        · rw [if_neg same, ← of.tokens token]
          split
          · rfl
          · simp [same]
      · intro token
        rw [lookup_insert_ite]
        by_cases same : token = work.tokenAddress
        · rw [if_pos same, Option.getD_some, nodup_append_comm, singleton_append, nodup_cons]
          exact ⟨fresh, of.holdersNodup _⟩
        · rw [if_neg same]
          exact of.holdersNodup token
      · intro holder token
        rw [lookup_insert_ite, lookup_insert_ite]
        by_cases same : token = work.tokenAddress
        · rw [if_pos same, Option.getD_some, mem_append, mem_singleton, of.holders, same]
          by_cases own : holder = work.address
          · simp [own, BalanceWork.key]
          · simp [own, BalanceWork.key]
        · have apart : (holder, token) ≠ work.key := fun back => same (congrArg Prod.snd back)
          rw [if_neg same, if_neg apart, of.holders]

theorem round_of (first : BalanceWork) (address : first.address ≠ 0) (drained : List BalanceWork) :
    RoundOf (first :: drained) (drained.foldl readerTake (readerFirst first)) := by
  induction drained using List.reverseRecOn with
  | nil => exact readerFirst_roundOf first address
  | append_singleton drained work ih =>
    rw [foldl_concat]
    exact readerTake_roundOf ih work

def roundKeys (round : ReaderWorks) : List (Address × Address) :=
  round.tokens.flatMap fun token => ((round.holders.lookup token).getD []).map fun holder => (holder, token)

theorem RoundOf.mem_roundKeys (of : RoundOf taken round) (key : Address × Address) :
    key ∈ roundKeys round ↔ (round.works.lookup key).isSome := by
  rw [← of.holders key.1 key.2, roundKeys]
  simp only [mem_flatMap, mem_map, Prod.ext_iff]
  constructor
  · rintro ⟨token, _, holder, member, rfl, rfl⟩
    exact member
  · intro member
    refine ⟨key.2, (of.tokens key.2).mpr ?_, key.1, member, rfl, rfl⟩
    cases found : round.holders.lookup key.2 with
    | none => simp [found] at member
    | some holders => rfl

theorem RoundOf.roundKeys_nodup (of : RoundOf taken round) :
    (roundKeys round).Nodup := by
  rw [roundKeys, nodup_flatMap]
  constructor
  · intro token _
    exact (of.holdersNodup token).map fun first second same => congrArg Prod.fst same
  · apply of.tokensNodup.imp
    intro token other apart key inFirst inSecond
    obtain ⟨_, _, same⟩ := mem_map.mp inFirst
    obtain ⟨_, _, back⟩ := mem_map.mp inSecond
    rw [← same] at back
    exact apart (congrArg Prod.snd back).symm

theorem sound_foldKey {works : List QueuedWork} {key : Address × Address} {work : BalanceWork}
    (sound : ∀ queuedWork ∈ works, Sound queued queuedWork ∧ queuedWork.key = key)
    (fold : foldKey (works.map (·.work)) = some work) :
    Sound queued ⟨work, works.flatMap (·.items)⟩ ∧ work.key = key := by
  induction works using List.reverseRecOn generalizing work with
  | nil => cases fold
  | append_singleton works last ih =>
    obtain ⟨own, ownKey⟩ := sound last (by simp)
    rw [map_append, map_singleton, foldKey_concat, Option.some.injEq] at fold
    rw [flatMap_append, flatMap_singleton]
    cases earlier : foldKey (works.map (·.work)) with
    | none =>
      have empty : works = [] := by
        cases works with
        | nil => rfl
        | cons first rest => cases earlier
      rw [earlier] at fold
      subst empty fold
      exact ⟨own, ownKey⟩
    | some before =>
      rw [earlier] at fold
      obtain ⟨folded, foldedKey⟩ := ih (fun other member => sound other (by simp [member])) earlier
      subst fold
      have same : last.key = before.key := ownKey.trans foldedKey.symm
      exact ⟨folded.fold own same, (folded_key before last.work same).trans foldedKey⟩

theorem roundReads_eq (first : QueuedWork) (drained : List QueuedWork) :
    roundReads first drained = (roundKeys ((drained.map (·.work)).foldl readerTake (readerFirst first.work))).filterMap
      fun key => (((drained.map (·.work)).foldl readerTake (readerFirst first.work)).works.lookup key).map
        fun work => ⟨work, itemsOf (first :: drained) key⟩ := by
  simp only [roundReads, roundKeys, filterMap_flatMap, filterMap_map]
  rfl

theorem roundReads_single {first : QueuedWork} (address : first.work.address ≠ 0) : roundReads first [] = [first] := by
  have nonzero : first.work.address ≠ 0#160 := address
  simp [roundReads, readerFirst, lookup_singleton_ite, itemsOf, nonzero, QueuedWork.key, BalanceWork.key]

theorem roundReads_spec {first : QueuedWork} {drained : List QueuedWork} (address : first.work.address ≠ 0)
    (sound : ∀ work ∈ first :: drained, Sound queued work) :
    (∀ read ∈ roundReads first drained, Sound queued read ∧ read.work.address ≠ 0) ∧
      standing (roundReads first drained) = standing (first :: drained) := by
  have of := round_of first.work address (drained.map (·.work))
  generalize round_eq : (drained.map (·.work)).foldl readerTake (readerFirst first.work) = round at of
  have reads := roundReads_eq first drained
  rw [round_eq] at reads
  have taken (key : Address × Address) : takenOf (first.work :: drained.map (·.work)) key =
      (((first :: drained).filter fun queued => queued.work.address ≠ 0 ∧ queued.key = key)).map (·.work) := by
    rw [takenOf, ← map_cons (f := QueuedWork.work), filter_map]
    rfl
  have each : ∀ read ∈ roundReads first drained, Sound queued read ∧ read.work.address ≠ 0 := by
    rw [reads]
    intro read member
    obtain ⟨key, _, made⟩ := mem_filterMap.mp member
    obtain ⟨work, found, rfl⟩ := Option.map_eq_some_iff.mp made
    rw [of.works, taken] at found
    have members : ∀ other ∈ (first :: drained).filter fun other => other.work.address ≠ 0 ∧ other.key = key,
        Sound queued other ∧ other.key = key := by
      intro other chosen
      obtain ⟨inside, fits⟩ := mem_filter.mp chosen
      exact ⟨sound other inside, (of_decide_eq_true fits).2⟩
    obtain ⟨folded, foldedKey⟩ := sound_foldKey members found
    refine ⟨folded, ?_⟩
    -- The key is one of the taken items', and those have an address.
    obtain ⟨id, member, _⟩ := folded.attained
    obtain ⟨other, chosen, _⟩ := mem_flatMap.mp member
    obtain ⟨_, fits⟩ := mem_filter.mp chosen
    have known := of_decide_eq_true fits
    have own : work.address = other.work.address := congrArg Prod.fst (foldedKey.trans known.2.symm)
    rw [own]
    exact known.1
  refine ⟨each, ?_⟩
  have covered : ∀ work ∈ (first :: drained).filter (fun queued => queued.work.address ≠ 0),
      work.key ∈ roundKeys round := by
    intro work member
    obtain ⟨inside, nonzero⟩ := mem_filter.mp member
    rw [of.mem_roundKeys, of.works, taken]
    have chosen : work ∈ (first :: drained).filter fun queued => queued.work.address ≠ 0 ∧ queued.key = work.key :=
      mem_filter.mpr ⟨inside, by simpa using nonzero⟩
    cases listed : (first :: drained).filter fun queued =>
        decide (queued.work.address ≠ 0 ∧ queued.key = work.key) with
    | nil =>
      rw [listed] at chosen
      cases chosen
    | cons head tail => rfl
  have groups := flatMap_filter_perm QueuedWork.key (roundKeys round) of.roundKeys_nodup
    ((first :: drained).filter fun queued => queued.work.address ≠ 0) covered
  have items : (roundReads first drained).flatMap (·.items) =
      (roundKeys round).flatMap fun key => itemsOf (first :: drained) key := by
    rw [reads]
    have all : ∀ key ∈ roundKeys round, (round.works.lookup key).isSome := fun key => (of.mem_roundKeys key).mp
    generalize roundKeys round = keys at all
    induction keys with
    | nil => rfl
    | cons key rest ih =>
      obtain ⟨work, found⟩ := Option.isSome_iff_exists.mp (all key mem_cons_self)
      rw [filterMap_cons, found, Option.map_some, flatMap_cons, flatMap_cons,
        ih fun other member => all other (mem_cons_of_mem _ member)]
  have whole : (roundReads first drained).filter (fun queued => queued.work.address ≠ 0) = roundReads first drained :=
    filter_eq_self.mpr fun read member => by simpa using (each read member).2
  rw [standing, whole, items, standing, Multiset.coe_eq_coe]
  have flat := groups.flatMap_right QueuedWork.items
  rw [flatMap_assoc] at flat
  refine List.Perm.trans (List.Perm.of_eq ?_) flat
  apply flatMap_congr
  intro key _
  have same : ((first :: drained).filter fun queued => queued.work.address ≠ 0 ∧ queued.key = key) =
      ((first :: drained).filter fun queued => queued.work.address ≠ 0).filter fun queued => queued.key = key := by
    rw [filter_filter]
    apply filter_congr
    intro work _
    rw [Bool.decide_and, Bool.and_comm]
  rw [itemsOf, same]

end OpsIndexer.Indexing
