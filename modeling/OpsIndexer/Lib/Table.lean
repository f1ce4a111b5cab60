import Mathlib

/-!
# Tables and their statements

A table is the list of its rows. The statements a store runs on it are list functions: an insert that skips conflicting
rows, an update of the rows with one key, and the aggregates a query takes.
-/

namespace OpsIndexer.Lib.Table

open List

variable {α β κ : Type}

/-- The inputs whose rows an `INSERT … ON CONFLICT DO NOTHING` of each of them, in order, puts in the table. -/
def landed (toRow : β → α) (conflicts : α → α → Bool) : List β → List α → List β
  | [], _ => []
  | input :: rest, table =>
    if table.any (conflicts (toRow input)) then landed toRow conflicts rest table
    else input :: landed toRow conflicts rest (table ++ [toRow input])

def refused (toRow : β → α) (conflicts : α → α → Bool) : List β → List α → List β
  | [], _ => []
  | input :: rest, table =>
    if table.any (conflicts (toRow input)) then input :: refused toRow conflicts rest table
    else refused toRow conflicts rest (table ++ [toRow input])

/-- `INSERT … ON CONFLICT DO NOTHING`, one statement for each input. -/
def insertAll (toRow : β → α) (conflicts : α → α → Bool) : List β → List α → List α
  | [], table => table
  | input :: rest, table =>
    if table.any (conflicts (toRow input)) then insertAll toRow conflicts rest table
    else insertAll toRow conflicts rest (table ++ [toRow input])

def updateKey [DecidableEq κ] (key : α → κ) (target : κ) (change : α → α) (table : List α) : List α :=
  table.map fun row => if key row = target then change row else row

def updateKeys [DecidableEq κ] (key : α → κ) (changes : List (κ × (α → α))) (table : List α) : List α :=
  changes.foldl (fun table change => updateKey key change.1 change.2 table) table

theorem insertAll_eq (toRow : β → α) (conflicts : α → α → Bool) (inputs : List β) (table : List α) :
    insertAll toRow conflicts inputs table =
      table ++ (landed toRow conflicts inputs table).map toRow := by
  induction inputs generalizing table with
  | nil => simp [insertAll, landed]
  | cons input rest ih =>
    simp only [insertAll, landed]
    split
    · exact ih table
    · rw [ih, map_cons, append_assoc, singleton_append]

theorem landed_sublist (toRow : β → α) (conflicts : α → α → Bool) (inputs : List β) (table : List α) :
    (landed toRow conflicts inputs table).Sublist inputs := by
  induction inputs generalizing table with
  | nil => simp [landed]
  | cons input rest ih =>
    simp only [landed]
    split
    · exact (ih table).cons input
    · exact (ih _).cons_cons input

variable {toRow : β → α} {conflicts : α → α → Bool} {inputs second : List β} {table : List α} {input : β}
  {first : Except ε α} {next : α → Except ε β} {failure : ε} {check : α → Except ε Unit}

theorem mem_of_mem_landed (member : input ∈ landed toRow conflicts inputs table) : input ∈ inputs :=
  (landed_sublist toRow conflicts inputs table).subset member

theorem landed_or_refused (member : input ∈ inputs) :
    input ∈ landed toRow conflicts inputs table ∨ input ∈ refused toRow conflicts inputs table := by
  induction inputs generalizing table with
  | nil => cases member
  | cons first rest ih =>
    simp only [landed, refused]
    split
    · rcases mem_cons.mp member with rfl | later
      · exact .inr mem_cons_self
      · exact (ih later).imp_right (mem_cons_of_mem _)
    · rcases mem_cons.mp member with rfl | later
      · exact .inl mem_cons_self
      · exact (ih later).imp_left (mem_cons_of_mem _)

theorem exists_conflict_of_refused (member : input ∈ refused toRow conflicts inputs table) :
    ∃ row ∈ insertAll toRow conflicts inputs table, conflicts (toRow input) row = true := by
  induction inputs generalizing table with
  | nil => cases member
  | cons first rest ih =>
    simp only [refused] at member
    simp only [insertAll]
    split at member
    · next taken =>
      rw [if_pos taken]
      rcases mem_cons.mp member with rfl | later
      · obtain ⟨row, there, met⟩ := any_eq_true.mp taken
        exact ⟨row, by rw [insertAll_eq]; exact mem_append_left _ there, met⟩
      · exact ih later
    · next free =>
      rw [if_neg free]
      exact ih member

theorem landed_eq_self (toRow : β → α) (conflicts : α → α → Bool) (inputs : List β) (table : List α)
    (fresh : ∀ input ∈ inputs, ∀ row ∈ table, conflicts (toRow input) row = false)
    (apart : inputs.Pairwise fun first second => conflicts (toRow second) (toRow first) = false) :
    landed toRow conflicts inputs table = inputs := by
  induction inputs generalizing table with
  | nil => rfl
  | cons input rest ih =>
    have absent : table.any (conflicts (toRow input)) = false := by
      rw [any_eq_false]
      intro row member
      simp [fresh input mem_cons_self row member]
    rw [pairwise_cons] at apart
    simp only [landed, absent, Bool.false_eq_true, if_false]
    congr 1
    apply ih _ _ apart.2
    intro later laterMember row rowMember
    rw [mem_append, mem_singleton] at rowMember
    rcases rowMember with old | new
    · exact fresh later (mem_cons_of_mem _ laterMember) row old
    · exact new ▸ apart.1 later laterMember

/-- Where rows conflict by their key, a key lands when some input has it and the table does not. -/
theorem exists_landed_key [DecidableEq κ] (toRow : β → α) {key : α → κ}
    (byKey : ∀ written row, conflicts written row = true ↔ key row = key written) (target : κ) (inputs : List β)
    (table : List α) :
    (∃ input ∈ landed toRow conflicts inputs table, key (toRow input) = target) ↔
      (∃ input ∈ inputs, key (toRow input) = target) ∧ ∀ row ∈ table, key row ≠ target := by
  induction inputs generalizing table with
  | nil => simp [landed]
  | cons input rest ih =>
    have held : table.any (conflicts (toRow input)) = true ↔ ∃ row ∈ table, key row = key (toRow input) := by
      simp only [any_eq_true, byKey]
    simp only [landed, exists_mem_cons_iff]
    by_cases own : key (toRow input) = target
    · split
      · next present =>
        obtain ⟨row, member, same⟩ := held.mp present
        rw [ih]
        have taken : ¬ ∀ row ∈ table, key row ≠ target := fun absent => absent row member (same.trans own)
        simp only [taken, and_false]
      · next absent =>
        rw [held] at absent
        rw [exists_mem_cons_iff]
        refine iff_of_true (.inl own) ⟨.inl own, ?_⟩
        intro row member same
        exact absent ⟨row, member, same.trans own.symm⟩
    · split
      · rw [ih]
        simp only [own, false_or]
      · rw [exists_mem_cons_iff, ih]
        simp only [own, false_or, mem_append, mem_singleton, or_imp, forall_and, forall_eq, ne_eq,
          not_false_eq_true, and_true]

/-- An input lands when its row is there already, or when no row has its key and every input of that key has its row. -/
def Admitted (toRow : β → α) (conflicts : α → α → Bool) (inputs : List β) (table : List α) : Prop :=
  ∀ input ∈ inputs, toRow input ∈ table ∨
    (∀ row ∈ table, conflicts (toRow input) row = false) ∧
      ∀ other ∈ inputs, conflicts (toRow input) (toRow other) = true → toRow other = toRow input

theorem landed_keys_nodup (toRow : β → α) {key : α → κ}
    (byKey : ∀ written row, conflicts written row = true ↔ key row = key written) (inputs : List β) (table : List α) :
    ((landed toRow conflicts inputs table).map fun input => key (toRow input)).Nodup := by
  classical
  induction inputs generalizing table with
  | nil => exact nodup_nil
  | cons input rest ih =>
    simp only [landed]
    split
    · exact ih table
    · rw [map_cons, nodup_cons]
      refine ⟨?_, ih _⟩
      intro later
      obtain ⟨other, member, same⟩ := mem_map.mp later
      have fresh := ((exists_landed_key toRow byKey (key (toRow input)) rest (table ++ [toRow input])).mp
        ⟨other, member, same⟩).2
      exact fresh (toRow input) (by simp) rfl

/-- An input lands when the table has no row of its key and it is the first input of that key. -/
theorem mem_landed_iff (toRow : β → α) {key : α → κ} [DecidableEq κ]
    (byKey : ∀ written row, conflicts written row = true ↔ key row = key written) (inputs : List β) (table : List α)
    (input : β) :
    input ∈ landed toRow conflicts inputs table ↔ (∀ row ∈ table, key row ≠ key (toRow input)) ∧
      inputs.find? (fun other => key (toRow other) = key (toRow input)) = some input := by
  induction inputs generalizing table with
  | nil => simp [landed]
  | cons head rest ih =>
    have held : table.any (conflicts (toRow head)) = true ↔ ∃ row ∈ table, key row = key (toRow head) := by
      simp only [any_eq_true, byKey]
    by_cases same : key (toRow head) = key (toRow input)
    · rw [List.find?_cons_of_pos (by simpa using same)]
      simp only [landed, held]
      split
      · next taken =>
        obtain ⟨row, member, rowKey⟩ := taken
        have blocked : ¬∀ row ∈ table, key row ≠ key (toRow input) := fun free => free row member (rowKey.trans same)
        rw [ih]
        simp only [blocked, false_and]
      · next free =>
        have blocked : ¬∀ row ∈ table ++ [toRow head], key row ≠ key (toRow input) :=
          fun later => later (toRow head) (by simp) same
        have unblocked : ∀ row ∈ table, key row ≠ key (toRow input) :=
          fun row member rowKey => free ⟨row, member, rowKey.trans same.symm⟩
        rw [mem_cons, ih, Option.some.injEq, and_iff_right unblocked, eq_comm]
        simp only [blocked, false_and, or_false]
    · rw [List.find?_cons_of_neg (by simpa using same)]
      simp only [landed]
      split
      · exact ih table
      · have other : input ≠ head := fun equal => same (by rw [equal])
        rw [mem_cons, ih]
        simp only [other, false_or, mem_append, mem_singleton, or_imp, forall_and, forall_eq, ne_eq, same,
          not_false_eq_true, and_true]

theorem insertAll_insertAll_nil (toRow : β → α) {key : α → κ}
    (byKey : ∀ written row, conflicts written row = true ↔ key row = key written) (inputs : List β) :
    insertAll id conflicts (insertAll toRow conflicts inputs []) [] = insertAll toRow conflicts inputs [] := by
  have distinct : ((insertAll toRow conflicts inputs []).map key).Nodup := by
    rw [insertAll_eq, nil_append, map_map]
    exact landed_keys_nodup toRow byKey inputs []
  rw [insertAll_eq id, landed_eq_self, map_id, nil_append]
  · intro input _ row member
    cases member
  · refine (pairwise_map.mp distinct).imp ?_
    intro first second apart
    rw [← Bool.not_eq_true, byKey]
    exact apart

theorem filter_key_eq_singleton {key : α → κ} [DecidableEq κ] (distinct : (table.map key).Nodup) {row : α}
    (member : row ∈ table) : (table.filter fun other => key other = key row) = [row] := by
  induction table with
  | nil => cases member
  | cons head rest ih =>
    rw [map_cons, nodup_cons] at distinct
    rcases mem_cons.mp member with rfl | later
    · rw [filter_cons_of_pos (by simp), filter_eq_nil_iff.mpr]
      intro other listed same
      exact distinct.1 (mem_map.mpr ⟨other, listed, of_decide_eq_true same⟩)
    · have apart : key head ≠ key row := fun same => distinct.1 (mem_map.mpr ⟨row, later, same.symm⟩)
      rw [filter_cons_of_neg (by simpa using apart), ih distinct.2 later]

/-- Where rows conflict by their key, every input has its row in the table afterwards exactly when all are admitted. -/
theorem insertAll_complete_iff (toRow : β → α) {key : α → κ}
    (byKey : ∀ written row, conflicts written row = true ↔ key row = key written) (inputs : List β) (table : List α) :
    (∀ input ∈ inputs, toRow input ∈ insertAll toRow conflicts inputs table) ↔
      Admitted toRow conflicts inputs table := by
  classical
  have stored (input : β) : toRow input ∈ insertAll toRow conflicts inputs table ↔
      toRow input ∈ table ∨ ∃ new ∈ landed toRow conflicts inputs table, toRow new = toRow input := by
    rw [insertAll_eq, mem_append, mem_map]
  have landedKey := exists_landed_key toRow byKey
  constructor
  · intro complete input member
    rcases (stored input).mp (complete input member) with old | ⟨new, newMember, newRow⟩
    · exact .inl old
    · have fresh := ((landedKey (key (toRow input)) inputs table).mp ⟨new, newMember, by rw [newRow]⟩).2
      refine .inr ⟨?_, ?_⟩
      · intro row rowMember
        rw [← Bool.not_eq_true, byKey]
        exact fresh row rowMember
      · intro other otherMember conflict
        have same := (byKey _ _).mp conflict
        rcases (stored other).mp (complete other otherMember) with old | ⟨second, secondMember, secondRow⟩
        · exact absurd same (fresh _ old)
        · have one : second = new := inj_on_of_nodup_map (landed_keys_nodup toRow byKey inputs table) secondMember
            newMember (by rw [secondRow, newRow, same])
          rw [← secondRow, one, newRow]
  · intro admitted input member
    rw [stored]
    refine (admitted input member).imp_right ?_
    rintro ⟨fresh, only⟩
    have absent : ∀ row ∈ table, key row ≠ key (toRow input) := by
      intro row rowMember
      rw [ne_eq, ← byKey, fresh row rowMember]
      exact Bool.false_ne_true
    obtain ⟨new, newMember, same⟩ := (landedKey (key (toRow input)) inputs table).mpr ⟨⟨input, member, rfl⟩, absent⟩
    exact ⟨new, newMember, only new (mem_of_mem_landed newMember) ((byKey _ _).mpr same)⟩

@[simp] theorem updateKeys_nil [DecidableEq κ] (key : α → κ) (table : List α) :
    updateKeys key [] table = table := rfl

theorem updateKeys_eq [DecidableEq κ] (key : α → κ) (changes : List (κ × (α → α))) (table : List α)
    (distinct : (changes.map Prod.fst).Nodup)
    (keeps : ∀ change ∈ changes, ∀ row, key (change.2 row) = key row) :
    updateKeys key changes table = table.map fun row => (changes.lookup (key row)).getD id row := by
  induction changes generalizing table with
  | nil => simp
  | cons change rest ih =>
    obtain ⟨own, act⟩ := change
    rw [map_cons, nodup_cons] at distinct
    have step : updateKeys key ((own, act) :: rest) table =
        updateKeys key rest (updateKey key own act table) := rfl
    rw [step, ih _ distinct.2 fun later member => keeps later (mem_cons_of_mem _ member)]
    rw [updateKey, map_map]
    apply map_congr_left
    intro row _
    by_cases same : key row = own
    · have absent : rest.lookup own = none := by
        rw [lookup_eq_none_iff]
        intro entry member
        simp only [ne_eq, bne_iff_ne]
        intro repeated
        exact distinct.1 (mem_map.mpr ⟨entry, member, repeated.symm⟩)
      have moved := keeps (own, act) mem_cons_self row
      simp [same, moved, absent]
    · have other : (key row == own) = false := by simpa using same
      simp [same, lookup_cons, other]

theorem length_filter_add (keep : α → Bool) (table : List α) :
    (table.filter keep).length + (table.filter fun row => !keep row).length = table.length := by
  induction table with
  | nil => rfl
  | cons row rest ih =>
    cases kept : keep row <;> simp [kept] <;> omega

theorem sum_filter_add [AddCommMonoid κ] (measure : α → κ) (keep : α → Bool) (table : List α) :
    ((table.filter keep).map measure).sum + ((table.filter fun row => !keep row).map measure).sum =
      (table.map measure).sum := by
  induction table with
  | nil => simp
  | cons row rest ih =>
    cases kept : keep row
    · simp [kept, ← ih, add_left_comm]
    · simp [kept, ← ih, add_assoc]

/-! ## Statements that can be refused -/

variable {ε : Type}

theorem toOption_eq_some {result : Except ε α} {value : α} (found : result.toOption = some value) :
    result = .ok value := by
  cases result with
  | error failure => cases found
  | ok other => exact congrArg Except.ok (Option.some.inj found)

theorem bind_eq_ok {result : β} :
    (first >>= next) = .ok result ↔ ∃ value, first = .ok value ∧ next value = .ok result := by
  cases first with
  | error failure =>
    constructor
    · intro done
      cases done
    · intro found
      obtain ⟨value, same, _⟩ := found
      cases same
  | ok value =>
    constructor
    · intro done
      exact ⟨value, rfl, done⟩
    · intro found
      obtain ⟨other, same, done⟩ := found
      cases same
      exact done

theorem bind_eq_error :
    (first >>= next) = .error failure ↔
      first = .error failure ∨ ∃ value, first = .ok value ∧ next value = .error failure := by
  cases first with
  | error other => simp [bind, Except.bind]
  | ok value => simp [bind, Except.bind]

theorem forM_eq_error {inputs : List α} (failed : inputs.forM check = .error failure) :
    ∃ input ∈ inputs, check input = .error failure := by
  induction inputs with
  | nil => cases failed
  | cons input rest ih =>
    have step : (input :: rest).forM check = (check input >>= fun _ => rest.forM check) := rfl
    rw [step, bind_eq_error] at failed
    rcases failed with first | ⟨_, _, later⟩
    · exact ⟨input, mem_cons_self, first⟩
    · obtain ⟨other, member, refused⟩ := ih later
      exact ⟨other, mem_cons_of_mem _ member, refused⟩

theorem mapM_forall {convert : α → Except ε β} (good : β → Prop) {inputs : List α} {outputs : List β}
    (converted : inputs.mapM convert = .ok outputs)
    (each : ∀ input output, convert input = .ok output → good output) : ∀ output ∈ outputs, good output := by
  induction inputs generalizing outputs with
  | nil =>
    rw [mapM_nil] at converted
    rw [← Except.ok.inj converted]
    simp
  | cons input rest ih =>
    rw [mapM_cons] at converted
    obtain ⟨first, head, converted⟩ := bind_eq_ok.mp converted
    obtain ⟨others, tail, converted⟩ := bind_eq_ok.mp converted
    rw [← Except.ok.inj converted, forall_mem_cons]
    exact ⟨each input first head, ih tail⟩

theorem forM_eq_ok {inputs : List α} :
    inputs.forM check = .ok () ↔ ∀ input ∈ inputs, check input = .ok () := by
  induction inputs with
  | nil => simp [pure, Except.pure]
  | cons input rest ih =>
    have step : (input :: rest).forM check = (check input >>= fun _ => rest.forM check) := rfl
    rw [step, bind_eq_ok, forall_mem_cons, ← ih]
    constructor
    · intro found
      obtain ⟨_, first, others⟩ := found
      exact ⟨first, others⟩
    · intro both
      exact ⟨(), both.1, both.2⟩

/-! ## Lookups -/

theorem lookup_map_keys [DecidableEq κ] (keys : List κ) (value : κ → β) (key : κ) :
    (keys.map fun other => (other, value other)).lookup key = if key ∈ keys then some (value key) else none := by
  induction keys with
  | nil => simp
  | cons other rest ih =>
    by_cases same : key = other
    · simp [same]
    · have differs : (key == other) = false := by simpa using same
      simp [lookup_cons, differs, ih, same]

theorem lookup_map_entries [DecidableEq κ] (entries : List (Sigma fun _ : κ => α)) (convert : α → β) (key : κ) :
    (entries.map fun entry => (entry.1, convert entry.2)).lookup key =
      (entries.dlookup key).map convert := by
  induction entries with
  | nil => simp
  | cons entry rest ih =>
    obtain ⟨other, value⟩ := entry
    by_cases same : key = other
    · subst same
      simp
    · have differs : (key == other) = false := by simpa using same
      rw [map_cons, lookup_cons, differs, dlookup_cons_ne _ _ same]
      exact ih

theorem lookup_foldl_erase [DecidableEq κ] (keys : List κ) (map : AList fun _ : κ => α) (key : κ) :
    (keys.foldl (fun map other => map.erase other) map).lookup key =
      if key ∈ keys then none else map.lookup key := by
  induction keys generalizing map with
  | nil => simp
  | cons other rest ih =>
    rw [foldl_cons, ih]
    by_cases later : key ∈ rest
    · simp [later]
    · by_cases same : key = other
      · subst same
        simp [later]
      · simp [later, same, AList.lookup_erase_ne same]

/-! ## The row of a key -/

section

variable [DecidableEq κ] {key : α → κ}

theorem find?_updateKey (target : κ) (change : α → α) (keeps : ∀ row, key (change row) = key row) (table : List α)
    (wanted : κ) :
    (updateKey key target change table).find? (fun row => key row = wanted) =
      if wanted = target then (table.find? fun row => key row = wanted).map change
      else table.find? fun row => key row = wanted := by
  induction table with
  | nil => simp [updateKey]
  | cons row rest ih =>
    unfold updateKey at ih ⊢
    by_cases own : key row = target
    · subst own
      by_cases same : key row = wanted
      · subst same
        simp [keeps]
      · have other : wanted ≠ key row := Ne.symm same
        simpa [keeps, same, other] using ih
    · by_cases same : key row = wanted
      · subst same
        simp [own]
      · simpa [own, same] using ih

theorem find?_filterMap (change : α → Option α) (keeps : ∀ row kept, change row = some kept → key kept = key row)
    (table : List α) (distinct : (table.map key).Nodup) (wanted : κ) :
    (table.filterMap change).find? (fun row => key row = wanted) =
      (table.find? fun row => key row = wanted).bind change := by
  induction table with
  | nil => rfl
  | cons row rest ih =>
    rw [map_cons, nodup_cons] at distinct
    have step := ih distinct.2
    by_cases own : key row = wanted
    · subst own
      have absent : (rest.find? fun other => key other = key row) = none := by
        rw [List.find?_eq_none]
        intro other member same
        exact distinct.1 (mem_map.mpr ⟨other, member, by simpa using same⟩)
      rw [absent, Option.bind_none] at step
      cases changed : change row with
      | none => simp [changed, step]
      | some kept => simp [changed, keeps row kept changed]
    · cases changed : change row with
      | none => simpa [changed, own] using step
      | some kept =>
        have other : key kept ≠ wanted := by
          rw [keeps row kept changed]
          exact own
        simpa [changed, own, other] using step

omit [DecidableEq κ] in
theorem keys_filterMap_nodup (change : α → Option α) (keeps : ∀ row kept, change row = some kept → key kept = key row)
    (table : List α) (distinct : (table.map key).Nodup) : ((table.filterMap change).map key).Nodup := by
  refine distinct.sublist ?_
  induction table with
  | nil => exact List.Sublist.slnil
  | cons row rest ih =>
    rw [map_cons, nodup_cons] at distinct
    cases changed : change row with
    | none => simpa [changed] using (ih distinct.2).cons (key row)
    | some kept => simpa [changed, keeps row kept changed] using (ih distinct.2).cons_cons (key row)

theorem keys_updateKey (target : κ) (change : α → α) (keeps : ∀ row, key (change row) = key row) (table : List α) :
    (updateKey key target change table).map key = table.map key := by
  unfold updateKey
  rw [map_map]
  apply map_congr_left
  intro row _
  by_cases own : key row = target <;> simp [own, keeps]

theorem keys_updateKeys (items : List β) (target : β → κ) (change : β → α → α)
    (keeps : ∀ item row, key (change item row) = key row) (table : List α) :
    (updateKeys key (items.map fun item => (target item, change item)) table).map key = table.map key := by
  induction items generalizing table with
  | nil => rfl
  | cons item rest ih =>
    rw [map_cons, updateKeys, foldl_cons, ← keys_updateKey (target item) (change item) (keeps item) table]
    exact ih _

end

/-! ## Groups -/

def groupBy [DecidableEq κ] (keys : List κ) (value : κ → β) : AList fun _ : κ => β where
  entries := keys.dedup.map fun key => ⟨key, value key⟩
  nodupKeys := by
    have keysOf : ((keys.dedup.map fun key => (⟨key, value key⟩ : Sigma fun _ : κ => β)).map Sigma.fst) = keys.dedup := by
      simp [Function.comp_def]
    rw [List.NodupKeys, List.keys, keysOf]
    exact keys.nodup_dedup

theorem lookup_groupBy [DecidableEq κ] (keys : List κ) (value : κ → β) (key : κ) :
    (groupBy keys value).lookup key = if key ∈ keys then some (value key) else none := by
  have entries (listed : List κ) : (listed.map fun key => (⟨key, value key⟩ : Sigma fun _ : κ => β)).dlookup key =
      if key ∈ listed then some (value key) else none := by
    induction listed with
    | nil => simp
    | cons other rest ih =>
      by_cases same : key = other
      · subst same
        simp
      · rw [map_cons, dlookup_cons_ne _ _ same, ih]
        simp [same]
  rw [AList.lookup, groupBy, entries]
  simp only [mem_dedup]

/-! ### Least and greatest of a group -/

theorem min?_congr [LinearOrder β] {first : List β} (same : ∀ value, value ∈ first ↔ value ∈ second) :
    first.min? = second.min? := by
  cases least : second.min? with
  | none =>
    rw [List.min?_eq_none_iff] at least ⊢
    subst least
    exact eq_nil_iff_forall_not_mem.mpr fun value member => not_mem_nil ((same value).mp member)
  | some bound =>
    rw [List.min?_eq_some_iff] at least ⊢
    exact ⟨(same bound).mpr least.1, fun value member => least.2 value ((same value).mp member)⟩

theorem min?_append [LinearOrder β] (first second : List β) :
    (first ++ second).min? = first.min?.merge min second.min? := by
  cases ahead : first.min? with
  | none =>
    rw [List.min?_eq_none_iff] at ahead
    rw [ahead, nil_append, Option.merge_none_left]
  | some low =>
    cases behind : second.min? with
    | none =>
      rw [List.min?_eq_none_iff] at behind
      rw [behind, append_nil, ahead, Option.merge_none_right]
    | some other =>
      rw [List.min?_eq_some_iff] at ahead behind
      rw [Option.merge_some_some, List.min?_eq_some_iff]
      constructor
      · rcases min_choice low other with least | least
        · rw [least]
          exact mem_append_left _ ahead.1
        · rw [least]
          exact mem_append_right _ behind.1
      · intro value member
        rcases mem_append.mp member with listed | listed
        · exact (min_le_left _ _).trans (ahead.2 value listed)
        · exact (min_le_right _ _).trans (behind.2 value listed)

theorem max?_congr [LinearOrder β] {first : List β} (same : ∀ value, value ∈ first ↔ value ∈ second) :
    first.max? = second.max? :=
  min?_congr (β := βᵒᵈ) same

theorem max?_append [LinearOrder β] (first second : List β) :
    (first ++ second).max? = first.max?.merge max second.max? :=
  min?_append (β := βᵒᵈ) first second

/-! ## Loops that can fail -/

section Loops

variable {ε β : Type}

theorem mapM_range_succ (turn : Nat → Except ε β) (n : Nat) :
    (List.range (n + 1)).mapM turn = (do
      let values ← (List.range n).mapM turn
      let value ← turn n
      .ok (values ++ [value])) := by
  rw [range_succ, mapM_append]
  cases (List.range n).mapM turn with
  | error failure => rfl
  | ok values =>
    cases last : turn n with
    | error failure => simp [last, bind, Except.bind]
    | ok value => simp [last, bind, Except.bind, pure, Except.pure]

variable {turn : Nat → Except ε β} {n : Nat}

theorem mapM_range_eq_ok :
    (∃ values, (List.range n).mapM turn = .ok values) ↔ ∀ j < n, ∃ value, turn j = .ok value := by
  induction n with
  | zero => exact iff_of_true ⟨[], rfl⟩ (by omega)
  | succ n ih =>
    rw [mapM_range_succ, Nat.forall_lt_succ_right, ← ih]
    cases (List.range n).mapM turn with
    | error failure => exact iff_of_false (by simp [bind, Except.bind]) (by simp)
    | ok values => cases turn n <;> simp [bind, Except.bind]

theorem mapM_range_eq_error {failure : ε} :
    (List.range n).mapM turn = .error failure ↔
      ∃ i < n, (∀ j < i, ∃ value, turn j = .ok value) ∧ turn i = .error failure := by
  induction n with
  | zero => exact iff_of_false (by simp [pure, Except.pure]) (by simp)
  | succ n ih =>
    rw [mapM_range_succ, Nat.exists_lt_succ_right, ← mapM_range_eq_ok (n := n)]
    refine Iff.trans ?_ (or_congr_left ih)
    cases (List.range n).mapM turn with
    | error other => simp [bind, Except.bind]
    | ok values => cases turn n <;> simp [bind, Except.bind]

end Loops

/-! ## Rows of one key behind a table -/

def Appended (key : α → κ) (own : κ) (table next : List α) : Prop :=
  ∃ rows, next = table ++ rows ∧ ∀ row ∈ rows, key row = own

section

variable {key : α → κ} {own : κ} {table next : List α}

theorem insertAll_appended (key : α → κ) (inputKey : β → κ) {toRow : β → α}
    (keeps : ∀ input, key (toRow input) = inputKey input) (conflicts : α → α → Bool) (inputs : List β) (table : List α)
    (same : ∀ other ∈ inputs.map inputKey, other = own) :
    Appended key own table (insertAll toRow conflicts inputs table) := by
  refine ⟨_, insertAll_eq toRow conflicts inputs table, ?_⟩
  intro row member
  obtain ⟨input, listed, rfl⟩ := mem_map.mp member
  rw [keeps]
  exact same _ (mem_map_of_mem (mem_of_mem_landed listed))

theorem Appended.mem_keys (appended : Appended key own table next) {other : κ} (member : other ∈ next.map key) :
    other ∈ table.map key ∨ other = own := by
  obtain ⟨rows, rfl, same⟩ := appended
  rw [map_append, mem_append] at member
  refine member.imp_right ?_
  intro behind
  obtain ⟨row, listed, rfl⟩ := mem_map.mp behind
  exact same row listed

theorem Appended.filter_ne [DecidableEq κ] (appended : Appended key own table next) (fresh : own ∉ table.map key) :
    next.filter (fun row => key row ≠ own) = table := by
  obtain ⟨rows, rfl, same⟩ := appended
  rw [filter_append, filter_eq_self.mpr, filter_eq_nil_iff.mpr, append_nil]
  · intro row listed
    simp [same row listed]
  · intro row stored
    have differs : key row ≠ own := fun equal => fresh (equal ▸ mem_map_of_mem stored)
    simpa using differs

end

end OpsIndexer.Lib.Table
