import OpsIndexer.Lib.Separated
import OpsIndexer.Rpc.Trace

/-!
# Call trees and their paths

The flattened list names each frame by its comma-joined path. A path determines its frame, the text of a path
determines the path, and the texts cut at a comma are those of the enclosing frames below the root.
-/

namespace OpsIndexer.Rpc

open Eth OpsIndexer.Types Lib.Separated List

def frameAt : CallFrame → List Nat → Option FrameFields
  | .mk fields _, [] => some fields
  | .mk _ calls, index :: path =>
    match calls[index]? with
    | none => none
    | some call => frameAt call path

mutual

theorem frameAt_of_mem_preorder (frame : CallFrame) (path : List Nat) (entry : List Nat × FrameFields)
    (member : entry ∈ preorder frame path) :
    ∃ below, entry.1 = path ++ below ∧ frameAt frame below = some entry.2 := by
  cases frame with
  | mk fields calls =>
    rw [preorder, mem_cons] at member
    rcases member with rfl | member
    · exact ⟨[], (append_nil path).symm, rfl⟩
    · obtain ⟨offset, call, below, found, same, reached⟩ := frameAt_of_mem_children calls path 0 entry member
      refine ⟨offset :: below, by simpa using same, ?_⟩
      rw [frameAt, found]
      exact reached

theorem frameAt_of_mem_children (calls : List CallFrame) (path : List Nat) (index : Nat)
    (entry : List Nat × FrameFields) (member : entry ∈ preorder.children calls path index) :
    ∃ offset call below, calls[offset]? = some call ∧ entry.1 = path ++ (index + offset) :: below ∧
      frameAt call below = some entry.2 := by
  cases calls with
  | nil => simp [preorder.children] at member
  | cons call rest =>
    rw [preorder.children, mem_append] at member
    rcases member with first | later
    · obtain ⟨below, same, reached⟩ := frameAt_of_mem_preorder call (path ++ [index]) entry first
      exact ⟨0, call, below, rfl, by simpa using same, reached⟩
    · obtain ⟨offset, other, below, found, same, reached⟩ := frameAt_of_mem_children rest path (index + 1) entry later
      exact ⟨offset + 1, other, below, by simpa using found, by rw [same]; congr 2; omega, reached⟩

end

mutual

theorem mem_preorder_of_frameAt (frame : CallFrame) (path below : List Nat) (fields : FrameFields)
    (reached : frameAt frame below = some fields) : (path ++ below, fields) ∈ preorder frame path := by
  cases frame with
  | mk own calls =>
    rw [preorder]
    cases below with
    | nil =>
      rw [frameAt, Option.some.injEq] at reached
      simp [reached]
    | cons offset below =>
      rw [frameAt] at reached
      cases found : calls[offset]? with
      | none => simp [found] at reached
      | some call =>
        rw [found] at reached
        have member := mem_children_of_frameAt calls path 0 offset below call fields found reached
        rw [Nat.zero_add] at member
        exact mem_cons_of_mem _ member

theorem mem_children_of_frameAt (calls : List CallFrame) (path : List Nat) (index offset : Nat) (below : List Nat)
    (call : CallFrame) (fields : FrameFields) (found : calls[offset]? = some call)
    (reached : frameAt call below = some fields) :
    (path ++ (index + offset) :: below, fields) ∈ preorder.children calls path index := by
  cases calls with
  | nil => simp at found
  | cons first rest =>
    rw [preorder.children, mem_append]
    cases offset with
    | zero =>
      rw [List.getElem?_cons_zero, Option.some.injEq] at found
      have member := mem_preorder_of_frameAt first (path ++ [index]) below fields (found ▸ reached)
      rw [append_assoc, singleton_append] at member
      exact .inl member
    | succ offset =>
      rw [List.getElem?_cons_succ] at found
      have member := mem_children_of_frameAt rest path (index + 1) offset below call fields found reached
      have same : index + (offset + 1) = index + 1 + offset := by omega
      rw [same]
      exact .inr member

end

theorem mem_drop_preorder (root : CallFrame) (path : List Nat) (fields : FrameFields) :
    (path, fields) ∈ (preorder root []).drop 1 ↔ path ≠ [] ∧ frameAt root path = some fields := by
  cases root with
  | mk own calls =>
    rw [preorder, drop_one, tail_cons]
    constructor
    · intro member
      obtain ⟨offset, call, below, found, same, reached⟩ := frameAt_of_mem_children calls [] 0 (path, fields) member
      rw [nil_append, Nat.zero_add] at same
      dsimp only at same
      rw [same, frameAt, found]
      exact ⟨cons_ne_nil _ _, reached⟩
    · intro below
      cases path with
      | nil => exact absurd rfl below.1
      | cons offset path =>
        have member := mem_preorder_of_frameAt (.mk own calls) [] (offset :: path) fields below.2
        rw [preorder, mem_cons] at member
        rcases member with same | member
        · simp at same
        · exact member

/-! ## The texts of paths -/

def pathParts (path : List Nat) : List (List Char) :=
  path.map fun step => (toString step).toList

theorem toList_traceAddress (path : List Nat) : (traceAddress path).toList = [','].intercalate (pathParts path) := by
  rw [traceAddress, String.toList_intercalate, map_map]
  rfl

theorem pathParts_parts (path : List Nat) : Parts ',' (pathParts path) := by
  constructor
  · intro part member
    obtain ⟨step, _, rfl⟩ := mem_map.mp member
    simp
  · intro part member comma
    obtain ⟨step, _, rfl⟩ := mem_map.mp member
    rw [Nat.toString_eq_repr, Nat.toList_repr] at comma
    exact absurd (Nat.isDigit_of_mem_toDigits (by omega) (by omega) comma) (by decide)

theorem pathParts_injective {first second : List Nat} (same : pathParts first = pathParts second) : first = second := by
  refine map_injective_iff.mpr ?_ same
  intro step other texts
  exact Nat.repr_inj.mp (String.toList_injective texts)

theorem traceAddress_inj (first second : List Nat) : traceAddress first = traceAddress second ↔ first = second := by
  constructor
  · intro same
    apply pathParts_injective
    apply intercalate_injective (pathParts_parts first) (pathParts_parts second)
    rw [← toList_traceAddress, ← toList_traceAddress, same]
  · intro same
    rw [same]

theorem cut_traceAddress (path : List Nat) (left : List Char) :
    (∃ index, 0 < index ∧ (traceAddress path).toList[index]? = some ',' ∧
        (traceAddress path).toList.take index = left) ↔
      ∃ count, 0 < count ∧ count < path.length ∧ left = (traceAddress (path.take count)).toList := by
  have cut := cut_iff (pathParts_parts path) left
  have length : (pathParts path).length = path.length := length_map _
  have front (count : Nat) : [','].intercalate ((pathParts path).take count) =
      (traceAddress (path.take count)).toList := by
    rw [toList_traceAddress, pathParts, ← map_take]
    rfl
  simp only [← toList_traceAddress, length, front] at cut
  rw [← cut]
  constructor
  · intro found
    obtain ⟨index, _, comma, rfl⟩ := found
    obtain ⟨inside, comma⟩ := List.getElem?_eq_some_iff.mp comma
    refine ⟨(traceAddress path).toList.drop (index + 1), ?_⟩
    rw [← comma, getElem_cons_drop, take_append_drop]
  · intro found
    obtain ⟨right, split⟩ := found
    obtain ⟨count, positive, below, same⟩ := cut.mp ⟨right, split⟩
    have filled : left ≠ [] := by
      rw [same, toList_traceAddress]
      apply intercalate_ne_nil (pathParts_parts _)
      intro empty
      have short := congrArg List.length empty
      rw [pathParts, length_map, length_take, length_nil] at short
      omega
    refine ⟨left.length, length_pos_iff.mpr filled, ?_, ?_⟩
    · rw [split, List.getElem?_append_right (le_refl _), Nat.sub_self, List.getElem?_cons_zero]
    · rw [split, take_left]

/-! ## The frames of one fetch -/

def traceOf (tracer : Tracer) (blockNumber : Nat) (hash : Hash) : Except TraceFailure CallFrame :=
  match tracer.traceBlock blockNumber with
  | some (first :: rest) => blockTrace (first :: rest) hash
  | _ => transactionTrace tracer hash

def framesOfHash (tracer : Tracer) (blockNumber timestamp : Nat) (hash : Hash) : List InternalTransaction :=
  match traceOf tracer blockNumber hash with
  | .ok root => ((preorder root []).drop 1).map fun entry =>
      internalTransaction (Hash.hex hash) blockNumber timestamp entry.1 entry.2
  | .error _ => []

private theorem mapM_flatten {α β : Type} (produce : α → Option (List β)) (rows : α → List β)
    (agree : ∀ input list, produce input = some list → list = rows input) (inputs : List α) (lists : List (List β))
    (done : inputs.mapM produce = some lists) : lists.flatten = inputs.flatMap rows := by
  induction inputs generalizing lists with
  | nil =>
    simp only [mapM_nil, Option.pure_def, Option.some.injEq] at done
    rw [← done]
    rfl
  | cons input rest ih =>
    rw [mapM_cons] at done
    obtain ⟨list, first, done⟩ := Option.bind_eq_some_iff.mp done
    obtain ⟨others, later, done⟩ := Option.bind_eq_some_iff.mp done
    simp only [Option.pure_def, Option.some.injEq] at done
    rw [← done, flatten_cons, ih others later, agree input list first, flatMap_cons]

/-- A fetch that succeeds returns the frames of each transaction, in the order of the list or of the workers. -/
theorem fetchTraces_frames {tracer : Tracer} {mode : TraceMode} {hashes : List Hash} {blockNumber timestamp : Nat}
    {frames : List InternalTransaction} (fetched : fetchTraces tracer mode hashes blockNumber timestamp = some frames) :
    ∃ order : List Hash, order.Perm hashes ∧ frames = order.flatMap (framesOfHash tracer blockNumber timestamp) := by
  have agree (hash : Hash) (list : List InternalTransaction)
      (kept : framesBelowRoot mode blockNumber timestamp (traceOf tracer blockNumber) hash = some list) :
      list = framesOfHash tracer blockNumber timestamp hash := by
    unfold framesBelowRoot at kept
    unfold framesOfHash
    cases trace : traceOf tracer blockNumber hash with
    | ok root =>
      rw [trace, Option.some.injEq] at kept
      rw [← kept, flattenCallFrame, ← map_drop]
    | error failure =>
      simp only [trace] at kept
      split at kept
      · cases kept
      · exact (Option.some.inj kept).symm
  unfold fetchTraces at fetched
  unfold traceOf at agree
  split at fetched
  · next first rest block =>
    rw [block] at agree
    obtain ⟨lists, done, rfl⟩ := Option.map_eq_some_iff.mp fetched
    exact ⟨hashes, .refl _, mapM_flatten _ _ agree hashes lists done⟩
  · next missing =>
    obtain ⟨lists, done, rfl⟩ := Option.map_eq_some_iff.mp fetched
    refine ⟨tracer.schedule hashes, tracer.schedule_perm hashes, mapM_flatten _ _ ?_ _ lists done⟩
    intro hash list kept
    apply agree hash list
    split
    · next first rest block => exact absurd block (missing first rest)
    · exact kept

/-! ## Creations -/

def FrameFields.creates (fields : FrameFields) : Bool :=
  (callType fields.type = .create || callType fields.type = .create2) && fields.toAddress ≠ "" && fields.error = ""

def failsAt (root : CallFrame) (path : List Nat) : Bool :=
  (frameAt root path).any fun fields => fields.error ≠ ""

theorem failsAt_root (root : CallFrame) : failsAt root [] = decide (root.fields.error ≠ "") := by
  cases root with
  | mk own calls => rfl

/-- The creations below the root that took effect: no enclosing frame has an error, the root included. -/
def effectiveCreations (root : CallFrame) : List (List Nat × FrameFields) :=
  ((preorder root []).drop 1).filter fun entry => entry.2.creates &&
    (List.range entry.1.length).all fun count => !failsAt root (entry.1.take count)

def creationsBelowRoot (root : CallFrame) : List (List Nat × FrameFields) :=
  ((preorder root []).drop 1).filter fun entry => entry.2.creates &&
    (List.range entry.1.length).all fun count => count = 0 || !failsAt root (entry.1.take count)

theorem effectiveCreations_of_failed (root : CallFrame) (failed : root.fields.error ≠ "") :
    effectiveCreations root = [] := by
  rw [effectiveCreations, filter_eq_nil_iff]
  intro entry member
  obtain ⟨path, fields⟩ := entry
  have below := (mem_drop_preorder root path fields).mp member
  have atRoot : failsAt root [] = true := by rw [failsAt_root, decide_eq_true_eq.mpr failed]
  simp only [Bool.and_eq_true, all_eq_true, not_and, not_forall]
  intro _
  exact ⟨0, by simpa [length_pos_iff] using below.1, by simp [atRoot]⟩

theorem effectiveCreations_of_passed (root : CallFrame) (passed : root.fields.error = "") :
    effectiveCreations root = creationsBelowRoot root := by
  have atRoot : failsAt root [] = false := by simp [failsAt_root, passed]
  unfold effectiveCreations creationsBelowRoot
  congr 1
  funext entry
  congr 2
  funext count
  cases count with
  | zero => simp [atRoot]
  | succ count => simp

end OpsIndexer.Rpc
