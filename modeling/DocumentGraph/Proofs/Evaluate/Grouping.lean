import DocumentGraph.Proofs.Evaluate.Projection
import DocumentGraph.Proofs.Result.Value
import Mathlib.Algebra.GroupWithZero.Nat

namespace DocumentGraph

open Match (Bindings)
open Query (ReturnItem)

/-! Groups.

Binding sets join groups one after the other.  In the end there is a group for every key, in the
order in which the keys first occur, and its members are the binding sets with that key, in their
order.
-/

namespace Value

theorem sameItems_refl (items : List Value) : sameItems items items = true :=
  (sameItems_iff items items).mpr rfl

/-- What is the same as a third is the same. -/
theorem sameItems_of_common {left right common : List Value}
    (first : sameItems left common = true) (second : sameItems right common = true) :
    sameItems left right = true := by
  rw [sameItems_iff] at first second ⊢
  exact first.trans second.symm

end Value

namespace Evaluate

open Value (sameItems)

variable {items : List ReturnItem} {bindings : Bindings} {sets : List Bindings}
  {keyOf : Bindings → List Value}

/-- The value of an item, or NULL where it fails. -/
def itemOf (bindings : Bindings) (item : ReturnItem) : Value :=
  (itemValue bindings item.expression).valueOr .null

theorem value_itemValue (bound : BindsItems items bindings) :
    ∀ item ∈ items, (itemValue bindings item.expression).run.value = .ok (itemOf bindings item) :=
  fun item member => (meets_itemValue (bound.admits item member)).succeeds.value_eq .null

/-- The values that decide the group of a binding set. -/
def groupingKey (items : List ReturnItem) (bindings : Bindings) : List Value :=
  (items.filter fun item => !item.expression.isAggregate).map (itemOf bindings)

theorem value_groupKey (bound : BindsItems items bindings) :
    (groupKey items bindings).run.value = .ok (groupingKey items bindings) :=
  congrArg Noted.value <| Evaluation.run_mapM fun item member =>
    value_itemValue bound item (List.mem_of_mem_filter member)

/-- A group for every key, with the binding sets that have the key. -/
def groupsBy (keyOf : Bindings → List Value) (sets : List Bindings) : List Group :=
  (Ordered.distinctBy sameItems (sets.map keyOf)).map fun key =>
    { key, members := sets.filter fun bindings => sameItems key (keyOf bindings) }

/-- At most one group has the key that a binding set joins with. -/
theorem joinGroup_map {keys : List (List Value)} (members : List Value → List Bindings)
    (apart : keys.Pairwise fun early late => sameItems early late = false) (key : List Value)
    (member : Bindings) :
    joinGroup key member (keys.map fun known => { key := known, members := members known }) =
      if keys.any (sameItems · key) then
        keys.map fun known =>
          { key := known
            members := if sameItems known key then members known ++ [member] else members known }
      else
        keys.map (fun known => { key := known, members := members known }) ++
          [{ key, members := [member] }] := by
  induction keys with
  | nil => rfl
  | cons first rest ih =>
      obtain ⟨different, others⟩ := List.pairwise_cons.mp apart
      rw [List.map_cons, joinGroup, List.any_cons]
      cases joins : sameItems first key with
      | true =>
          -- A later group with the key would have the key of the first.
          have kept : ∀ known ∈ rest, sameItems known key = false := by
            intro known later
            by_contra same
            have equal := Value.sameItems_of_common joins (eq_true_of_ne_false same)
            rw [different known later] at equal
            contradiction
          rw [if_pos rfl, if_pos (by rfl), List.map_cons, if_pos joins]
          congr 1
          apply List.map_congr_left
          intro known later
          rw [kept known later]
          rfl
      | false =>
          rw [if_neg Bool.false_ne_true, ih others, Bool.false_or]
          split
          · rw [List.map_cons, joins]
            rfl
          · rfl

theorem groupsBy_concat (keyOf : Bindings → List Value) (sets : List Bindings) (last : Bindings) :
    joinGroup (keyOf last) last (groupsBy keyOf sets) = groupsBy keyOf (sets ++ [last]) := by
  have members (key : List Value) :
      (sets ++ [last]).filter (fun bindings => sameItems key (keyOf bindings)) =
        if sameItems key (keyOf last) then
          sets.filter (fun bindings => sameItems key (keyOf bindings)) ++ [last]
        else sets.filter fun bindings => sameItems key (keyOf bindings) := by
    rw [List.filter_append, List.filter_singleton]
    cases sameItems key (keyOf last) with
    | true => rfl
    | false => exact List.append_nil _
  rw [groupsBy, joinGroup_map _ (Ordered.distinctBy_pairwise _ _), groupsBy, List.map_append,
    List.map_singleton, Ordered.distinctBy_concat]
  split
  · simp only [members]
  · rename_i fresh
    have new : ∀ known ∈ Ordered.distinctBy sameItems (sets.map keyOf),
        sameItems known (keyOf last) = false := by
      simpa using fresh
    -- An earlier binding set with the key would have left a group for it.
    have alone : sets.filter (fun bindings => sameItems (keyOf last) (keyOf bindings)) = [] := by
      refine List.filter_eq_nil_iff.mpr fun bindings member same => ?_
      obtain ⟨known, stays, equal⟩ := Ordered.exists_mem_distinctBy Value.sameItems_refl
        (List.mem_map_of_mem member : keyOf bindings ∈ sets.map keyOf)
      have joined := Value.sameItems_of_common equal same
      rw [new known stays] at joined
      contradiction
    rw [List.map_append, List.map_singleton, members, if_pos (Value.sameItems_refl _), alone]
    congr 1
    apply List.map_congr_left
    intro known stays
    rw [members, new known stays]
    rfl

theorem foldl_joinGroup (keyOf : Bindings → List Value) (sets : List Bindings) :
    sets.foldl (fun found bindings => joinGroup (keyOf bindings) bindings found) [] =
      groupsBy keyOf sets := by
  induction sets using List.reverseRecOn with
  | nil => rfl
  | append_singleton sets last ih =>
      rw [List.foldl_append, ih]
      exact groupsBy_concat keyOf sets last

theorem size_joinGroup (key : List Value) (member : Bindings) (found : List Group) :
    ((joinGroup key member found).map fun group => group.members.length).sum =
      (found.map fun group => group.members.length).sum + 1 := by
  induction found with
  | nil => rfl
  | cons group rest ih =>
      rw [joinGroup]
      split
      · simp only [List.map_cons, List.sum_cons, List.length_append, List.length_singleton]
        omega
      · rw [List.map_cons, List.sum_cons, ih, List.map_cons, List.sum_cons, Nat.add_assoc]

/-- Every binding set is in one group. -/
theorem size_groupsBy (keyOf : Bindings → List Value) (sets : List Bindings) :
    ((groupsBy keyOf sets).map fun group => group.members.length).sum = sets.length := by
  induction sets using List.reverseRecOn with
  | nil => rfl
  | append_singleton sets last ih =>
      rw [← groupsBy_concat, size_joinGroup, ih, List.length_append, List.length_singleton]

/-- Every group has a member whose key is the group's. -/
theorem exists_member_groupsBy {group : Group} (found : group ∈ groupsBy keyOf sets) :
    ∃ bindings ∈ group.members, bindings ∈ sets ∧ group.key = keyOf bindings := by
  obtain ⟨key, kept, rfl⟩ := List.mem_map.mp found
  obtain ⟨bindings, member, rfl⟩ := List.mem_map.mp ((Ordered.distinctBy_sublist _ _).subset kept)
  exact ⟨bindings, List.mem_filter.mpr ⟨member, Value.sameItems_refl _⟩, member, rfl⟩

theorem run_groups_of_keys
    (given : ∀ bindings ∈ sets, (groupKey items bindings).run.value = .ok (keyOf bindings)) :
    (groups items sets).run = {
      value := .ok (if (groupsBy keyOf sets).isEmpty && items.all (·.expression.isAggregate) then
          [{ key := [], members := [] }]
        else groupsBy keyOf sets)
      warnings := sets.flatMap fun bindings => (groupKey items bindings).run.warnings } := by
  have joined := Evaluation.run_foldlM (fun bindings key found => joinGroup key bindings found)
    given []
  rw [foldl_joinGroup] at joined
  rw [groups, Evaluation.run_bind_of_ok (congrArg Noted.value joined), joined]
  split <;> simp

theorem run_groups (bound : ∀ bindings ∈ sets, BindsItems items bindings) :
    (groups items sets).run = {
      value := .ok (if (groupsBy (groupingKey items) sets).isEmpty &&
          items.all (·.expression.isAggregate) then [{ key := [], members := [] }]
        else groupsBy (groupingKey items) sets)
      warnings := sets.flatMap fun bindings => (groupKey items bindings).run.warnings } :=
  run_groups_of_keys fun bindings member => value_groupKey (bound bindings member)

/-- The row of a binding set is filled item by item. -/
theorem rowOf_eq_foldl (bound : BindsItems items bindings) :
    rowOf items bindings = items.foldl
      (fun (row : Row) item => row.put item.columnName (itemOf bindings item)) [] := by
  have filled := Evaluation.run_foldlM
    (fun (item : ReturnItem) value (row : Row) => row.put item.columnName value)
    (value_itemValue bound) []
  exact Except.ok.inj ((value_plainRow bound).symm.trans (congrArg Noted.value filled))

/-- The row of a group whose members bind the variables of the items. -/
def groupRowOf (items : List ReturnItem) (group : Group) : Row :=
  (groupRow items group).valueOr []

theorem value_groupRow {group : Group}
    (bound : ∀ bindings ∈ group.members, BindsItems items bindings) :
    (groupRow items group).run.value = .ok (groupRowOf items group) :=
  (meets_groupRow fun bindings member => (bound bindings member).admits).succeeds.value_eq []

end Evaluate

end DocumentGraph
