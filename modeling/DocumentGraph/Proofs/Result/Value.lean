import DocumentGraph.Proofs.Evaluate.Property
import DocumentGraph.Proofs.Graph.Index
import DocumentGraph.Proofs.Ordered
import DocumentGraph.Result.Table

namespace DocumentGraph

/-! When values are the same.

Values are the same when they have the same identity, which keeps of nodes and edges their ids only;
so sameness is an equivalence.  Among the values that one graph shows, where an id belongs to one
node or one edge, values are the same only if they are equal.
-/

namespace Value

mutual

/-- The value, with nothing of its nodes and edges but their ids. -/
def identity : Value → Value
  | list items => list (identities items)
  | node stored => node { id := stored.id }
  | edge stored => edge { id := stored.id, type := "", source := "", target := "" }
  | value => value

def identities : List Value → List Value
  | [] => []
  | item :: items => identity item :: identities items

end

mutual

theorem same_iff : ∀ left right : Value, left.same right = true ↔ left.identity = right.identity
  | list items, right => by cases right <;> simp [same, identity, sameItems_iff items]
  | null, right => by cases right <;> simp [same, identity]
  | boolean _, right => by cases right <;> simp [same, identity]
  | integer _, right => by cases right <;> simp [same, identity]
  | float _, right => by cases right <;> simp [same, identity]
  | string _, right => by cases right <;> simp [same, identity]
  | node _, right => by cases right <;> simp [same, identity]
  | edge _, right => by cases right <;> simp [same, identity]

theorem sameItems_iff : ∀ lefts rights : List Value,
    sameItems lefts rights = true ↔ identities lefts = identities rights
  | [], rights => by cases rights <;> simp [sameItems, identities]
  | left :: lefts, rights => by
      cases rights with
      | nil => simp [sameItems, identities]
      | cons right rights => simp [sameItems, identities, same_iff left right, sameItems_iff lefts]

end

theorem same_comm (left right : Value) : left.same right = right.same left := by
  rw [Bool.eq_iff_iff, same_iff, same_iff, eq_comm]

theorem sameItems_map {ι : Type} {items : List ι} {left right : ι → Value} :
    sameItems (items.map left) (items.map right) =
      items.all fun item => (left item).same (right item) := by
  induction items with
  | nil => rfl
  | cons item items ih => rw [List.map_cons, List.map_cons, sameItems, ih, List.all_cons]

theorem sameItems_of_both {common left right : List Value}
    (first : sameItems common left = true) (second : sameItems common right = true) :
    sameItems left right = true := by
  rw [sameItems_iff] at first second ⊢
  exact first.symm.trans second

theorem identity_of_flat {value : Value} (flat : value.Flat) : value.identity = value := by
  cases value with
  | list items =>
      have kept : identities items = items := by
        induction items with
        | nil => rfl
        | cons item items ih =>
            obtain ⟨⟨text, rfl⟩, others⟩ := List.forall_mem_cons.mp flat
            exact congrArg (string text :: ·) (ih others)
      rw [identity, kept]
  | node stored => contradiction
  | edge stored => contradiction
  | _ => rfl

/-- A value that comes from a graph: one of its nodes or edges, or what a property can be. -/
inductive Shown (graph : Graph) : Value → Prop where
  | flat {value : Value} : value.Flat → Shown graph value
  | node {stored : Node} : stored ∈ graph.nodes.toList → Shown graph (.node stored)
  | edge {stored : Edge} : stored ∈ graph.edges.toList → Shown graph (.edge stored)

variable {graph : Graph} {left right : Value}

theorem Flat.of_identity (flat : left.Flat) (same : left.identity = right.identity) :
    right.identity.Flat := by
  rwa [← same, identity_of_flat flat]

theorem Shown.eq_of_identity (indexed : graph.Indexed) (first : left.Shown graph)
    (second : right.Shown graph) (same : left.identity = right.identity) : left = right := by
  cases first with
  | flat flat =>
      have flat' := flat.of_identity same
      cases second with
      | flat other => rwa [identity_of_flat flat, identity_of_flat other] at same
      | node member => contradiction
      | edge member => contradiction
  | node member =>
      cases second with
      | flat flat => exact (flat.of_identity same.symm).elim
      | node member' =>
          have ids := congrArg Node.id (Value.node.inj same)
          exact congrArg Value.node (indexed.node_eq_of_id member member' ids)
      | edge member' => contradiction
  | edge member =>
      cases second with
      | flat flat => exact (flat.of_identity same.symm).elim
      | node member' => contradiction
      | edge member' =>
          have ids := congrArg Edge.id (Value.edge.inj same)
          exact congrArg Value.edge (indexed.edge_eq_of_id member member' ids)

theorem Shown.same_iff_eq (indexed : graph.Indexed) (first : left.Shown graph)
    (second : right.Shown graph) : left.same right = true ↔ left = right := by
  rw [same_iff]
  exact ⟨first.eq_of_identity indexed second, congrArg identity⟩

theorem eq_of_identities (indexed : graph.Indexed) {lefts rights : List Value}
    (first : ∀ left ∈ lefts, left.Shown graph) (second : ∀ right ∈ rights, right.Shown graph)
    (same : identities lefts = identities rights) : lefts = rights := by
  induction lefts generalizing rights with
  | nil =>
      cases rights with
      | nil => rfl
      | cons right rights => contradiction
  | cons left lefts ih =>
      cases rights with
      | nil => contradiction
      | cons right rights =>
          obtain ⟨here, others⟩ := List.cons.inj same
          obtain ⟨shown, lefts_shown⟩ := List.forall_mem_cons.mp first
          obtain ⟨shown', rights_shown⟩ := List.forall_mem_cons.mp second
          rw [shown.eq_of_identity indexed shown' here, ih lefts_shown rights_shown others]

theorem exact_same (indexed : graph.Indexed) {values : List Value}
    (shown : ∀ value ∈ values, value.Shown graph) : Ordered.Exact same values :=
  fun left first right second => (shown left first).same_iff_eq indexed (shown right second)

theorem exact_sameItems (indexed : graph.Indexed) {keys : List (List Value)}
    (shown : ∀ key ∈ keys, ∀ value ∈ key, value.Shown graph) : Ordered.Exact sameItems keys := by
  intro left first right second
  rw [sameItems_iff]
  exact ⟨eq_of_identities indexed (shown left first) (shown right second), congrArg identities⟩

end Value

namespace Row

variable {graph : Graph}

theorem same_comm (left right : Row) : left.same right = right.same left := by
  induction left generalizing right with
  | nil => cases right <;> rfl
  | cons cell left ih =>
      cases right with
      | nil => rfl
      | cons cell' right =>
          simp only [same, ih, Value.same_comm cell.2, eq_comm]

/-- Rows that are the same show the same in every column. -/
theorem same_get? {left right : Row} (alike : left.same right = true) {column : String}
    {value value' : Value} (shows : left.get? column = some value)
    (shows' : right.get? column = some value') : value.same value' = true := by
  induction left generalizing right with
  | nil => contradiction
  | cons cell left ih =>
      cases right with
      | nil => contradiction
      | cons cell' right =>
          obtain ⟨name, first⟩ := cell
          obtain ⟨name', first'⟩ := cell'
          simp only [same, Bool.and_eq_true, decide_eq_true_eq] at alike
          obtain ⟨⟨rfl, equal⟩, others⟩ := alike
          rw [get?, List.lookup_cons] at shows shows'
          cases here : column == name with
          | true =>
              rw [here] at shows shows'
              exact Option.some.inj shows ▸ Option.some.inj shows' ▸ equal
          | false =>
              rw [here] at shows shows'
              exact ih others shows shows'

/-- Every cell shows a value of the graph. -/
def Shown (graph : Graph) (row : Row) : Prop :=
  ∀ cell ∈ row, cell.2.Shown graph

theorem same_iff_eq (indexed : graph.Indexed) {left right : Row} (first : left.Shown graph)
    (second : right.Shown graph) : left.same right = true ↔ left = right := by
  induction left generalizing right with
  | nil => cases right <;> simp [same]
  | cons cell left ih =>
      cases right with
      | nil => simp [same]
      | cons cell' right =>
          obtain ⟨shown, others⟩ := List.forall_mem_cons.mp first
          obtain ⟨shown', others'⟩ := List.forall_mem_cons.mp second
          simp only [same, Bool.and_eq_true, decide_eq_true_eq, shown.same_iff_eq indexed shown',
            ih others others', List.cons.injEq, Prod.ext_iff]

theorem exact_same (indexed : graph.Indexed) {rows : List Row}
    (shown : ∀ row ∈ rows, row.Shown graph) : Ordered.Exact same rows :=
  fun left first right second => same_iff_eq indexed (shown left first) (shown right second)

end Row

end DocumentGraph
