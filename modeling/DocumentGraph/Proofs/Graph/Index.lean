import DocumentGraph.Graph.Snapshot
import Mathlib.Data.List.Induction
import Mathlib.Data.List.Nodup

namespace DocumentGraph.Graph

/-! The indices of a graph.

`Indexed` says what every index holds in terms of the two lists of elements.  Both changes of
a graph preserve it, and under it each observation is a search of those lists.
-/

/-- An index of keys that finds each key where the list has it. -/
def PlacesOf (places : Std.TreeMap String Nat) (keys : List String) : Prop :=
  ∀ (key : String) (place : Nat), places[key]? = some place ↔ keys[place]? = some key

/-- An index that lists, for each key, all places where the list has it. -/
def AdjacencyOf (places : Std.TreeMap String (List Nat)) (keys : List String) : Prop :=
  ∀ key : String, places[key]?.getD [] =
    (List.range keys.length).filter fun place => keys[place]? = some key

theorem getElem?_concat_eq_some {α : Type} {values : List α} {last value : α} {place : Nat} :
    (values ++ [last])[place]? = some value ↔
      values[place]? = some value ∨ place = values.length ∧ last = value := by
  rcases Nat.lt_trichotomy place values.length with inside | rfl | beyond
  · simp [List.getElem?_append_left inside, Nat.ne_of_lt inside]
  · simp
  · have outside : (values ++ [last]).length ≤ place := by simp; omega
    simp [List.getElem?_eq_none outside, List.getElem?_eq_none (Nat.le_of_lt beyond),
      Nat.ne_of_gt beyond]

theorem find?_key_eq_some_iff {α : Type} {keyOf : α → String} {values : List α} {key : String}
    {value : α} (distinct : (values.map keyOf).Nodup) :
    values.find? (fun value => keyOf value = key) = some value ↔
      value ∈ values ∧ keyOf value = key := by
  constructor
  · intro found
    exact ⟨List.mem_of_find?_eq_some found, by simpa using List.find?_some found⟩
  · intro known
    obtain ⟨member, rfl⟩ := known
    have present : (values.find? fun other => keyOf other = keyOf value).isSome := by
      rw [List.find?_isSome]
      exact ⟨value, member, by simp⟩
    obtain ⟨other, found⟩ := Option.isSome_iff_exists.mp present
    have same : keyOf other = keyOf value := by simpa using List.find?_some found
    rw [found, List.inj_on_of_nodup_map distinct (List.mem_of_find?_eq_some found) member same]

namespace PlacesOf

variable {places : Std.TreeMap String Nat} {keys : List String} {key : String}

theorem contains_iff (indexed : PlacesOf places keys) :
    places.contains key = true ↔ key ∈ keys := by
  rw [Std.TreeMap.contains_eq_isSome_getElem?, Option.isSome_iff_exists, List.mem_iff_getElem?]
  exact exists_congr fun place => indexed key place

theorem getElem?_eq_none_iff (indexed : PlacesOf places keys) :
    places[key]? = none ↔ key ∉ keys := by
  rw [← indexed.contains_iff, Std.TreeMap.contains_eq_isSome_getElem?]
  simp

theorem nodup (indexed : PlacesOf places keys) : keys.Nodup := by
  rw [List.nodup_iff_getElem?_ne_getElem?]
  intro left right before bound same
  have inside : left < keys.length := by omega
  have foundLeft := (indexed keys[left] left).mpr (List.getElem?_eq_getElem inside)
  have foundRight := (indexed keys[left] right).mpr
    (same.symm.trans (List.getElem?_eq_getElem inside))
  have equal : left = right := Option.some.inj (foundLeft.symm.trans foundRight)
  omega

theorem empty : PlacesOf {} [] := by
  intro key place
  simp

theorem insert (indexed : PlacesOf places keys) (fresh : key ∉ keys) :
    PlacesOf (places.insert key keys.length) (keys ++ [key]) := by
  intro other place
  rw [Std.TreeMap.getElem?_insert, getElem?_concat_eq_some]
  by_cases same : key = other
  · subst same
    have elsewhere : keys[place]? ≠ some key := fun found =>
      fresh (List.mem_of_getElem? found)
    simp [elsewhere, eq_comm]
  · have different : ¬ compare key other = .eq := by simpa using same
    rw [if_neg different, indexed other place]
    simp [same]

/-- Looking a key up in the index, and then the place in the list, is a search of the list. -/
theorem bind_getElem? {α : Type} {keyOf : α → String} {values : Array α}
    (indexed : PlacesOf places (values.toList.map keyOf)) (key : String) :
    (places[key]?.bind fun place => values[place]?) =
      values.toList.find? fun value => keyOf value = key := by
  cases found : places[key]? with
  | none =>
      have absent := indexed.getElem?_eq_none_iff.mp found
      symm
      simp only [Option.bind_none, List.find?_eq_none, decide_eq_true_eq]
      intro value member same
      exact absent (List.mem_map.mpr ⟨value, member, same⟩)
  | some place =>
      have there := (indexed key place).mp found
      rw [List.getElem?_map, Option.map_eq_some_iff] at there
      obtain ⟨value, stored, same⟩ := there
      obtain ⟨inside, rfl⟩ := List.getElem?_eq_some_iff.mp stored
      rw [Option.bind_some, ← Array.getElem?_toList, stored]
      symm
      rw [List.find?_eq_some_iff_getElem]
      refine ⟨by simpa using same, place, inside, rfl, ?_⟩
      intro earlier before
      have bound : earlier < values.toList.length := by omega
      simp only [Bool.not_eq_true', decide_eq_false_iff_not]
      intro sameEarlier
      have foundEarlier := (indexed key earlier).mpr (by
        rw [List.getElem?_map, List.getElem?_eq_getElem bound, Option.map_some, sameEarlier])
      have equal : place = earlier := Option.some.inj (found.symm.trans foundEarlier)
      omega

end PlacesOf

namespace AdjacencyOf

variable {places : Std.TreeMap String (List Nat)} {keys : List String}

theorem empty : AdjacencyOf {} [] := by
  intro key
  simp

theorem insert (indexed : AdjacencyOf places keys) (key : String) :
    AdjacencyOf (places.insert key (places[key]?.getD [] ++ [keys.length])) (keys ++ [key]) := by
  intro other
  have earlier : (List.range keys.length).filter
      (fun place => (keys ++ [key])[place]? = some other) = places[other]?.getD [] := by
    rw [indexed other]
    apply List.filter_congr
    intro place member
    rw [List.getElem?_append_left (List.mem_range.mp member)]
  rw [List.length_append, List.length_singleton, List.range_succ, List.filter_append, earlier,
    Std.TreeMap.getElem?_insert]
  by_cases same : key = other
  · subst same; simp
  · simp [same]

/-- The elements at the listed places are those whose key is asked for, in their order. -/
theorem filterMap_getElem? {α : Type} {keyOf : α → String} {values : Array α}
    (indexed : AdjacencyOf places (values.toList.map keyOf)) (key : String) :
    (places[key]?.getD []).filterMap (values[·]?) =
      values.toList.filter fun value => keyOf value = key := by
  rw [indexed key, List.length_map]
  simp only [← Array.getElem?_toList]
  induction values.toList using List.reverseRecOn with
  | nil => rfl
  | append_singleton values last ih =>
      have earlier : ((List.range values.length).filter fun place =>
            ((values ++ [last]).map keyOf)[place]? = some key).filterMap
              ((values ++ [last])[·]?) =
          values.filter fun value => keyOf value = key := by
        rw [← ih, List.filter_congr (q := fun place => (values.map keyOf)[place]? = some key)]
        · apply List.filterMap_congr
          intro place member
          have inside := List.mem_range.mp (List.mem_of_mem_filter member)
          rw [List.getElem?_append_left inside]
        · intro place member
          have inside := List.mem_range.mp member
          simp only [List.getElem?_map, List.getElem?_append_left inside]
      rw [List.length_append, List.length_singleton, List.range_succ, List.filter_append,
        List.filterMap_append, earlier, List.filter_append]
      by_cases same : keyOf last = key <;> simp [same]

end AdjacencyOf

/-- Every index agrees with the elements, and every edge has its ends in the graph. -/
structure Indexed (graph : Graph) : Prop where
  nodes : PlacesOf graph.nodePlaces (graph.nodes.toList.map Node.id)
  edges : PlacesOf graph.edgePlaces (graph.edges.toList.map Edge.id)
  outgoing : AdjacencyOf graph.outgoingPlaces (graph.edges.toList.map Edge.source)
  incoming : AdjacencyOf graph.incomingPlaces (graph.edges.toList.map Edge.target)
  ends : ∀ edge ∈ graph.edges.toList,
    edge.source ∈ graph.nodes.toList.map Node.id ∧ edge.target ∈ graph.nodes.toList.map Node.id

variable {graph changed : Graph}

namespace Indexed

theorem node?_eq (indexed : graph.Indexed) (id : String) :
    graph.node? id = graph.nodes.toList.find? (·.id = id) :=
  indexed.nodes.bind_getElem? id

theorem edge?_eq (indexed : graph.Indexed) (id : String) :
    graph.edge? id = graph.edges.toList.find? (·.id = id) :=
  indexed.edges.bind_getElem? id

theorem node?_eq_some_iff (indexed : graph.Indexed) {id : String} {node : Node} :
    graph.node? id = some node ↔ node ∈ graph.nodes.toList ∧ node.id = id := by
  rw [indexed.node?_eq]
  exact find?_key_eq_some_iff indexed.nodes.nodup

theorem edge?_eq_some_iff (indexed : graph.Indexed) {id : String} {edge : Edge} :
    graph.edge? id = some edge ↔ edge ∈ graph.edges.toList ∧ edge.id = id := by
  rw [indexed.edge?_eq]
  exact find?_key_eq_some_iff indexed.edges.nodup

theorem node_eq_of_id (indexed : graph.Indexed) {left right : Node}
    (first : left ∈ graph.nodes.toList) (second : right ∈ graph.nodes.toList)
    (same : left.id = right.id) : left = right := by
  have found := indexed.node?_eq_some_iff.mpr ⟨first, same⟩
  rw [indexed.node?_eq_some_iff.mpr ⟨second, rfl⟩] at found
  exact (Option.some.inj found).symm

theorem edge_eq_of_id (indexed : graph.Indexed) {left right : Edge}
    (first : left ∈ graph.edges.toList) (second : right ∈ graph.edges.toList)
    (same : left.id = right.id) : left = right := by
  have found := indexed.edge?_eq_some_iff.mpr ⟨first, same⟩
  rw [indexed.edge?_eq_some_iff.mpr ⟨second, rfl⟩] at found
  exact (Option.some.inj found).symm

theorem isSome_node?_iff (indexed : graph.Indexed) {id : String} :
    (graph.node? id).isSome = true ↔ id ∈ graph.nodes.toList.map Node.id := by
  rw [Option.isSome_iff_exists, List.mem_map]
  exact exists_congr fun node => indexed.node?_eq_some_iff

theorem filterMap_node? (indexed : graph.Indexed) :
    (graph.nodes.toList.map Node.id).filterMap graph.node? = graph.nodes.toList := by
  rw [List.filterMap_map]
  have each : ∀ node ∈ graph.nodes.toList, (graph.node? ∘ Node.id) node = some node :=
    fun node member => indexed.node?_eq_some_iff.mpr ⟨member, rfl⟩
  rw [List.filterMap_congr each, List.filterMap_some]

theorem outgoing_eq (indexed : graph.Indexed) (id : String) :
    graph.outgoing id = graph.edges.toList.filter (·.source = id) :=
  indexed.outgoing.filterMap_getElem? id

theorem incoming_eq (indexed : graph.Indexed) (id : String) :
    graph.incoming id = graph.edges.toList.filter (·.target = id) :=
  indexed.incoming.filterMap_getElem? id

/-- A query cannot tell the graph from its two bare lists. -/
theorem snapshot_eq (indexed : graph.Indexed) :
    graph.snapshot = Snapshot.ofLists graph.nodes.toList graph.edges.toList := by
  have node : graph.node? = fun id => graph.nodes.toList.find? (·.id = id) :=
    funext indexed.node?_eq
  have outgoing : graph.outgoing = fun id => graph.edges.toList.filter (·.source = id) :=
    funext indexed.outgoing_eq
  have incoming : graph.incoming = fun id => graph.edges.toList.filter (·.target = id) :=
    funext indexed.incoming_eq
  rw [snapshot, node, outgoing, incoming, Snapshot.ofLists]

end Indexed

end DocumentGraph.Graph
