import DocumentGraph.Proofs.Graph.Index
import DocumentGraph.Proofs.Match.Choice
import DocumentGraph.Proofs.Match.Scope
import Mathlib.Data.List.Induction

namespace DocumentGraph.Match

open Query (Hop Identifier NodePattern Scope)

/-! Binding variables one after the other.

The search checks every variable against the bindings that it has so far.  `Admits` says the
same of a list of pairs at once; it splits where the list does (`admits_append`), and from
nothing it only asks that the pairs agree.
-/

variable {name : String} {element existing : Element} {stored : Bindings}
  {pairs first second : List (String × Element)}

def store (stored : Bindings) (pairs : List (String × Element)) : Bindings :=
  pairs.foldl (fun stored (name, element) => Ordered.put name element stored) stored

/-- The pairs agree with each other and with what is stored. -/
structure Admits (stored : Bindings) (pairs : List (String × Element)) : Prop where
  consistent : ∀ name element, (name, element) ∈ pairs →
    ∀ existing, stored.lookup name = some existing → existing = element
  agree : Agree pairs

theorem store_append : store stored (first ++ second) = store (store stored first) second :=
  List.foldl_append

theorem lookup_store_concat_self :
    (store stored (pairs ++ [(name, element)])).lookup name = some element := by
  rw [store_append]
  exact Ordered.lookup_put_self name element _

theorem lookup_store_concat_of_ne {other : String} (different : name ≠ other) :
    (store stored (pairs ++ [(other, element)])).lookup name = (store stored pairs).lookup name := by
  rw [store_append]
  exact Ordered.lookup_put_of_ne different element _

/-- What is found was stored now or before. -/
theorem lookup_store_cases (found : (store stored pairs).lookup name = some existing) :
    (name, existing) ∈ pairs ∨ stored.lookup name = some existing := by
  induction pairs using List.reverseRecOn with
  | nil => exact .inr found
  | append_singleton pairs last ih =>
      obtain ⟨other, element⟩ := last
      by_cases same : name = other
      · subst same
        rw [lookup_store_concat_self, Option.some.injEq] at found
        exact .inl (by simp [found])
      · rw [lookup_store_concat_of_ne same] at found
        rcases ih found with early | before
        · exact .inl (by simp [early])
        · exact .inr before

theorem lookup_store_of_not_mem (fresh : ∀ element, (name, element) ∉ pairs) :
    (store stored pairs).lookup name = stored.lookup name := by
  induction pairs using List.reverseRecOn with
  | nil => rfl
  | append_singleton pairs last ih =>
      obtain ⟨other, element⟩ := last
      have different : name ≠ other := by
        intro same
        subst same
        exact fresh element (by simp)
      rw [lookup_store_concat_of_ne different]
      exact ih fun element member => fresh element (by simp [member])

theorem lookup_store_of_mem (agree : Agree pairs) (member : (name, element) ∈ pairs) :
    (store stored pairs).lookup name = some element := by
  induction pairs using List.reverseRecOn with
  | nil => contradiction
  | append_singleton pairs last ih =>
      obtain ⟨other, latest⟩ := last
      by_cases same : name = other
      · subst same
        rw [lookup_store_concat_self, agree name element latest member (by simp)]
      · rw [lookup_store_concat_of_ne same]
        refine ih (fun name left right inLeft inRight => ?_) ?_
        · exact agree name left right (by simp [inLeft]) (by simp [inRight])
        · simpa [same] using member

theorem admits_append :
    Admits stored (first ++ second) ↔ Admits stored first ∧ Admits (store stored first) second := by
  constructor
  · intro admitted
    obtain ⟨consistent, agree⟩ := admitted
    refine ⟨⟨fun name element member => ?_, fun name left right inLeft inRight => ?_⟩,
      ⟨fun name element member existing found => ?_, fun name left right inLeft inRight => ?_⟩⟩
    · exact consistent name element (by simp [member])
    · exact agree name left right (by simp [inLeft]) (by simp [inRight])
    · rcases lookup_store_cases found with early | before
      · exact agree name existing element (by simp [early]) (by simp [member])
      · exact consistent name element (by simp [member]) existing before
    · exact agree name left right (by simp [inLeft]) (by simp [inRight])
  · intro both
    obtain ⟨⟨firstConsistent, firstAgree⟩, ⟨secondConsistent, secondAgree⟩⟩ := both
    -- A name of both parts is stored by the first and met by the second.
    have across : ∀ name left right, (name, left) ∈ first → (name, right) ∈ second →
        left = right := fun name left right inFirst inSecond =>
      secondConsistent name right inSecond left (lookup_store_of_mem firstAgree inFirst)
    constructor
    · intro name element member existing found
      rcases List.mem_append.mp member with inFirst | inSecond
      · exact firstConsistent name element inFirst existing found
      · by_cases early : ∃ value, (name, value) ∈ first
        · obtain ⟨value, inFirst⟩ := early
          rw [firstConsistent name value inFirst existing found]
          exact across name value element inFirst inSecond
        · have fresh : ∀ value, (name, value) ∉ first := not_exists.mp early
          exact secondConsistent name element inSecond existing
            ((lookup_store_of_not_mem fresh).trans found)
    · intro name left right inLeft inRight
      rcases List.mem_append.mp inLeft with leftFirst | leftSecond
      · rcases List.mem_append.mp inRight with rightFirst | rightSecond
        · exact firstAgree name left right leftFirst rightFirst
        · exact across name left right leftFirst rightSecond
      · rcases List.mem_append.mp inRight with rightFirst | rightSecond
        · exact (across name right left rightFirst leftSecond).symm
        · exact secondAgree name left right leftSecond rightSecond

theorem Admits.lookup_store (admitted : Admits stored pairs)
    (bound : stored.lookup name = some existing) :
    (store stored pairs).lookup name = some existing := by
  by_cases mentioned : ∃ other, (name, other) ∈ pairs
  · obtain ⟨other, member⟩ := mentioned
    rw [lookup_store_of_mem admitted.agree member,
      admitted.consistent name other member existing bound]
  · rw [lookup_store_of_not_mem (not_exists.mp mentioned), bound]

theorem admits_nil : Admits stored [] :=
  ⟨fun _ _ member => absurd member List.not_mem_nil, fun _ _ _ member => absurd member List.not_mem_nil⟩

theorem admits_empty_iff : Admits [] pairs ↔ Agree pairs :=
  ⟨Admits.agree, fun agree => ⟨fun _ _ _ _ found => by contradiction, agree⟩⟩

variable {binder : Option Identifier}

theorem store_named : store stored (named binder element) = stored.bind binder element := by
  cases binder with
  | none => rfl
  | some identifier => rfl

theorem admits_named_iff : Admits stored (named binder element) ↔
    ∀ existing, binder.bind stored.element? = some existing → existing = element := by
  cases binder with
  | none => exact ⟨fun _ _ found => by contradiction, fun _ => admits_nil⟩
  | some identifier =>
      constructor
      · intro admitted existing found
        exact admitted.consistent identifier.name element (by simp [named]) existing found
      · intro consistent
        refine ⟨fun name element' member existing found => ?_, fun name left right inLeft inRight => ?_⟩
        · simp only [named, Option.toList_some, List.map_cons, List.map_nil, List.mem_singleton,
            Prod.mk.injEq] at member
          obtain ⟨rfl, rfl⟩ := member
          exact consistent existing found
        · simp only [named, Option.toList_some, List.map_cons, List.map_nil, List.mem_singleton,
            Prod.mk.injEq] at inLeft inRight
          rw [inLeft.2, inRight.2]

/-- The nodes that are bound are nodes of the graph. -/
def Within (graph : Graph) (stored : Bindings) : Prop :=
  ∀ name node, stored.lookup name = some (.node node) → node ∈ graph.nodes.toList

variable {graph : Graph}

theorem within_nil : Within graph [] := fun _ _ found => by contradiction

theorem Within.store (within : Within graph stored)
    (inside : ∀ name node, (name, Element.node node) ∈ pairs → node ∈ graph.nodes.toList) :
    Within graph (store stored pairs) := by
  intro name node found
  rcases lookup_store_cases found with now | before
  · exact inside name node now
  · exact within name node before

/-- Elements are compared by their ids, which tells the nodes of the graph apart. -/
theorem allows_node_iff (indexed : graph.Indexed) (within : Within graph stored) {node : Node}
    (member : node ∈ graph.nodes.toList) :
    stored.allows binder (.node node) = true ↔ Admits stored (named binder (.node node)) := by
  rw [admits_named_iff]
  unfold Bindings.allows
  cases known : binder.bind stored.element? with
  | none => simp
  | some existing =>
      simp only [Option.some.injEq, forall_eq']
      cases existing with
      | edge edge => simp [Element.same]
      | node other =>
          have inside : other ∈ graph.nodes.toList := by
            obtain ⟨identifier, _, found⟩ := Option.bind_eq_some_iff.mp known
            exact within identifier.name other found
          simp only [Element.same, decide_eq_true_eq, Element.node.injEq]
          exact ⟨indexed.node_eq_of_id inside member, congrArg Node.id⟩

variable {scope next : Scope} {hop : Hop} {choice : HopChoice}

/-- A hop gives its relationship a new variable. -/
theorem relationship_free (described : scope.Describes stored) (accepted : scope.hop hop = .ok next) :
    hop.relationship.binder.bind stored.element? = none := by
  obtain ⟨middle, introduced, _⟩ := Scope.hop_cases accepted
  cases written : hop.relationship.binder with
  | none => rfl
  | some identifier =>
      rw [written] at introduced
      have fresh := Scope.lookup_of_introduce_relationship introduced
      rw [described identifier.name] at fresh
      exact Option.map_eq_none_iff.mp fresh

/-- The variables of a hop's relationship and of its node are different. -/
theorem node_binder_bind (accepted : scope.hop hop = .ok next) (element : Element) :
    hop.node.binder.bind (stored.bind hop.relationship.binder element).element? =
      hop.node.binder.bind stored.element? := by
  obtain ⟨middle, relationship, node⟩ := Scope.hop_cases accepted
  cases edgeName : hop.relationship.binder with
  | none => rfl
  | some crossed =>
      cases nodeName : hop.node.binder with
      | none => rfl
      | some reached =>
          rw [edgeName] at relationship
          rw [nodeName] at node
          have different : reached.name ≠ crossed.name := by
            intro same
            rcases Scope.introduce_some_cases relationship with ⟨_, rfl⟩ | ⟨_, impossible, _⟩
            · rcases Scope.introduce_some_cases node with ⟨unknown, _⟩ | ⟨known, _, _⟩
              · simp [same] at unknown
              · simp [same] at known
            · contradiction
          exact Ordered.lookup_put_of_ne different element stored

theorem admits_bound_iff (described : scope.Describes stored) (accepted : scope.hop hop = .ok next) :
    Admits stored (choice.bound hop) ↔
      Admits stored (named hop.node.binder (.node choice.node)) := by
  unfold HopChoice.bound
  cases choice.crossings.getLast? with
  | none => rfl
  | some last =>
      rw [Option.toList_some, List.flatMap_singleton, admits_append, admits_named_iff,
        admits_named_iff, admits_named_iff, store_named, node_binder_bind accepted,
        relationship_free described accepted]
      simp

theorem store_bound {last : Crossing} (crossed : choice.crossings.getLast? = some last) :
    store stored (choice.bound hop) =
      (stored.bind hop.relationship.binder (.edge last.edge)).bind hop.node.binder
        (.node choice.node) := by
  rw [HopChoice.bound, crossed, Option.toList_some, List.flatMap_singleton, store_append,
    store_named, store_named]

theorem mem_nodes_of_mem_bound (member : choice.node ∈ graph.nodes.toList) {node : Node}
    (paired : (name, Element.node node) ∈ choice.bound hop) : node ∈ graph.nodes.toList := by
  unfold HopChoice.bound at paired
  rcases List.mem_append.mp paired with crossed | reached
  · obtain ⟨last, _, inside⟩ := List.mem_flatMap.mp crossed
    obtain ⟨_, _, equal⟩ := List.mem_map.mp inside
    exact absurd (Prod.mk.inj equal).2 (by simp)
  · obtain ⟨_, _, equal⟩ := List.mem_map.mp reached
    have same : choice.node = node := Element.node.inj (Prod.mk.inj equal).2
    exact same ▸ member

end DocumentGraph.Match
