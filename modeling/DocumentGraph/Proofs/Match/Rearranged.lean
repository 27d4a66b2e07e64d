import DocumentGraph.Match.Pattern
import DocumentGraph.Proofs.Evaluate.Noted
import DocumentGraph.Proofs.Match.Trail
import Mathlib.Data.List.Perm.Basic

namespace DocumentGraph

open Query (Hop NodePattern Pattern RelationshipPattern)

/-! Rearranged graphs.

Every stage of a search goes through lists that the graph keeps in order of insertion.  If two graphs
keep the same elements, the stages find the same partial matches in another order, and so do all
stages together; and the same properties are found missing on the way.
-/

namespace Noted

variable {α β ι : Type}

/-- The same values in another order, and the same warnings. -/
structure Rearranged (left right : Noted (List α)) : Prop where
  value : left.value.Perm right.value
  warnings : ∀ diagnostic, diagnostic ∈ left.warnings ↔ diagnostic ∈ right.warnings

theorem Rearranged.refl (noted : Noted (List α)) : noted.Rearranged noted :=
  ⟨List.Perm.refl _, fun _ => Iff.rfl⟩

theorem Rearranged.bind {step step' : Noted (List α)} {next next' : List α → Noted (List β)}
    (first : step.Rearranged step')
    (rest : ∀ values others, values.Perm others → (next values).Rearranged (next' others)) :
    (step >>= next).Rearranged (step' >>= next') where
  value := (rest _ _ first.value).value
  warnings := fun diagnostic => by
    rw [warnings_bind, warnings_bind, List.mem_append, List.mem_append, first.warnings,
      (rest _ _ first.value).warnings]

theorem Rearranged.collect {values others : List α} {find find' : α → Noted (List β)}
    (perm : values.Perm others) (each : ∀ value, (find value).Rearranged (find' value)) :
    (collect values find).Rearranged (collect others find') where
  value := by
    rw [value_collect, value_collect]
    exact perm.flatMap fun value _ => (each value).value
  warnings := fun diagnostic => by
    simp only [warnings_collect, List.mem_flatMap, perm.mem_iff, (each _).warnings]

theorem Rearranged.foldlM_collect {stage stage' : ι → α → Noted (List α)}
    (each : ∀ item value, (stage item value).Rearranged (stage' item value)) (items : List ι)
    {begun others : List α} (perm : begun.Perm others) :
    (items.foldlM (fun found item => Noted.collect found (stage item)) begun).Rearranged
      (items.foldlM (fun found item => Noted.collect found (stage' item)) others) := by
  induction items generalizing begun others with
  | nil => exact ⟨perm, fun _ => Iff.rfl⟩
  | cons item items ih =>
      rw [List.foldlM_cons, List.foldlM_cons]
      exact (Rearranged.collect perm (each item)).bind fun _ _ found => ih found

end Noted

/-- Two snapshots with the same elements in another order. -/
structure Snapshot.Rearranged (left right : Snapshot) : Prop where
  nodes : left.nodes.Perm right.nodes
  node? : left.node? = right.node?
  outgoing : ∀ id, (left.outgoing id).Perm (right.outgoing id)
  incoming : ∀ id, (left.incoming id).Perm (right.incoming id)

theorem Graph.Indexed.snapshot_rearranged {left right : Graph} (indexed : left.Indexed)
    (indexed' : right.Indexed)
    (nodes : ∀ node, node ∈ left.nodes.toList ↔ node ∈ right.nodes.toList)
    (edges : ∀ edge, edge ∈ left.edges.toList ↔ edge ∈ right.edges.toList) :
    left.snapshot.Rearranged right.snapshot := by
  have nodesPerm : left.nodes.toList.Perm right.nodes.toList :=
    (List.perm_ext_iff_of_nodup (indexed.nodes.nodup.of_map Node.id)
      (indexed'.nodes.nodup.of_map Node.id)).mpr nodes
  have edgesPerm : left.edges.toList.Perm right.edges.toList :=
    (List.perm_ext_iff_of_nodup (indexed.edges.nodup.of_map Edge.id)
      (indexed'.edges.nodup.of_map Edge.id)).mpr edges
  have found : left.node? = right.node? := by
    funext id
    apply Option.ext
    intro node
    rw [indexed.node?_eq_some_iff, indexed'.node?_eq_some_iff, nodes]
  have outgoing (id : String) : (left.outgoing id).Perm (right.outgoing id) := by
    rw [indexed.outgoing_eq, indexed'.outgoing_eq]
    exact edgesPerm.filter _
  have incoming (id : String) : (left.incoming id).Perm (right.incoming id) := by
    rw [indexed.incoming_eq, indexed'.incoming_eq]
    exact edgesPerm.filter _
  exact ⟨nodesPerm, found, outgoing, incoming⟩

namespace Match

variable {left right : Snapshot} {maxDepth : Nat}

theorem incident_perm (rearranged : left.Rearranged right) (id : String) (direction : Query.Direction) :
    (incident left id direction).Perm (incident right id direction) := by
  cases direction with
  | forward => exact rearranged.outgoing id
  | backward => exact rearranged.incoming id
  | either => exact (rearranged.outgoing id).append (rearranged.incoming id)

theorem steps_perm (rearranged : left.Rearranged right) (relationship : RelationshipPattern)
    (node : Node) : (steps left relationship node).Perm (steps right relationship node) := by
  rw [steps, steps, rearranged.node?]
  exact (incident_perm rearranged node.id _).filterMap _

theorem grown_perm (rearranged : left.Rearranged right) (relationship : RelationshipPattern)
    (more : Nat) {level level' : List Trail} (perm : level.Perm level') :
    (Trail.grown left relationship more level).Perm (Trail.grown right relationship more level') := by
  induction more generalizing level level' with
  | zero => exact perm
  | succ more ih =>
      have extended (trail : Trail) : (Trail.extensions left relationship trail).Perm
          (Trail.extensions right relationship trail) :=
        (steps_perm rearranged relationship trail.node).filterMap _
      exact ih (perm.flatMap fun trail _ => extended trail)

theorem trails_perm (rearranged : left.Rearranged right) (relationship : RelationshipPattern)
    (min max : Nat) (source : Node) :
    (trails left relationship min max source).Perm (trails right relationship min max source) := by
  unfold trails
  rw [flatten_drop_levels, flatten_drop_levels]
  exact List.Perm.flatMap_left _ fun more _ =>
    grown_perm rearranged relationship more (List.Perm.refl _)

theorem hop_rearranged (rearranged : left.Rearranged right) (maxDepth : Nat) (hop : Hop)
    (current : Partial) :
    (Match.hop left maxDepth hop current).Rearranged (Match.hop right maxDepth hop current) := by
  unfold Match.hop
  cases hop.relationship.range with
  | none =>
      exact .collect (steps_perm rearranged hop.relationship current.anchor) fun _ => .refl _
  | some range =>
      exact .collect (trails_perm rearranged hop.relationship _ _ current.anchor) fun _ => .refl _

theorem starts_rearranged (rearranged : left.Rearranged right) (pattern : NodePattern)
    (stored : Bindings) :
    (starts left pattern stored).Rearranged (starts right pattern stored) := by
  unfold starts
  split
  · exact .refl _
  · exact .refl _
  · exact .collect rearranged.nodes fun _ => .refl _

theorem pattern_rearranged (rearranged : left.Rearranged right) (maxDepth : Nat) (pattern : Pattern)
    (stored : Bindings) :
    (Match.pattern left maxDepth pattern stored).Rearranged
      (Match.pattern right maxDepth pattern stored) := by
  unfold Match.pattern
  refine (starts_rearranged rearranged pattern.start stored).bind fun begun others perm => ?_
  refine (Noted.Rearranged.foldlM_collect (hop_rearranged rearranged maxDepth) pattern.hops
    perm).bind fun found others perm => ?_
  exact ⟨perm.map _, fun _ => Iff.rfl⟩

theorem patterns_rearranged (rearranged : left.Rearranged right) (maxDepth : Nat)
    (patterns : List Pattern) :
    (Match.patterns left maxDepth patterns).Rearranged (Match.patterns right maxDepth patterns) :=
  .foldlM_collect (pattern_rearranged rearranged maxDepth) patterns (List.Perm.refl _)

end Match

end DocumentGraph
