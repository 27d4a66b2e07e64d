import DocumentGraph.Proofs.Match.Step
import Mathlib.Logic.Function.Iterate

namespace DocumentGraph.Match

open Query (RelationshipPattern)

/-! The trails from a node.

The trails of one length are the paths of that many crossings that lead from the node to
another and cross no node twice.  Paths grow at their end, as trails do; the node before the
last crossing is a node of the graph because every edge has its ends there.
-/

variable {graph : Graph} {relationship : RelationshipPattern} {source : Node}

def HopChoice.extend (choice : HopChoice) (crossing : Crossing) (next : Node) : HopChoice where
  crossings := choice.crossings ++ [crossing]
  node := next

theorem joined_concat_iff {departure arrival : String} {crossings : List Crossing}
    {last : Crossing} :
    Joined departure (crossings ++ [last]) arrival ↔
      Joined departure crossings last.departure ∧ last.arrival = arrival := by
  induction crossings generalizing departure with
  | nil => simp [Joined, eq_comm]
  | cons crossing rest ih => simp [Joined, ih, and_assoc]

theorem visited_concat (crossings : List Crossing) (last : Crossing) :
    visited source (crossings ++ [last]) = visited source crossings ++ [last.arrival] := by
  simp [visited]

theorem exists_departure (indexed : graph.Indexed) {crossing : Crossing}
    (stored : crossing.edge ∈ graph.edges.toList) :
    ∃ node ∈ graph.nodes.toList, node.id = crossing.departure := by
  rw [← List.mem_map]
  obtain ⟨first, second⟩ := indexed.ends crossing.edge stored
  unfold Crossing.departure
  split
  · exact first
  · exact second

theorem leads_extend_iff (indexed : graph.Indexed) {crossings : List Crossing}
    {last : Crossing} {next : Node} :
    Leads graph relationship source { crossings := crossings ++ [last], node := next } ↔
      ∃ middle, Leads graph relationship source { crossings, node := middle } ∧
        Takes graph relationship middle.id last next := by
  constructor
  · intro leads
    obtain ⟨stored, typed, directed, joined, node⟩ := leads
    obtain ⟨before, arrives⟩ := joined_concat_iff.mp joined
    obtain ⟨middle, member, departs⟩ := exists_departure indexed (stored last (by simp))
    refine ⟨middle, ?_, ?_⟩
    · exact {
        stored := fun crossing early => stored crossing (by simp [early])
        typed := fun crossing early => typed crossing (by simp [early])
        directed := fun crossing early => directed crossing (by simp [early])
        joined := departs ▸ before
        node := member }
    · exact {
        stored := stored last (by simp)
        typed := typed last (by simp)
        directed := directed last (by simp)
        departs := departs.symm
        arrives := arrives.symm
        node := node }
  · intro reached
    obtain ⟨middle, leads, takes⟩ := reached
    have joined : Joined source.id crossings last.departure := takes.departs ▸ leads.joined
    constructor
    · exact List.forall_mem_append.mpr ⟨leads.stored, List.forall_mem_singleton.mpr takes.stored⟩
    · exact List.forall_mem_append.mpr ⟨leads.typed, List.forall_mem_singleton.mpr takes.typed⟩
    · exact List.forall_mem_append.mpr ⟨leads.directed, List.forall_mem_singleton.mpr takes.directed⟩
    · exact joined_concat_iff.mpr ⟨joined, takes.arrives.symm⟩
    · exact takes.node

theorem leads_nil_iff (indexed : graph.Indexed) (member : source ∈ graph.nodes.toList)
    {node : Node} :
    Leads graph relationship source { crossings := [], node } ↔ node = source := by
  constructor
  · intro leads
    exact (indexed.node_eq_of_id member leads.node leads.joined).symm
  · intro same
    subst same
    constructor <;> simp [Joined, member]

theorem leads_single_iff (indexed : graph.Indexed) (member : source ∈ graph.nodes.toList)
    {crossing : Crossing} {next : Node} :
    Leads graph relationship source { crossings := [crossing], node := next } ↔
      Takes graph relationship source.id crossing next := by
  rw [← List.nil_append [crossing], leads_extend_iff indexed]
  simp [leads_nil_iff indexed member]

/-- A path of some length that crosses no node twice. -/
structure Reaches (graph : Graph) (relationship : RelationshipPattern) (source : Node)
    (length : Nat) (choice : HopChoice) : Prop where
  leads : Leads graph relationship source choice
  length : choice.crossings.length = length
  simple : (visited source choice.crossings).Nodup

def HopChoice.trail (source : Node) (choice : HopChoice) : Trail where
  node := choice.node
  visited := (visited source choice.crossings).reverse
  edges := (choice.crossings.map Crossing.edge).reverse

theorem reaches_zero_iff (indexed : graph.Indexed) (member : source ∈ graph.nodes.toList)
    {choice : HopChoice} :
    Reaches graph relationship source 0 choice ↔ choice = { crossings := [], node := source } := by
  constructor
  · intro reaches
    obtain ⟨leads, length, _⟩ := reaches
    obtain ⟨crossings, node⟩ := choice
    obtain rfl := List.length_eq_zero_iff.mp length
    rw [(leads_nil_iff indexed member).mp leads]
  · intro same
    subst same
    exact ⟨(leads_nil_iff indexed member).mpr rfl, rfl, by simp [visited]⟩

theorem reaches_succ_iff (indexed : graph.Indexed) {length : Nat} {choice : HopChoice} :
    Reaches graph relationship source (length + 1) choice ↔
      ∃ before crossing next, Reaches graph relationship source length before ∧
        Takes graph relationship before.node.id crossing next ∧
        next.id ∉ visited source before.crossings ∧ before.extend crossing next = choice := by
  constructor
  · intro reaches
    obtain ⟨leads, counted, simple⟩ := reaches
    obtain ⟨crossings, next⟩ := choice
    rcases List.eq_nil_or_concat' crossings with rfl | ⟨earlier, last, rfl⟩
    · simp at counted
    · obtain ⟨middle, before, takes⟩ := (leads_extend_iff indexed).mp leads
      rw [visited_concat, ← takes.arrives, List.nodup_append_comm] at simple
      obtain ⟨fresh, simple⟩ := List.nodup_cons.mp simple
      exact ⟨⟨earlier, middle⟩, last, next, ⟨before, by simpa using counted, simple⟩, takes,
        fresh, rfl⟩
  · intro grown
    obtain ⟨before, crossing, next, ⟨leads, counted, simple⟩, takes, fresh, rfl⟩ := grown
    constructor
    · exact (leads_extend_iff indexed).mpr ⟨before.node, leads, takes⟩
    · simp [HopChoice.extend, counted]
    · rw [HopChoice.extend, visited_concat, ← takes.arrives, List.nodup_append_comm]
      exact List.nodup_cons.mpr ⟨fresh, simple⟩

theorem extensions_enumerate (indexed : graph.Indexed) (before : HopChoice) :
    Enumerates (Trail.extensions graph.snapshot relationship (before.trail source))
      (fun taken : Crossing × Node =>
        Takes graph relationship before.node.id taken.1 taken.2 ∧
          decide (taken.2.id ∉ visited source before.crossings) = true)
      (fun taken => (before.extend taken.1 taken.2).trail source) := by
  refine (steps_enumerate indexed relationship before.node).filterMap ?_
  intro taken takes
  obtain ⟨crossing, next⟩ := taken
  have far : farEnd crossing.edge before.node.id = next.id := by
    rw [← takes.departs, farEnd_departure, takes.arrives]
  by_cases known : next.id ∈ visited source before.crossings
  · simp [HopChoice.trail, far, known]
  · simp [HopChoice.trail, HopChoice.extend, far, known, visited_concat]
    exact takes.arrives

/-- The trails that begin with those of a level and have some number of edges more. -/
def Trail.grown (snapshot : Snapshot) (relationship : RelationshipPattern) (more : Nat)
    (level : List Trail) : List Trail :=
  (List.flatMap (extensions snapshot relationship))^[more] level

theorem grown_enumerates (indexed : graph.Indexed) (member : source ∈ graph.nodes.toList)
    (length : Nat) :
    Enumerates (Trail.grown graph.snapshot relationship length [Trail.start source])
      (Reaches graph relationship source length) (HopChoice.trail source) := by
  induction length with
  | zero =>
      refine (Enumerates.single (Trail.start source)).reindex (fun _ => HopChoice.mk [] source)
        ?_ ?_ ?_
      · exact fun _ _ _ _ _ => rfl
      · intro choice
        simp [reaches_zero_iff indexed member, eq_comm]
      · exact fun _ _ => rfl
  | succ length ih =>
      rw [Trail.grown, Function.iterate_succ_apply']
      refine (ih.flatMap fun before _ => extensions_enumerate indexed before).reindex
        (fun pair => pair.1.extend pair.2.1 pair.2.2) ?_ ?_ ?_
      · intro left right leftTaken rightTaken equal
        obtain ⟨first, crossing, next⟩ := left
        obtain ⟨second, _, _⟩ := right
        obtain ⟨leftReaches, leftTakes, _⟩ := leftTaken
        obtain ⟨rightReaches, rightTakes, _⟩ := rightTaken
        obtain ⟨crossings, rfl⟩ := HopChoice.mk.inj equal
        obtain ⟨earlier, last⟩ := List.append_inj' crossings rfl
        obtain rfl : crossing = _ := List.singleton_inj.mp last
        -- The crossing starts at the end of both paths.
        have node : first.node = second.node := by
          refine indexed.node_eq_of_id leftReaches.leads.node rightReaches.leads.node ?_
          exact leftTakes.departs.symm.trans rightTakes.departs
        have same : first = second := HopChoice.ext earlier node
        rw [same]
      · intro choice
        simp [reaches_succ_iff indexed, and_assoc]
      · exact fun _ _ => rfl

variable {snapshot : Snapshot}

theorem grown_nil (more : Nat) : Trail.grown snapshot relationship more [] = [] :=
  Function.iterate_fixed rfl more

theorem levels_cons (further : Nat) {level : List Trail} (alive : level ≠ []) :
    Trail.levels snapshot relationship (further + 1) level =
      level :: Trail.levels snapshot relationship further
        (level.flatMap (Trail.extensions snapshot relationship)) := by
  have nonempty : level.isEmpty = false := by simpa using alive
  simp [Trail.levels, nonempty]

/-- The levels stop early only where no trails are left. -/
theorem flatten_drop_levels (further fewest : Nat) (level : List Trail) :
    ((Trail.levels snapshot relationship further level).drop fewest).flatten =
      (List.range' fewest (further + 1 - fewest)).flatMap fun more =>
        Trail.grown snapshot relationship more level := by
  induction further generalizing level fewest with
  | zero =>
      cases fewest with
      | zero => simp [Trail.levels, Trail.grown]
      | succ fewest => simp [Trail.levels]
  | succ further ih =>
      by_cases dead : level = []
      · subst dead
        simp [Trail.levels, grown_nil]
      · have later : ∀ start, (List.range' (start + 1) (further + 1 - start)).flatMap
            (fun more => Trail.grown snapshot relationship more level) =
              ((Trail.levels snapshot relationship further
                (level.flatMap (Trail.extensions snapshot relationship))).drop start).flatten := by
          intro start
          rw [ih, Nat.add_comm start, ← List.map_add_range', List.flatMap_map]
          apply List.flatMap_congr
          intro more _
          rw [Nat.add_comm 1]
          rfl
        rw [levels_cons further dead]
        cases fewest with
        | zero =>
            have rest := later 0
            rw [List.drop_zero] at rest
            rw [List.drop_zero, List.flatten_cons, Nat.sub_zero, List.range'_succ,
              List.flatMap_cons, ← rest]
            rfl
        | succ fewest => rw [List.drop_succ_cons, Nat.add_sub_add_right, later fewest]

theorem trails_enumerate (indexed : graph.Indexed) (member : source ∈ graph.nodes.toList)
    (min max : Nat) :
    Enumerates (trails graph.snapshot relationship min max source)
      (fun choice => Leads graph relationship source choice ∧
        Nat.max 1 min ≤ choice.crossings.length ∧ choice.crossings.length ≤ max ∧
        (visited source choice.crossings).Nodup)
      (HopChoice.trail source) := by
  unfold trails
  rw [flatten_drop_levels]
  have lengths := Enumerates.ofNodup
    (List.nodup_range' (s := Nat.max 1 min) (n := max + 1 - Nat.max 1 min) 1)
  refine (lengths.flatMap fun length _ => grown_enumerates indexed member length).reindex
    Prod.snd ?_ ?_ ?_
  · intro left right fromLeft fromRight same
    obtain ⟨first, _⟩ := left
    obtain ⟨second, _⟩ := right
    obtain ⟨_, firstReaches⟩ := fromLeft
    obtain ⟨_, secondReaches⟩ := fromRight
    subst same
    have lengths : first = second := firstReaches.length.symm.trans secondReaches.length
    rw [lengths]
  · intro choice
    constructor
    · intro wanted
      obtain ⟨leads, least, most, simple⟩ := wanted
      have inside : choice.crossings.length ∈
          List.range' (Nat.max 1 min) (max + 1 - Nat.max 1 min) := by
        rw [List.mem_range'_1]
        omega
      exact ⟨(choice.crossings.length, choice), ⟨inside, ⟨leads, rfl, simple⟩⟩, rfl⟩
    · intro found
      obtain ⟨⟨length, _⟩, ⟨inside, leads, counted, simple⟩, rfl⟩ := found
      rw [List.mem_range'_1] at inside
      exact ⟨leads, by omega, by omega, simple⟩
  · exact fun _ _ => rfl

end DocumentGraph.Match
