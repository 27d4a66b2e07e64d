import DocumentGraph.Proofs.Evaluate.Grouping

namespace DocumentGraph

open Match (Bindings)
open Query (ReturnItem)

/-! Binding sets dealt out to groups.

Every binding set goes to one group, the one with its key, behind those that went there before it.
Without a key there is one group for all of them, even for none.
-/

/-- The members of a list go to some parts, each to one of them and in order. -/
inductive Dealt {α : Type} : List (List α) → List α → Prop where
  | done {parts : List (List α)} : (∀ part ∈ parts, part = []) → Dealt parts []
  | next {before behind : List (List α)} {part rest : List α} {first : α} :
      Dealt (before ++ part :: behind) rest →
      Dealt (before ++ (first :: part) :: behind) (first :: rest)

namespace Dealt

variable {α β κ : Type} {parts : List (List α)} {all : List α}

theorem map (dealt : Dealt parts all) (f : α → β) : Dealt (parts.map (List.map f)) (all.map f) := by
  induction dealt with
  | done empty =>
      refine done fun part member => ?_
      obtain ⟨before, inside, rfl⟩ := List.mem_map.mp member
      rw [empty before inside, List.map_nil]
  | next _ ih =>
      rw [List.map_append, List.map_cons] at ih ⊢
      exact next ih

theorem whole (all : List α) : Dealt [all] all := by
  induction all with
  | nil => exact done fun part member => List.mem_singleton.mp member
  | cons first rest ih =>
      have dealt : Dealt ([] ++ rest :: []) rest := ih
      exact next dealt

/-- Every member belongs to the part of exactly one key. -/
theorem filter {keys : List κ} {belongs : κ → α → Bool} (one : ∀ value ∈ all,
      ∃ before key behind, keys = before ++ key :: behind ∧ belongs key value = true ∧
        ∀ other ∈ before ++ behind, belongs other value = false) :
    Dealt (keys.map fun key => all.filter (belongs key)) all := by
  induction all with
  | nil =>
      refine done fun part member => ?_
      obtain ⟨_, _, rfl⟩ := List.mem_map.mp member
      rfl
  | cons value rest ih =>
      obtain ⟨here, others⟩ := List.forall_mem_cons.mp one
      obtain ⟨before, key, behind, rfl, joins, apart⟩ := here
      have dealt := ih others
      have kept (keys : List κ) (outside : ∀ other ∈ keys, belongs other value = false) :
          (keys.map fun other => (value :: rest).filter (belongs other)) =
            keys.map fun other => rest.filter (belongs other) := by
        refine List.map_congr_left fun other member => ?_
        rw [List.filter_cons, if_neg (by simp [outside other member])]
      rw [List.map_append, List.map_cons] at dealt ⊢
      rw [kept before fun other member => apart other (List.mem_append_left _ member),
        kept behind fun other member => apart other (List.mem_append_right _ member),
        List.filter_cons, if_pos joins]
      exact next dealt

end Dealt

namespace Evaluate

variable {items : List ReturnItem} {bindings : Bindings} {sets : List Bindings} {group : Group}

/-- The groups of binding sets.  Aggregates alone have one group, even of nothing. -/
def groupsOf (items : List ReturnItem) (sets : List Bindings) : List Group :=
  if (groupsBy (groupingKey items) sets).isEmpty && items.all (·.expression.isAggregate) then
    [{ key := [], members := [] }]
  else groupsBy (groupingKey items) sets

/-- The binding sets, group by group. -/
def parts (items : List ReturnItem) (sets : List Bindings) : List (List Bindings) :=
  (groupsOf items sets).map Group.members

theorem value_groups (bound : ∀ bindings ∈ sets, BindsItems items bindings) :
    (groups items sets).run.value = .ok (groupsOf items sets) :=
  congrArg Noted.value (run_groups bound)

theorem groupsBy_eq_nil_iff {keyOf : Bindings → List Value} :
    groupsBy keyOf sets = [] ↔ sets = [] := by
  constructor
  · intro none
    have size := size_groupsBy keyOf sets
    rw [none] at size
    exact List.length_eq_zero_iff.mp size.symm
  · intro none
    subst none
    rfl

/-- The groups have the keys of binding sets, or they are the one of nothing. -/
theorem groupsOf_cases (items : List ReturnItem) (sets : List Bindings) :
    (sets = [] ∧ items.all (·.expression.isAggregate) = true ∧
      groupsOf items sets = [{ key := [], members := [] }]) ∨
    ¬ (sets = [] ∧ items.all (·.expression.isAggregate) = true) ∧
      groupsOf items sets = groupsBy (groupingKey items) sets := by
  have empty : (groupsBy (groupingKey items) sets).isEmpty = true ↔ sets = [] :=
    List.isEmpty_iff.trans groupsBy_eq_nil_iff
  unfold groupsOf
  split
  · rename_i both
    rw [Bool.and_eq_true, empty] at both
    exact .inl ⟨both.1, both.2, rfl⟩
  · rename_i other
    rw [Bool.and_eq_true, empty] at other
    exact .inr ⟨other, rfl⟩

theorem dealt_groupsBy (keyOf : Bindings → List Value) (sets : List Bindings) :
    Dealt ((groupsBy keyOf sets).map Group.members) sets := by
  have members : (groupsBy keyOf sets).map Group.members =
      (Ordered.distinctBy Value.sameItems (sets.map keyOf)).map fun key =>
        sets.filter fun bindings => Value.sameItems key (keyOf bindings) := by
    rw [groupsBy, List.map_map]
    rfl
  rw [members]
  refine Dealt.filter fun bindings member => ?_
  obtain ⟨key, stays, same⟩ := Ordered.exists_mem_distinctBy Value.sameItems_refl
    (List.mem_map_of_mem member : keyOf bindings ∈ sets.map keyOf)
  have apart := Ordered.distinctBy_pairwise Value.sameItems (sets.map keyOf)
  obtain ⟨before, behind, split⟩ := List.append_of_mem stays
  rw [split] at apart
  obtain ⟨_, later, earlier⟩ := List.pairwise_append.mp apart
  refine ⟨before, key, behind, split, same, fun other inside => ?_⟩
  by_contra joins
  have joins : Value.sameItems other (keyOf bindings) = true := eq_true_of_ne_false joins
  rcases List.mem_append.mp inside with first | last
  · have different := earlier other first key List.mem_cons_self
    rw [Value.sameItems_of_common joins same] at different
    contradiction
  · have different := (List.pairwise_cons.mp later).1 other last
    rw [Value.sameItems_of_common same joins] at different
    contradiction

theorem dealt_parts (items : List ReturnItem) (sets : List Bindings) :
    Dealt (parts items sets) sets := by
  rcases groupsOf_cases items sets with ⟨rfl, _, one⟩ | ⟨_, keyed⟩
  · rw [parts, one]
    exact Dealt.whole []
  · rw [parts, keyed]
    exact dealt_groupsBy _ sets

theorem groupingKey_of_aggregates (all : items.all (·.expression.isAggregate) = true) :
    groupingKey items = fun _ => [] := by
  funext bindings
  rw [groupingKey, List.filter_eq_nil_iff.mpr, List.map_nil]
  intro item member
  simp [List.all_eq_true.mp all item member]

theorem exists_key_eq (found : group ∈ groupsOf items sets) :
    ∃ first, group.key = groupingKey items first := by
  rcases groupsOf_cases items sets with ⟨rfl, all, one⟩ | ⟨_, keyed⟩
  · rw [one] at found
    obtain rfl := List.mem_singleton.mp found
    exact ⟨[], (congrFun (groupingKey_of_aggregates all) []).symm⟩
  · rw [keyed] at found
    obtain ⟨first, _, _, key⟩ := exists_member_groupsBy found
    exact ⟨first, key⟩

/-- The members of a group are binding sets with its key. -/
theorem mem_group (found : group ∈ groupsOf items sets) (member : bindings ∈ group.members) :
    bindings ∈ sets ∧ Value.sameItems group.key (groupingKey items bindings) = true := by
  rcases groupsOf_cases items sets with ⟨_, _, one⟩ | ⟨_, keyed⟩
  · rw [one] at found
    obtain rfl := List.mem_singleton.mp found
    contradiction
  · rw [keyed] at found
    obtain ⟨key, _, rfl⟩ := List.mem_map.mp found
    exact List.mem_filter.mp member

theorem groupsOf_pairwise (items : List ReturnItem) (sets : List Bindings) :
    (groupsOf items sets).Pairwise fun early late =>
      Value.sameItems early.key late.key = false := by
  rcases groupsOf_cases items sets with ⟨_, _, one⟩ | ⟨_, keyed⟩
  · rw [one]
    exact List.pairwise_singleton _ _
  · rw [keyed, groupsBy, List.pairwise_map]
    exact Ordered.distinctBy_pairwise _ _

theorem same_key_of_mem {part : List Bindings} (listed : part ∈ parts items sets)
    {left right : Bindings} (inLeft : left ∈ part) (inRight : right ∈ part) :
    Value.sameItems (groupingKey items left) (groupingKey items right) = true := by
  obtain ⟨group, found, rfl⟩ := List.mem_map.mp listed
  exact Value.sameItems_of_both (mem_group found inLeft).2 (mem_group found inRight).2

/-- Members of different groups have different keys. -/
theorem parts_pairwise (items : List ReturnItem) (sets : List Bindings) :
    (parts items sets).Pairwise fun early late => ∀ left ∈ early, ∀ right ∈ late,
      Value.sameItems (groupingKey items left) (groupingKey items right) = false := by
  rw [parts, List.pairwise_map]
  refine (groupsOf_pairwise items sets).imp_of_mem fun {early late} found found' apart => ?_
  intro left inLeft right inRight
  by_contra same
  have first := (mem_group found inLeft).2
  have second := (mem_group found' inRight).2
  rw [Value.sameItems_iff] at first second
  have third := (Value.sameItems_iff _ _).mp (eq_true_of_ne_false same)
  have equal := (Value.sameItems_iff _ _).mpr (first.trans (third.trans second.symm))
  rw [apart] at equal
  contradiction

/-- Aggregates alone leave the binding sets together. -/
theorem groupsOf_of_aggregates (all : items.all (·.expression.isAggregate) = true)
    (sets : List Bindings) : groupsOf items sets = [{ key := [], members := sets }] := by
  have none := groupingKey_of_aggregates all
  have together : ∀ sets : List Bindings, sets ≠ [] →
      groupsBy (groupingKey items) sets = [{ key := [], members := sets }] := by
    intro sets
    induction sets using List.reverseRecOn with
    | nil => exact fun impossible => absurd rfl impossible
    | append_singleton sets last ih =>
        intro _
        rw [← groupsBy_concat]
        by_cases started : sets = []
        · subst started
          rw [none]
          rfl
        · rw [ih started, none]
          rfl
  rcases groupsOf_cases items sets with ⟨rfl, _, one⟩ | ⟨some, keyed⟩
  · exact one
  · rw [keyed, together sets fun none => some ⟨none, all⟩]

theorem parts_of_aggregates (all : items.all (·.expression.isAggregate) = true)
    (sets : List Bindings) : parts items sets = [sets] := by
  rw [parts, groupsOf_of_aggregates all, List.map_singleton]

/-- Every group with a key has a member. -/
theorem ne_nil_of_mem_parts (keyed : items.all (·.expression.isAggregate) = false)
    {part : List Bindings} (listed : part ∈ parts items sets) : part ≠ [] := by
  obtain ⟨group, found, rfl⟩ := List.mem_map.mp listed
  rcases groupsOf_cases items sets with ⟨_, all, _⟩ | ⟨_, same⟩
  · rw [keyed] at all
    contradiction
  · rw [same] at found
    obtain ⟨_, member, _⟩ := exists_member_groupsBy found
    exact List.ne_nil_of_mem member

end Evaluate

end DocumentGraph
