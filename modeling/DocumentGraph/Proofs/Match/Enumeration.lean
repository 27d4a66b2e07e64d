import Mathlib.Data.List.Nodup

namespace DocumentGraph.Match

/-! Lists of results that come from distinct choices.

`Enumerates` says that a list of results has exactly one entry for every choice with some
property.  Searching in stages keeps this: a stage extends every choice by the choices that it
makes itself.
-/

/-- The results are those of the choices with a property, each once. -/
def Enumerates {α β : Type} (results : List β) (allowed : α → Prop) (result : α → β) : Prop :=
  ∃ choices : List α, choices.Nodup ∧ (∀ choice, choice ∈ choices ↔ allowed choice) ∧
    results = choices.map result

namespace Enumerates

variable {α β γ δ : Type} {results : List β} {allowed : α → Prop} {result : α → β}

theorem nothing (impossible : ∀ choice, ¬ allowed choice) : Enumerates [] allowed result :=
  ⟨[], List.nodup_nil, by simpa using impossible, rfl⟩

theorem single (start : β) : Enumerates [start] (fun _ : Unit => True) (fun _ => start) :=
  ⟨[()], by simp, by simp, rfl⟩

theorem ofOption {value : Option α} (result : α → β) :
    Enumerates (value.map result).toList (fun choice => value = some choice) result := by
  cases value with
  | none => exact ⟨[], List.nodup_nil, by simp, rfl⟩
  | some choice => exact ⟨[choice], List.nodup_singleton choice, by simp [eq_comm], rfl⟩

theorem ofNodup {values : List α} (nodup : values.Nodup) :
    Enumerates values (· ∈ values) (fun value => value) :=
  ⟨values, nodup, fun _ => Iff.rfl, (List.map_id' values).symm⟩

theorem exists_of_mem (enumerated : Enumerates results allowed result) {value : β}
    (found : value ∈ results) : ∃ choice, allowed choice ∧ value = result choice := by
  obtain ⟨choices, _, member, rfl⟩ := enumerated
  obtain ⟨choice, inside, rfl⟩ := List.mem_map.mp found
  exact ⟨choice, (member choice).mp inside, rfl⟩

theorem mem_of_allowed (enumerated : Enumerates results allowed result) {choice : α}
    (holds : allowed choice) : result choice ∈ results := by
  obtain ⟨choices, _, member, rfl⟩ := enumerated
  exact List.mem_map_of_mem ((member choice).mpr holds)

theorem map (enumerated : Enumerates results allowed result) (f : β → γ) :
    Enumerates (results.map f) allowed (fun choice => f (result choice)) := by
  obtain ⟨choices, nodup, member, rfl⟩ := enumerated
  exact ⟨choices, nodup, member, List.map_map⟩

theorem append {others : List β} {allowed' : α → Prop} (left : Enumerates results allowed result)
    (right : Enumerates others allowed' result) (apart : ∀ choice, allowed choice → ¬ allowed' choice) :
    Enumerates (results ++ others) (fun choice => allowed choice ∨ allowed' choice) result := by
  obtain ⟨first, firstNodup, firstMember, rfl⟩ := left
  obtain ⟨second, secondNodup, secondMember, rfl⟩ := right
  refine ⟨first ++ second, ?_, fun choice => ?_, by rw [List.map_append]⟩
  · refine firstNodup.append secondNodup fun choice inFirst inSecond => ?_
    exact apart choice ((firstMember choice).mp inFirst) ((secondMember choice).mp inSecond)
  · rw [List.mem_append, firstMember, secondMember]

/-- The same results under other names for the choices. -/
theorem reindex (enumerated : Enumerates results allowed result) (rename : α → γ)
    {allowed' : γ → Prop} {result' : γ → β}
    (distinct : ∀ left right, allowed left → allowed right → rename left = rename right →
      left = right)
    (onto : ∀ choice, allowed' choice ↔ ∃ old, allowed old ∧ rename old = choice)
    (same : ∀ old, allowed old → result' (rename old) = result old) :
    Enumerates results allowed' result' := by
  obtain ⟨choices, nodup, member, rfl⟩ := enumerated
  refine ⟨choices.map rename, ?_, fun choice => ?_, ?_⟩
  · refine nodup.map_on fun left inLeft right inRight equal => ?_
    exact distinct left right ((member left).mp inLeft) ((member right).mp inRight) equal
  · rw [List.mem_map, onto]
    exact exists_congr fun old => and_congr_left fun _ => member old
  · rw [List.map_map]
    exact List.map_congr_left fun old found => (same old ((member old).mp found)).symm

theorem congr (enumerated : Enumerates results allowed result) {allowed' : α → Prop}
    {result' : α → β} (agree : ∀ choice, allowed' choice ↔ allowed choice)
    (same : ∀ choice, allowed choice → result' choice = result choice) :
    Enumerates results allowed' result' :=
  enumerated.reindex id (fun _ _ _ _ equal => equal) (fun choice => by simp [agree]) same

/-- Searches whose choices correspond have the same results, each as often. -/
theorem perm {others : List β} {allowed' : γ → Prop} {result' : γ → β}
    (first : Enumerates results allowed result) (second : Enumerates others allowed' result')
    (move : α → γ) (back : γ → α)
    (moves : ∀ choice, allowed choice →
      allowed' (move choice) ∧ back (move choice) = choice ∧ result' (move choice) = result choice)
    (returns : ∀ choice, allowed' choice → allowed (back choice) ∧ move (back choice) = choice) :
    results.Perm others := by
  have moved : Enumerates results allowed' result' := by
    refine first.reindex move ?_ ?_ ?_
    · intro left right leftAllowed rightAllowed equal
      rw [← (moves left leftAllowed).2.1, ← (moves right rightAllowed).2.1, equal]
    · intro choice
      constructor
      · intro holds
        exact ⟨back choice, returns choice holds⟩
      · rintro ⟨old, holds, rfl⟩
        exact (moves old holds).1
    · exact fun old holds => (moves old holds).2.2
  obtain ⟨left, leftNodup, leftMember, rfl⟩ := moved
  obtain ⟨right, rightNodup, rightMember, rfl⟩ := second
  have same : left.Perm right := by
    rw [List.perm_ext_iff_of_nodup leftNodup rightNodup]
    intro choice
    rw [leftMember, rightMember]
  exact same.map result'

theorem filterMap_map_eq {choices : List α} {keep : β → Option γ} {kept : α → Bool}
    {result' : α → γ} (decides : ∀ choice ∈ choices,
      keep (result choice) = if kept choice then some (result' choice) else none) :
    (choices.map result).filterMap keep = (choices.filter kept).map result' := by
  induction choices with
  | nil => rfl
  | cons choice rest ih =>
      have others := ih fun other found => decides other (by simp [found])
      rw [List.map_cons, List.filterMap_cons, decides choice (by simp), others]
      cases chosen : kept choice with
      | true => simp [chosen]
      | false => simp [chosen]

theorem filterMap (enumerated : Enumerates results allowed result) {keep : β → Option γ}
    {kept : α → Bool} {result' : α → γ}
    (decides : ∀ choice, allowed choice →
      keep (result choice) = if kept choice then some (result' choice) else none) :
    Enumerates (results.filterMap keep) (fun choice => allowed choice ∧ kept choice) result' := by
  obtain ⟨choices, nodup, member, rfl⟩ := enumerated
  refine ⟨choices.filter kept, nodup.filter kept, fun choice => ?_, ?_⟩
  · rw [List.mem_filter, member]
  · exact filterMap_map_eq fun choice found => decides choice ((member choice).mp found)

theorem nodup_pairs {choices : List α} {behind : α → List γ} (nodup : choices.Nodup)
    (each : ∀ choice ∈ choices, (behind choice).Nodup) :
    (choices.flatMap fun choice => (behind choice).map (Prod.mk choice)).Nodup := by
  rw [List.nodup_flatMap]
  constructor
  · intro choice found
    have injective : Function.Injective (Prod.mk choice : γ → α × γ) :=
      fun _ _ equal => (Prod.mk.inj equal).2
    exact (each choice found).map injective
  · refine nodup.imp fun {left right} different pair inLeft inRight => ?_
    obtain ⟨_, _, rfl⟩ := List.mem_map.mp inLeft
    obtain ⟨_, _, equal⟩ := List.mem_map.mp inRight
    exact different (Prod.mk.inj equal).1.symm

theorem flatMap (enumerated : Enumerates results allowed result) {stage : β → List δ}
    {allowed' : α → γ → Prop} {result' : α → γ → δ}
    (further : ∀ choice, allowed choice →
      Enumerates (stage (result choice)) (allowed' choice) (result' choice)) :
    Enumerates (results.flatMap stage)
      (fun pair : α × γ => allowed pair.1 ∧ allowed' pair.1 pair.2)
      (fun pair => result' pair.1 pair.2) := by
  obtain ⟨choices, nodup, member, rfl⟩ := enumerated
  have inner : ∀ choice, ∃ behind : List γ, allowed choice →
      behind.Nodup ∧ (∀ other, other ∈ behind ↔ allowed' choice other) ∧
        stage (result choice) = behind.map (result' choice) := by
    intro choice
    by_cases holds : allowed choice
    · obtain ⟨behind, facts⟩ := further choice holds
      exact ⟨behind, fun _ => facts⟩
    · exact ⟨[], fun impossible => absurd impossible holds⟩
  choose behind facts using inner
  refine ⟨choices.flatMap fun choice => (behind choice).map (Prod.mk choice), ?_, ?_, ?_⟩
  · exact nodup_pairs nodup fun choice found => (facts choice ((member choice).mp found)).1
  · intro pair
    obtain ⟨choice, other⟩ := pair
    simp only [List.mem_flatMap, List.mem_map, Prod.mk.injEq, member]
    constructor
    · intro found
      obtain ⟨_, holds, _, found, rfl, rfl⟩ := found
      exact ⟨holds, ((facts _ holds).2.1 _).mp found⟩
    · intro chosen
      obtain ⟨holds, found⟩ := chosen
      exact ⟨choice, holds, other, ((facts _ holds).2.1 _).mpr found, rfl, rfl⟩
  · rw [List.flatMap_map, List.map_flatMap]
    apply List.flatMap_congr
    intro choice found
    rw [(facts choice ((member choice).mp found)).2.2, List.map_map]
    rfl

end Enumerates

section Stages

variable {ι σ γ : Type}

/-- What a list of stages makes of a state. -/
def stages (stage : ι → σ → List σ) : List ι → σ → List σ
  | [], state => [state]
  | item :: items, state => (stage item state).flatMap (stages stage items)

/-- One choice for every stage, allowed in the state that the choices before it lead to. -/
def AllAllowed (allowed : ι → σ → γ → Prop) (next : ι → σ → γ → σ) : List ι → σ → List γ → Prop
  | [], _, [] => True
  | item :: items, state, choice :: choices =>
      allowed item state choice ∧ AllAllowed allowed next items (next item state choice) choices
  | _, _, _ => False

def reached (next : ι → σ → γ → σ) : List ι → σ → List γ → σ
  | item :: items, state, choice :: choices => reached next items (next item state choice) choices
  | _, state, _ => state

variable {stage : ι → σ → List σ} {allowed : ι → σ → γ → Prop} {next : ι → σ → γ → σ}

theorem foldl_flatMap (items : List ι) (states : List σ) :
    items.foldl (fun found item => found.flatMap (stage item)) states =
      states.flatMap (stages stage items) := by
  induction items generalizing states with
  | nil => simp [stages]
  | cons item items ih => rw [List.foldl_cons, ih, List.flatMap_assoc]; rfl

/-- Every stage extends the choices, so the list of stages does; `invariant` is what the later
stages need to know of the state. -/
theorem enumerates_stages {invariant : List ι → σ → Prop}
    (step : ∀ item items state, invariant (item :: items) state →
      Enumerates (stage item state) (allowed item state) (next item state) ∧
      ∀ choice, allowed item state choice → invariant items (next item state choice))
    {items : List ι} {state : σ} (begins : invariant items state) :
    Enumerates (stages stage items state) (AllAllowed allowed next items state)
      (reached next items state) := by
  induction items generalizing state with
  | nil =>
      refine (Enumerates.single state).reindex (fun _ => []) (fun _ _ _ _ _ => rfl) ?_ ?_
      · intro choices
        cases choices with
        | nil => simp [AllAllowed]
        | cons choice choices => simp [AllAllowed]
      · exact fun _ _ => rfl
  | cons item items ih =>
      obtain ⟨first, continues⟩ := step item items state begins
      refine (first.flatMap fun choice holds => ih (continues choice holds)).reindex
        (fun pair => pair.1 :: pair.2) ?_ ?_ ?_
      · intro left right _ _ equal
        obtain ⟨_, _⟩ := left
        obtain ⟨_, _⟩ := right
        obtain ⟨rfl, rfl⟩ := List.cons.inj equal
        rfl
      · intro choices
        cases choices with
        | nil => simp [AllAllowed]
        | cons choice choices => simp [AllAllowed]
      · exact fun _ _ => rfl

/-- What every stage keeps, all of them keep. -/
theorem invariant_reached {invariant : List ι → σ → Prop}
    (step : ∀ item items state, invariant (item :: items) state →
      ∀ choice, allowed item state choice → invariant items (next item state choice))
    {items : List ι} {state : σ} (begins : invariant items state) {choices : List γ}
    (chosen : AllAllowed allowed next items state choices) :
    invariant [] (reached next items state choices) := by
  induction items generalizing state choices with
  | nil => exact begins
  | cons item items ih =>
      cases choices with
      | nil => contradiction
      | cons choice choices =>
          obtain ⟨first, rest⟩ := chosen
          exact ih (step item items state begins choice first) rest

end Stages

end DocumentGraph.Match
