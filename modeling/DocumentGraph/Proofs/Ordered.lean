import DocumentGraph.Ordered
import Mathlib.Data.List.Induction
import Mathlib.Data.List.Nodup

namespace DocumentGraph.Ordered

/-! Keys in order of insertion, and first occurrences, in the words of the list library. -/

variable {κ ν α : Type} [DecidableEq κ] [DecidableEq α]

theorem eraseDups_concat (values : List α) (last : α) :
    (values ++ [last]).eraseDups =
      if last ∈ values.eraseDups then values.eraseDups else values.eraseDups ++ [last] := by
  rw [List.eraseDups_append]
  by_cases known : last ∈ values
  · simp [List.removeAll, List.mem_eraseDups.mpr known, known]
  · have absent : last ∉ values.eraseDups := fun member => known (List.mem_eraseDups.mp member)
    simp [List.removeAll, absent, known, List.eraseDups_cons]

theorem keys_put (key : κ) (value : ν) (pairs : List (κ × ν)) :
    (put key value pairs).map Prod.fst =
      if key ∈ pairs.map Prod.fst then pairs.map Prod.fst
      else pairs.map Prod.fst ++ [key] := by
  induction pairs with
  | nil => simp [put]
  | cons pair rest ih =>
      obtain ⟨present, old⟩ := pair
      by_cases same : present = key
      · simp [put, same]
      · have different : key ≠ present := fun equal => same equal.symm
        by_cases later : key ∈ rest.map Prod.fst
        · rw [if_pos later] at ih
          rw [if_pos (by simpa using Or.inr (by simpa using later))]
          simp [put, same, ih]
        · rw [if_neg later] at ih
          rw [if_neg (by simpa [different] using later)]
          simp [put, same, ih]

omit [DecidableEq α] in
theorem mem_put {key : κ} {value : ν} {pairs : List (κ × ν)} {pair : κ × ν}
    (member : pair ∈ put key value pairs) : pair = (key, value) ∨ pair ∈ pairs := by
  induction pairs with
  | nil => exact .inl (List.mem_singleton.mp member)
  | cons first rest ih =>
      rw [put] at member
      split at member
      · rcases List.mem_cons.mp member with new | later
        · exact .inl new
        · exact .inr (List.mem_cons_of_mem _ later)
      · rcases List.mem_cons.mp member with rfl | later
        · exact .inr List.mem_cons_self
        · exact (ih later).imp_right (List.mem_cons_of_mem _)

omit [DecidableEq α] in
/-- A new key goes to the end. -/
theorem put_of_not_mem {key : κ} {pairs : List (κ × ν)} (fresh : key ∉ pairs.map Prod.fst)
    (value : ν) : put key value pairs = pairs ++ [(key, value)] := by
  induction pairs with
  | nil => rfl
  | cons pair rest ih =>
      obtain ⟨different, later⟩ := List.ne_and_not_mem_of_not_mem_cons fresh
      rw [put, if_neg different.symm, ih later, List.cons_append]

omit [DecidableEq α] in
theorem ofPairs_eq_self {pairs : List (κ × ν)} (distinct : (pairs.map Prod.fst).Nodup) :
    ofPairs pairs = pairs := by
  induction pairs using List.reverseRecOn with
  | nil => rfl
  | append_singleton pairs last ih =>
      rw [List.map_append, List.map_singleton, List.nodup_append] at distinct
      obtain ⟨front, _, apart⟩ := distinct
      have fresh : last.1 ∉ pairs.map Prod.fst :=
        fun member => apart _ member _ (List.mem_singleton_self _) rfl
      rw [ofPairs, List.foldl_concat]
      change put last.1 last.2 (ofPairs pairs) = _
      rw [ih front, put_of_not_mem fresh]

theorem put_of_lookup {key : κ} {value : ν} {pairs : List (κ × ν)}
    (stored : pairs.lookup key = some value) : put key value pairs = pairs := by
  induction pairs with
  | nil => contradiction
  | cons pair rest ih =>
      obtain ⟨present, old⟩ := pair
      by_cases same : present = key
      · subst same
        rw [List.lookup_cons_self, Option.some.injEq] at stored
        rw [put, if_pos rfl, stored]
      · have unequal : (key == present) = false := by
          simpa using fun equal : key = present => same equal.symm
        rw [List.lookup_cons, unequal] at stored
        rw [put, if_neg same, ih stored]

section Test

omit [DecidableEq α]

variable {key : κ} {pairs : List (κ × ν)}

/-- A first pair that has another key stays the first. -/
theorem find?_put (test : κ → Bool) (passes : test key = true) (value : ν)
    (pairs : List (κ × ν)) :
    (put key value pairs).find? (test ·.1) =
      some (((pairs.find? (test ·.1)).filter (·.1 ≠ key)).getD (key, value)) := by
  induction pairs with
  | nil => simp [put, passes]
  | cons pair rest ih =>
      obtain ⟨present, old⟩ := pair
      by_cases same : present = key
      · simp [put, same, passes, Option.filter]
      · cases passed : test present with
        | true => simp [put, same, passed, Option.filter]
        | false => simpa [put, same, passed] using ih

theorem find?_put_of_not (test : κ → Bool) (fails : test key = false) (value : ν)
    (pairs : List (κ × ν)) :
    (put key value pairs).find? (test ·.1) = pairs.find? (test ·.1) := by
  induction pairs with
  | nil => simp [put, fails]
  | cons pair rest ih =>
      obtain ⟨present, old⟩ := pair
      by_cases same : present = key
      · simp [put, same, fails]
      · simp only [put, if_neg same, List.find?_cons, ih]

/-- The first pair that passes a test is the first one with its key. -/
theorem lookup_of_find? (test : κ → Bool) {value : ν}
    (found : pairs.find? (test ·.1) = some (key, value)) : pairs.lookup key = some value := by
  have passes := List.find?_some found
  induction pairs with
  | nil => contradiction
  | cons pair rest ih =>
      obtain ⟨present, old⟩ := pair
      cases passed : test present with
      | true =>
          obtain ⟨rfl, rfl⟩ : present = key ∧ old = value := by simpa [passed] using found
          exact List.lookup_cons_self
      | false =>
          have unequal : (key == present) = false := by
            simpa using fun same : key = present => by simp [← same, passes] at passed
          rw [List.lookup_cons, unequal]
          exact ih (by simpa [passed] using found)

end Test

/-- Storing under the next key keeps the keys those of the names stored so far. -/
theorem keys_put_eq_eraseDups {pairs : List (κ × ν)} {stored : List κ}
    (keys : pairs.map Prod.fst = stored.eraseDups) (key : κ) (value : ν) :
    (put key value pairs).map Prod.fst = (stored ++ [key]).eraseDups := by
  rw [keys_put, keys, eraseDups_concat]

theorem nodup_eraseDups (values : List α) : values.eraseDups.Nodup := by
  induction values using List.reverseRecOn with
  | nil => exact List.nodup_nil
  | append_singleton values last ih =>
      rw [eraseDups_concat]
      split
      · exact ih
      · rename_i fresh
        exact List.nodup_append.mpr ⟨ih, List.nodup_singleton last, by
          intro left member right only equal
          rw [List.mem_singleton] at only
          exact fresh (only ▸ equal ▸ member)⟩

theorem eraseDups_perm {values others : List α} (same : ∀ value, value ∈ values ↔ value ∈ others) :
    values.eraseDups.Perm others.eraseDups := by
  refine (List.perm_ext_iff_of_nodup (nodup_eraseDups values) (nodup_eraseDups others)).mpr ?_
  intro value
  rw [List.mem_eraseDups, List.mem_eraseDups, same]

section Distinct

omit [DecidableEq α]

variable {same : α → α → Bool} {values others : List α}

theorem go_sublist (same : α → α → Bool) (kept values : List α) :
    (distinctBy.go same kept values).Sublist values := by
  induction values generalizing kept with
  | nil => exact List.Sublist.refl []
  | cons value rest ih =>
      rw [distinctBy.go]
      split
      · exact (ih kept).trans (List.sublist_cons_self value rest)
      · exact (ih (value :: kept)).cons_cons value

theorem distinctBy_sublist (same : α → α → Bool) (values : List α) :
    (distinctBy same values).Sublist values :=
  go_sublist same [] values

theorem go_concat (kept values : List α) (last : α) :
    distinctBy.go same kept (values ++ [last]) =
      distinctBy.go same kept values ++
        if kept.any (same · last) || (distinctBy.go same kept values).any (same · last) then []
        else [last] := by
  induction values generalizing kept with
  | nil =>
      simp [distinctBy.go]
  | cons value rest ih =>
      rw [List.cons_append, distinctBy.go, distinctBy.go]
      split
      · exact ih kept
      · rw [ih, List.any_cons, List.any_cons, List.cons_append, Bool.or_assoc, Bool.or_left_comm]

/-- The last member stays if it is not the same as one that stays before it. -/
theorem distinctBy_concat (values : List α) (last : α) :
    distinctBy same (values ++ [last]) =
      if (distinctBy same values).any (same · last) then distinctBy same values
      else distinctBy same values ++ [last] := by
  unfold distinctBy
  rw [go_concat, List.any_nil, Bool.false_or]
  split
  · exact List.append_nil _
  · rfl

/-- No member that stays is the same as a later one. -/
theorem distinctBy_pairwise (same : α → α → Bool) (values : List α) :
    (distinctBy same values).Pairwise fun early late => same early late = false := by
  induction values using List.reverseRecOn with
  | nil => exact List.Pairwise.nil
  | append_singleton values last ih =>
      rw [distinctBy_concat]
      split
      · exact ih
      · rename_i fresh
        have apart : ∀ early ∈ distinctBy same values, same early last = false := by
          simpa using fresh
        exact List.pairwise_append.mpr ⟨ih, List.pairwise_singleton _ _, fun early member late only =>
          List.mem_singleton.mp only ▸ apart early member⟩

/-- Every member is the same as one that stays. -/
theorem exists_mem_distinctBy (refl : ∀ value, same value value = true) {value : α}
    (member : value ∈ values) : ∃ kept ∈ distinctBy same values, same kept value = true := by
  induction values using List.reverseRecOn with
  | nil => contradiction
  | append_singleton values last ih =>
      rw [distinctBy_concat]
      rcases List.mem_append.mp member with early | final
      · obtain ⟨kept, stays, found⟩ := ih early
        refine ⟨kept, ?_, found⟩
        split
        · exact stays
        · exact List.mem_append_left _ stays
      · obtain rfl := List.mem_singleton.mp final
        split
        · rename_i known
          exact List.any_eq_true.mp known
        · exact ⟨value, List.mem_append_right _ (List.mem_singleton.mpr rfl), refl value⟩

theorem distinctBy_eq_self (apart : values.Pairwise fun early late => same early late = false) :
    distinctBy same values = values := by
  induction values using List.reverseRecOn with
  | nil => rfl
  | append_singleton values last ih =>
      obtain ⟨earlier, _, fresh⟩ := List.pairwise_append.mp apart
      have new : ¬ values.any (same · last) = true := by
        simpa using fun early member => fresh early member last (List.mem_singleton_self last)
      rw [distinctBy_concat, ih earlier, if_neg new]

theorem loop_eq_go (comm : ∀ left right, same left right = same right left)
    (kept values : List α) :
    List.eraseDupsBy.loop same values kept = kept.reverse ++ distinctBy.go same kept values := by
  induction values generalizing kept with
  | nil => simp [List.eraseDupsBy.loop, distinctBy.go]
  | cons value rest ih =>
      have known : kept.any (same value) = kept.any (same · value) :=
        congrArg kept.any (funext (comm value))
      rw [List.eraseDupsBy.loop, distinctBy.go, known]
      cases kept.any (same · value) with
      | true => exact ih kept
      | false => simpa using ih (value :: kept)

/-- Where sameness is symmetric, these are the first occurrences of the list library. -/
theorem distinctBy_eq_eraseDupsBy (comm : ∀ left right, same left right = same right left)
    (values : List α) : distinctBy same values = values.eraseDupsBy same :=
  (loop_eq_go comm [] values).symm

/-- Members that are told apart alike have their first occurrences at the same places. -/
theorem distinctBy_map {β : Type} {same' : β → β → Bool} {f : α → β}
    (agree : ∀ left ∈ values, ∀ right ∈ values, same' (f left) (f right) = same left right) :
    distinctBy same' (values.map f) = (distinctBy same values).map f := by
  induction values using List.reverseRecOn with
  | nil => rfl
  | append_singleton values last ih =>
      have earlier := ih fun left first right second =>
        agree left (List.mem_append_left _ first) right (List.mem_append_left _ second)
      have known : ((distinctBy same values).map f).any (same' · (f last)) =
          (distinctBy same values).any (same · last) := by
        rw [List.any_map, Bool.eq_iff_iff, List.any_eq_true, List.any_eq_true]
        refine exists_congr fun kept => and_congr_right fun stays => ?_
        have inside := (distinctBy_sublist same values).subset stays
        rw [Function.comp, agree kept (List.mem_append_left _ inside) last (by simp)]
      rw [List.map_append, List.map_singleton, distinctBy_concat, distinctBy_concat, earlier, known]
      split
      · rfl
      · rw [List.map_append, List.map_singleton]

/-- Members that are the same pass a test together or not at all, so it may be made before or after
the later ones are dropped. -/
theorem filter_distinctBy {test : α → Bool}
    (agree : ∀ left ∈ values, ∀ right ∈ values, same left right = true → test left = test right) :
    (distinctBy same values).filter test = distinctBy same (values.filter test) := by
  induction values using List.reverseRecOn with
  | nil => rfl
  | append_singleton values last ih =>
      have earlier := ih fun left first right second =>
        agree left (List.mem_append_left _ first) right (List.mem_append_left _ second)
      have together : ∀ kept ∈ distinctBy same values, same kept last = true →
          test kept = test last := fun kept stays =>
        agree kept (List.mem_append_left _ ((distinctBy_sublist same values).subset stays)) last
          (by simp)
      rw [distinctBy_concat, List.filter_append]
      cases passes : test last with
      | false =>
          rw [List.filter_singleton, passes]
          split <;> simp [List.filter_append, passes, earlier]
      | true =>
          have known : ((distinctBy same values).filter test).any (same · last) =
              (distinctBy same values).any (same · last) := by
            rw [List.any_filter, Bool.eq_iff_iff, List.any_eq_true, List.any_eq_true]
            refine exists_congr fun kept => and_congr_right fun stays => ?_
            rw [Bool.and_eq_true, and_iff_right_iff_imp]
            exact fun alike => (together kept stays alike).trans passes
          rw [List.filter_singleton, passes, cond_true, distinctBy_concat, ← earlier, known]
          split
          · rfl
          · rw [List.filter_append, List.filter_singleton, passes, cond_true]

/-- The members are the same only if they are equal. -/
def Exact (same : α → α → Bool) (values : List α) : Prop :=
  ∀ left ∈ values, ∀ right ∈ values, same left right = true ↔ left = right

theorem Exact.of_subset (exact : Exact same values) (subset : others ⊆ values) :
    Exact same others :=
  fun left first right second => exact left (subset first) right (subset second)

theorem Exact.distinctBy_eq [DecidableEq α] (exact : Exact same values) :
    distinctBy same values = values.eraseDups := by
  induction values using List.reverseRecOn with
  | nil => rfl
  | append_singleton values last ih =>
      have earlier : distinctBy same values = values.eraseDups :=
        ih (exact.of_subset (List.subset_append_left _ _))
      have known : values.eraseDups.any (same · last) = true ↔ last ∈ values.eraseDups := by
        rw [List.any_eq_true]
        constructor
        · intro found
          obtain ⟨kept, member, equal⟩ := found
          have inside : kept ∈ values := List.mem_eraseDups.mp member
          obtain rfl := (exact kept (by simp [inside]) last (by simp)).mp equal
          exact member
        · intro member
          exact ⟨last, member, (exact last (by simp) last (by simp)).mpr rfl⟩
      rw [distinctBy_concat, eraseDups_concat, earlier]
      simp only [known]

theorem distinctBy_eq_eraseDups [DecidableEq α] (values : List α) :
    distinctBy (· = ·) values = values.eraseDups :=
  Exact.distinctBy_eq fun _ _ _ _ => decide_eq_true_iff

/-- Equal members may come in any order. -/
theorem Exact.distinctBy_perm (exact : Exact same values) (perm : values.Perm others) :
    (distinctBy same values).Perm (distinctBy same others) := by
  classical
  rw [exact.distinctBy_eq, (exact.of_subset perm.symm.subset).distinctBy_eq]
  exact eraseDups_perm fun _ => perm.mem_iff

/-- Of the members with the same key the first one is kept, in the order of the keys. -/
theorem distinctBy_key (key : α → κ) (values : List α) :
    distinctBy (fun left right => key left = key right) values =
      (values.map key).eraseDups.filterMap fun wanted => values.find? (key · = wanted) := by
  induction values using List.reverseRecOn with
  | nil => rfl
  | append_singleton values last ih =>
      have stays : (values.map key).eraseDups.filterMap
            (fun wanted => (values ++ [last]).find? (key · = wanted)) =
          distinctBy (fun left right => key left = key right) values := by
        rw [ih]
        refine List.filterMap_congr fun wanted member => ?_
        obtain ⟨value, stored, rfl⟩ := List.mem_map.mp (List.mem_eraseDups.mp member)
        have found : (values.find? (key · = key value)).isSome = true :=
          List.find?_isSome.mpr ⟨value, stored, decide_eq_true rfl⟩
        rw [List.find?_append, Option.or_of_isSome found]
      have known : (distinctBy (fun left right => key left = key right) values).any
          (fun kept => decide (key kept = key last)) = true ↔ key last ∈ (values.map key).eraseDups := by
        rw [List.mem_eraseDups, List.any_eq_true, List.mem_map]
        constructor
        · rintro ⟨kept, member, alike⟩
          exact ⟨kept, (distinctBy_sublist _ _).subset member, of_decide_eq_true alike⟩
        · rintro ⟨value, member, alike⟩
          obtain ⟨kept, member, alike'⟩ :
              ∃ kept ∈ distinctBy (fun left right => decide (key left = key right)) values,
                decide (key kept = key value) = true :=
            exists_mem_distinctBy (by simp) member
          exact ⟨kept, member, decide_eq_true ((of_decide_eq_true alike').trans alike)⟩
      rw [distinctBy_concat, List.map_append, List.map_singleton, eraseDups_concat]
      by_cases old : key last ∈ (values.map key).eraseDups
      · rw [if_pos (known.mpr old), if_pos old, stays]
      · have fresh : (values ++ [last]).find? (key · = key last) = some last := by
          have none : values.find? (fun value => decide (key value = key last)) = none := by
            rw [List.find?_eq_none]
            intro value member alike
            exact old (List.mem_eraseDups.mpr
              (of_decide_eq_true alike ▸ List.mem_map_of_mem member))
          simp [List.find?_append, none]
        rw [if_neg (mt known.mp old), if_neg old, List.filterMap_append, stays,
          List.filterMap_cons]
        simp only [fresh, List.filterMap_nil]

theorem map_distinctBy_key {β : Type} {key : α → κ} {values : List α} {f : α → β} {g : κ → β}
    (agree : ∀ wanted value, values.find? (key · = wanted) = some value → f value = g wanted) :
    (distinctBy (fun left right => key left = key right) values).map f =
      (values.map key).eraseDups.map g := by
  rw [distinctBy_key, List.map_filterMap, ← List.filterMap_eq_map (f := g)]
  refine List.filterMap_congr fun wanted member => ?_
  obtain ⟨value, stored, same⟩ := List.mem_map.mp (List.mem_eraseDups.mp member)
  have found : (values.find? (key · = wanted)).isSome = true :=
    List.find?_isSome.mpr ⟨value, stored, decide_eq_true same⟩
  obtain ⟨first, found⟩ := Option.isSome_iff_exists.mp found
  rw [found, Option.map_some, Function.comp_apply, agree wanted first found]

end Distinct

end DocumentGraph.Ordered
