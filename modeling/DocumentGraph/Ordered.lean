namespace DocumentGraph.Ordered

/-! Pairs in order of insertion, and first occurrences.

Storing under a key that is present replaces the value where the key stands; a new key
goes to the end.
-/

variable {κ ν α : Type}

def put [DecidableEq κ] (key : κ) (value : ν) : List (κ × ν) → List (κ × ν)
  | [] => [(key, value)]
  | (present, old) :: rest =>
      if present = key then (key, value) :: rest else (present, old) :: put key value rest

def ofPairs [DecidableEq κ] (pairs : List (κ × ν)) : List (κ × ν) :=
  pairs.foldl (fun stored (key, value) => put key value stored) []

/-- The members of a list that are not the same as an earlier one. -/
def distinctBy (same : α → α → Bool) (values : List α) : List α :=
  go [] values
where
  /-- `kept` holds the members kept so far, the latest first. -/
  go (kept : List α) : List α → List α
    | [] => []
    | value :: rest =>
        if kept.any (same · value) then go kept rest else value :: go (value :: kept) rest

theorem lookup_put_self [DecidableEq κ] (key : κ) (value : ν) (pairs : List (κ × ν)) :
    (put key value pairs).lookup key = some value := by
  induction pairs with
  | nil => simp [put]
  | cons pair rest ih =>
      obtain ⟨present, old⟩ := pair
      by_cases same : present = key
      · simp [put, same]
      · have different : (key == present) = false := by
          simpa using fun equal : key = present => same equal.symm
        simp [put, same, List.lookup_cons, different, ih]

theorem lookup_put_of_ne [DecidableEq κ] {key other : κ} (different : other ≠ key) (value : ν)
    (pairs : List (κ × ν)) : (put key value pairs).lookup other = pairs.lookup other := by
  have unequal : (other == key) = false := by simpa using different
  induction pairs with
  | nil => simp [put, List.lookup_cons, unequal]
  | cons pair rest ih =>
      obtain ⟨present, old⟩ := pair
      by_cases same : present = key
      · simp [put, same, List.lookup_cons, unequal]
      · simp [put, same, List.lookup_cons, ih]

end DocumentGraph.Ordered
