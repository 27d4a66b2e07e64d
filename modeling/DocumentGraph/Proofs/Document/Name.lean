import DocumentGraph.Proofs.Document.Tree
import DocumentGraph.Proofs.Text.Split
import Mathlib.Data.List.Chain

namespace DocumentGraph

/-! Names and ids.

The id of a document is its path without the extension, and an edge is named after its ends.  Names
without slashes make ids that tell paths apart; without doubled dashes in the names, the id of an
edge tells its source, its type and its target.
-/

/-- A text without two dashes side by side. -/
def Undoubled (text : List Char) : Prop :=
  ¬ ['-', '-'] <:+: text

instance (text : List Char) : Decidable (Undoubled text) :=
  inferInstanceAs (Decidable (¬ _))

theorem undoubled_iff_isChain {text : List Char} :
    Undoubled text ↔ text.IsChain fun c next => ¬ (c = '-' ∧ next = '-') := by
  rw [List.isChain_iff_forall_rel_of_append_cons_cons, Undoubled, List.IsInfix]
  constructor
  · rintro undoubled c next front behind rfl ⟨rfl, rfl⟩
    exact undoubled ⟨front, behind, by simp⟩
  · rintro apart ⟨front, behind, same⟩
    have split : text = front ++ '-' :: '-' :: behind := by simp [← same]
    exact apart split ⟨rfl, rfl⟩

theorem Undoubled.left_of_append {text other : List Char} (undoubled : Undoubled (text ++ other)) :
    Undoubled text :=
  fun doubled => undoubled (doubled.trans (List.infix_append' [] text other))

/-- A type that can be told from the dashes around it. -/
def IsDashless (type : String) : Prop :=
  type ≠ "" ∧ '-' ∉ type.toList

theorem toList_derivedId (source type target : String) :
    (Edge.derivedId source type target).toList =
      source.toList ++ '-' :: '-' :: (type.toList ++ '-' :: '-' :: target.toList) := by
  simp [Edge.derivedId]

theorem derivedId_source_inj {source type type' target target' : String}
    (dashless : IsDashless type) (dashless' : IsDashless type')
    (same : Edge.derivedId source type target = Edge.derivedId source type' target') :
    type = type' ∧ target = target' := by
  have texts := congrArg String.toList same
  rw [toList_derivedId, toList_derivedId, List.append_cancel_left_eq, List.cons.injEq,
    List.cons.injEq] at texts
  have behind := texts.2.2
  have types : type.toList = type'.toList := by
    rw [← Text.takeWhile_append_cons dashless.2 ('-' :: target.toList), behind,
      Text.takeWhile_append_cons dashless'.2]
  rw [types, List.append_cancel_left_eq, List.cons.injEq, List.cons.injEq] at behind
  exact ⟨String.toList_inj.mp types, String.toList_inj.mp behind.2.2⟩

/-- Where two ids agree and one source goes on behind the end of the other, it goes on with the
dashes and the type that stand there. -/
theorem exists_rest_of_derivedId {extra target behind : List Char} {type : String}
    (dashless : IsDashless type) (nonempty : extra ≠ [])
    (same : '-' :: '-' :: (type.toList ++ '-' :: '-' :: target) = extra ++ '-' :: '-' :: behind) :
    ∃ rest, extra = '-' :: '-' :: (type.toList ++ rest) ∧
      '-' :: '-' :: target = rest ++ '-' :: '-' :: behind := by
  match extra, nonempty with
  | [_], _ =>
      obtain ⟨first, others, spelled⟩ :=
        List.exists_cons_of_ne_nil (mt String.toList_eq_nil_iff.mp dashless.1)
      rw [spelled] at same
      have dash : first = '-' := by simp_all
      exact absurd (spelled ▸ dash ▸ List.mem_cons_self) dashless.2
  | _ :: _ :: extra, _ =>
      simp only [List.cons_append, List.cons.injEq] at same
      obtain ⟨rfl, rfl, same⟩ := same
      rcases List.append_eq_append_iff.mp same with ⟨rest, rfl, left⟩ | ⟨rest, spelled, left⟩
      · exact ⟨rest, rfl, left⟩
      · cases rest with
        | nil => exact ⟨[], by simp [spelled], by simpa using left.symm⟩
        | cons c rest =>
            -- The type would end inside the dashes of the other id.
            obtain rfl : '-' = c := (List.cons.inj left).1
            exact absurd (spelled ▸ by simp) dashless.2

theorem eq_nil_of_derivedId {source extra rest : List Char} {type target : String}
    (undoubled : Undoubled (source ++ extra)) (dashless : IsDashless type)
    (same : '-' :: '-' :: (type.toList ++ '-' :: '-' :: target.toList) =
      extra ++ '-' :: '-' :: rest) : extra = [] := by
  by_contra nonempty
  obtain ⟨behind, rfl, _⟩ := exists_rest_of_derivedId dashless nonempty same
  exact undoubled ⟨source, type.toList ++ behind, by simp⟩

theorem derivedId_inj {source source' type type' target target' : String}
    (undoubled : Undoubled source.toList) (undoubled' : Undoubled source'.toList)
    (dashless : IsDashless type) (dashless' : IsDashless type')
    (same : Edge.derivedId source type target = Edge.derivedId source' type' target') :
    source = source' ∧ type = type' ∧ target = target' := by
  have texts := congrArg String.toList same
  rw [toList_derivedId, toList_derivedId, List.append_eq_append_iff] at texts
  obtain rfl : source = source' := by
    rcases texts with ⟨extra, longer, behind⟩ | ⟨extra, longer, behind⟩
    · rw [longer] at undoubled'
      rw [eq_nil_of_derivedId undoubled' dashless behind, List.append_nil] at longer
      exact String.toList_inj.mp longer.symm
    · rw [longer] at undoubled
      rw [eq_nil_of_derivedId undoubled dashless' behind, List.append_nil] at longer
      exact String.toList_inj.mp longer
  exact ⟨rfl, derivedId_source_inj dashless dashless' same⟩

end DocumentGraph
