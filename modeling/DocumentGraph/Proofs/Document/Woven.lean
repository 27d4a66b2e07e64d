import DocumentGraph.Proofs.Document.Link
import DocumentGraph.Proofs.Document.Pattern

namespace DocumentGraph.Document

/-! Links in the midst of text.

Where links of one sort stand between pieces of text that have no opening bracket, just these links
are found, in their order.  Each target of links between doubled brackets is linked to once, with
the label of the first link to it.
-/

/-- Pieces of text, each with a written part behind it, and a last text. -/
def woven {α : Type} (written : α → List Char) (pieces : List (List Char × α))
    (rest : List Char) : List Char :=
  pieces.flatMap (fun (front, part) => front ++ written part) ++ rest

/-- What is found in woven parts, if every match begins with an opening bracket. -/
theorem found_woven {α : Type} {matched : α → List Char → Prop} {found : List Char → List α}
    {written : α → List Char} {pieces : List (List Char × α)} (rest : List Char)
    (searches : Searches matched found)
    (opens : ∀ item part, matched item part → part.head? = some '[')
    (fits : ∀ piece ∈ pieces, matched piece.2 (written piece.2))
    (apart : ∀ piece ∈ pieces, '[' ∉ piece.1) :
    found (woven written pieces rest) = pieces.map Prod.snd ++ found rest := by
  induction pieces with
  | nil => rfl
  | cons piece others ih =>
      have later := ih (fun other member => fits other (List.mem_cons_of_mem _ member))
        (fun other member => apart other (List.mem_cons_of_mem _ member))
      have first : woven written (piece :: others) rest =
          piece.1 ++ (written piece.2 ++ woven written others rest) := by
        simp only [woven, List.flatMap_cons, List.append_assoc]
      rw [first, searches.found_append_of_not_mem opens _ _ (apart piece List.mem_cons_self),
        searches.takes _ _ _ (fits piece List.mem_cons_self), later]
      rfl

/-- A text that is not blank and has none of the characters that links are written with. -/
structure Wordy (text : List Char) : Prop where
  solid : ∃ c ∈ text, Text.isBlank c = false
  opening : '[' ∉ text
  closing : ']' ∉ text
  bar : '|' ∉ text

instance (text : List Char) : Decidable (Wordy text) :=
  decidable_of_iff (text.any (!Text.isBlank ·) = true ∧ '[' ∉ text ∧ ']' ∉ text ∧ '|' ∉ text)
    ⟨fun ⟨solid, opening, closing, bar⟩ => ⟨by simpa using solid, opening, closing, bar⟩,
      fun ⟨solid, opening, closing, bar⟩ => ⟨by simpa using solid, opening, closing, bar⟩⟩

/-- A link whose target and label are taken as they are written. -/
structure WikiLink.Clean (link : WikiLink) : Prop where
  target : Wordy link.target
  label : ∀ label ∈ link.label, Wordy label

instance (link : WikiLink) : Decidable link.Clean :=
  decidable_of_iff (Wordy link.target ∧ ∀ label ∈ link.label, Wordy label)
    ⟨fun ⟨target, label⟩ => ⟨target, label⟩, fun ⟨target, label⟩ => ⟨target, label⟩⟩

variable {node : Node} {text label rest : List Char} {link : WikiLink}
  {pieces : List (List Char × WikiLink)}

theorem Wordy.trim_ne_nil (wordy : Wordy text) : Text.trim text ≠ [] := by
  obtain ⟨c, member, solid⟩ := wordy.solid
  exact Text.trim_ne_nil_of_mem solid member

theorem Wordy.ne_nil (wordy : Wordy text) : text ≠ [] := by
  obtain ⟨c, member, _⟩ := wordy.solid
  exact List.ne_nil_of_mem member

theorem WikiLink.Clean.fits (clean : link.Clean) : link.Fits where
  filled := clean.target.ne_nil
  closing := clean.target.closing
  bar := clean.target.bar
  label := fun label labelled =>
    ⟨(clean.label label labelled).ne_nil, (clean.label label labelled).closing⟩

theorem WikiLink.Matched.head? {part : List Char} (matched : link.Matched part) :
    part.head? = some '[' := by
  rw [matched.2]
  rfl

theorem PathLink.Matched.head? {link : PathLink} {part : List Char} (matched : link.Matched part) :
    part.head? = some '[' := by
  rw [matched.2]
  rfl

theorem wikiLinks_of_not_mem (absent : '[' ∉ rest) : wikiLinks rest = [] := by
  have passed := searches_wikiLinks.found_append_of_not_mem
    (fun _ _ => WikiLink.Matched.head?) rest [] absent
  rwa [List.append_nil, searches_wikiLinks.ended] at passed

theorem pathLinks_of_not_mem (absent : '[' ∉ rest) : pathLinks rest = [] := by
  have passed := searches_pathLinks.found_append_of_not_mem
    (fun _ _ => PathLink.Matched.head?) rest [] absent
  rwa [List.append_nil, searches_pathLinks.ended] at passed

theorem wikiLinks_woven (rest : List Char) (fits : ∀ piece ∈ pieces, piece.2.Fits)
    (apart : ∀ piece ∈ pieces, '[' ∉ piece.1) :
    wikiLinks (woven WikiLink.written pieces rest) = pieces.map Prod.snd ++ wikiLinks rest :=
  found_woven rest searches_wikiLinks (fun _ _ => WikiLink.Matched.head?)
    (fun piece member => ⟨fits piece member, rfl⟩) apart

theorem pathLinks_woven {pieces : List (List Char × PathLink)} (rest : List Char)
    (fits : ∀ piece ∈ pieces, piece.2.Fits) (apart : ∀ piece ∈ pieces, '[' ∉ piece.1) :
    pathLinks (woven PathLink.written pieces rest) = pieces.map Prod.snd ++ pathLinks rest :=
  found_woven rest searches_pathLinks (fun _ _ => PathLink.Matched.head?)
    (fun piece member => ⟨fits piece member, rfl⟩) apart

/-- The id that a link leads to from a node. -/
def WikiLink.reached (node : Node) (link : WikiLink) : String :=
  resolveWikiLink (Text.trim link.target) node.skill

/-- The label of a link without the blanks around it, unless it is blank. -/
def WikiLink.shownLabel (link : WikiLink) : Option String :=
  ((link.label.map Text.trim).filter fun label => !label.isEmpty).map String.ofList

/-- The edge of a labelled link to a target. -/
def linksTo (node : Node) (target : String) (label : Option String) : Edge :=
  { Edge.between node.id "LINKS_TO" target with
    properties := (label.map fun label => ("label", Property.string label)).toList }

def isLinksTo (edge : Edge) : Bool :=
  edge.type = "LINKS_TO"

theorem filter_isLinksTo_linkEdges (types : List String) (target : String)
    (label : Option String) :
    (linkEdges node types target label).filter isLinksTo =
      (types.filter (· = "LINKS_TO")).map fun type =>
        { Edge.between node.id type target with
          properties := (label.map fun label => ("label", Property.string label)).toList } := by
  have depends : (types ++ ["DEPENDS_ON"]).filter (· = "LINKS_TO") =
      types.filter (· = "LINKS_TO") := by
    rw [List.filter_append]
    exact List.append_nil _
  unfold linkEdges
  rw [List.filter_map]
  split
  · rfl
  · exact congrArg _ depends

theorem filter_isLinksTo_wikiLinkEdges (node : Node) (link : WikiLink) :
    (wikiLinkEdges node link).filter isLinksTo =
      [linksTo node (link.reached node) link.shownLabel] := by
  unfold wikiLinkEdges
  rw [filter_isLinksTo_linkEdges]
  split <;> rfl

theorem filter_isLinksTo_pathLinkEdges (node : Node) (link : PathLink) :
    (pathLinkEdges node link).filter isLinksTo = [] := by
  unfold pathLinkEdges
  split
  · rfl
  · rw [filter_isLinksTo_linkEdges]
    rfl

theorem filter_isLinksTo_linkedEdges (node : Node) (body : List Char) :
    (linkedEdges node body).filter isLinksTo =
      (wikiLinks body).map fun link => linksTo node (link.reached node) link.shownLabel := by
  have paths : ((pathLinks body).flatMap (pathLinkEdges node)).filter isLinksTo = [] := by
    rw [List.filter_flatMap, List.flatMap_eq_nil_iff]
    exact fun link _ => filter_isLinksTo_pathLinkEdges node link
  rw [linkedEdges, List.filter_append, paths, List.append_nil, List.filter_flatMap,
    List.map_eq_flatMap]
  exact List.flatMap_congr fun link _ => filter_isLinksTo_wikiLinkEdges node link

/-- For each target that is linked to there is one edge, that of the first link to it. -/
theorem filter_isLinksTo_edges (node : Node) (body : List Char) :
    (edges node body).filter isLinksTo =
      ((wikiLinks body).map (WikiLink.reached node)).eraseDups.map fun target =>
        linksTo node target (((wikiLinks body).find? (·.reached node = target)).bind
          WikiLink.shownLabel) := by
  have agree : ∀ left ∈ linkedEdges node body, ∀ right ∈ linkedEdges node body,
      decide (left.id = right.id) = true → isLinksTo left = isLinksTo right := by
    intro left first right second same
    have types := ((leaves_of_mem_linkedEdges first).eq_of_id (leaves_of_mem_linkedEdges second)
      (of_decide_eq_true same)).1
    rw [isLinksTo, isLinksTo, types]
  have ids : ∀ left ∈ wikiLinks body, ∀ right ∈ wikiLinks body,
      decide ((linksTo node (left.reached node) left.shownLabel).id =
        (linksTo node (right.reached node) right.shownLabel).id) =
      decide (left.reached node = right.reached node) := by
    intro left _ right _
    have dashless : IsDashless "LINKS_TO" := isDashless_of_mem_linkTypes (.head _)
    exact decide_eq_decide.mpr ⟨fun same => (derivedId_source_inj dashless dashless same).2,
      congrArg (Edge.derivedId node.id "LINKS_TO")⟩
  calc (edges node body).filter isLinksTo
      = Ordered.distinctBy (fun left right => left.id = right.id)
          ((linkedEdges node body).filter isLinksTo) := Ordered.filter_distinctBy agree
    _ = (Ordered.distinctBy (fun left right => left.reached node = right.reached node)
          (wikiLinks body)).map fun link => linksTo node (link.reached node) link.shownLabel := by
        rw [filter_isLinksTo_linkedEdges, Ordered.distinctBy_map ids]
    _ = _ := Ordered.map_distinctBy_key fun target link found => by
        have reached : link.reached node = target := by simpa using List.find?_some found
        rw [found, reached, Option.bind_some]

/-- Of the edges of a document no two have the same id. -/
theorem nodup_edges (node : Node) (body : List Char) : ((edges node body).map Edge.id).Nodup := by
  rw [List.nodup_iff_pairwise_ne, List.pairwise_map]
  exact (Ordered.distinctBy_pairwise _ _).imp of_decide_eq_false

theorem WikiLink.Clean.shownLabel_eq (clean : link.Clean) :
    link.shownLabel = link.label.map fun label => String.ofList (Text.trim label) := by
  unfold WikiLink.shownLabel
  cases labelled : link.label with
  | none => rfl
  | some label =>
      have filled : (Text.trim label).isEmpty = false :=
        List.isEmpty_eq_false_iff.mpr (clean.label label labelled).trim_ne_nil
      simp [Option.filter, filled]

/-- A text in which links stand between pieces of other text links to their targets, in the order
of the text and to each target once, with the label of the first link to it.  Of any text the edges
have different ids and leave the node. -/
theorem edges_woven (node : Node) (clean : ∀ piece ∈ pieces, piece.2.Clean)
    (apart : ∀ piece ∈ pieces, '[' ∉ piece.1) (last : '[' ∉ rest) :
    let links := pieces.map Prod.snd
    let reached (link : WikiLink) := resolveWikiLink (Text.trim link.target) node.skill
    (edges node (woven WikiLink.written pieces rest)).filter (·.type = "LINKS_TO") =
      ((links.map reached).eraseDups.map fun target =>
        let label := (links.find? (reached · = target)).bind WikiLink.label
        { Edge.between node.id "LINKS_TO" target with
          properties := (label.map fun label =>
            ("label", Property.string (String.ofList (Text.trim label)))).toList }) ∧
    ∀ body, ((edges node body).map Edge.id).Nodup ∧
      ∀ edge ∈ edges node body, edge.source = node.id := by
  intro links reached
  have found : wikiLinks (woven WikiLink.written pieces rest) = links := by
    rw [wikiLinks_woven rest (fun piece member => (clean piece member).fits) apart,
      wikiLinks_of_not_mem last, List.append_nil]
  refine ⟨?_, fun body => ⟨nodup_edges node body, fun edge member =>
    (leaves_of_mem_edges member).source⟩⟩
  have linked := filter_isLinksTo_edges node (woven WikiLink.written pieces rest)
  rw [found] at linked
  refine linked.trans (List.map_congr_left fun target _ => ?_)
  have labels : (links.find? (reached · = target)).bind WikiLink.shownLabel =
      ((links.find? (reached · = target)).bind WikiLink.label).map
        fun label => String.ofList (Text.trim label) := by
    cases first : links.find? (reached · = target) with
    | none => rfl
    | some link =>
        obtain ⟨piece, known, rfl⟩ := List.mem_map.mp (List.mem_of_find?_eq_some first)
        exact (clean piece known).shownLabel_eq
  change linksTo node target ((links.find? (reached · = target)).bind WikiLink.shownLabel) = _
  rw [labels, linksTo, Option.map_map]
  rfl

/-- Two links to one document, of which the first one has a label, and one into another skill. -/
theorem edges_woven_twice :
    (edges { id := "alpha/index", labels := ["Index"], skill := "alpha" }
      "See [[nodes/intro| Intro]] or ]| [[nodes/intro.md|Start]], [[beta/x]].".toList).filter
        (·.type = "LINKS_TO") =
      [{ Edge.between "alpha/index" "LINKS_TO" "alpha/nodes/intro" with
          properties := [("label", .string "Intro")] },
        Edge.between "alpha/index" "LINKS_TO" "beta/x"] := by
  have spelled : "See [[nodes/intro| Intro]] or ]| [[nodes/intro.md|Start]], [[beta/x]].".toList =
      woven WikiLink.written [("See ".toList, ⟨"nodes/intro".toList, some " Intro".toList⟩),
        (" or ]| ".toList, ⟨"nodes/intro.md".toList, some "Start".toList⟩),
        (", ".toList, ⟨"beta/x".toList, none⟩)] ".".toList := by
    decide +kernel
  rw [spelled, (edges_woven _ (by decide) (by decide) (by decide)).1]
  decide +kernel

end DocumentGraph.Document
