import Workflow.Component.Document
import Workflow.Proofs.Json.Schema

namespace Workflow

open Json (Exact Opens depthLimit)
open Json.Reader (Reads reads_plainText reads_optional_plainText reads_sequence reads_mapping)

theorem Out.opens_toJson (out : Out) : Opens (Json.write out.toJson) :=
  ⟨'{', _, Json.write_object _, rfl, by decide⟩

/-- An edge is read back. -/
theorem Out.reads_toJson (out : Out) {depth : Nat} (hdepth : out.toJson.depth ≤ depth) :
    Reads (Out.schema.read depth) (Json.write out.toJson) out := by
  obtain ⟨depth, rfl⟩ := Nat.exists_eq_add_one.mpr (Nat.zero_lt_of_lt hdepth)
  obtain ⟨label, target⟩ := out
  have hfills : Out.schema.Fills depth {} [("outId", .text label), ("toNodeId", .text target)]
      { label, target } := by
    refine .set rfl rfl (reads_plainText _) (fun label => { label }) (fun _ => rfl) ?_
    refine .set rfl rfl (reads_plainText _) (fun target => { label, target }) (fun _ => rfl) ?_
    exact .done _
  exact hfills.reads rfl

theorem Node.opens_toJson (node : Node) : Opens (Json.write node.toJson) :=
  ⟨'{', _, Json.write_object _, rfl, by decide⟩

/-- A component is read back. Where the container was left out, there is none. -/
theorem Node.reads_toJson {node : Node} (hcontent : Exact (.object node.content)) {depth : Nat}
    (hdepth : node.toJson.depth ≤ depth) :
    Reads (Node.schema.read depth) (Json.write node.toJson) node := by
  obtain ⟨depth, rfl⟩ := Nat.exists_eq_add_one.mpr (Nat.zero_lt_of_lt hdepth)
  obtain ⟨id, type, parent?, content, outs⟩ := node
  have hmembers : Reads (Json.Reader.mapping depth) (Json.write (.object content)) content :=
    reads_mapping hcontent (Json.depth_field_le "content" (by simp) hdepth)
  have hedges : Reads (Json.Reader.sequence Out.schema.read depth)
      (Json.write (.list (outs.map Out.toJson))) outs :=
    reads_sequence (fun out _ _ h => out.reads_toJson h) (fun out _ => out.opens_toJson)
      (Json.depth_field_le "outs" (by simp) hdepth)
  have hlast : ∀ parent, Node.schema.Fills depth { id, type, parent }
      [("content", .object content), ("outs", .list (outs.map Out.toJson))]
      { id, type, parent, content, outs } := by
    intro parent
    refine .set rfl rfl hmembers (fun content => { id, type, parent, content }) (fun _ => rfl) ?_
    refine .set rfl rfl hedges (fun outs => { id, type, parent, content, outs }) (fun _ => rfl) ?_
    exact .done _
  have hfirst : ∀ {rest last}, Node.schema.Fills depth { id, type } rest last →
      Node.schema.Fills depth {} (("id", .text id) :: ("type", .text type) :: rest) last := by
    intro rest last hrest
    refine .set rfl rfl (reads_plainText _) (fun id => { id }) (fun _ => rfl) ?_
    exact .set rfl rfl (reads_plainText _) (fun type => { id, type }) (fun _ => rfl) hrest
  -- Between the type and the content stands the container, if there is one.
  cases parent? with
  | none => exact (hfirst (hlast none)).reads rfl
  | some parent =>
    have hcontained : Node.schema.Fills depth { id, type }
        [("parentId", .text parent), ("content", .object content),
          ("outs", .list (outs.map Out.toJson))]
        { id, type, parent := some (some parent), content, outs } :=
      .set rfl rfl (reads_optional_plainText parent)
        (fun parent => { id, type, parent := some parent }) (fun _ => rfl) (hlast _)
    exact (hfirst hcontained).reads rfl

namespace Tree

/-- The components of a tree are read back. -/
theorem reads_toJson {tree : Tree} (hcontent : ∀ node ∈ tree.nodes, Exact (.object node.content))
    {depth : Nat} (hdepth : tree.toJson.depth ≤ depth) :
    Reads (Tree.schema.read depth) (Json.write tree.toJson) tree.nodes := by
  obtain ⟨depth, rfl⟩ := Nat.exists_eq_add_one.mpr (Nat.zero_lt_of_lt hdepth)
  have hnodes : Reads (Json.Reader.sequence Node.schema.read depth)
      (Json.write (.list (tree.nodes.map Node.toJson))) tree.nodes :=
    reads_sequence (fun node hnode _ hdepth => Node.reads_toJson (hcontent node hnode) hdepth)
      (fun node _ => node.opens_toJson) (Json.depth_field_le _ (.head _) hdepth)
  have hfills : Tree.schema.Fills depth {} [("components", .list (tree.nodes.map Node.toJson))]
      ⟨some tree.nodes⟩ :=
    .set rfl rfl hnodes (fun nodes => ⟨nodes⟩) (fun _ => rfl) (.done _)
  exact hfills.reads rfl

/-- A component with a new id comes last. -/
theorem nodes_add_of_notMem {tree : Tree} {node : Node} (h : node.id ∉ tree.ids) :
    (tree.add node).nodes = tree.nodes ++ [node] := by
  rw [add, dif_neg h]

/-- Components with new ids are added in order. -/
theorem nodes_of_addNew {tree after : Tree} {nodes : List Node}
    (h : tree.addNew nodes = .ok after) : after.nodes = tree.nodes ++ nodes := by
  induction nodes generalizing tree with
  | nil =>
    obtain rfl := Except.ok.inj h
    exact (List.append_nil _).symm
  | cons node rest ih =>
    rw [addNew] at h
    split at h
    · cases h
    · next hnew => rw [ih h, nodes_add_of_notMem hnew, List.append_assoc, List.singleton_append]

/-- A tree that is made of components has just these, in their order. -/
theorem nodes_of_ofNodes {after : Tree} {nodes : List Node} (h : ofNodes nodes = .ok after) :
    after.nodes = nodes := by
  unfold ofNodes at h
  cases hadded : empty.addNew nodes with
  | error e =>
    rw [hadded] at h
    cases h
  | ok tree =>
    simp only [hadded, bind, Except.bind] at h
    split at h
    · cases h
    · obtain rfl := Except.ok.inj h
      exact nodes_of_addNew hadded

/-- A tree is its components. -/
theorem eq_of_nodes {tree other : Tree} (h : tree.nodes = other.nodes) : tree = other := by
  obtain ⟨nodes, _⟩ := tree
  obtain ⟨others, _⟩ := other
  obtain rfl : nodes = others := h
  rfl

/-- The compact document of a tree is read as the same tree: the same components in the same order,
each with its container or none, its content in order, and its edges in order. This holds of every
tree that could be made of its components, if its values are read back as they were written and the
document nests no deeper than a text may. -/
theorem parse_compact {tree accepted : Tree} (haccepted : ofNodes tree.nodes = .ok accepted)
    (hcontent : ∀ node ∈ tree.nodes, Exact (.object node.content))
    (hdepth : tree.toJson.depth ≤ depthLimit) :
    parse tree.toJson.compact = .ok tree := by
  have hread : Tree.schema.parse tree.toJson.compact = .ok tree.nodes :=
    Json.Reader.readAll_of_reads (reads_toJson hcontent hdepth)
  have hsame : accepted = tree := eq_of_nodes (nodes_of_ofNodes haccepted)
  rw [parse, hread, ← hsame]
  exact hsame.symm ▸ haccepted

namespace Sample

/-- A component with a container, an edge, and content that has to be escaped. -/
def written : Node :=
  { id := "né\n", type := "set\x07", parent? := some "w"
    content := [("\"key\"", .object [("z", .int (-9223372036854775808)), ("a", .list [])]),
      ("", .list [.int 18446744073709551615, .text "\\u0000 @\x7bx\x7d", .null])]
    outs := [⟨"success", "w"⟩, ⟨"", "né\n"⟩] }

/-- The container comes last, and has none itself. -/
def document : Tree where
  nodes := [written, { id := "w", type := "workflow" }]
  distinct := by decide

theorem exact_document : ∀ node ∈ document.nodes, Exact (.object node.content) := by
  intro node hnode
  simp only [document, List.mem_cons, List.not_mem_nil, or_false] at hnode
  obtain rfl | rfl := hnode
  · refine .object (by decide) ?_
    simp only [written, List.forall_mem_cons]
    refine ⟨.object (by decide) ?_, .list ?_, List.forall_mem_nil _⟩
    · simp only [List.forall_mem_cons]
      exact ⟨.int (by decide), .list (List.forall_mem_nil _), List.forall_mem_nil _⟩
    · simp only [List.forall_mem_cons]
      exact ⟨.int (by decide), .text _, .null, List.forall_mem_nil _⟩
  · exact .object .nil (List.forall_mem_nil _)

end Sample

/-- Escapes, empty names and the bounds of whole numbers survive. -/
theorem parse_compact_document :
    ofNodes Sample.document.nodes = .ok Sample.document ∧
      Sample.document.toJson.depth ≤ depthLimit ∧
      parse Sample.document.toJson.compact = .ok Sample.document := by
  have haccepted : ofNodes Sample.document.nodes = .ok Sample.document := by rfl
  have hdepth : Sample.document.toJson.depth ≤ depthLimit := by decide
  exact ⟨haccepted, hdepth, parse_compact haccepted Sample.exact_document hdepth⟩

end Tree

end Workflow
