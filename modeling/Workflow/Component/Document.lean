import Workflow.Component.Tree
import Workflow.Json.Reader.Schema

namespace Workflow

open Json (Schema)

def Out.toJson (out : Out) : Json :=
  .object [("outId", .text out.label), ("toNodeId", .text out.target)]

/-- The written form of a component. The container is left out where there is none. -/
def Node.toJson (node : Node) : Json :=
  let parent := match node.parent? with
    | some id => [("parentId", .text id)]
    | none => []
  .object ([("id", .text node.id), ("type", .text node.type)] ++ parent ++
    [("content", .object node.content), ("outs", .list (node.outs.map Out.toJson))])

/-- The written form of a component tree: an object with the list of its components. -/
def Tree.toJson (tree : Tree) : Json :=
  .object [("components", .list (tree.nodes.map Node.toJson))]

/-- An edge of which some fields are read. -/
structure Out.Draft where
  label : Option String := none
  target : Option String := none

def Out.schema : Schema Out.Draft Out where
  title := "struct Out"
  fields := [
    { name := "outId"
      present := fun draft => draft.label.isSome
      read := fun _ draft s =>
        (Json.Reader.plainText s).map fun r => ({ draft with label := some r.1 }, r.2)
      mayEnd := false },
    { name := "toNodeId"
      present := fun draft => draft.target.isSome
      read := fun _ draft s =>
        (Json.Reader.plainText s).map fun r => ({ draft with target := some r.1 }, r.2)
      mayEnd := false }]
  empty := {}
  finish := fun draft =>
    match draft.label, draft.target with
    | none, _ => .error "outId"
    | _, none => .error "toNodeId"
    | some label, some target => .ok ⟨label, target⟩

/-- A component of which some fields are read. -/
structure Node.Draft where
  id : Option String := none
  type : Option String := none
  parent : Option (Option String) := none
  content : Option (Bindings Json) := none
  outs : Option (List Out) := none

/-- How components are read. The container, the content and the edges may be missing. -/
def Node.schema : Schema Node.Draft Node where
  title := "struct Node"
  fields := [
    { name := "id"
      present := fun draft => draft.id.isSome
      read := fun _ draft s =>
        (Json.Reader.plainText s).map fun r => ({ draft with id := some r.1 }, r.2)
      mayEnd := false },
    { name := "type"
      present := fun draft => draft.type.isSome
      read := fun _ draft s =>
        (Json.Reader.plainText s).map fun r => ({ draft with type := some r.1 }, r.2)
      mayEnd := false },
    { name := "parentId"
      present := fun draft => draft.parent.isSome
      read := fun _ draft s =>
        (Json.Reader.optional Json.Reader.plainText s).map fun r =>
          ({ draft with parent := some r.1 }, r.2)
      mayEnd := true },
    { name := "content"
      present := fun draft => draft.content.isSome
      read := fun depth draft s =>
        (Json.Reader.mapping depth s).map fun r => ({ draft with content := some r.1 }, r.2)
      mayEnd := true },
    { name := "outs"
      present := fun draft => draft.outs.isSome
      read := fun depth draft s =>
        (Json.Reader.sequence Out.schema.read depth s).map fun r =>
          ({ draft with outs := some r.1 }, r.2)
      mayEnd := true }]
  empty := {}
  finish := fun draft =>
    match draft.id, draft.type with
    | none, _ => .error "id"
    | _, none => .error "type"
    | some id, some type =>
      .ok { id, type, parent? := draft.parent.getD none, content := draft.content.getD [],
            outs := draft.outs.getD [] }

/-- A document of which the components may be read. -/
structure Tree.Draft where
  components : Option (List Node) := none

def Tree.schema : Schema Tree.Draft (List Node) where
  title := "struct WorkflowDocument"
  fields := [
    { name := "components"
      present := fun draft => draft.components.isSome
      read := fun depth _ s =>
        (Json.Reader.sequence Node.schema.read depth s).map fun r => (⟨some r.1⟩, r.2)
      mayEnd := false }]
  empty := {}
  finish := fun draft =>
    match draft.components with
    | none => .error "components"
    | some components => .ok components

/-- Reads a tree from the text of its document. -/
def Tree.parse (text : String) : Except GraphError Tree :=
  match Tree.schema.parse text with
  | .error error => .error (.invalidDocument (.unreadable error))
  | .ok nodes => Tree.ofNodes nodes

end Workflow
