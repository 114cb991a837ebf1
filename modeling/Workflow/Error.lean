import Workflow.Json.Fault

namespace Workflow

/-- Why a document is not a component tree. -/
inductive DocumentError where
  | unreadable (error : Json.Error)
  | duplicateId (id : String)
  | ownAncestor (id : String)
  deriving DecidableEq, Repr

def DocumentError.message : DocumentError → String
  | .unreadable error => error.message
  | .duplicateId id => "duplicate component id " ++ id
  | .ownAncestor id => "component " ++ id ++ " is its own ancestor"

/-- A malformed graph. No edge leads out of these errors. -/
inductive GraphError where
  | componentNotFound (id : String)
  | workflowKeyNotFound (key : String)
  | unknownBlockType (id type : String)
  | cyclicDependency (id : String)
  | danglingEdge (source target : String)
  | invalidDocument (error : DocumentError)
  deriving DecidableEq, Repr

def GraphError.message : GraphError → String
  | .componentNotFound id => "Component not found: " ++ id
  | .workflowKeyNotFound key => "Workflow with key \"" ++ key ++ "\" not found"
  | .unknownBlockType id type => "Unknown block type \"" ++ type ++ "\" on node " ++ id
  | .cyclicDependency id => "Cyclic dependency detected at node " ++ id
  | .danglingEdge source target => "Edge from " ++ source ++ " targets missing node " ++ target
  | .invalidDocument error => "Invalid workflow document: " ++ error.message

mutual

/-- An error raised inside a block. -/
inductive BlockError where
  | missingField (field : String)
  | validation (message : String)
  | evaluation (field message : String)
  | state (message : String)
  | executionFailed (message : String)
  | branch (error : FlowError)

/-- An error that ends a run. -/
inductive FlowError where
  | graph (error : GraphError)
  | block (id : String) (error : BlockError)
  | join (report : String)

end

mutual

def BlockError.message : BlockError → String
  | .missingField field => "Missing required field: " ++ field
  | .validation message => "Validation failed: " ++ message
  | .evaluation field message =>
    "Field evaluation failed for '" ++ field ++ "': " ++ message
  | .state message => "State update failed: " ++ message
  | .executionFailed message => "Execution failed: " ++ message
  | .branch error => "Branch run failed: " ++ error.message
  termination_by structural error => error

def FlowError.message : FlowError → String
  | .graph error => "Graph error: " ++ error.message
  | .block id error => "Block '" ++ id ++ "' failed: " ++ error.message
  | .join report => "Branch worker failed: " ++ report
  termination_by structural error => error

end

/-- The component whose block ended the run. -/
def FlowError.failedNode? : FlowError → Option String
  | .block id _ => some id
  | _ => none

end Workflow
