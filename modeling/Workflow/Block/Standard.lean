import Workflow.Block.Standard.ForEach
import Workflow.Block.Standard.LogMessage
import Workflow.Block.Standard.ParseJson
import Workflow.Block.Standard.ReturnValue
import Workflow.Block.Standard.SetState

namespace Workflow.Registry

def withStandard (registry : Registry) : Registry :=
  registry
    |>.register ForEach.type ForEach.blockType
    |>.register LogMessage.type LogMessage.blockType
    |>.register SetState.type SetState.blockType
    |>.register ReturnValue.type ReturnValue.blockType
    |>.register ParseJson.type ParseJson.blockType

/-- The standard block types. -/
def standard : Registry := empty.withStandard

end Workflow.Registry
