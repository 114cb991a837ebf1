import Workflow.Proofs.Run.Adequacy

namespace Workflow.Engine

variable {engine : Engine} {branches : Branches} {nodes : List Node} {env : Environment}
  {holds : Frame → Prop}

/-- What holds of frames is kept by every step of a run: it is not about which components are being
resolved, and it is true after a component was executed in a frame of which it is true. -/
structure Keeps (engine : Engine) (branches : Branches) (nodes : List Node) (env : Environment)
    (holds : Frame → Prop) : Prop where
  enter : ∀ frame id, holds frame → holds (frame.enter id)
  leave : ∀ frame id, holds frame → holds (frame.leave id)
  execute : ∀ {node : Node} {frame between after : Frame} {attempts : List Attempt} {result : Json}
    {fired : Bool} {ending : Ending FlowError Resolution}, node ∈ nodes → holds frame →
    holds between → engine.Enters node frame →
    Gathers engine branches nodes env (dependencies node nodes) .null false (frame.enter node.id)
      attempts (.ok (.ready result fired)) between →
    (dependencies node nodes = [] ∨ fired = true) →
    Executes engine branches node (nodeEnv env result between.scope) between ending after →
    holds after

mutual

/-- What is kept by every step holds after a component was resolved. The induction over the rules is
made here once. -/
theorem Resolves.keeps {node : Node} {frame after : Frame} {attempts : List Attempt}
    {ending : Ending FlowError Resolution}
    (h : Resolves engine branches nodes env node frame attempts ending after)
    (hkeeps : engine.Keeps branches nodes env holds) (hnode : node ∈ nodes)
    (hbefore : holds frame) : holds after := by
  match h with
  | .unregistered _ => exact hbefore
  | .recorded _ _ => exact hbefore
  | .cyclic _ _ _ => exact hbefore
  | .halted _ hgathers =>
    exact hkeeps.leave _ _ (hgathers.keeps hkeeps (fun _ => mem_of_mem_dependencies)
      (hkeeps.enter _ _ hbefore))
  | .returned _ hgathers =>
    exact hkeeps.leave _ _ (hgathers.keeps hkeeps (fun _ => mem_of_mem_dependencies)
      (hkeeps.enter _ _ hbefore))
  | .unreached _ hgathers _ =>
    exact hkeeps.leave _ _ (hgathers.keeps hkeeps (fun _ => mem_of_mem_dependencies)
      (hkeeps.enter _ _ hbefore))
  | .executed henters hgathers hreached hexecutes =>
    have hbetween := hgathers.keeps hkeeps (fun _ => mem_of_mem_dependencies)
      (hkeeps.enter _ _ hbefore)
    exact hkeeps.leave _ _
      (hkeeps.execute hnode hbefore hbetween henters hgathers hreached hexecutes)

/-- What is kept by every step holds after gathering for a component. -/
theorem Gathers.keeps {needed : List (Node × String)} {result : Json} {fired : Bool}
    {frame after : Frame} {attempts : List Attempt} {ending : Ending FlowError Gathered}
    (h : Gathers engine branches nodes env needed result fired frame attempts ending after)
    (hkeeps : engine.Keeps branches nodes env holds)
    (hneeded : ∀ dependency ∈ needed, dependency.1 ∈ nodes) (hbefore : holds frame) :
    holds after := by
  match h with
  | .done => exact hbefore
  | .halted hresolves =>
    exact hresolves.keeps hkeeps (List.forall_mem_cons.mp hneeded).1 hbefore
  | .returned hresolves =>
    exact hresolves.keeps hkeeps (List.forall_mem_cons.mp hneeded).1 hbefore
  | .unreached hresolves hrest =>
    obtain ⟨hproducer, hothers⟩ := List.forall_mem_cons.mp hneeded
    exact hrest.keeps hkeeps hothers (hresolves.keeps hkeeps hproducer hbefore)
  | .ended hresolves _ =>
    exact hresolves.keeps hkeeps (List.forall_mem_cons.mp hneeded).1 hbefore
  | .reached hresolves _ hrest =>
    obtain ⟨hproducer, hothers⟩ := List.forall_mem_cons.mp hneeded
    exact hrest.keeps hkeeps hothers (hresolves.keeps hkeeps hproducer hbefore)

end

/-- What is kept by every step holds after running components one after the other. -/
theorem Pulls.keeps {pulled : List Node} {frame after : Frame} {attempts : List Attempt}
    {ending : Ending FlowError (Option Json)}
    (h : Pulls engine branches nodes env pulled frame attempts ending after)
    (hkeeps : engine.Keeps branches nodes env holds) (hpulled : ∀ node ∈ pulled, node ∈ nodes)
    (hbefore : holds frame) : holds after := by
  induction h with
  | done => exact hbefore
  | halted hresolves =>
    exact hresolves.keeps hkeeps (List.forall_mem_cons.mp hpulled).1 hbefore
  | returned hresolves =>
    exact hresolves.keeps hkeeps (List.forall_mem_cons.mp hpulled).1 hbefore
  | ended hresolves _ =>
    exact hresolves.keeps hkeeps (List.forall_mem_cons.mp hpulled).1 hbefore
  | unreached hresolves _ ih =>
    obtain ⟨hnode, hrest⟩ := List.forall_mem_cons.mp hpulled
    exact ih hrest (hresolves.keeps hkeeps hnode hbefore)
  | reached hresolves _ _ ih =>
    obtain ⟨hnode, hrest⟩ := List.forall_mem_cons.mp hpulled
    exact ih hrest (hresolves.keeps hkeeps hnode hbefore)

/-- What is kept by every step and holds before a run holds after it. -/
theorem Keeps.runNodes (hkeeps : engine.Keeps branches nodes env holds) {frame : Frame}
    (hbefore : holds frame) : holds (engine.runNodes branches nodes env frame).2 := by
  obtain ⟨attempts, hpulls⟩ := pulls_runNodes engine branches nodes env frame
  exact hpulls.keeps hkeeps (fun _ => mem_of_mem_terminals) hbefore

end Workflow.Engine
