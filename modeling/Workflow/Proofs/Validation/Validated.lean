import Workflow.Proofs.Component.Tree
import Workflow.Proofs.Run.Faults
import Workflow.Proofs.Run.Runner

namespace Workflow

/-- A run of a workflow that validation accepts never ends with an error of the graph, whatever its
blocks do: its root is found, its types are known and it meets no cycle. -/
theorem Runner.runWorkflow_ne_graph {runner : Runner} {root : String} {summary : Validated}
    (hvalid : validateWorkflow runner.tree runner.registry root = .ok summary)
    (env : Environment) (session : Session) (e : GraphError) :
    (runner.runWorkflow root env session).1 ≠ .error (.graph e) := by
  unfold validateWorkflow at hvalid
  unfold Runner.runWorkflow
  cases hroot : runner.tree.get? root with
  | none => simp [hroot] at hvalid
  | some workflow =>
    simp only [hroot] at hvalid ⊢
    have hnodup := runner.tree.nodup_descendants root
    obtain ⟨hregistered, _, hacyclic⟩ := (Validation.wellFormed_of_validate hnodup hvalid).1
    obtain ⟨attempts, hpulls⟩ := runner.toEngine.pulls_runNodes runner.nested
      (runner.tree.descendants root) env { world := session.world }
    have hends := hpulls.ne_graph (identified_of_nodup hnodup) hacyclic hregistered
      (fun _ => mem_of_mem_terminals) (fun _ => List.forall_mem_nil _) e
    rwa [Runner.run_ending, Ne, Ending.map_eq_error]

/-- Runs scripted blocks on the tree with an edge that leaves its workflow. -/
def Sample.crossingRunner : Runner :=
  { registry := Sample.registry, tree := Sample.crossing, nesting := 0 }

/-- The edge that leaves the workflow is not followed in its run, and no error comes of it. -/
theorem Runner.runWorkflow_ne_graph_crossing :
    validateWorkflow Sample.crossing Sample.registry "w" = .ok ⟨2, 1, ["a", "b"]⟩ ∧
      (Sample.crossingRunner.runWorkflow "w" .empty {}).1.Completes ∧
      ∀ e, (Sample.crossingRunner.runWorkflow "w" .empty {}).1 ≠ .error (.graph e) := by
  have hvalid : validateWorkflow Sample.crossing Sample.registry "w" = .ok ⟨2, 1, ["a", "b"]⟩ := by
    decide +kernel
  have hcompletes : (Sample.crossingRunner.runWorkflow "w" .empty {}).1.Completes := by
    decide +kernel
  exact ⟨hvalid, hcompletes, Sample.crossingRunner.runWorkflow_ne_graph hvalid .empty {}⟩

end Workflow
