import Mathlib.Data.List.Nodup
import Workflow.Block.Scripted
import Workflow.Block.Standard.ForEach
import Workflow.Proofs.Run.Branch
import Workflow.Run.Pool

namespace Workflow

namespace Pool

/-- The positions of the iterations that were started, in order. -/
def spawned (events : List Event) : List Nat :=
  events.filterMap fun
    | .spawned i => some i
    | _ => none

/-- The positions of the iterations that were joined, in order. -/
def joined (events : List Event) : List Nat :=
  events.filterMap fun
    | .joined i => some i
    | _ => none

variable {events : List Event} {i : Nat}

@[simp] theorem spawned_snoc_spawned : spawned (events ++ [.spawned i]) = spawned events ++ [i] := by
  simp [spawned]

@[simp] theorem spawned_snoc_joined : spawned (events ++ [.joined i]) = spawned events := by
  simp [spawned]

@[simp] theorem spawned_snoc_finished : spawned (events ++ [.finished]) = spawned events := by
  simp [spawned]

@[simp] theorem joined_snoc_spawned : joined (events ++ [.spawned i]) = joined events := by
  simp [joined]

@[simp] theorem joined_snoc_joined : joined (events ++ [.joined i]) = joined events ++ [i] := by
  simp [joined]

@[simp] theorem mem_joined : i ∈ joined events ↔ .joined i ∈ events := by
  rw [joined, List.mem_filterMap]
  constructor
  · rintro ⟨event, hevent, heq⟩
    cases event with
    | joined j =>
      obtain rfl := Option.some.inj heq
      exact hevent
    | spawned _ => cases heq
    | finished => cases heq
  · intro hmem
    exact ⟨.joined i, hmem, rfl⟩

/-- The next iteration that is started is the one at the next position. -/
theorem pending_eq_cons {envs : List Environment} {k : Nat} {iteration : Iteration}
    {rest : List Iteration} (h : (envs.mapIdx Iteration.mk).drop k = iteration :: rest) :
    k < envs.length ∧ iteration.index = k ∧ envs[k]? = some iteration.env ∧
      rest = (envs.mapIdx Iteration.mk).drop (k + 1) := by
  have hlt : k < envs.length := by
    by_contra hnot
    rw [List.drop_eq_nil_of_le (by simpa using hnot)] at h
    cases h
  rw [List.drop_eq_getElem_cons (by simpa using hlt)] at h
  obtain ⟨hhead, htail⟩ := List.cons.inj h
  rw [List.getElem_mapIdx] at hhead
  subst hhead
  exact ⟨hlt, rfl, List.getElem?_eq_getElem hlt, htail.symm⟩

/-- What holds of a pool while its loop runs. -/
structure Consistent (workers : Nat) (run : Iteration → Ending FlowError (Option Json))
    (envs : List Environment) (events : List Event) (pool : Pool) : Prop where
  /-- The iterations were started in order. -/
  ordered : spawned events = List.range (spawned events).length
  within : (spawned events).length ≤ envs.length
  pending : pool.pending = (envs.mapIdx Iteration.mk).drop (spawned events).length
  /-- Each one that was started is in flight or was joined. -/
  accounted : (joined events ++ pool.inFlight.map Iteration.index).Perm (spawned events)
  own : ∀ iteration ∈ pool.inFlight, envs[iteration.index]? = some iteration.env
  bounded : pool.inFlight.length ≤ workers
  size : pool.values.length = envs.length
  stored : ∀ i ∈ joined events, ∃ env value?, envs[i]? = some env ∧
    run ⟨i, env⟩ = .ok value? ∧ pool.values[i]? = some (value?.getD .null)
  counted : events.length = (spawned events).length + (joined events).length

namespace Consistent

variable {workers : Nat} {run : Iteration → Ending FlowError (Option Json)}
  {envs : List Environment} {pool after : Pool} {event : Event}

theorem start : Consistent workers run envs [] (start envs) where
  ordered := rfl
  within := Nat.zero_le _
  pending := rfl
  accounted := .nil
  own := List.forall_mem_nil _
  bounded := Nat.zero_le _
  size := List.length_replicate
  stored := List.forall_mem_nil _
  counted := rfl

/-- No iteration is joined twice, or joined while it is in flight. -/
theorem nodup (h : Consistent workers run envs events pool) :
    (joined events ++ pool.inFlight.map Iteration.index).Nodup := by
  rw [h.accounted.nodup_iff, h.ordered]
  exact List.nodup_range

/-- Starting the next iteration keeps the pool consistent: it is in flight, and none was before
it. -/
theorem spawn {iteration : Iteration} {pending inFlight : List Iteration} {values : List Json}
    (h : Consistent workers run envs events ⟨iteration :: pending, inFlight, values⟩)
    (hfree : inFlight.length < workers) :
    Consistent workers run envs (events ++ [.spawned iteration.index])
      ⟨pending, inFlight ++ [iteration], values⟩ := by
  obtain ⟨hlt, hindex, henv, hrest⟩ := pending_eq_cons h.pending.symm
  constructor
  case ordered =>
    rw [spawned_snoc_spawned, List.length_append, List.length_singleton, List.range_succ, hindex,
      ← h.ordered]
  case within =>
    rw [spawned_snoc_spawned, List.length_append, List.length_singleton]
    exact hlt
  case pending => simpa using hrest
  case accounted =>
    rw [spawned_snoc_spawned, joined_snoc_spawned, List.map_append, ← List.append_assoc]
    exact h.accounted.append_right _
  case own =>
    refine List.forall_mem_append.mpr ⟨h.own, List.forall_mem_singleton.mpr ?_⟩
    rw [hindex, henv]
  case bounded =>
    rw [List.length_append, List.length_singleton]
    exact hfree
  case size => exact h.size
  case stored =>
    rw [joined_snoc_spawned]
    exact h.stored
  case counted =>
    simp only [spawned_snoc_spawned, joined_snoc_spawned, List.length_append, h.counted,
      List.length_singleton]
    omega

/-- Joining an iteration keeps the pool consistent: its value is stored at its position. -/
theorem join {pending before later : List Iteration} {iteration : Iteration} {values : List Json}
    {value? : Option Json}
    (h : Consistent workers run envs events ⟨pending, before ++ iteration :: later, values⟩)
    (hrun : run iteration = .ok value?) :
    Consistent workers run envs (events ++ [.joined iteration.index])
      ⟨pending, before ++ later, values.set iteration.index (value?.getD .null)⟩ := by
  have hmem : iteration ∈ before ++ iteration :: later :=
    List.mem_append_right _ List.mem_cons_self
  have henv := h.own iteration hmem
  constructor
  case ordered => simpa using h.ordered
  case within => simpa using h.within
  case pending => simpa using h.pending
  case accounted =>
    have hmoved : (joined events ++ [iteration.index] ++ (before ++ later).map Iteration.index).Perm
        (joined events ++ (before ++ iteration :: later).map Iteration.index) := by
      simp only [List.map_append, List.map_cons, List.append_assoc, List.singleton_append]
      exact .append_left _ List.perm_middle.symm
    rw [spawned_snoc_joined, joined_snoc_joined]
    exact hmoved.trans h.accounted
  case own =>
    intro other hother
    apply h.own other
    simp only [List.mem_append, List.mem_cons] at hother ⊢
    tauto
  case bounded =>
    have hbounded := h.bounded
    simp only [List.length_append, List.length_cons] at hbounded ⊢
    omega
  case size => simpa using h.size
  case stored =>
    rw [joined_snoc_joined]
    refine List.forall_mem_append.mpr ⟨fun i hold => ?_, List.forall_mem_singleton.mpr ?_⟩
    · -- An iteration in flight has not been joined, so this value is at another position.
      have hne : iteration.index ≠ i := by
        rintro rfl
        exact (List.nodup_append.mp h.nodup).2.2 _ hold _ (List.mem_map_of_mem hmem) rfl
      obtain ⟨env, other?, hat, hended, hvalue⟩ := h.stored i hold
      exact ⟨env, other?, hat, hended, by rwa [List.getElem?_set_ne hne]⟩
    · have hlt : iteration.index < values.length := by
        have hsize : values.length = envs.length := h.size
        rw [hsize]
        exact (List.getElem?_eq_some_iff.mp henv).1
      exact ⟨iteration.env, value?, henv, hrun, by rw [List.getElem?_set_self hlt]⟩
  case counted =>
    simp only [spawned_snoc_joined, joined_snoc_joined, List.length_append, h.counted,
      List.length_singleton]
    omega

/-- A step that does not end the loop keeps what holds of the pool. -/
theorem move (h : Consistent workers run envs events pool)
    (hmoves : Moves workers run pool event (.running after)) :
    Consistent workers run envs (events ++ [event]) after := by
  cases hmoves with
  | spawn hfree => exact h.spawn hfree
  | join hrun => exact h.join hrun

/-- With one worker, no other iteration is in flight. -/
theorem alone {pending before later : List Iteration} {iteration : Iteration} {values : List Json}
    (h : Consistent 1 run envs events ⟨pending, before ++ iteration :: later, values⟩) :
    before = [] ∧ later = [] := by
  have hbounded := h.bounded
  simp only [List.length_append, List.length_cons] at hbounded
  exact ⟨List.length_eq_zero_iff.mp (by omega), List.length_eq_zero_iff.mp (by omega)⟩

/-- Each iteration is joined at most once, so the loop is short. -/
theorem length_le (h : Consistent workers run envs events pool) :
    events.length ≤ 2 * envs.length := by
  have hlength := h.accounted.length_eq
  have hwithin := h.within
  rw [List.length_append] at hlength
  rw [h.counted]
  omega

/-- When the loop is over, every iteration was joined. -/
theorem values_of_finish (h : Consistent workers run envs events pool)
    (hpending : pool.pending = []) (hinFlight : pool.inFlight = []) :
    ∀ i env, envs[i]? = some env →
      ∃ value?, run ⟨i, env⟩ = .ok value? ∧ pool.values[i]? = some (value?.getD .null) := by
  intro i env henv
  have hlt := (List.getElem?_eq_some_iff.mp henv).1
  have hall : envs.length ≤ (spawned events).length := by
    have hdrop := h.pending.symm.trans hpending
    rw [List.drop_eq_nil_iff] at hdrop
    simpa using hdrop
  have haccounted := h.accounted
  rw [hinFlight, List.map_nil, List.append_nil] at haccounted
  have hjoined : i ∈ joined events := by
    rw [haccounted.mem_iff, h.ordered, List.mem_range]
    omega
  obtain ⟨found, value?, hfound, hrun, hvalue⟩ := h.stored i hjoined
  obtain rfl := Option.some.inj (hfound.symm.trans henv)
  exact ⟨value?, hrun, hvalue⟩

end Consistent

/-- The loop goes on as long as the iterations in flight end: another one is started, or one is
joined, or the loop is over. -/
theorem exists_moves {workers : Nat} {run : Iteration → Ending FlowError (Option Json)} (pool : Pool)
    (hends : ∀ iteration ∈ pool.inFlight, (run iteration).Completes) :
    ∃ event stage, Moves workers run pool event stage := by
  obtain ⟨pending, inFlight, values⟩ := pool
  cases inFlight with
  | nil =>
    rcases Nat.eq_zero_or_pos workers with hnone | hsome
    · exact ⟨_, _, .finish fun h => absurd h (by omega)⟩
    · cases pending with
      | nil => exact ⟨_, _, .finish fun _ => rfl⟩
      | cons iteration rest => exact ⟨_, _, .spawn hsome⟩
  | cons iteration rest =>
    have hcompletes := hends iteration List.mem_cons_self
    change ∃ event stage, Moves workers run ⟨pending, [] ++ iteration :: rest, values⟩ event stage
    cases hrun : run iteration with
    | ok value? => exact ⟨_, _, .join hrun⟩
    | error e => exact ⟨_, _, .fail hrun⟩
    | crashed => exact absurd hcompletes (by simp [hrun, Ending.Completes])
    | tooDeep => exact absurd hcompletes (by simp [hrun, Ending.Completes])

/-- The pool between two iterations that run one after the other: nothing is in flight, and those that
were joined have left their values. -/
def between (envs : List Environment) (values : List Json) : Pool where
  pending := (envs.mapIdx Iteration.mk).drop values.length
  values := values ++ List.replicate (envs.length - values.length) .null

namespace Reaches

variable {workers : Nat} {run : Iteration → Ending FlowError (Option Json)}
  {envs : List Environment} {pool : Pool} {stage : Stage}

/-- However the loop has come there, the iterations that were joined and those in flight are the
ones that were started, and the value of each joined one is at its position. -/
theorem consistent (h : Reaches workers run envs events (.running pool)) :
    Consistent workers run envs events pool := by
  generalize hstage : Stage.running pool = stage at h
  induction h generalizing pool with
  | start =>
    cases hstage
    exact .start
  | move _ hmoves ih =>
    subst hstage
    exact (ih rfl).move hmoves

/-- The last event is what ended the loop. -/
theorem last {result : Except FlowError (List Json)}
    (h : Reaches workers run envs events (.ended result)) :
    ∃ earlier event pool, events = earlier ++ [event] ∧
      Consistent workers run envs earlier pool ∧ Moves workers run pool event (.ended result) := by
  cases h with
  | move hreaches hmoves => exact ⟨_, _, _, rfl, hreaches.consistent, hmoves⟩

/-- With one worker, an iteration is joined before the next one is started. -/
theorem serial (h : Reaches 1 run envs events (.running pool)) :
    joined events ++ pool.inFlight.map Iteration.index = spawned events := by
  generalize hstage : Stage.running pool = stage at h
  induction h generalizing pool with
  | start =>
    cases hstage
    rfl
  | move hreaches hmoves ih =>
    subst hstage
    have hserial := ih rfl
    cases hmoves with
    | @spawn iteration pending inFlight values hfree =>
      obtain rfl : inFlight = [] := List.length_eq_zero_iff.mp (by omega)
      simpa using hserial
    | @join pending before later iteration values value? hrun =>
      obtain ⟨rfl, rfl⟩ := hreaches.consistent.alone
      simpa using hserial

/-- Iterations are started in their order. -/
theorem spawned_eq_range (h : Reaches workers run envs events stage) :
    ∃ k, k ≤ envs.length ∧ spawned events = List.range k := by
  cases stage with
  | running pool => exact ⟨_, h.consistent.within, h.consistent.ordered⟩
  | ended result =>
    obtain ⟨earlier, event, pool, rfl, hconsistent, hmoves⟩ := h.last
    cases hmoves with
    | fail _ =>
      rw [spawned_snoc_joined]
      exact ⟨_, hconsistent.within, hconsistent.ordered⟩
    | finish _ =>
      rw [spawned_snoc_finished]
      exact ⟨_, hconsistent.within, hconsistent.ordered⟩

/-- Each iteration is started and joined at most once, so the loop comes to an end. -/
theorem length_le (h : Reaches workers run envs events stage) :
    events.length ≤ 2 * envs.length + 1 := by
  cases stage with
  | running pool => exact Nat.le_succ_of_le h.consistent.length_le
  | ended result =>
    obtain ⟨earlier, event, pool, rfl, hconsistent, _⟩ := h.last
    rw [List.length_append, List.length_singleton]
    exact Nat.succ_le_succ hconsistent.length_le

/-- A loop that ends well has joined every iteration, each with the value at its position. -/
theorem values_of_ok (hworkers : 0 < workers) {values : List Json}
    (h : Reaches workers run envs events (.ended (.ok values))) :
    values.length = envs.length ∧ ∀ i env, envs[i]? = some env →
      ∃ value?, run ⟨i, env⟩ = .ok value? ∧ values[i]? = some (value?.getD .null) := by
  obtain ⟨earlier, event, pool, rfl, hconsistent, hmoves⟩ := h.last
  cases hmoves with
  | finish hidle => exact ⟨hconsistent.size, hconsistent.values_of_finish (hidle hworkers) rfl⟩

/-- A loop that ends with an error has joined an iteration that failed with it. -/
theorem failed_of_error {e : FlowError} (h : Reaches workers run envs events (.ended (.error e))) :
    ∃ i env, .joined i ∈ events ∧ envs[i]? = some env ∧ run ⟨i, env⟩ = .error e := by
  obtain ⟨earlier, event, pool, rfl, hconsistent, hmoves⟩ := h.last
  cases hmoves with
  | @fail _ before later iteration _ _ hrun =>
    exact ⟨iteration.index, iteration.env, List.mem_append_right _ List.mem_cons_self,
      hconsistent.own iteration (List.mem_append_right _ List.mem_cons_self), hrun⟩

/-- The first iteration that is joined with an error ends the loop with it. -/
theorem ended_of_joined {i : Nat} {env : Environment} {e : FlowError}
    (h : Reaches workers run envs events stage) (hjoined : .joined i ∈ events)
    (henv : envs[i]? = some env) (hrun : run ⟨i, env⟩ = .error e) : stage = .ended (.error e) := by
  have hearlier : ∀ {earlier pool}, Consistent workers run envs earlier pool →
      .joined i ∉ earlier := by
    intro earlier pool hconsistent hmem
    obtain ⟨found, value?, hfound, hended, _⟩ := hconsistent.stored i (mem_joined.mpr hmem)
    obtain rfl := Option.some.inj (hfound.symm.trans henv)
    rw [hrun] at hended
    cases hended
  cases stage with
  | running pool => exact absurd hjoined (hearlier h.consistent)
  | ended result =>
    obtain ⟨earlier, event, pool, rfl, hconsistent, hmoves⟩ := h.last
    obtain hmem | hlast := List.mem_append.mp hjoined
    · exact absurd hmem (hearlier hconsistent)
    · cases hmoves with
      | @fail _ before later iteration _ _ hfailed =>
        obtain rfl : i = iteration.index := by simpa using hlast
        have hown := hconsistent.own iteration (List.mem_append_right _ List.mem_cons_self)
        obtain rfl := Option.some.inj (hown.symm.trans henv)
        rw [show run iteration = .error e from hrun] at hfailed
        cases hfailed
        rfl
      | finish _ => simp at hlast

/-- With one worker, the iteration that ends the loop is the first one that fails, and none after it
was started. -/
theorem first_failed {e : FlowError} (h : Reaches 1 run envs events (.ended (.error e))) :
    ∃ i env, envs[i]? = some env ∧ run ⟨i, env⟩ = .error e ∧
      (∀ j < i, ∀ env, envs[j]? = some env → ∃ value?, run ⟨j, env⟩ = .ok value?) ∧
      spawned events = List.range (i + 1) := by
  cases h with
  | @move earlier pool event _ hreaches hmoves =>
    have hserial := hreaches.serial
    have hconsistent := hreaches.consistent
    cases hmoves with
    | @fail pending before later iteration values _ hrun =>
      obtain ⟨rfl, rfl⟩ := hconsistent.alone
      have hsingle : joined earlier ++ [iteration.index] = spawned earlier := by simpa using hserial
      have hlength : (spawned earlier).length = (joined earlier).length + 1 := by
        rw [← hsingle, List.length_append, List.length_singleton]
      have hrange : joined earlier ++ [iteration.index] =
          List.range (joined earlier).length ++ [(joined earlier).length] := by
        rw [hsingle, hconsistent.ordered, hlength, List.range_succ]
      -- All that were started but the last one were joined, and that is the one that fails.
      obtain ⟨hjoined, hindex⟩ := List.append_inj' hrange rfl
      have hlast : iteration.index = (joined earlier).length := by simpa using hindex
      refine ⟨_, iteration.env, hconsistent.own iteration List.mem_cons_self, hrun, ?_, ?_⟩
      · intro j hlt env henv
        have hmem : j ∈ joined earlier := by
          rw [hjoined, List.mem_range, ← hlast]
          exact hlt
        obtain ⟨found, value?, hfound, hended, _⟩ := hconsistent.stored j hmem
        obtain rfl := Option.some.inj (hfound.symm.trans henv)
        exact ⟨value?, hended⟩
      · rw [spawned_snoc_joined, hconsistent.ordered, hlength, hlast]

/-- With nothing in flight the next iteration is started. -/
private theorem spawn_next (hworkers : 0 < workers) {values : List Json} {env : Environment}
    (h : Reaches workers run envs events (.running (between envs values)))
    (henv : envs[values.length]? = some env) :
    Reaches workers run envs (events ++ [.spawned values.length])
      (.running ⟨(envs.mapIdx Iteration.mk).drop (values.length + 1), [] ++ [⟨values.length, env⟩],
        (between envs values).values⟩) := by
  obtain ⟨hlt, rfl⟩ := List.getElem?_eq_some_iff.mp henv
  have hpending : (envs.mapIdx Iteration.mk).drop values.length =
      ⟨values.length, envs[values.length]⟩ ::
        (envs.mapIdx Iteration.mk).drop (values.length + 1) := by
    rw [List.drop_eq_getElem_cons (by simpa using hlt), List.getElem_mapIdx]
  rw [between, hpending] at h
  exact h.move (.spawn hworkers)

/-- An iteration that is joined as soon as it was started leaves its value after the others. -/
private theorem join_next (hworkers : 0 < workers) {values : List Json} {env : Environment}
    {value? : Option Json} (h : Reaches workers run envs events (.running (between envs values)))
    (henv : envs[values.length]? = some env) (hrun : run ⟨values.length, env⟩ = .ok value?) :
    Reaches workers run envs (events ++ [.spawned values.length] ++ [.joined values.length])
      (.running (between envs (values ++ [value?.getD .null]))) := by
  have hjoined := (h.spawn_next hworkers henv).move (.join hrun)
  have hleft : envs.length - values.length = envs.length - (values.length + 1) + 1 := by
    have hlt := (List.getElem?_eq_some_iff.mp henv).1
    omega
  have hstored : (between envs values).values.set values.length (value?.getD .null) =
      (between envs (values ++ [value?.getD .null])).values := by
    simp [between, hleft, List.replicate_succ]
  rw [hstored] at hjoined
  simpa [between] using hjoined

/-- Running the iterations one after the other is one of the orders in which the loop may go on. -/
theorem exists_of_iterate (hworkers : 0 < workers)
    {step : Environment → Step World FlowError (Option Json)} {rest : List Environment}
    {values : List Json} {world after : World} {ending : Ending FlowError (List Json)}
    (hrest : envs.drop values.length = rest)
    (hrun : ∀ i env, rest[i]? = some env → run ⟨values.length + i, env⟩ =
      ((step env).catchCrash .join (worldAfter step (rest.take i) world)).1)
    (h : Reaches workers run envs events (.running (between envs values)))
    (hiterate : iterate step rest world = (ending, after)) :
    (∀ more, ending = .ok more → ∃ events, Reaches workers run envs events
      (.ended (.ok (values ++ more)))) ∧
    ∀ e, ending = .error e → ∃ events, Reaches workers run envs events (.ended (.error e)) := by
  induction rest generalizing values events world ending with
  | nil =>
    have hall : envs.length ≤ values.length := List.drop_eq_nil_iff.mp hrest
    have hpending : (envs.mapIdx Iteration.mk).drop values.length = [] :=
      List.drop_eq_nil_of_le (by simpa using hall)
    cases hiterate
    refine ⟨?_, by simp⟩
    rintro more ⟨⟩
    have hended := h.move (.finish fun _ => hpending)
    rw [Nat.sub_eq_zero_of_le hall] at hended
    exact ⟨_, hended⟩
  | cons env rest ih =>
    have henv : envs[values.length]? = some env := by rw [← List.head?_drop, hrest, List.head?_cons]
    have hfirst : run ⟨values.length, env⟩ = ((step env).catchCrash .join world).1 := hrun 0 env rfl
    rw [iterate] at hiterate
    obtain ⟨value?, between, hvalue, hnext⟩ | ⟨halt, hhalt, rfl⟩ := Step.bind_cases hiterate
    · rw [hvalue] at hfirst
      have hjoined := h.join_next hworkers henv hfirst
      have hbetween : between = (step env world).2 := by
        rw [← Step.catchCrash_snd (step env) world .join, hvalue]
      have hlength : (values ++ [value?.getD .null]).length = values.length + 1 := by simp
      have hothers : envs.drop (values ++ [value?.getD .null]).length = rest := by
        rw [hlength, ← List.tail_drop, hrest, List.tail_cons]
      have hlater : ∀ i other, rest[i]? = some other →
          run ⟨(values ++ [value?.getD .null]).length + i, other⟩ =
            ((step other).catchCrash .join (worldAfter step (rest.take i) between)).1 := by
        intro i other hother
        rw [hlength, Nat.add_assoc, Nat.add_comm 1 i, hbetween]
        exact hrun (i + 1) other hother
      obtain ⟨others, last, hiterated, hvalues⟩ | ⟨halt, hhalt, rfl⟩ := Step.bind_cases hnext
      · cases hvalues
        refine ⟨?_, by simp⟩
        rintro more ⟨⟩
        obtain ⟨events, hended⟩ := (ih hothers hlater hjoined hiterated).1 others rfl
        exact ⟨events, by simpa using hended⟩
      · refine ⟨fun more hok => absurd hok (Halt.ending_ne_ok _ _), ?_⟩
        rintro e herror
        obtain rfl := Halt.ending_eq_error.mp herror
        exact (ih hothers hlater hjoined hhalt).2 e rfl
    · rw [hhalt] at hfirst
      refine ⟨fun more hok => absurd hok (Halt.ending_ne_ok _ _), ?_⟩
      rintro e herror
      obtain rfl := Halt.ending_eq_error.mp herror
      exact ⟨_, (h.spawn_next hworkers henv).move (.fail hfirst)⟩

end Reaches

end Pool

/-- Iterations that run one after the other meet the world that those before them leave. -/
theorem Engine.exists_reaches_of_iterate {engine : Engine} {branches : Branches} {nodes : List Node}
    {envs : List Environment} {world after : World} {ending : Ending FlowError (List Json)}
    {workers : Nat} (hworkers : 0 < workers)
    (hiterate : iterate (engine.runFresh branches nodes) envs world = (ending, after)) :
    ∃ surroundings : Nat → Surroundings,
      (∀ values, ending = .ok values → ∃ events,
        Pool.Reaches workers (Iteration.ending nodes surroundings) envs events
          (.ended (.ok values))) ∧
      ∀ e, ending = .error e → ∃ events,
        Pool.Reaches workers (Iteration.ending nodes surroundings) envs events
          (.ended (.error e)) := by
  let step := engine.runFresh branches nodes
  let surroundings : Nat → Surroundings := fun i =>
    ⟨engine, branches, worldAfter step (envs.take i) world⟩
  have hends : ∀ i env, envs[i]? = some env →
      Iteration.ending nodes surroundings ⟨0 + i, env⟩ =
        ((step env).catchCrash .join (worldAfter step (envs.take i) world)).1 := by
    intro i env _
    rw [Nat.zero_add]
    rfl
  have hstart : Pool.Reaches workers (Iteration.ending nodes surroundings) envs []
      (.running (Pool.between envs [])) := .start
  have hrest : envs.drop ([] : List Json).length = envs := rfl
  exact ⟨surroundings, hstart.exists_of_iterate hworkers hrest hends hiterate⟩

theorem poolWorkers_pos (limit total : Nat) : 0 < poolWorkers limit total := by
  unfold poolWorkers
  omega

theorem poolWorkers_le {total : Nat} (limit : Nat) (htotal : 0 < total) :
    poolWorkers limit total ≤ total := by
  unfold poolWorkers
  omega

namespace Runner.Pools

variable {runner : Runner} {parallelism : Nat} {surroundings : Nat → Surroundings}
  {source label : String} {envs : List Environment} {events : List Pool.Event} {stage : Pool.Stage}
  {nodes : List Node}

/-- A pool of the runner that has a branch and something to run it for goes through the loop. -/
theorem reaches (h : runner.Pools parallelism surroundings source label envs events stage)
    (hsome : envs ≠ []) (hbranch : runner.tree.branch source label = .ok nodes) :
    Pool.Reaches (runner.config.poolSize parallelism envs.length)
      (Iteration.ending nodes surroundings) envs events stage := by
  cases h with
  | empty hempty => exact absurd hempty hsome
  | missing _ hmissing =>
    rw [hbranch] at hmissing
    cases hmissing
  | loop _ hfound hreaches =>
    rw [hbranch] at hfound
    cases hfound
    exact hreaches

/-- Whatever limit is configured and in whatever order iterations end: there is a worker and there are
no more than iterations, no more iterations are in flight than workers, and iterations are started
in order, none twice. If all iterations end well, the loop goes on until it ends, after boundedly
many steps, with the value of each at its position. If one is joined with an error the pool ends
with it, and it ends with no other. With one worker, that is the error of the first iteration that
fails, and none after it was started. -/
theorem any_order (h : runner.Pools parallelism surroundings source label envs events stage)
    (hsome : envs ≠ []) (hbranch : runner.tree.branch source label = .ok nodes) :
    (1 ≤ runner.config.poolSize parallelism envs.length ∧
      runner.config.poolSize parallelism envs.length ≤ envs.length) ∧
    (∀ pool, stage = .running pool →
      pool.inFlight.length ≤ runner.config.poolSize parallelism envs.length) ∧
    (∃ k, k ≤ envs.length ∧ Pool.spawned events = List.range k) ∧
    (∀ values? : Nat → Option Json,
      (∀ i env, envs[i]? = some env →
        Iteration.ending nodes surroundings ⟨i, env⟩ = .ok (values? i)) →
      (∀ result, stage = .ended result →
        result = .ok ((List.range envs.length).map fun i => (values? i).getD .null)) ∧
      (∀ pool, stage = .running pool → ∃ event next,
        runner.Pools parallelism surroundings source label envs (events ++ [event]) next) ∧
      events.length ≤ 2 * envs.length + 1) ∧
    (∀ i env e, .joined i ∈ events → envs[i]? = some env →
      Iteration.ending nodes surroundings ⟨i, env⟩ = .error e → stage = .ended (.error e)) ∧
    (∀ e, stage = .ended (.error e) → ∃ i env, .joined i ∈ events ∧ envs[i]? = some env ∧
      Iteration.ending nodes surroundings ⟨i, env⟩ = .error e) ∧
    (runner.config.poolSize parallelism envs.length = 1 → ∀ e, stage = .ended (.error e) →
      ∃ i env, envs[i]? = some env ∧ Iteration.ending nodes surroundings ⟨i, env⟩ = .error e ∧
        (∀ j < i, ∀ env, envs[j]? = some env →
          ∃ value?, Iteration.ending nodes surroundings ⟨j, env⟩ = .ok value?) ∧
        Pool.spawned events = List.range (i + 1)) := by
  have hreaches := h.reaches hsome hbranch
  have hworkers : 0 < runner.config.poolSize parallelism envs.length := poolWorkers_pos _ _
  refine ⟨⟨hworkers, poolWorkers_le _ (List.length_pos_of_ne_nil hsome)⟩, ?_,
    hreaches.spawned_eq_range, ?_, ?_, ?_, ?_⟩
  · rintro pool rfl
    exact hreaches.consistent.bounded
  · intro values? hvalues
    refine ⟨?_, ?_, hreaches.length_le⟩
    · rintro result rfl
      cases result with
      | ok values =>
        obtain ⟨hlength, hat⟩ := hreaches.values_of_ok hworkers
        congr 1
        apply List.ext_getElem (by simpa using hlength)
        intro i hi _
        have henv : envs[i]? = some envs[i] := List.getElem?_eq_getElem (hlength ▸ hi)
        obtain ⟨value?, hrun, hvalue⟩ := hat i _ henv
        rw [hvalues i _ henv] at hrun
        cases hrun
        simpa using (List.getElem?_eq_some_iff.mp hvalue).2
      | error e =>
        obtain ⟨i, env, _, henv, hrun⟩ := hreaches.failed_of_error
        rw [hvalues i env henv] at hrun
        cases hrun
    · rintro pool rfl
      have hends : ∀ iteration ∈ pool.inFlight,
          (Iteration.ending nodes surroundings iteration).Completes := by
        intro iteration hmem
        rw [hvalues iteration.index iteration.env (hreaches.consistent.own iteration hmem)]
        trivial
      obtain ⟨event, next, hmoves⟩ := Pool.exists_moves pool hends
      exact ⟨event, next, .loop hsome hbranch (hreaches.move hmoves)⟩
  · intro i env e hjoined henv hrun
    exact hreaches.ended_of_joined hjoined henv hrun
  · rintro e rfl
    exact hreaches.failed_of_error
  · rintro hone e rfl
    rw [hone] at hreaches
    exact hreaches.first_failed

/-- The pool that runs its iterations one after the other ends as a pool with any workers may. Each
iteration meets the world that those before it leave. -/
theorem of_runPool (runner : Runner) (parallelism : Nat) (source label : String)
    (envs : List Environment) (session : Session) :
    ∃ surroundings : Nat → Surroundings,
      (∀ values, (runner.runPool source label envs session).1 = .ok values →
        ∃ events, runner.Pools parallelism surroundings source label envs events
          (.ended (.ok values))) ∧
      ∀ e, (runner.runPool source label envs session).1 = .error e →
        ∃ events, runner.Pools parallelism surroundings source label envs events
          (.ended (.error e)) := by
  obtain ⟨⟨ending, after⟩, hrun⟩ : ∃ result,
      runner.toEngine.runPool runner.nested source label envs session.world = result := ⟨_, rfl⟩
  have hending : (runner.runPool source label envs session).1 = ending := congrArg Prod.fst hrun
  rw [hending]
  cases envs with
  | nil =>
    cases hrun
    refine ⟨fun _ => ⟨runner.toEngine, runner.nested, session.world⟩, ?_, nofun⟩
    rintro values ⟨⟩
    exact ⟨[], .empty rfl⟩
  | cons env rest =>
    have hsome : env :: rest ≠ [] := List.cons_ne_nil _ _
    rw [Engine.runPool] at hrun
    · cases hbranch : runner.tree.branch source label with
      | error e =>
        rw [hbranch] at hrun
        cases hrun
        refine ⟨fun _ => ⟨runner.toEngine, runner.nested, session.world⟩, nofun, ?_⟩
        rintro e ⟨⟩
        exact ⟨[], .missing hsome hbranch⟩
      | ok nodes =>
        rw [hbranch] at hrun
        obtain ⟨surroundings, hwell, hfailed⟩ := Engine.exists_reaches_of_iterate
          (poolWorkers_pos (runner.config.workers?.getD parallelism) (env :: rest).length) hrun
        refine ⟨surroundings, fun values hvalues => ?_, fun e herror => ?_⟩
        · obtain ⟨events, hreaches⟩ := hwell values hvalues
          exact ⟨events, .loop hsome hbranch hreaches⟩
        · obtain ⟨events, hreaches⟩ := hfailed e herror
          exact ⟨events, .loop hsome hbranch hreaches⟩
    · exact hsome

end Runner.Pools

namespace Sample

/-- Returns the item that it sees. -/
def body : Node :=
  { id := "body", type := "scripted", parent? := some "w"
    content := [("do", .text "yield"), ("return_result", .bool true)] }

/-- Repeats `body` for two items. -/
def loop : Node :=
  { id := "f", type := ForEach.type, parent? := some "w"
    content := [("items", .list [.text "x", .text "y"])]
    outs := [⟨ForEach.loopLabel, "body"⟩] }

def repeating : Tree where
  nodes := [{ id := "w", type := Node.workflowType }, loop, body]
  distinct := by decide +kernel

/-- Runs for-each and scripted blocks, two iterations at a time. -/
def repeater : Runner :=
  { registry :=
      (Registry.empty.register ForEach.type ForEach.blockType).register "scripted"
        Scripted.blockType
    tree := repeating
    config := { workers? := some 2 }
    nesting := 0 }

/-- The environment of the iteration for one item. -/
def itemEnv (item : String) : Environment := .ofList [("item", .text item)]

end Sample

/-- The second iteration is joined before the first one. -/
theorem Runner.Pools.any_order_repeating :
    ∃ (surroundings : Nat → Surroundings) (result : Except FlowError (List Json)),
      Sample.repeating.branch "f" ForEach.loopLabel = .ok [Sample.body] ∧
      Sample.repeater.Pools 8 surroundings "f" ForEach.loopLabel
        [Sample.itemEnv "x", Sample.itemEnv "y"]
        [.spawned 0, .spawned 1, .joined 1, .joined 0, .finished] (.ended result) ∧
      result = .ok [.text "x", .text "y"] := by
  let surroundings : Nat → Surroundings := fun _ =>
    ⟨Sample.repeater.toEngine, Sample.repeater.nested, {}⟩
  let run := Iteration.ending [Sample.body] surroundings
  let envs := [Sample.itemEnv "x", Sample.itemEnv "y"]
  let first : Iteration := ⟨0, Sample.itemEnv "x"⟩
  let second : Iteration := ⟨1, Sample.itemEnv "y"⟩
  have hbranch : Sample.repeating.branch "f" ForEach.loopLabel = .ok [Sample.body] := rfl
  have hfirst : run first = .ok (some (.text "x")) := by cbv
  have hsecond : run second = .ok (some (.text "y")) := by cbv
  have hspawned : Pool.Reaches 2 run envs [.spawned 0, .spawned 1]
      (.running ⟨[], [first] ++ second :: [], [.null, .null]⟩) :=
    (Pool.Reaches.start.move (.spawn (by decide))).move (.spawn (by decide))
  have hjoined : Pool.Reaches 2 run envs [.spawned 0, .spawned 1, .joined 1]
      (.running ⟨[], [] ++ first :: [], [.null, .text "y"]⟩) :=
    hspawned.move (.join hsecond)
  obtain ⟨result, hreaches⟩ : ∃ result, Pool.Reaches 2 run envs
      [.spawned 0, .spawned 1, .joined 1, .joined 0, .finished] (.ended result) :=
    ⟨_, (hjoined.move (.join hfirst)).move (.finish fun _ => rfl)⟩
  have hpools : Sample.repeater.Pools 8 surroundings "f" ForEach.loopLabel envs
      [.spawned 0, .spawned 1, .joined 1, .joined 0, .finished] (.ended result) :=
    .loop (by simp [envs]) hbranch hreaches
  obtain ⟨_, _, _, hwell, _⟩ := hpools.any_order (by simp [envs]) hbranch
  obtain ⟨hresult, _⟩ := hwell (fun i => [some (.text "x"), some (.text "y")].getD i none) (by
    intro i env henv
    match i, henv with
    | 0, henv =>
      obtain rfl := Option.some.inj henv
      exact hfirst
    | 1, henv =>
      obtain rfl := Option.some.inj henv
      exact hsecond)
  exact ⟨surroundings, result, hbranch, hpools, hresult result rfl⟩

end Workflow
