import Workflow.Step

namespace Workflow

variable {σ ε α β : Type}

/-- An ending without a result. It is passed on whatever result was awaited. -/
inductive Halt (ε : Type) where
  | error (error : ε)
  | crashed (report : String)
  | tooDeep

/-- The ending of a step that halted. -/
def Halt.ending : Halt ε → Ending ε α
  | .error e => .error e
  | .crashed report => .crashed report
  | .tooDeep => .tooDeep

@[simp] theorem Halt.ending_ne_ok (halt : Halt ε) (value : α) : halt.ending ≠ .ok value := by
  cases halt <;> simp [Halt.ending]

@[simp] theorem Halt.ending_eq_error {halt : Halt ε} {e : ε} :
    (halt.ending : Ending ε α) = .error e ↔ halt = .error e := by
  cases halt <;> simp [Halt.ending]

@[simp] theorem Halt.ending_eq_tooDeep {halt : Halt ε} :
    (halt.ending : Ending ε α) = .tooDeep ↔ halt = .tooDeep := by
  cases halt <;> simp [Halt.ending]

/-- A step ends with a result or halts. -/
theorem Ending.ok_or_halt (ending : Ending ε α) :
    (∃ value, ending = .ok value) ∨ ∃ halt : Halt ε, ending = halt.ending := by
  cases ending with
  | ok value => exact Or.inl ⟨value, rfl⟩
  | error e => exact Or.inr ⟨.error e, rfl⟩
  | crashed report => exact Or.inr ⟨.crashed report, rfl⟩
  | tooDeep => exact Or.inr ⟨.tooDeep, rfl⟩

/-- Changes the result of an ending. -/
def Ending.map (f : α → β) : Ending ε α → Ending ε β
  | .ok value => .ok (f value)
  | .error e => .error e
  | .crashed report => .crashed report
  | .tooDeep => .tooDeep

@[simp] theorem Halt.map_ending (halt : Halt ε) (f : α → β) : halt.ending.map f = halt.ending := by
  cases halt <;> rfl

@[simp] theorem Ending.map_eq_error {ending : Ending ε α} {f : α → β} {e : ε} :
    ending.map f = .error e ↔ ending = .error e := by
  cases ending <;> simp [Ending.map]

/-- Whether a step came to an end of its own: it yields a result or an error. -/
def Ending.Completes : Ending ε α → Prop
  | .ok _ => True
  | .error _ => True
  | .crashed _ => False
  | .tooDeep => False

instance Ending.decidableCompletes (ending : Ending ε α) : Decidable ending.Completes :=
  match ending with
  | .ok _ => isTrue trivial
  | .error _ => isTrue trivial
  | .crashed _ => isFalse id
  | .tooDeep => isFalse id

/-- A change of the result does not matter to whether a step comes to an end of its own. -/
@[simp] theorem Ending.completes_map {ending : Ending ε α} {f : α → β} :
    (ending.map f).Completes ↔ ending.Completes := by
  cases ending <;> rfl

/-- Whether a halt is an end of its own does not depend on the type of the result. -/
theorem Halt.completes_ending {halt : Halt ε} (hcompletes : (halt.ending : Ending ε α).Completes) :
    (halt.ending : Ending ε β).Completes := by
  cases halt <;> exact hcompletes

namespace Step

theorem bind_ok {step : Step σ ε α} {next : α → Step σ ε β} {s t : σ} {value : α}
    (hstep : step s = (.ok value, t)) : (step >>= next) s = next value t := by
  change Step.bind step next s = _
  simp only [Step.bind, hstep]

/-- Any other ending is passed on, and the next step is not run. -/
theorem bind_halt {step : Step σ ε α} {next : α → Step σ ε β} {s t : σ} {halt : Halt ε}
    (hstep : step s = (halt.ending, t)) : (step >>= next) s = (halt.ending, t) := by
  change Step.bind step next s = _
  cases halt <;> simp only [Step.bind, hstep, Halt.ending]

theorem bind_error {step : Step σ ε α} {next : α → Step σ ε β} {s t : σ} {e : ε}
    (hstep : step s = (.error e, t)) : (step >>= next) s = (.error e, t) := by
  have hhalt : step s = ((Halt.error e).ending, t) := hstep
  exact bind_halt hhalt

/-- A chain of two steps ends as the second one does, or as the first one if that halts. -/
theorem bind_cases {step : Step σ ε α} {next : α → Step σ ε β} {s u : σ} {ending : Ending ε β}
    (hchain : (step >>= next) s = (ending, u)) :
    (∃ value t, step s = (.ok value, t) ∧ next value t = (ending, u)) ∨
      ∃ halt : Halt ε, step s = (halt.ending, u) ∧ ending = halt.ending := by
  obtain ⟨first, t, hstep⟩ : ∃ first t, step s = (first, t) := ⟨_, _, rfl⟩
  obtain ⟨value, rfl⟩ | ⟨halt, rfl⟩ := first.ok_or_halt
  · rw [bind_ok hstep] at hchain
    exact Or.inl ⟨value, t, hstep, hchain⟩
  · rw [bind_halt hstep] at hchain
    obtain ⟨rfl, rfl⟩ := Prod.mk.inj hchain
    exact Or.inr ⟨halt, hstep, rfl⟩

/-- A chain whose second step changes nothing changes what its first step does. -/
theorem bind_snd {step : Step σ ε α} {next : α → Step σ ε β}
    (hnext : ∀ value t, (next value t).2 = t) (s : σ) : ((step >>= next) s).2 = (step s).2 := by
  obtain ⟨⟨ending, t⟩, hstep⟩ : ∃ result, step s = result := ⟨_, rfl⟩
  rw [hstep]
  obtain ⟨value, rfl⟩ | ⟨halt, rfl⟩ := ending.ok_or_halt
  · rw [bind_ok hstep]
    exact hnext value t
  · rw [bind_halt hstep]

/-- What is made of an error does not change what the step has done. -/
theorem mapError_snd {φ : Type} (f : ε → φ) (step : Step σ ε α) (s : σ) :
    (step.mapError f s).2 = (step s).2 := by
  obtain ⟨⟨ending, t⟩, hstep⟩ : ∃ result, step s = result := ⟨_, rfl⟩
  simp only [mapError, hstep]
  cases ending <;> rfl

theorem mapError_of_ok {φ : Type} {f : ε → φ} {step : Step σ ε α} {s t : σ} {value : α}
    (hstep : step s = (.ok value, t)) : step.mapError f s = (.ok value, t) := by
  simp only [mapError, hstep]

theorem mapError_of_error {φ : Type} {f : ε → φ} {step : Step σ ε α} {s t : σ} {e : ε}
    (hstep : step s = (.error e, t)) : step.mapError f s = (.error (f e), t) := by
  simp only [mapError, hstep]

theorem mapError_tooDeep {φ : Type} {f : ε → φ} {step : Step σ ε α} {s t : σ}
    (hstep : step s = (.tooDeep, t)) : step.mapError f s = (Halt.tooDeep.ending, t) := by
  simp only [mapError, hstep]
  rfl

/-- Catching a crash keeps the changes that were made before it. -/
theorem catchCrash_snd (step : Step σ ε α) (s : σ) (caught : String → ε) :
    (step.catchCrash caught s).2 = (step s).2 := by
  obtain ⟨⟨ending, t⟩, hstep⟩ : ∃ result, step s = result := ⟨_, rfl⟩
  simp only [catchCrash, hstep]
  cases ending <;> rfl

/-- Nothing is caught of a step that ends with a result. -/
theorem catchCrash_of_ok {step : Step σ ε α} {s : σ} {caught : String → ε} {value : α}
    (h : (step s).1 = .ok value) : step.catchCrash caught s = (.ok value, (step s).2) := by
  obtain ⟨⟨ending, t⟩, hstep⟩ : ∃ result, step s = result := ⟨_, rfl⟩
  rw [hstep] at h ⊢
  obtain rfl : ending = .ok value := h
  simp only [catchCrash, hstep]

theorem toOption_eq_some_iff {result : Except ε α} {value : α} :
    result.toOption = some value ↔ result = .ok value := by
  cases result <;> simp [Except.toOption]

/-- A result that needs no state leaves it as it was. -/
theorem ofExcept_ok {result : Except ε α} {s t : σ} {value : α}
    (hstep : ofExcept result s = (.ok value, t)) : result = .ok value ∧ t = s := by
  cases result with
  | error e => cases hstep
  | ok found =>
    cases hstep
    exact ⟨rfl, rfl⟩

/-- What needs no state halts with an error only, and leaves the state as it was. -/
theorem ofExcept_halt {result : Except ε α} {s t : σ} {halt : Halt ε}
    (hstep : ofExcept result s = (halt.ending, t)) :
    ∃ e, result = .error e ∧ halt = .error e ∧ t = s := by
  cases result with
  | error e =>
    cases halt with
    | error e' =>
      cases hstep
      exact ⟨e, rfl, rfl, rfl⟩
    | crashed => cases hstep
    | tooDeep => cases hstep
  | ok found => cases halt <;> cases hstep

/-- An error of the changed step comes from one of the step itself. -/
theorem mapError_error {φ : Type} {f : ε → φ} {step : Step σ ε α} {s t : σ} {e : φ}
    (hstep : step.mapError f s = (.error e, t)) :
    ∃ original, step s = (.error original, t) ∧ e = f original := by
  obtain ⟨⟨ending, after⟩, hrun⟩ : ∃ run, step s = run := ⟨_, rfl⟩
  simp only [mapError, hrun] at hstep
  cases ending with
  | error original =>
    cases hstep
    exact ⟨original, hrun, rfl⟩
  | ok value => cases hstep
  | crashed => cases hstep
  | tooDeep => cases hstep

/-- What is made of a step's result changes neither with which errors it ends nor whether it ends at
all. -/
theorem yield_eq_error_iff {φ : Type} {f : ε → φ} {g : α → β} {step : Step σ ε α} {s t : σ} {e : φ} :
    (step.mapError f >>= fun value => pure (g value)) s = (.error e, t) ↔
      ∃ original, step s = (.error original, t) ∧ e = f original := by
  constructor
  · intro hchain
    obtain ⟨value, between, -, hlast⟩ | ⟨halt, hfirst, hending⟩ := bind_cases hchain
    · cases hlast
    · obtain rfl := Halt.ending_eq_error.mp hending.symm
      exact mapError_error hfirst
  · rintro ⟨original, hstep, rfl⟩
    exact bind_error (mapError_of_error hstep)

/-- What is made of a step's result and of its error has no part in whether it comes to an end. -/
theorem completes_yield {φ : Type} {f : ε → φ} {g : α → β} {step : Step σ ε α} {s : σ} :
    ((step.mapError f >>= fun value => pure (g value)) s).1.Completes ↔
      (step s).1.Completes := by
  obtain ⟨⟨ending, t⟩, hstep⟩ : ∃ run, step s = run := ⟨_, rfl⟩
  change (Step.bind (step.mapError f) _ s).1.Completes ↔ _
  simp only [Step.bind, mapError, hstep]
  cases ending <;> rfl

end Step

end Workflow
