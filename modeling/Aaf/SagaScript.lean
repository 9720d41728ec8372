import Aaf.SagaRecovery

/-!
# Sagas over closures that repeat themselves

A script fixes what the two closures of a saga executor answer for each step. The
whole run over such closures is then a matter of filters: which steps are run, which
are taken back and in what order, and how the run ends, with no loop and no state.
`SagaExecutor.Follows.run_eq` says that the executor does just that.
-/

namespace Aaf

open SagaExecutor

/-- A list up to and including its first element that satisfies `p`. -/
def through {α : Type} (p : α → Bool) : List α → List α
  | [] => []
  | a :: l => if p a then [a] else a :: through p l

/-- What the closures answer, for each step. -/
structure SagaScript where
  answer : SagaStep → StepResult
  undo : SagaStep → Except String Unit

namespace SagaScript

/-! ## Definitions -/

/-- The tag a step ends the run with: a failure that its rules do not skip. -/
def haltsWith (script : SagaScript) (step : SagaStep) : Option String :=
  match script.answer step with
  | .ok => none
  | .failedWithTag tag =>
    if (decideRecovery tag step.onFailure).action = .skip then none else some tag

/-- A call of the step closure. -/
def ran (script : SagaScript) (step : SagaStep) : SagaEvent := .ran step (script.answer step)

/-- A call of the compensation closure. -/
def compensated (script : SagaScript) (step : SagaStep) : SagaEvent :=
  .compensated step (script.undo step)

/-- The steps before the one that ends the run. -/
def passed (script : SagaScript) (steps : List SagaStep) : List SagaStep :=
  steps.takeWhile fun s => (script.haltsWith s).isNone

/-- The step that ends the run, with its tag. -/
def halting (script : SagaScript) (steps : List SagaStep) : Option (SagaStep × String) :=
  steps.findSome? fun s => (script.haltsWith s).map fun tag => (s, tag)

/-- The numbers of the steps that succeeded. -/
def completed (script : SagaScript) (steps : List SagaStep) : List UInt32 :=
  (steps.filter fun s => decide (script.answer s = .ok)).map (·.step)

/-- A compensation that must succeed and does not. -/
def isFatal (script : SagaScript) (step : SagaStep) : Bool :=
  decide (step.compensationType = .mandatory) && !(script.undo step).isOk

/-- The steps the compensation closure would be called for, when all of `l` is taken
back. -/
def toUndo (defn : SagaDefinition) (action : RecoveryAction) (preserveSet : List UInt32)
    (l : List UInt32) : List SagaStep :=
  (l.filter fun n => !keeps action preserveSet n).filterMap (undoStep defn)

/-- Whether a step counts as compensated: it declares no compensation, or its
compensation succeeds. -/
def isUndone (script : SagaScript) (defn : SagaDefinition) (n : UInt32) : Bool :=
  match undoStep defn n with
  | none => true
  | some s => (script.undo s).isOk

/-- How the rollback of `l` ends. -/
def rollbackResult (script : SagaScript) (defn : SagaDefinition) (step : SagaStep)
    (decision : RecoveryDecision) (l : List UInt32) : SagaReturn :=
  match (toUndo defn decision.action decision.preserveSet l).find? script.isFatal with
  | some s => .err (.mandatoryCompensationFailed s.step)
  | none =>
    .ok (.failed step.step decision.action
      ((l.filter fun n => !keeps decision.action decision.preserveSet n).filter
        (script.isUndone defn))
      (l.filter (keeps decision.action decision.preserveSet)))

/-- The calls the rollback of `l` makes: it stops at the first that is fatal. -/
def rollbackLog (script : SagaScript) (defn : SagaDefinition) (decision : RecoveryDecision)
    (l : List UInt32) : List SagaEvent :=
  (through script.isFatal (toUndo defn decision.action decision.preserveSet l)).map
    script.compensated

/-- How the run ends. -/
def result (script : SagaScript) (defn : SagaDefinition) : SagaReturn :=
  let passed := script.passed defn.steps
  match script.halting defn.steps with
  | none => .ok (.completed (script.completed passed))
  | some (step, tag) =>
    let decision := decideRecovery tag step.onFailure
    match decision.action with
    | .pauseAndAskUser => .ok (.pendingUser step.step)
    | .retryWithAlternative => .ok (.failed step.step .retryWithAlternative [] [])
    | _ => script.rollbackResult defn step decision (script.completed passed).reverse

/-- The calls the run makes. -/
def log (script : SagaScript) (defn : SagaDefinition) : List SagaEvent :=
  let passed := script.passed defn.steps
  match script.halting defn.steps with
  | none => passed.map script.ran
  | some (step, tag) =>
    let decision := decideRecovery tag step.onFailure
    let forward := passed.map script.ran ++ [script.ran step]
    match decision.action with
    | .pauseAndAskUser => forward
    -- the retry gets the answer of the first call
    | .retryWithAlternative => forward ++ [script.ran step]
    | _ => forward ++ script.rollbackLog defn decision (script.completed passed).reverse

end SagaScript

/-! ## Where a script ends the run -/

namespace SagaScript

variable {script : SagaScript}

theorem haltsWith_of_mem_passed {steps : List SagaStep} {s : SagaStep}
    (h : s ∈ script.passed steps) : script.haltsWith s = none := by
  have := List.mem_takeWhile_imp h
  exact Option.isNone_iff_eq_none.mp this

/-- No step ends the run: all are passed. -/
theorem passed_of_halting_none {steps : List SagaStep} (h : script.halting steps = none) :
    script.passed steps = steps := by
  rw [halting, List.findSome?_eq_none_iff] at h
  rw [passed, List.takeWhile_eq_self_iff]
  intro s hs
  have hs := h s hs
  rw [Option.map_eq_none_iff] at hs
  rw [hs]
  rfl

/-- A step ends the run: it stands behind the passed ones. -/
theorem split_of_halting {steps : List SagaStep} {step : SagaStep} {tag : String}
    (h : script.halting steps = some (step, tag)) :
    (∃ post, steps = script.passed steps ++ step :: post) ∧ script.haltsWith step = some tag := by
  induction steps with
  | nil => cases h
  | cons s steps ih =>
    rw [halting, List.findSome?_cons] at h
    rw [passed, List.takeWhile_cons]
    rcases hs : script.haltsWith s with _ | t
    · rw [hs] at h
      obtain ⟨⟨post, hpost⟩, htag⟩ := ih h
      refine ⟨⟨post, ?_⟩, htag⟩
      simpa [passed] using hpost
    · rw [hs] at h
      cases h
      exact ⟨⟨steps, rfl⟩, hs⟩

/-- A step that ends the run failed, and its rules do not skip it. -/
theorem haltsWith_eq_some {step : SagaStep} {tag : String} (h : script.haltsWith step = some tag) :
    script.answer step = .failedWithTag tag ∧
      (decideRecovery tag step.onFailure).action ≠ .skip := by
  rw [haltsWith] at h
  rcases hanswer : script.answer step with _ | t
  · rw [hanswer] at h
    cases h
  · rw [hanswer] at h
    by_cases hskip : (decideRecovery t step.onFailure).action = .skip
    · simp [hskip] at h
    · simp only [hskip, if_false] at h
      cases h
      exact ⟨rfl, hskip⟩

/-- A step that is passed succeeded, or is skipped by its rules. -/
theorem haltsWith_eq_none {step : SagaStep} (h : script.haltsWith step = none) :
    script.answer step = .ok ∨ ∃ tag, script.answer step = .failedWithTag tag ∧
      (decideRecovery tag step.onFailure).action = .skip := by
  rw [haltsWith] at h
  rcases hanswer : script.answer step with _ | t
  · exact Or.inl rfl
  · rw [hanswer] at h
    by_cases hskip : (decideRecovery t step.onFailure).action = .skip
    · exact Or.inr ⟨t, rfl, hskip⟩
    · simp [hskip] at h

theorem completed_append (pre steps : List SagaStep) :
    script.completed (pre ++ steps) = script.completed pre ++ script.completed steps := by
  rw [completed, List.filter_append, List.map_append]
  rfl

/-! ## What is taken back -/

section ToUndo

variable {defn : SagaDefinition} {action : RecoveryAction} {preserveSet : List UInt32} {n : UInt32}

theorem toUndo_cons_of_keeps (hkeep : keeps action preserveSet n = true) (l : List UInt32) :
    toUndo defn action preserveSet (n :: l) = toUndo defn action preserveSet l := by
  simp [toUndo, hkeep]

theorem toUndo_cons_of_none (hkeep : keeps action preserveSet n = false)
    (hundo : undoStep defn n = none) (l : List UInt32) :
    toUndo defn action preserveSet (n :: l) = toUndo defn action preserveSet l := by
  simp [toUndo, hkeep, hundo]

theorem toUndo_cons_of_some {s : SagaStep} (hkeep : keeps action preserveSet n = false)
    (hundo : undoStep defn n = some s) (l : List UInt32) :
    toUndo defn action preserveSet (n :: l) = s :: toUndo defn action preserveSet l := by
  simp [toUndo, hkeep, hundo]

end ToUndo

end SagaScript

/-! ## Executors that follow a script -/

namespace SagaExecutor

variable {ω : Type} {exec : SagaExecutor ω} {script : SagaScript} {I : List SagaEvent → ω → Prop}
variable {defn : SagaDefinition}

/-- The closures answer by the script in every world that a log leaves behind; `I`
says which these are. -/
structure Follows (exec : SagaExecutor ω) (script : SagaScript)
    (I : List SagaEvent → ω → Prop) : Prop where
  ran : ∀ {log w} (step : SagaStep), I log w → (exec.runner step w).1 = script.answer step ∧
    I (log ++ [script.ran step]) (exec.runner step w).2
  compensated : ∀ {log w} (step : SagaStep), I log w →
    (exec.compensator step w).1 = script.undo step ∧
      I (log ++ [script.compensated step]) (exec.compensator step w).2

/-- One call of the step closure. -/
theorem Follows.callRunner (h : exec.Follows script I) {r : SagaRun ω} (hI : I r.log r.world)
    (step : SagaStep) : (exec.callRunner r step).log = r.log ++ [script.ran step] ∧
      I (exec.callRunner r step).log (exec.callRunner r step).world := by
  obtain ⟨hanswer, hnext⟩ := h.ran step hI
  have hlog : (exec.callRunner r step).log = r.log ++ [script.ran step] := by
    rw [SagaExecutor.callRunner, hanswer]
    rfl
  exact ⟨hlog, hlog ▸ hnext⟩

/-- One call of the compensation closure. -/
theorem Follows.callCompensator (h : exec.Follows script I) {r : SagaRun ω}
    (hI : I r.log r.world) (step : SagaStep) :
    (exec.callCompensator r step).log = r.log ++ [script.compensated step] ∧
      I (exec.callCompensator r step).log (exec.callCompensator r step).world := by
  obtain ⟨hundo, hnext⟩ := h.compensated step hI
  have hlog : (exec.callCompensator r step).log = r.log ++ [script.compensated step] := by
    rw [SagaExecutor.callCompensator, hundo]
    rfl
  exact ⟨hlog, hlog ▸ hnext⟩

/-! ### Forward -/

/-- A step that the script passes is one iteration of the forward loop. -/
theorem Follows.advance (h : exec.Follows script I) (defn : SagaDefinition) {fw : Forward ω}
    (hI : I fw.run.log fw.run.world) {step : SagaStep} (hstep : script.haltsWith step = none) :
    ∃ r, exec.advance defn fw step = .ok ⟨r, fw.completed ++ script.completed [step]⟩ ∧
      r.log = fw.run.log ++ [script.ran step] ∧ I r.log r.world := by
  obtain ⟨hanswer, -⟩ := h.ran step hI
  obtain ⟨hlog, hnext⟩ := h.callRunner hI step
  rcases SagaScript.haltsWith_eq_none hstep with hok | ⟨tag, hfailed, hskip⟩
  · refine ⟨exec.callRunner fw.run step, ?_, hlog, hnext⟩
    rw [advance_of_ok (hanswer.trans hok)]
    simp [SagaScript.completed, hok]
  · refine ⟨{ exec.callRunner fw.run step with state := .recoverySelected }, ?_, hlog, hnext⟩
    rw [advance_of_failed (hanswer.trans hfailed), recover]
    simp [SagaScript.completed, hfailed, hskip]

/-- The steps that the script passes are iterations of the forward loop. -/
theorem Follows.forward (h : exec.Follows script I) (defn : SagaDefinition)
    {steps : List SagaStep} (hsteps : ∀ s ∈ steps, script.haltsWith s = none) (fw : Forward ω)
    (hI : I fw.run.log fw.run.world) :
    ∃ r, steps.foldlM (exec.advance defn) fw =
        .ok ⟨r, fw.completed ++ script.completed steps⟩ ∧
      r.log = fw.run.log ++ steps.map script.ran ∧ I r.log r.world := by
  induction steps generalizing fw with
  | nil => exact ⟨fw.run, by simp [SagaScript.completed, pure, Except.pure], by simp, hI⟩
  | cons s steps ih =>
    obtain ⟨r, hadv, hlog, hr⟩ := h.advance defn hI (hsteps s List.mem_cons_self)
    obtain ⟨r', hfold, hlog', hr'⟩ :=
      ih (fun s hs => hsteps s (List.mem_cons_of_mem _ hs))
        ⟨r, fw.completed ++ script.completed [s]⟩ hr
    refine ⟨r', ?_, ?_, hr'⟩
    · rw [Loop.foldlM_cons_ok]
      refine ⟨_, hadv, ?_⟩
      rw [hfold, List.append_assoc, ← SagaScript.completed_append, List.singleton_append]
    · rw [hlog', hlog, List.append_assoc, List.map_cons, List.singleton_append]

/-! ### Back -/

/-- What the rollback loop comes to over a script. -/
def UnwindsTo (exec : SagaExecutor ω) (script : SagaScript) (I : List SagaEvent → ω → Prop)
    (defn : SagaDefinition) (action : RecoveryAction) (preserveSet : List UInt32)
    (l : List UInt32) (u : Unwind ω) : Prop :=
  match (SagaScript.toUndo defn action preserveSet l).find? script.isFatal with
  | some s => ∃ e, l.foldlM (exec.unwindOne defn action preserveSet) u = .error e ∧
      e.result = .err (.mandatoryCompensationFailed s.step) ∧
      e.run.log = u.run.log ++
        (through script.isFatal (SagaScript.toUndo defn action preserveSet l)).map
          script.compensated ∧
      I e.run.log e.run.world
  | none => ∃ u', l.foldlM (exec.unwindOne defn action preserveSet) u = .ok u' ∧
      u'.compensated = u.compensated ++
        (l.filter fun n => !keeps action preserveSet n).filter (script.isUndone defn) ∧
      u'.preserved = u.preserved ++ l.filter (keeps action preserveSet) ∧
      u'.run.log = u.run.log ++
        (through script.isFatal (SagaScript.toUndo defn action preserveSet l)).map
          script.compensated ∧
      I u'.run.log u'.run.world

/-- The rollback loop takes a list of numbers back as the script has it. -/
theorem Follows.unwind (h : exec.Follows script I) (action : RecoveryAction)
    (preserveSet : List UInt32) {l : List UInt32}
    (hknown : ∀ n ∈ l, ∃ s ∈ defn.steps, s.step = n) {u : Unwind ω}
    (hI : I u.run.log u.run.world) : exec.UnwindsTo script I defn action preserveSet l u := by
  induction l generalizing u with
  | nil => exact ⟨u, rfl, by simp, by simp, by simp [through, SagaScript.toUndo], hI⟩
  | cons n l ih =>
    have hrest : ∀ n ∈ l, ∃ s ∈ defn.steps, s.step = n :=
      fun n hn => hknown n (List.mem_cons_of_mem _ hn)
    have hcases := exec.unwindOne_cases defn action preserveSet u n
    generalize hone : exec.unwindOne defn action preserveSet u n = one at hcases
    cases hcases with
    | kept hkeep =>
      have hgo := ih hrest (u := ⟨u.run, u.compensated, u.preserved ++ [n]⟩) hI
      rw [UnwindsTo] at hgo ⊢
      rw [SagaScript.toUndo_cons_of_keeps hkeep]
      simpa [List.foldlM_cons, hone, hkeep, bind, Except.bind] using hgo
    | unknown hkeep hfind =>
      obtain ⟨s, hs, hnum⟩ := hknown n List.mem_cons_self
      exact absurd (decide_eq_true hnum) (List.find?_eq_none.mp hfind s hs)
    | bare hkeep hundo =>
      have hgo := ih hrest (u := ⟨u.run, u.compensated ++ [n], u.preserved⟩) hI
      rw [UnwindsTo] at hgo ⊢
      rw [SagaScript.toUndo_cons_of_none hkeep hundo]
      simpa [List.foldlM_cons, hone, hkeep, SagaScript.isUndone, hundo, bind, Except.bind] using hgo
    | @undone s v hkeep hundo hcall =>
      obtain ⟨hanswer, -⟩ := h.compensated s hI
      obtain ⟨hlog, hnext⟩ := h.callCompensator hI s
      have hok : script.undo s = .ok v := hanswer.symm.trans hcall
      have hnot : script.isFatal s = false := by simp [SagaScript.isFatal, hok, Except.isOk,
        Except.toBool]
      have hgo := ih hrest
        (u := ⟨exec.callCompensator u.run s, u.compensated ++ [n], u.preserved⟩) hnext
      rw [UnwindsTo] at hgo ⊢
      rw [SagaScript.toUndo_cons_of_some hkeep hundo]
      simpa [List.foldlM_cons, hone, hkeep, SagaScript.isUndone, hundo, hok, hnot, hlog, through,
        Except.isOk, Except.toBool, bind, Except.bind] using hgo
    | @tolerated s message hkeep hundo hcall htype =>
      obtain ⟨hanswer, -⟩ := h.compensated s hI
      obtain ⟨hlog, hnext⟩ := h.callCompensator hI s
      have herror : script.undo s = .error message := hanswer.symm.trans hcall
      have hnot : script.isFatal s = false := by simp [SagaScript.isFatal, htype]
      have hgo := ih hrest (u := ⟨exec.callCompensator u.run s, u.compensated, u.preserved⟩) hnext
      rw [UnwindsTo] at hgo ⊢
      rw [SagaScript.toUndo_cons_of_some hkeep hundo]
      simpa [List.foldlM_cons, hone, hkeep, SagaScript.isUndone, hundo, herror, hnot, hlog, through,
        Except.isOk, Except.toBool, bind, Except.bind] using hgo
    | @fatal s message hkeep hundo hcall htype =>
      obtain ⟨hanswer, -⟩ := h.compensated s hI
      obtain ⟨hlog, hnext⟩ := h.callCompensator hI s
      have herror : script.undo s = .error message := hanswer.symm.trans hcall
      have hfatal : script.isFatal s = true := by
        simp [SagaScript.isFatal, htype, herror, Except.isOk, Except.toBool]
      obtain ⟨hnum, -, -⟩ := undoStep_eq_some hundo
      rw [UnwindsTo, SagaScript.toUndo_cons_of_some hkeep hundo, List.find?_cons, hfatal]
      refine ⟨⟨.err (.mandatoryCompensationFailed n), exec.callCompensator u.run s⟩, ?_, ?_, ?_, hnext⟩
      · rw [List.foldlM_cons, hone]
        rfl
      · rw [hnum]
      · simp [hlog, through, hfatal]

/-- The rollback of a run takes the completed steps back, latest first. -/
theorem Follows.rollBack (h : exec.Follows script I) {step : SagaStep} {decision : RecoveryDecision}
    {r : SagaRun ω} (hI : I r.log r.world) {completed : List UInt32}
    (hknown : ∀ n ∈ completed.reverse, ∃ s ∈ defn.steps, s.step = n) :
    (exec.rollBack defn step decision r completed).result =
        script.rollbackResult defn step decision completed.reverse ∧
      (exec.rollBack defn step decision r completed).run.log =
        r.log ++ script.rollbackLog defn decision completed.reverse ∧
      I (exec.rollBack defn step decision r completed).run.log
        (exec.rollBack defn step decision r completed).run.world := by
  rw [SagaExecutor.rollBack, SagaScript.rollbackResult, SagaScript.rollbackLog]
  dsimp only
  generalize hstate : (if decision.action = .fullCompensation then SagaState.fullCompensation
    else .partialCompensation) = state
  have hends := h.unwind decision.action decision.preserveSet hknown
    (u := ⟨{ r with state := state }, [], []⟩) hI
  rw [UnwindsTo] at hends
  rcases hfatal : (SagaScript.toUndo defn decision.action decision.preserveSet
      completed.reverse).find? script.isFatal with _ | s
  · rw [hfatal] at hends
    obtain ⟨u, hfold, hcompensated, hpreserved, hlog, hlast⟩ := hends
    rw [List.nil_append] at hcompensated hpreserved
    rw [hfold]
    refine ⟨?_, hlog, hlast⟩
    dsimp only
    rw [hcompensated, hpreserved]
  · rw [hfatal] at hends
    obtain ⟨e, hfold, hresult, hlog, hlast⟩ := hends
    rw [hfold]
    exact ⟨hresult, hlog, hlast⟩

/-! ### The run -/

/-- **A run over a script.** The result and the log of a run over closures that follow a
script are the script's. -/
theorem Follows.run_eq (h : exec.Follows script I) (defn : SagaDefinition) {w : ω} (hI : I [] w) :
    (exec.run defn w).result = script.result defn ∧
      (exec.run defn w).run.log = script.log defn ∧
      I (exec.run defn w).run.log (exec.run defn w).run.world := by
  have hpassed : ∀ s ∈ script.passed defn.steps, script.haltsWith s = none :=
    fun s hs => SagaScript.haltsWith_of_mem_passed hs
  obtain ⟨r, hfold, hlog, hr⟩ := h.forward defn hpassed (start w) hI
  have hlog : r.log = (script.passed defn.steps).map script.ran := hlog
  rw [SagaScript.result, SagaScript.log]
  dsimp only
  rcases hhalt : script.halting defn.steps with _ | ⟨step, tag⟩
  · rw [SagaScript.passed_of_halting_none hhalt] at hfold hlog ⊢
    rw [run, hfold]
    exact ⟨rfl, hlog, hr⟩
  obtain ⟨⟨post, hsplit⟩, htag⟩ := SagaScript.split_of_halting hhalt
  obtain ⟨hanswer, hskip⟩ := SagaScript.haltsWith_eq_some htag
  generalize hfw : (⟨r, (start w).completed ++ script.completed (script.passed defn.steps)⟩ :
    Forward ω) = fw at hfold
  have hrun : fw.run = r := by rw [← hfw]
  have hcompleted : fw.completed = script.completed (script.passed defn.steps) := by
    rw [← hfw]
    rfl
  obtain ⟨hcall, hnext⟩ := h.callRunner (hrun ▸ hr : I fw.run.log fw.run.world) step
  have hfails : exec.FailsAt defn w (script.passed defn.steps) step post fw tag :=
    ⟨hsplit, hfold, (h.ran step (hrun ▸ hr : I fw.run.log fw.run.world)).1.trans hanswer⟩
  have hforward : (exec.callRunner fw.run step).log =
      (script.passed defn.steps).map script.ran ++ [script.ran step] := by
    rw [hcall, hrun, hlog]
  have hback : exec.afterFailure fw.run step =
      { exec.callRunner fw.run step with state := .recoverySelected } := rfl
  have hrolled (haction : rollsBack (decideRecovery tag step.onFailure).action) :
      (exec.run defn w).result = script.rollbackResult defn step
          (decideRecovery tag step.onFailure)
          (script.completed (script.passed defn.steps)).reverse ∧
        (exec.run defn w).run.log = (script.passed defn.steps).map script.ran ++
          [script.ran step] ++ script.rollbackLog defn (decideRecovery tag step.onFailure)
            (script.completed (script.passed defn.steps)).reverse ∧
        I (exec.run defn w).run.log (exec.run defn w).run.world := by
    rw [hfails.run_eq_rollBack haction, ← hforward, ← hcompleted]
    exact h.rollBack (r := exec.afterFailure fw.run step) hnext hfails.known
  dsimp only
  rcases haction : (decideRecovery tag step.onFailure).action with _ | _ | _ | _ | _
  · -- the run waits for the user
    have hpause : exec.recover defn step tag (exec.callRunner fw.run step) fw.completed =
        .error ⟨.ok (.pendingUser step.step),
          { exec.callRunner fw.run step with state := .waitingForInput }⟩ := by
      rw [recover]
      simp [haction]
    rw [hfails.run_eq hpause]
    exact ⟨rfl, hforward, hnext⟩
  · -- the retry gets the same answer
    obtain ⟨hagain, hlast⟩ :=
      h.callRunner (r := exec.afterFailure fw.run step) hnext step
    have hfailed : (exec.runner step (exec.runner step fw.run.world).2).1 ≠ .ok := by
      have hsecond := (h.ran step hnext).1
      rw [hanswer] at hsecond
      intro hok
      cases hsecond.symm.trans hok
    rw [hfails.run_eq_gaveUp haction hfailed]
    refine ⟨rfl, ?_, hlast⟩
    rw [← hforward]
    exact hagain
  · exact hrolled (Or.inr haction)
  · exact hrolled (Or.inl haction)
  · exact absurd haction hskip

end SagaExecutor

end Aaf
