import Mathlib.Data.UInt
import Aaf.Contracts
import Aaf.Machine

/-!
# The circuit breakers

`CircuitBreakerRegistry` (`aaf-registry`): one breaker for each key, `Closed → Open →
HalfOpen → Closed`, behind one lock, so that every call is one step. A call reads the
clock itself; here the instant it reads is part of the call. Instants and durations
are integers, in nanoseconds: the ends of the calendar, where `chrono` refuses to
subtract, are left out.

Nothing moves a breaker when its cooldown elapses. The cooldown is evaluated, in
place, by the calls that look at the state: `allows`, `snapshot` and `all_snapshots`.
-/

namespace Aaf

/-- Circuit breaker state, the same at every level. -/
inductive BreakerState : Type where
  | closed : BreakerState
  | opened : BreakerState
  | halfOpen : BreakerState
  deriving DecidableEq, Repr

/-- Level in the circuit-breaker hierarchy. -/
inductive BreakerLevel : Type where
  | service : BreakerLevel
  | capability : BreakerLevel
  | agent : BreakerLevel
  | flow : BreakerLevel
  | system : BreakerLevel
  deriving DecidableEq, Repr

/-- Configuration knobs of a breaker. -/
structure BreakerConfig where
  failureThreshold : UInt32
  window : ℤ
  cooldown : ℤ
  deriving DecidableEq, Repr

/-- `BreakerConfig::default`. -/
def BreakerConfig.default : BreakerConfig := ⟨5, 60000000000, 30000000000⟩

/-- Internal state of one breaker. -/
structure BreakerInner where
  state : BreakerState
  level : BreakerLevel
  config : BreakerConfig
  failures : List ℤ
  openedAt : Option ℤ
  reason : Option String
  deriving DecidableEq, Repr

/-- Snapshot of a breaker's public state. -/
structure BreakerSnapshot where
  key : String
  level : BreakerLevel
  state : BreakerState
  failureCount : UInt32
  reason : Option String
  deriving DecidableEq, Repr

/-! ## One breaker -/

namespace BreakerInner

/-- `BreakerInner::new`. -/
def new (level : BreakerLevel) (config : BreakerConfig) : BreakerInner :=
  ⟨.closed, level, config, [], none, none⟩

/-- `BreakerInner::prune`: forget the failures older than the window. -/
def prune (b : BreakerInner) (now : ℤ) : BreakerInner :=
  { b with failures := b.failures.filter fun t => decide (now - b.config.window < t) }

/-- The failure is stored, whatever follows from it. -/
def push (b : BreakerInner) (now : ℤ) : BreakerInner :=
  { b with failures := b.failures ++ [now] }

/-- The breaker goes to `Open`. -/
def trip (b : BreakerInner) (now : ℤ) (reason : Option String) : BreakerInner :=
  { b with state := .opened, openedAt := some now, reason := reason }

/-- The breaker goes to `Closed` and forgets. -/
def reset (b : BreakerInner) : BreakerInner :=
  { b with state := .closed, failures := [], openedAt := none, reason := none }

/-- `BreakerInner::record_failure`; true when the breaker just tripped. -/
def recordFailure (b : BreakerInner) (now : ℤ) (reason : Option String) : Bool × BreakerInner :=
  let b := (b.prune now).push now
  if b.state = .halfOpen then (true, b.trip now reason)
  else if UInt32.ofNat b.failures.length ≥ b.config.failureThreshold ∧ b.state = .closed then
    (true, b.trip now reason)
  else (false, b)

/-- `BreakerInner::record_success`. -/
def recordSuccess (b : BreakerInner) (now : ℤ) : BreakerInner :=
  let b := b.prune now
  if b.state = .halfOpen then b.reset else b

/-- The breaker is `Open` and its cooldown is over. -/
def Cooled (b : BreakerInner) (now : ℤ) : Prop :=
  b.state = .opened ∧ ∃ opened ∈ b.openedAt, now - opened ≥ b.config.cooldown

instance (b : BreakerInner) (now : ℤ) : Decidable (b.Cooled now) :=
  inferInstanceAs (Decidable (_ ∧ ∃ opened ∈ b.openedAt, _))

/-- `BreakerInner::effective_state`: the breaker once the cooldown is evaluated. -/
def effectiveState (b : BreakerInner) (now : ℤ) : BreakerInner :=
  if b.Cooled now then { b with state := .halfOpen } else b

/-- What `snapshot` and `all_snapshots` show of a breaker. -/
def snapshotOf (b : BreakerInner) (key : String) : BreakerSnapshot :=
  ⟨key, b.level, b.state, UInt32.ofNat b.failures.length, b.reason⟩

end BreakerInner

/-! ## The registry of breakers -/

/-- `CircuitBreakerRegistry`. -/
abbrev CircuitBreakerRegistry : Type := HashMap String BreakerInner

namespace CircuitBreakerRegistry

/-- `CircuitBreakerRegistry::new`. -/
def new : CircuitBreakerRegistry := ∅

/-- `CircuitBreakerRegistry::register`: a breaker that exists stays as it is. -/
def register (r : CircuitBreakerRegistry) (key : String) (level : BreakerLevel)
    (config : BreakerConfig) : CircuitBreakerRegistry :=
  match r.lookup key with
  | some _ => r
  | none => r.insert key (BreakerInner.new level config)

/-- The breaker of `key` works and answers under the lock; without one, the answer
is `unknown`. -/
def getMut {ρ : Type} (r : CircuitBreakerRegistry) (key : String) (unknown : ρ)
    (f : BreakerInner → ρ × BreakerInner) : ρ × CircuitBreakerRegistry :=
  match r.lookup key with
  | some b => ((f b).1, r.insert key (f b).2)
  | none => (unknown, r)

/-- `CircuitBreakerRegistry::record_failure`. -/
def recordFailure (r : CircuitBreakerRegistry) (now : ℤ) (key : String)
    (reason : Option String) : Bool × CircuitBreakerRegistry :=
  r.getMut key false fun b => b.recordFailure now reason

/-- `CircuitBreakerRegistry::record_success`. -/
def recordSuccess (r : CircuitBreakerRegistry) (now : ℤ) (key : String) :
    Unit × CircuitBreakerRegistry :=
  r.getMut key () fun b => ((), b.recordSuccess now)

/-- `CircuitBreakerRegistry::allows`: an unknown key has no breaker and is allowed. -/
def allows (r : CircuitBreakerRegistry) (now : ℤ) (key : String) :
    Bool × CircuitBreakerRegistry :=
  r.getMut key true fun b =>
    (decide ((b.effectiveState now).state ≠ .opened), b.effectiveState now)

/-- `CircuitBreakerRegistry::snapshot`. -/
def snapshot (r : CircuitBreakerRegistry) (now : ℤ) (key : String) :
    Option BreakerSnapshot × CircuitBreakerRegistry :=
  r.getMut key none fun b => (some ((b.effectiveState now).snapshotOf key), b.effectiveState now)

/-- Every breaker once its cooldown is evaluated. -/
def effective (r : CircuitBreakerRegistry) (now : ℤ) : CircuitBreakerRegistry :=
  ⟨r.entries.map (Sigma.map id fun _ b => b.effectiveState now), by
    rw [List.NodupKeys, List.keys, List.map_map]
    exact r.nodupKeys⟩

/-- `CircuitBreakerRegistry::all_snapshots`, in the order of the table. -/
def allSnapshots (r : CircuitBreakerRegistry) (now : ℤ) :
    List BreakerSnapshot × CircuitBreakerRegistry :=
  ((r.effective now).entries.map fun e => e.2.snapshotOf e.1, r.effective now)

/-- `CircuitBreakerRegistry::force_open`. -/
def forceOpen (r : CircuitBreakerRegistry) (now : ℤ) (key : String) (reason : String) :
    Unit × CircuitBreakerRegistry :=
  r.getMut key () fun b => ((), b.trip now (some reason))

/-- `CircuitBreakerRegistry::force_close`. -/
def forceClose (r : CircuitBreakerRegistry) (key : String) : Unit × CircuitBreakerRegistry :=
  r.getMut key () fun b => ((), b.reset)

end CircuitBreakerRegistry

/-! ## Calls, one after the other -/

/-- What can be asked of the breaker of one key. -/
inductive BreakerOp : Type where
  | recordFailure (reason : Option String) : BreakerOp
  | recordSuccess : BreakerOp
  | allows : BreakerOp
  | snapshot : BreakerOp
  | forceOpen (reason : String) : BreakerOp
  | forceClose : BreakerOp
  deriving DecidableEq, Repr

/-- A call to the registry. -/
inductive BreakerCall : Type where
  | register (key : String) (level : BreakerLevel) (config : BreakerConfig) : BreakerCall
  | on (key : String) (op : BreakerOp) : BreakerCall
  | allSnapshots : BreakerCall
  deriving DecidableEq, Repr

/-- A call and the instant it reads from the clock. -/
structure BreakerEvent where
  now : ℤ
  call : BreakerCall
  deriving DecidableEq, Repr

/-- The answer to a call. -/
inductive BreakerReply : Type where
  | done : BreakerReply
  | tripped (value : Bool) : BreakerReply
  | allowed (value : Bool) : BreakerReply
  | snapshot (value : Option BreakerSnapshot) : BreakerReply
  | snapshots (value : List BreakerSnapshot) : BreakerReply
  deriving DecidableEq, Repr

namespace CircuitBreakerRegistry

/-- One call. -/
def exec (r : CircuitBreakerRegistry) (e : BreakerEvent) :
    BreakerReply × CircuitBreakerRegistry :=
  match e.call with
  | .register key level config => (.done, r.register key level config)
  | .on key (.recordFailure reason) => (r.recordFailure e.now key reason).map .tripped id
  | .on key .recordSuccess => (.done, (r.recordSuccess e.now key).2)
  | .on key .allows => (r.allows e.now key).map .allowed id
  | .on key .snapshot => (r.snapshot e.now key).map .snapshot id
  | .on key (.forceOpen reason) => (.done, (r.forceOpen e.now key reason).2)
  | .on key .forceClose => (.done, (r.forceClose key).2)
  | .allSnapshots => (r.allSnapshots e.now).map .snapshots id

/-- The calls come in the order of their instants. -/
def Timed (events : List BreakerEvent) : Prop := events.Pairwise fun e e' => e.now ≤ e'.now

instance (events : List BreakerEvent) : Decidable (Timed events) :=
  inferInstanceAs (Decidable (events.Pairwise _))

/-- The registry after the calls. -/
def after (events : List BreakerEvent) : CircuitBreakerRegistry := Machine.run exec new events

/-- The calls, the answers and the registries between them. -/
def history (events : List BreakerEvent) :
    List (Machine.Step CircuitBreakerRegistry BreakerEvent BreakerReply) :=
  Machine.trace exec new events

end CircuitBreakerRegistry

/-! ## What a call does to the breaker of one key -/

/-- What a call asks of the breaker of `key`; `all_snapshots` is a snapshot of each. -/
def BreakerCall.asks (key : String) : BreakerCall → Option BreakerOp
  | .register _ _ _ => none
  | .on k op => if k = key then some op else none
  | .allSnapshots => some .snapshot

/-- The breaker after it did what was asked. -/
def BreakerInner.did (b : BreakerInner) (now : ℤ) : Option BreakerOp → BreakerInner
  | none => b
  | some (.recordFailure reason) => (b.recordFailure now reason).2
  | some .recordSuccess => b.recordSuccess now
  | some .allows => b.effectiveState now
  | some .snapshot => b.effectiveState now
  | some (.forceOpen reason) => b.trip now (some reason)
  | some .forceClose => b.reset

namespace CircuitBreakerRegistry

variable {r : CircuitBreakerRegistry} {key : String} {b : BreakerInner}

theorem lookup_getMut_self {ρ : Type} {unknown : ρ} {f : BreakerInner → ρ × BreakerInner}
    (h : r.lookup key = some b) : (r.getMut key unknown f).2.lookup key = some (f b).2 := by
  rw [getMut, h]
  exact AList.lookup_insert r

theorem lookup_getMut_ne {ρ : Type} {unknown : ρ} {f : BreakerInner → ρ × BreakerInner}
    {key' : String} (h : key ≠ key') :
    (r.getMut key' unknown f).2.lookup key = r.lookup key := by
  rw [getMut]
  rcases r.lookup key' with _ | b'
  · rfl
  · exact AList.lookup_insert_ne h

theorem lookup_getMut_none {ρ : Type} {unknown : ρ} {f : BreakerInner → ρ × BreakerInner}
    {key' : String} (h : r.lookup key = none) :
    (r.getMut key' unknown f).2.lookup key = none := by
  by_cases hkey : key = key'
  · rw [← hkey, getMut, h]
    exact h
  · rw [lookup_getMut_ne hkey]
    exact h

theorem getMut_reply {ρ : Type} {unknown : ρ} {f : BreakerInner → ρ × BreakerInner}
    (h : r.lookup key = some b) : (r.getMut key unknown f).1 = (f b).1 := by
  rw [getMut, h]

theorem lookup_effective (now : ℤ) :
    (r.effective now).lookup key = (r.lookup key).map fun b => b.effectiveState now :=
  List.dlookup_map₂ key

theorem lookup_register_ne {key' : String} {level : BreakerLevel} {config : BreakerConfig}
    (h : key ≠ key') : (r.register key' level config).lookup key = r.lookup key := by
  rw [register]
  rcases r.lookup key' with _ | b'
  · exact AList.lookup_insert_ne h
  · rfl

theorem lookup_register_of_some {key' : String} {level : BreakerLevel} {config : BreakerConfig}
    (h : r.lookup key = some b) : (r.register key' level config).lookup key = some b := by
  by_cases hkey : key = key'
  · rw [← hkey, register, h]
    exact h
  · rw [lookup_register_ne hkey]
    exact h

/-- **Projection.** A call does to the breaker of `key` what it asks of it, and leaves
it alone when it asks nothing. -/
theorem lookup_exec (e : BreakerEvent) (h : r.lookup key = some b) :
    (r.exec e).2.lookup key = some (b.did e.now (e.call.asks key)) := by
  obtain ⟨now, call⟩ := e
  cases call with
  | register key' level config => exact lookup_register_of_some h
  | allSnapshots =>
    change (r.effective now).lookup key = _
    rw [lookup_effective, h]
    rfl
  | on key' op =>
    by_cases hkey : key' = key
    · subst hkey
      rw [BreakerCall.asks, if_pos rfl]
      cases op <;> exact lookup_getMut_self h
    · rw [BreakerCall.asks, if_neg hkey]
      have hne : key ≠ key' := fun heq => hkey heq.symm
      rw [BreakerInner.did, ← h]
      cases op <;> exact lookup_getMut_ne hne

/-- Only registration makes a breaker. -/
theorem lookup_exec_of_none {e : BreakerEvent} (h : r.lookup key = none) :
    (r.exec e).2.lookup key = none ∨
      ∃ level config, e.call = .register key level config ∧
        (r.exec e).2.lookup key = some (BreakerInner.new level config) := by
  obtain ⟨now, call⟩ := e
  cases call with
  | register key' level config =>
    by_cases hkey : key = key'
    · subst hkey
      refine Or.inr ⟨level, config, rfl, ?_⟩
      change (r.register key level config).lookup key = _
      rw [register, h]
      exact AList.lookup_insert r
    · refine Or.inl ?_
      change (r.register key' level config).lookup key = _
      rw [lookup_register_ne hkey]
      exact h
  | allSnapshots =>
    refine Or.inl ?_
    change (r.effective now).lookup key = _
    rw [lookup_effective, h]
    rfl
  | on key' op =>
    refine Or.inl ?_
    cases op <;> exact lookup_getMut_none h

end CircuitBreakerRegistry

end Aaf
