import Aaf.Interleaving
import Aaf.Ontology

/-!
# Upserts racing with each other

Any number of upserts that may not break anything run together on one registry. Each of them goes
through its three sections in order, and others may come in between.

The entity that an upsert replaces need not be the one it was compared with. So no replacement is
a downgrade exactly when each upsert is also compatible with the last entity that the others put
under its id in between: `never_downgrades_iff`.
-/

namespace Aaf

namespace OntologyRace

open Interleaving

/-- How far an upsert has come. -/
inductive Phase : Type where
  | idle : Phase
  /-- the relations have been looked up -/
  | related : Phase
  /-- the entity has been compared with the stored one -/
  | admitted : Phase
  | done (result : Except OntologyError Unit) : Phase

/-- The sections of an upsert. -/
inductive Section : Type where
  | relations : Section
  | replaced : Section
  | insert : Section
  deriving DecidableEq

/-- Where a check brings an upsert. -/
def after (passed : Phase) : Except OntologyError Unit → Phase
  | .ok () => passed
  | .error e => .done (.error e)

section Events

variable (calls : ℕ → Entity)

/-- One section of the upsert of `calls k`. -/
def next (k : ℕ) : Section → OntologyRegistry → Phase → Option (OntologyRegistry × Phase)
  | .relations, r, .idle => some (r, after .related (r.checkRelations (calls k)))
  | .replaced, r, .related => some (r, after .admitted (r.checkReplaced (calls k) false))
  | .insert, r, .admitted => some (r.insert (calls k), .done (.ok ()))
  | _, _, _ => none

/-- Before any section. -/
def start (r : OntologyRegistry) : Shared OntologyRegistry Phase := ⟨r, fun _ => .idle⟩

/-- The entity that is stored under the id after one more section. -/
def inserted (id : EntityId) (last : Option Entity) : ℕ × Section → Option Entity
  | (k, .insert) => if (calls k).id = id then some (calls k) else last
  | _ => last

/-- The last entity that the sections put under the id. -/
def lastInserted (id : EntityId) (events : List (ℕ × Section)) : Option Entity :=
  events.foldl (inserted calls id) none

end Events

section Runs

variable {calls} {r : OntologyRegistry} {s t : Shared OntologyRegistry Phase} {k : ℕ}
  {events : List (ℕ × Section)}

/-! ## One section -/

theorem next_relations_iff {r' : OntologyRegistry} {p p' : Phase} :
    next calls k .relations r p = some (r', p') ↔
      p = .idle ∧ r' = r ∧ p' = after .related (r.checkRelations (calls k)) := by
  cases p <;> simp [next, eq_comm]

theorem next_replaced_iff {r' : OntologyRegistry} {p p' : Phase} :
    next calls k .replaced r p = some (r', p') ↔
      p = .related ∧ r' = r ∧ p' = after .admitted (r.checkReplaced (calls k) false) := by
  cases p <;> simp [next, eq_comm]

theorem next_insert_iff {r' : OntologyRegistry} {p p' : Phase} :
    next calls k .insert r p = some (r', p') ↔
      p = .admitted ∧ r' = r.insert (calls k) ∧ p' = .done (.ok ()) := by
  cases p <;> simp [next, eq_comm]

theorem after_eq_admitted_iff {check : Except OntologyError Unit} :
    after .admitted check = .admitted ↔ check = .ok () := by
  rcases check with e | u
  · exact iff_of_false (fun h => by cases h) fun h => by cases h
  · exact iff_of_true rfl rfl

theorem after_related_ne {check : Except OntologyError Unit} :
    after .related check ≠ .admitted := by
  rcases check with e | u <;> intro h <;> cases h

/-- **An upsert without others.** One that runs alone is `upsert`. -/
theorem alone_eq_upsert (hidle : s.phase k = .idle) :
    ∃ events t, Runs (step (next calls)) s events t ∧
      t.phase k = .done (s.value.upsert (calls k) false).1 ∧
      t.value = (s.value.upsert (calls k) false).2 := by
  have hrelations : step (next calls) s (k, .relations) =
      .ok (s.put k s.value (after .related (s.value.checkRelations (calls k)))) :=
    step_ok_iff.mpr ⟨_, _, next_relations_iff.mpr ⟨hidle, rfl, rfl⟩, rfl⟩
  rw [OntologyRegistry.upsert]
  rcases hchecked : s.value.checkRelations (calls k) with e | u
  · rw [hchecked] at hrelations
    exact ⟨_, _, Runs.cons_iff.mpr ⟨_, hrelations, Runs.nil _⟩, s.phase_put_self .., rfl⟩
  · rw [hchecked] at hrelations
    have hreplaced : step (next calls) (s.put k s.value .related) (k, .replaced) =
        .ok ((s.put k s.value .related).put k s.value
          (after .admitted (s.value.checkReplaced (calls k) false))) :=
      step_ok_iff.mpr ⟨_, _, next_replaced_iff.mpr ⟨s.phase_put_self .., rfl, rfl⟩, rfl⟩
    dsimp only
    rcases hadmitted : s.value.checkReplaced (calls k) false with e | u'
    · rw [hadmitted] at hreplaced
      exact ⟨_, _, Runs.cons_iff.mpr ⟨_, hrelations, Runs.cons_iff.mpr
        ⟨_, hreplaced, Runs.nil _⟩⟩, Shared.phase_put_self .., rfl⟩
    · rw [hadmitted] at hreplaced
      have hinsert : step (next calls) ((s.put k s.value .related).put k s.value .admitted)
          (k, .insert) = .ok (((s.put k s.value .related).put k s.value .admitted).put k
            (s.value.insert (calls k)) (.done (.ok ()))) :=
        step_ok_iff.mpr ⟨_, _, next_insert_iff.mpr ⟨Shared.phase_put_self .., rfl, rfl⟩, rfl⟩
      exact ⟨_, _, Runs.cons_iff.mpr ⟨_, hrelations, Runs.cons_iff.mpr ⟨_, hreplaced,
        Runs.cons_iff.mpr ⟨_, hinsert, Runs.nil _⟩⟩⟩, Shared.phase_put_self .., rfl⟩

/-! ## What is stored -/

theorem stored_step {event : ℕ × Section} (id : EntityId)
    (h : step (next calls) s event = .ok t) :
    t.value.stored id = inserted calls id (s.value.stored id) event := by
  obtain ⟨k, sec⟩ := event
  obtain ⟨v, p, hnext, rfl⟩ := step_ok_iff.mp h
  cases sec with
  | relations =>
    obtain ⟨-, rfl, -⟩ := next_relations_iff.mp hnext
    rfl
  | replaced =>
    obtain ⟨-, rfl, -⟩ := next_replaced_iff.mp hnext
    rfl
  | insert =>
    obtain ⟨-, rfl, -⟩ := next_insert_iff.mp hnext
    rw [Shared.value_put, OntologyRegistry.stored_insert, inserted]
    exact if_congr eq_comm rfl rfl

theorem stored_run (id : EntityId) (h : Runs (step (next calls)) s events t) :
    t.value.stored id = events.foldl (inserted calls id) (s.value.stored id) := by
  induction events using List.reverseRecOn generalizing t with
  | nil =>
    cases h
    rfl
  | append_singleton events event ih =>
    obtain ⟨u, hu, hstep⟩ := Runs.concat_iff.mp h
    rw [List.foldl_append, ← ih hu]
    exact stored_step id hstep

theorem foldl_inserted (id : EntityId) (events : List (ℕ × Section)) (last : Option Entity) :
    events.foldl (inserted calls id) last = (lastInserted calls id events).or last := by
  rw [lastInserted]
  induction events using List.reverseRecOn with
  | nil => rfl
  | append_singleton events event ih =>
    rw [List.foldl_append, List.foldl_append, ih, List.foldl_cons, List.foldl_nil,
      List.foldl_cons, List.foldl_nil]
    obtain ⟨k, sec⟩ := event
    cases sec with
    | relations => rfl
    | replaced => rfl
    | insert =>
      rw [inserted, inserted]
      split_ifs <;> rfl

/-! ## Between the comparison and the replacement -/

/-- An upsert that is admitted was compared with what was stored at one of the events. -/
theorem compared (h : Runs (step (next calls)) (start r) events t)
    (hadmitted : t.phase k = .admitted) :
    ∃ before mid u, events = before ++ (k, .replaced) :: mid ∧
      Runs (step (next calls)) (start r) before u ∧
      u.value.Replaceable (calls k) false ∧
      ∀ id, t.value.stored id = (lastInserted calls id mid).or (u.value.stored id) := by
  obtain ⟨before, sec, mid, u, u', rfl, hu, hstep, hmid, hbefore, hafter⟩ :=
    h.entered (P := fun p => p = Phase.admitted) (fun h => by cases h) hadmitted
  obtain ⟨v, p, hnext, rfl⟩ := step_ok_iff.mp hstep
  rw [Shared.phase_put_self] at hafter
  subst hafter
  cases sec with
  | relations =>
    obtain ⟨-, -, hp⟩ := next_relations_iff.mp hnext
    exact absurd hp.symm after_related_ne
  | insert =>
    obtain ⟨-, -, hp⟩ := next_insert_iff.mp hnext
    cases hp
  | replaced =>
    obtain ⟨-, rfl, hp⟩ := next_replaced_iff.mp hnext
    refine ⟨before, mid, u, rfl, hu,
      OntologyRegistry.checkReplaced_ok_iff.mp (after_eq_admitted_iff.mp hp.symm), fun id => ?_⟩
    rw [stored_run id hmid, foldl_inserted, Shared.value_put]

/-- **No downgrade.** Every entity that is replaced in the run may be replaced by the one that
replaces it: the classification is not lowered, and the change of version is not breaking. -/
def NeverDowngrades (calls : ℕ → Entity) (r : OntologyRegistry) (events : List (ℕ × Section)) :
    Prop :=
  ∀ pre k post s, events = pre ++ (k, .insert) :: post →
    Runs (step (next calls)) (start r) pre s → ∀ old, s.value.stored (calls k).id = some old →
      old.classification.level ≤ (calls k).classification.level ∧
        compareVersions old.version (calls k).version ≠ .breaking

/-- **Nothing is downgraded exactly when what comes in between fits**: when the last entity that
other upserts put under the id of an upsert, between its comparison and its replacement, may be
replaced by its own. -/
theorem never_downgrades_iff (h : Runs (step (next calls)) (start r) events t) :
    NeverDowngrades calls r events ↔
      ∀ pre k mid post, events = pre ++ (k, .replaced) :: mid ++ (k, .insert) :: post →
        ∀ e, lastInserted calls (calls k).id mid = some e → e.Compatible (calls k) := by
  constructor
  · rintro hnever pre k mid post rfl e he
    obtain ⟨s, hs, -⟩ := Runs.append_iff.mp h
    obtain ⟨u, -, hmid⟩ := Runs.append_iff.mp hs
    obtain ⟨u', -, hmid⟩ := Runs.cons_iff.mp hmid
    have hstored : s.value.stored (calls k).id = some e := by
      rw [stored_run _ hmid, foldl_inserted, he]
      rfl
    obtain ⟨hlevel, hversion⟩ := hnever _ k post s rfl hs e hstored
    exact ⟨hlevel, hversion⟩
  · rintro hfits pre k post s rfl hs old hold
    obtain ⟨s', hs', hrest⟩ := Runs.append_iff.mp h
    obtain rfl := hs.unique hs'
    obtain ⟨u, hinsert, -⟩ := Runs.cons_iff.mp hrest
    obtain ⟨v, p, hnext, -⟩ := step_ok_iff.mp hinsert
    obtain ⟨before, mid, u, rfl, -, hreplaceable, hstored⟩ :=
      compared hs (next_insert_iff.mp hnext).1
    have hcompatible : old.Compatible (calls k) := by
      rw [hstored] at hold
      rcases hlast : lastInserted calls (calls k).id mid with _ | e
      · -- nothing came in between: what is replaced is what was compared
        rw [hlast, Option.none_or] at hold
        exact OntologyRegistry.replaceable_false_iff.mp hreplaceable old hold
      · rw [hlast, Option.some_or] at hold
        obtain rfl := Option.some.inj hold
        exact hfits before k mid post rfl _ hlast
    exact ⟨hcompatible.level_le, hcompatible.not_breaking⟩

end Runs

namespace SampleRace

/-- Two upserts of a customer: as personal data, and as public. -/
def calls : ℕ → Entity
  | 0 => ⟨"commerce.Customer", .initial, .pii, [], []⟩
  | _ => ⟨"commerce.Customer", .initial, .public, [], []⟩

/-- Both are compared with an empty registry before one of them is put in. -/
def events : List (ℕ × Section) :=
  [(0, .relations), (1, .relations), (0, .replaced), (1, .replaced), (0, .insert), (1, .insert)]

theorem possible : (final (step (next calls)) (start .new) events).isSome := by decide +kernel

end SampleRace

/-- Between the comparison of the second upsert and its replacement comes the first one. -/
theorem never_downgrades_iff_race :
    ∃ t, Runs (step (next SampleRace.calls)) (start .new) SampleRace.events t ∧
      ¬ NeverDowngrades SampleRace.calls .new SampleRace.events := by
  obtain ⟨t, hfinal⟩ := Option.isSome_iff_exists.mp SampleRace.possible
  have ht := runs_iff_final.mpr hfinal
  refine ⟨t, ht, fun h => ?_⟩
  have hfits := (never_downgrades_iff ht).mp h (SampleRace.events.take 3) 1 [(0, .insert)] [] rfl
    (SampleRace.calls 0) rfl
  exact absurd hfits.level_le (by decide)

/-- The public customer replaces the one with personal data, and both upserts succeed. -/
theorem downgraded_in_race :
    ∃ t, Runs (step (next SampleRace.calls)) (start .new) SampleRace.events t ∧
      t.phase 0 = .done (.ok ()) ∧ t.phase 1 = .done (.ok ()) ∧
      ¬ NeverDowngrades SampleRace.calls .new SampleRace.events := by
  obtain ⟨t, hfinal⟩ := Option.isSome_iff_exists.mp SampleRace.possible
  have ht := runs_iff_final.mpr hfinal
  have hcut : Runs (step (next SampleRace.calls)) (start .new)
      (SampleRace.events.take 4 ++ [(0, .insert)] ++ [(1, .insert)]) t := ht
  obtain ⟨s, hs, hlast⟩ := Runs.concat_iff.mp hcut
  obtain ⟨v, p, hnext, rfl⟩ := step_ok_iff.mp hlast
  obtain ⟨-, -, rfl⟩ := next_insert_iff.mp hnext
  obtain ⟨u, -, hfirst⟩ := Runs.concat_iff.mp hs
  obtain ⟨v', p', hnext', rfl⟩ := step_ok_iff.mp hfirst
  obtain ⟨-, rfl, rfl⟩ := next_insert_iff.mp hnext'
  refine ⟨_, ht, ?_, Shared.phase_put_self .., fun h => ?_⟩
  · rw [Shared.phase_put_of_ne _ _ _ _ (by decide), Shared.phase_put_self]
  · have hstored : (u.put 0 (u.value.insert (SampleRace.calls 0)) (.done (.ok ()))).value.stored
        "commerce.Customer" = some (SampleRace.calls 0) := by
      rw [Shared.value_put, OntologyRegistry.stored_insert]
      exact if_pos rfl
    exact absurd (h _ 1 [] _ rfl hs _ hstored).1 (by decide)

end OntologyRace

end Aaf
