import Aaf.ExecutionPlan
import Aaf.Machine

/-!
# Histories of the plan cache

`PlanCache` (`aaf-planner`) under any sequence of `put` and `get`. Every operation keeps the
queue of keys and the map in step (`Synced`), so the cost of a new key can be read off the
queue: it drops as many keys from the front as it takes to leave room (`put_order`).

`boundedFifo_iff`: a cache is a bounded first-in first-out map in every run, for every
capacity but zero. With capacity zero there is nothing left to drop, and the new plan goes
in all the same.
-/

namespace Aaf

namespace PlanCache

/-- `PlanCache::len`. -/
def len (cache : PlanCache) : ℕ := cache.map.entries.length

/-! ## One operation -/

/-- The queue has the keys of the map. -/
def Synced (map : HashMap String ExecutionPlan) (order : List String) : Prop :=
  order.Perm map.keys

section Synced

variable {map : HashMap String ExecutionPlan} {order : List String} {key : String}
  {plan : ExecutionPlan} {capacity : ℕ}

theorem Synced.nodup (h : Synced map order) : order.Nodup := h.nodup_iff.mpr map.keys_nodup

theorem Synced.mem_iff (h : Synced map order) : key ∈ order ↔ key ∈ map := by
  rw [AList.mem_keys]
  exact List.Perm.mem_iff h

theorem Synced.length_eq (h : Synced map order) : order.length = map.entries.length := by
  rw [List.Perm.length_eq h, AList.keys, List.keys, List.length_map]

/-- The oldest key leaves both. -/
theorem Synced.erase (h : Synced map (key :: order)) : Synced (map.erase key) order := by
  rw [Synced, AList.keys_erase]
  have herase := List.Perm.erase key h
  rw [List.erase_cons_head] at herase
  exact herase

/-- A new key joins both. -/
theorem Synced.insert (h : Synced map order) (hkey : key ∉ order) :
    Synced (map.insert key plan) (order ++ [key]) := by
  have hnot : key ∉ map.keys := fun hmem => hkey (List.Perm.mem_iff h |>.mpr hmem)
  rw [Synced, AList.keys_insert, List.erase_of_not_mem hnot]
  exact (List.perm_append_singleton key order).trans (h.cons key)

/-- A present key stays where it is. -/
theorem Synced.update (h : Synced map order) (hkey : key ∈ order) :
    Synced (map.insert key plan) order := by
  rw [Synced, AList.keys_insert]
  exact h.trans (List.perm_cons_erase (List.Perm.mem_iff h |>.mp hkey))

/-- **Eviction.** As many keys are dropped from the front as it takes to leave room for one,
and with them their plans. -/
theorem evict_spec (capacity : ℕ) (h : Synced map order) :
    Synced (evict capacity map order).1 (evict capacity map order).2 ∧
    (evict capacity map order).2 = order.drop (order.length + 1 - capacity) ∧
    ∀ key ∈ (evict capacity map order).2,
      (evict capacity map order).1.lookup key = map.lookup key := by
  induction order generalizing map with
  | nil => exact ⟨h, List.drop_nil.symm, fun _ hkey => absurd hkey List.not_mem_nil⟩
  | cons oldest order ih =>
    have hlength := h.length_eq
    rw [List.length_cons] at hlength
    rw [evict]
    by_cases hfull : capacity ≤ map.entries.length
    · -- the oldest goes, and one fewer of the others has to
      rw [if_pos hfull]
      obtain ⟨hsynced, hdrop, hlookup⟩ := ih h.erase
      refine ⟨hsynced, ?_, fun key hkey => ?_⟩
      · have hsucc : order.length + 1 + 1 - capacity = (order.length + 1 - capacity) + 1 := by
          omega
        rw [hdrop, List.length_cons, hsucc, List.drop_succ_cons]
      · rw [hlookup key hkey]
        rw [hdrop] at hkey
        refine AList.lookup_erase_ne ?_
        rintro rfl
        exact (List.nodup_cons.mp h.nodup).1 (List.mem_of_mem_drop hkey)
    · rw [if_neg hfull]
      refine ⟨h, ?_, fun _ _ => rfl⟩
      have hzero : (oldest :: order).length + 1 - capacity = 0 := by
        rw [List.length_cons]
        omega
      rw [hzero, List.drop_zero]

end Synced

variable {cache : PlanCache} {key key' : String} {plan plan' : ExecutionPlan}

theorem put_of_mem (hkey : key ∈ cache.map) :
    cache.put key plan = { cache with map := cache.map.insert key plan } := by
  rw [put, if_pos hkey]

@[simp]
theorem put_capacity (cache : PlanCache) (key : String) (plan : ExecutionPlan) :
    (cache.put key plan).capacity = cache.capacity := by
  rw [put]
  split <;> rfl

/-- A new key goes to the back of the queue, and the oldest make room. -/
theorem put_order (h : Synced cache.map cache.order) (hkey : key ∉ cache.map) :
    (cache.put key plan).order =
      cache.order.drop (cache.len + 1 - cache.capacity) ++ [key] := by
  rw [put, if_neg hkey]
  obtain ⟨-, hdrop, -⟩ := evict_spec cache.capacity h
  simp only [hdrop, len, h.length_eq]

theorem synced_put (h : Synced cache.map cache.order) :
    Synced (cache.put key plan).map (cache.put key plan).order := by
  by_cases hkey : key ∈ cache.map
  · rw [put_of_mem hkey]
    exact h.update (h.mem_iff.mpr hkey)
  · rw [put, if_neg hkey]
    obtain ⟨hsynced, hdrop, -⟩ := evict_spec cache.capacity h
    refine hsynced.insert fun hmem => hkey (h.mem_iff.mp ?_)
    rw [hdrop] at hmem
    exact List.mem_of_mem_drop hmem

/-- Another key that stays keeps its plan. -/
theorem get_put_of_mem (h : Synced cache.map cache.order) (hne : key' ≠ key)
    (hmem : key' ∈ (cache.put key plan).order) :
    (cache.put key plan).get key' = cache.get key' := by
  by_cases hkey : key ∈ cache.map
  · rw [put_of_mem hkey]
    exact AList.lookup_insert_ne hne
  · rw [put, if_neg hkey] at hmem ⊢
    obtain ⟨-, -, hlookup⟩ := evict_spec cache.capacity h
    rw [get, AList.lookup_insert_ne hne]
    refine hlookup key' ((List.mem_append.mp hmem).resolve_right ?_)
    exact fun hmem => hne (List.mem_singleton.mp hmem)

/-- Another key has its plan unless it is dropped. -/
theorem get_put_iff (h : Synced cache.map cache.order) (hne : key' ≠ key) :
    (cache.put key plan).get key' = some plan' ↔
      cache.get key' = some plan' ∧ ¬ (key' ∈ cache.map ∧ key' ∉ (cache.put key plan).map) := by
  by_cases hmem : key' ∈ (cache.put key plan).map
  · rw [get_put_of_mem h hne ((synced_put h).mem_iff.mpr hmem)]
    simp [hmem]
  · have hnone : (cache.put key plan).get key' = none := AList.lookup_eq_none.mpr hmem
    have hold : cache.get key' = some plan' → key' ∈ cache.map := fun hget =>
      AList.lookup_isSome.mp (Option.isSome_of_eq_some hget)
    simp only [hnone, hmem, not_false_eq_true, and_true, reduceCtorEq, false_iff, not_and, not_not]
    exact hold

end PlanCache

/-! ## Runs -/

/-- A call of the cache. -/
inductive CacheCall : Type where
  | put (key : String) (plan : ExecutionPlan) : CacheCall
  | get (key : String) : CacheCall

/-- What a call returns. -/
inductive CacheReply : Type where
  | stored : CacheReply
  | found (plan : Option ExecutionPlan) : CacheReply

namespace PlanCache

/-- One call. -/
def exec (cache : PlanCache) : CacheCall → CacheReply × PlanCache
  | .put key plan => (.stored, cache.put key plan)
  | .get key => (.found (cache.get key), cache)

/-- The calls of a new cache with their states and replies. -/
def history (capacity : ℕ) (calls : List CacheCall) :
    List (Machine.Step PlanCache CacheCall CacheReply) :=
  Machine.trace exec (withCapacity capacity) calls

/-- The cache after the calls. -/
def after (capacity : ℕ) (calls : List CacheCall) : PlanCache :=
  Machine.run exec (withCapacity capacity) calls

/-- The step drops the key. -/
def Evicts (key : String) (st : Machine.Step PlanCache CacheCall CacheReply) : Prop :=
  key ∈ st.before.map ∧ key ∉ st.after.map

/-- The last plan put under the key is `plan`, and the key has not been dropped since. -/
def Held (capacity : ℕ) (calls : List CacheCall) (key : String) (plan : ExecutionPlan) : Prop :=
  ∃ pre post, calls = pre ++ .put key plan :: post ∧ (∀ plan', .put key plan' ∉ post) ∧
    ∀ st ∈ Machine.trace exec (after capacity (pre ++ [.put key plan])) post, ¬ Evicts key st

/-- The keys as they came in, without those that were present already. -/
def inserted (capacity : ℕ) (calls : List CacheCall) : List String :=
  (history capacity calls).filterMap fun st =>
    match st.call with
    | .put key _ => if key ∈ st.before.map then none else some key
    | .get _ => none

/-- A bounded first-in first-out map, throughout a run. -/
structure BoundedFifo (capacity : ℕ) (calls : List CacheCall) : Prop where
  synced : ∀ pre post, calls = pre ++ post → (after capacity pre).order.Nodup ∧
    ∀ key, key ∈ (after capacity pre).order ↔ key ∈ (after capacity pre).map
  bounded : ∀ pre post, calls = pre ++ post → (after capacity pre).len ≤ capacity
  aged : ∀ pre post, calls = pre ++ post → (after capacity pre).order <:+ inserted capacity pre
  gets : ∀ pre key post, calls = pre ++ .get key :: post → ∀ plan,
    (exec (after capacity pre) (.get key)).1 = .found (some plan) ↔ Held capacity pre key plan
  inserts : ∀ st ∈ history capacity calls, ∀ key plan, st.call = .put key plan →
    key ∉ st.before.map →
      st.after.order = st.before.order.drop (st.before.len + 1 - capacity) ++ [key]
  updates : ∀ st ∈ history capacity calls, ∀ key plan, st.call = .put key plan →
    key ∈ st.before.map → st.after.order = st.before.order

variable {capacity : ℕ} {calls : List CacheCall} {call : CacheCall}

theorem exec_capacity (cache : PlanCache) (call : CacheCall) :
    (exec cache call).2.capacity = cache.capacity := by
  cases call with
  | put key plan => exact put_capacity cache key plan
  | get key => rfl

theorem after_concat (capacity : ℕ) (calls : List CacheCall) (call : CacheCall) :
    after capacity (calls ++ [call]) = (exec (after capacity calls) call).2 :=
  Machine.run_concat _ calls call

theorem after_capacity (capacity : ℕ) (calls : List CacheCall) :
    (after capacity calls).capacity = capacity :=
  Machine.run_invariant (I := fun cache : PlanCache => cache.capacity = capacity) rfl
    (fun cache call h => (exec_capacity cache call).trans h) calls

theorem synced_exec (h : Synced cache.map cache.order) (call : CacheCall) :
    Synced (exec cache call).2.map (exec cache call).2.order := by
  cases call with
  | put key plan => exact synced_put h
  | get key => exact h

theorem synced_after (capacity : ℕ) (calls : List CacheCall) :
    Synced (after capacity calls).map (after capacity calls).order := by
  have hstart : Synced (withCapacity capacity).map (withCapacity capacity).order :=
    List.Perm.refl []
  exact Machine.run_invariant (I := fun cache : PlanCache => Synced cache.map cache.order) hstart
    (fun _ call h => synced_exec h call) calls

/-! ### What is held -/

/-- One call: the plan of a key is the one put now, or the one before if it stays. -/
theorem get_exec_iff (h : Synced cache.map cache.order) :
    (exec cache call).2.get key = some plan ↔
      call = .put key plan ∨ (cache.get key = some plan ∧ (∀ plan', call ≠ .put key plan') ∧
        ¬ Evicts key (Machine.stepAt exec cache call)) := by
  cases call with
  | get key' => simp [exec, Evicts, Machine.stepAt]
  | put key' plan' =>
    by_cases hne : key = key'
    · subst hne
      simp [exec, get_put_self, eq_comm]
    · rw [exec, get_put_iff h hne]
      simp [Evicts, Machine.stepAt, exec, Ne.symm hne, CacheCall.put.injEq]

theorem held_concat_iff :
    Held capacity (calls ++ [call]) key plan ↔
      call = .put key plan ∨ (Held capacity calls key plan ∧
        (∀ plan', call ≠ .put key plan') ∧
        ¬ Evicts key (Machine.stepAt exec (after capacity calls) call)) := by
  constructor
  · rintro ⟨pre, post, hcalls, hlast, hstays⟩
    -- the last `put` of the key is the last call, or stands before it
    rcases List.eq_nil_or_concat post with rfl | ⟨post, last, rfl⟩
    · exact Or.inl (List.append_inj_right' hcalls rfl |> List.singleton_inj.mp)
    · rw [List.concat_eq_append] at hcalls hlast hstays
      rw [← List.cons_append, ← List.append_assoc] at hcalls
      obtain ⟨rfl, hcall⟩ := List.append_inj' hcalls rfl
      obtain rfl := List.singleton_inj.mp hcall
      rw [Machine.trace_concat] at hstays
      refine Or.inr ⟨⟨pre, post, rfl, fun plan' hmem => ?_, fun st hst => ?_⟩, ?_, ?_⟩
      · exact hlast plan' (List.mem_append_left _ hmem)
      · exact hstays st (List.mem_append_left _ hst)
      · rintro plan' rfl
        exact hlast plan' (List.mem_append_right _ List.mem_cons_self)
      · have hstep := hstays _ (List.mem_append_right _ List.mem_cons_self)
        rw [after, ← Machine.run_append, List.append_assoc] at hstep
        exact hstep
  · rintro (rfl | ⟨⟨pre, post, rfl, hlast, hstays⟩, hne, hstep⟩)
    · exact ⟨calls, [], rfl, fun _ => List.not_mem_nil, fun _ hst => absurd hst List.not_mem_nil⟩
    · refine ⟨pre, post ++ [call], by simp, fun plan' hmem => ?_, fun st hst => ?_⟩
      · rcases List.mem_append.mp hmem with hmem | hmem
        · exact hlast plan' hmem
        · exact hne plan' (List.mem_singleton.mp hmem).symm
      · rw [Machine.trace_concat] at hst
        rcases List.mem_append.mp hst with hst | hst
        · exact hstays st hst
        · rw [List.mem_singleton.mp hst, after, ← Machine.run_append, List.append_assoc]
          exact hstep

/-- **What is held.** A key has the last plan put under it, unless it was dropped since. -/
theorem get_after_iff :
    (after capacity calls).get key = some plan ↔ Held capacity calls key plan := by
  induction calls using List.reverseRecOn generalizing key plan with
  | nil => simp [after, get, withCapacity, Held]
  | append_singleton calls call ih =>
    rw [after_concat, get_exec_iff (synced_after capacity calls), held_concat_iff]
    exact or_congr_right (and_congr_left' ih)

/-! ### The queue and its length -/

/-- What a call does to the queue. -/
theorem exec_order (h : Synced cache.map cache.order) (call : CacheCall) :
    (exec cache call).2.order = match call with
      | .put key _ =>
        if key ∈ cache.map then cache.order
        else cache.order.drop (cache.len + 1 - cache.capacity) ++ [key]
      | .get _ => cache.order := by
  cases call with
  | get key => rfl
  | put key plan =>
    by_cases hkey : key ∈ cache.map
    · simp only [exec, put_of_mem hkey, if_pos hkey]
    · simp only [exec, put_order h hkey, if_neg hkey]

/-- The keys present are the last ones that came in, in that order. -/
theorem order_suffix_inserted (capacity : ℕ) (calls : List CacheCall) :
    (after capacity calls).order <:+ inserted capacity calls := by
  induction calls using List.reverseRecOn with
  | nil => exact List.suffix_rfl
  | append_singleton calls call ih =>
    have hinserted : inserted capacity (calls ++ [call]) = inserted capacity calls ++
        (match call with
          | .put key _ => if key ∈ (after capacity calls).map then none else some key
          | .get _ => none : Option String).toList := by
      rw [inserted, history, Machine.trace_concat, List.filterMap_append]
      rfl
    rw [after_concat, exec_order (synced_after capacity calls), hinserted]
    cases call with
    | get key => simpa using ih
    | put key plan =>
      by_cases hkey : key ∈ (after capacity calls).map
      · simpa [hkey] using ih
      · simp only [hkey, if_false, Option.toList_some]
        obtain ⟨gone, hgone⟩ := (List.drop_suffix _ _).trans ih
        exact ⟨gone, by rw [← List.append_assoc, hgone]⟩

/-- **The bound.** With room for one plan the number of plans stays within the capacity. -/
theorem len_exec_le (h : Synced cache.map cache.order) (hlen : cache.len ≤ cache.capacity)
    (hroom : cache.capacity ≠ 0 ∨ ∀ key plan, call ≠ .put key plan) :
    (exec cache call).2.len ≤ cache.capacity := by
  have hbefore : cache.len = cache.order.length := h.length_eq.symm
  have hafter : (exec cache call).2.len = (exec cache call).2.order.length :=
    (synced_exec h call).length_eq.symm
  rw [hafter, exec_order h]
  cases call with
  | get key => exact hbefore ▸ hlen
  | put key plan =>
    have hpos : cache.capacity ≠ 0 := hroom.resolve_right fun hnone => hnone key plan rfl
    by_cases hkey : key ∈ cache.map
    · simpa [hkey, ← hbefore] using hlen
    · simp only [hkey, if_false, List.length_append, List.length_drop, List.length_singleton]
      omega

theorem len_after_le (hroom : capacity ≠ 0 ∨ ∀ key plan, .put key plan ∉ calls) :
    (after capacity calls).len ≤ capacity := by
  have hinv : Synced (after capacity calls).map (after capacity calls).order ∧
      (after capacity calls).capacity = capacity ∧ (after capacity calls).len ≤ capacity := by
    refine Machine.run_invariant_of_mem (I := fun cache : PlanCache =>
      Synced cache.map cache.order ∧ cache.capacity = capacity ∧ cache.len ≤ capacity)
      ⟨List.Perm.refl [], rfl, Nat.zero_le _⟩ fun cache call hcall h => ?_
    obtain ⟨hsynced, hcap, hlen⟩ := h
    refine ⟨synced_exec hsynced call, (exec_capacity cache call).trans hcap, ?_⟩
    rw [← hcap] at hlen hroom ⊢
    refine len_exec_le hsynced hlen (hroom.imp_right fun hnone key plan heq => ?_)
    exact hnone key plan (heq ▸ hcall)
  exact hinv.2.2

/-- A plan just put is there, whatever the capacity. -/
theorem len_after_put_pos (capacity : ℕ) (calls : List CacheCall) (key : String)
    (plan : ExecutionPlan) : 0 < (after capacity (calls ++ [.put key plan])).len := by
  have hsynced := synced_after capacity (calls ++ [.put key plan])
  have hget : (after capacity (calls ++ [.put key plan])).get key = some plan := by
    rw [after_concat]
    exact get_put_self _ key plan
  have hmem : key ∈ (after capacity (calls ++ [.put key plan])).order :=
    hsynced.mem_iff.mpr (AList.lookup_isSome.mp (Option.isSome_of_eq_some hget))
  rw [len, ← hsynced.length_eq]
  exact List.length_pos_of_mem hmem

end PlanCache

/-- **The cache.** In every run, for every capacity, the cache is a bounded first-in
first-out map exactly when the capacity is not zero or nothing is put. -/
theorem PlanCache.boundedFifo_iff (capacity : ℕ) (calls : List CacheCall) :
    PlanCache.BoundedFifo capacity calls ↔
      capacity ≠ 0 ∨ ∀ key plan, CacheCall.put key plan ∉ calls := by
  refine ⟨fun h => ?_, fun hroom => ?_⟩
  · by_contra hnone
    simp only [not_or, not_not, not_forall] at hnone
    obtain ⟨rfl, key, plan, hput⟩ := hnone
    obtain ⟨pre, post, rfl⟩ := List.append_of_mem hput
    have hbound := h.bounded (pre ++ [.put key plan]) post (by simp)
    exact absurd (len_after_put_pos 0 pre key plan) (Nat.not_lt.mpr hbound)
  · have hsynced := synced_after capacity
    have hstep : ∀ st ∈ history capacity calls, ∃ pre, st = Machine.stepAt exec (after capacity pre)
        st.call := by
      intro st hst
      obtain ⟨pre, call, post, -, rfl⟩ := Machine.mem_trace_iff.mp hst
      exact ⟨pre, rfl⟩
    refine ⟨fun pre post _ => ⟨(hsynced pre).nodup, fun key => (hsynced pre).mem_iff⟩, ?_,
      fun pre post _ => order_suffix_inserted capacity pre, ?_, ?_, ?_⟩
    · rintro pre post rfl
      exact len_after_le (hroom.imp_right fun hnone key plan hmem =>
        hnone key plan (List.mem_append_left _ hmem))
    · intro pre key post _ plan
      rw [← get_after_iff]
      simp [exec]
    · intro st hst key plan hcall hkey
      obtain ⟨pre, hst⟩ := hstep st hst
      rw [hst, hcall] at hkey ⊢
      have horder := exec_order (hsynced pre) (.put key plan)
      rw [after_capacity] at horder
      exact horder.trans (if_neg hkey)
    · intro st hst key plan hcall hkey
      obtain ⟨pre, hst⟩ := hstep st hst
      rw [hst, hcall] at hkey ⊢
      exact (exec_order (hsynced pre) (.put key plan)).trans (if_pos hkey)

/-- With capacity zero the first plan is one too many. -/
theorem PlanCache.capacity_zero_not_bounded :
    ¬ ∀ (capacity : ℕ) (calls : List CacheCall), PlanCache.BoundedFifo capacity calls := by
  intro h
  have hbound := (h 0 [.put "a" ⟨⟨"int-1"⟩, []⟩]).bounded [.put "a" ⟨⟨"int-1"⟩, []⟩] [] rfl
  exact absurd hbound (by decide)

end Aaf
