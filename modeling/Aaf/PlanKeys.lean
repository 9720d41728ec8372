import Aaf.PlannerRuns

/-!
# Keys of plans

`key_for` (`aaf-planner`) joins the intent type, the domain and the normalized goal with `|`
and hashes the text. Nothing keeps a `|` out of the three. So the key says which pieces lie
between the separators (`Question.key_eq_iff`), and not which of the separators end the
intent type and the domain.

`planKeys_faithful_iff`: two questions have one key only if they are the same exactly when
the pieces, where they agree, are dealt out alike; and among questions for which this holds
a planner never serves a plan for another question than the one it was built for.
-/

namespace Aaf

/-- The arguments of `key_for`. -/
structure Question where
  goal : String
  domain : String
  intentType : String

/-- What an intent asks for. -/
def IntentEnvelope.question (intent : IntentEnvelope) : Question :=
  ⟨intent.goal, intent.domain, intent.intentType.debug⟩

/-- The pieces of a text between the separators. -/
def pieces (text : String) : List (List Char) := text.toList.splitOn '|'

theorem pieces_inj {text text' : String} : pieces text = pieces text' ↔ text = text' := by
  refine ⟨fun h => ?_, congrArg pieces⟩
  have hjoin : ∀ text : String, ['|'].intercalate (pieces text) = text.toList := fun _ =>
    List.intercalate_splitOn '|'
  rw [← String.toList_inj, ← hjoin text, ← hjoin text', h]

/-- A separator adds no piece of its own. -/
@[simp]
theorem pieces_join (text text' : String) :
    pieces (text ++ "|" ++ text') = pieces text ++ pieces text' := by
  have htoList : (text ++ "|" ++ text').toList = text.toList ++ '|' :: text'.toList := by simp
  rw [pieces, htoList, List.splitOn_append_cons_self]
  rfl

namespace Question

variable (mint : PlannerMint)

/-- The key of its plan. -/
def key (q : Question) : String := keyFor mint q.goal q.domain q.intentType

/-- The goal as it is joined. -/
def normalized (q : Question) : String := mint.toLowercase (Text.trim q.goal)

/-- One question, up to the case of the goal and the space around it. -/
structure Same (q q' : Question) : Prop where
  intentType : q.intentType = q'.intentType
  domain : q.domain = q'.domain
  goal : q.normalized mint = q'.normalized mint

/-- The pieces of the three texts, one text after the other. -/
def cut (q : Question) : List (List Char) :=
  pieces q.intentType ++ pieces q.domain ++ pieces (q.normalized mint)

/-- Where the pieces of two questions agree, the intent types have equally many of them, and
so have the domains. -/
def DealtAlike (q q' : Question) : Prop :=
  q.cut mint = q'.cut mint →
    (pieces q.intentType).length = (pieces q'.intentType).length ∧
      (pieces q.domain).length = (pieces q'.domain).length

variable {mint} {q q' : Question}

/-- **What a key says.** -/
theorem key_eq_iff (hsha : Function.Injective mint.sha256Hex) :
    q.key mint = q'.key mint ↔ q.cut mint = q'.cut mint := by
  have hcut : ∀ q : Question, q.cut mint =
      pieces (q.intentType ++ "|" ++ q.domain ++ "|" ++ q.normalized mint) := fun q => by
    rw [pieces_join, pieces_join, cut]
  rw [hcut, hcut, pieces_inj]
  exact hsha.eq_iff

theorem Same.cut_eq (h : Same mint q q') : q.cut mint = q'.cut mint := by
  rw [cut, cut, h.intentType, h.domain, h.goal]

theorem DealtAlike.same (h : DealtAlike mint q q') (hcut : q.cut mint = q'.cut mint) :
    Same mint q q' := by
  obtain ⟨htype, hdomain⟩ := h hcut
  obtain ⟨hfront, hgoal⟩ := List.append_inj hcut (by simp [htype, hdomain])
  obtain ⟨htype', hdomain'⟩ := List.append_inj hfront htype
  exact ⟨pieces_inj.mp htype', pieces_inj.mp hdomain', pieces_inj.mp hgoal⟩

/-- A key tells two questions apart exactly when their pieces do, or are dealt out alike. -/
theorem key_faithful_iff (hsha : Function.Injective mint.sha256Hex) :
    (q.key mint = q'.key mint ↔ Same mint q q') ↔ DealtAlike mint q q' := by
  rw [key_eq_iff hsha]
  refine ⟨fun h hcut => ?_, fun h => ⟨h.same, Same.cut_eq⟩⟩
  obtain ⟨htype, hdomain, -⟩ := h.mp hcut
  rw [htype, hdomain]
  exact ⟨rfl, rfl⟩

end Question

/-! ## Whose plan is served -/

namespace PlanningSystem

variable {mint : PlannerMint} {planner : RegistryPlanner} {r : Registry}

/-- The step builds the plan, for the question. -/
structure Builds (mint : PlannerMint) (plan : ExecutionPlan) (intent : IntentEnvelope)
    (st : Machine.Step PlanningSystem PlanningCall PlanningReply) : Prop where
  call : ∃ order, st.call = .plan order intent
  missed : st.before.planning.cache.get (intent.planKey mint) = none
  reply : st.reply = .planned (.ok plan)

/-- A plan that is returned was built, by this call or an earlier one, for the question it is
returned for. -/
def ServesOwn (mint : PlannerMint) (planner : RegistryPlanner) (r : Registry)
    (calls : List PlanningCall) : Prop :=
  ∀ pre st post, history mint planner r calls = pre ++ st :: post →
    ∀ order intent plan, st.call = .plan order intent → st.reply = .planned (.ok plan) →
      ∃ st' ∈ pre ++ [st], ∃ intent', Builds mint plan intent' st' ∧
        Question.Same mint intent'.question intent.question

/-- The plans in the cache were built for their keys. -/
theorem cache_built (mint : PlannerMint) (planner : RegistryPlanner) (r : Registry)
    (calls : List PlanningCall) :
    (after mint planner r calls).planning.cache.All fun key plan =>
      ∃ st ∈ history mint planner r calls, ∃ intent,
        Builds mint plan intent st ∧ intent.planKey mint = key := by
  induction calls using List.reverseRecOn with
  | nil => exact PlanCache.all_new _
  | append_singleton calls call ih =>
    rw [after, Machine.run_concat, history, Machine.trace_concat]
    have hold : (after mint planner r calls).planning.cache.All fun key plan =>
        ∃ st ∈ history mint planner r calls ++
          [Machine.stepAt (exec mint planner) (after mint planner r calls) call],
          ∃ intent, Builds mint plan intent st ∧ intent.planKey mint = key := by
      intro key plan hget
      obtain ⟨st, hst, hbuilds⟩ := ih key plan hget
      exact ⟨st, List.mem_append_left _ hst, hbuilds⟩
    cases call with
    | register cap => exact hold
    | deregister id => exact hold
    | plan order intent =>
      refine (plan_all_iff hold).mpr fun hmiss haccepts => ?_
      refine ⟨_, List.mem_append_right _ List.mem_cons_self, intent, ⟨⟨order, rfl⟩, hmiss, ?_⟩, rfl⟩
      exact congrArg PlanningReply.planned (plan_eq_ok_iff.mpr (Or.inr ⟨hmiss, haccepts, rfl⟩))

/-- Where the questions of a run are dealt out alike, every plan is served for its own. -/
theorem servesOwn_of_dealtAlike (hsha : Function.Injective mint.sha256Hex)
    {calls : List PlanningCall}
    (halike : ∀ order intent order' intent', .plan order intent ∈ calls →
      .plan order' intent' ∈ calls → Question.DealtAlike mint intent.question intent'.question) :
    ServesOwn mint planner r calls := by
  intro pre st post hsplit order intent plan hcall hreply
  obtain ⟨before, rest, hcalls, rfl, hst, -⟩ := Machine.trace_eq_append_cons hsplit
  rw [hcall] at hst hcalls
  subst hst
  rcases plan_eq_ok_iff.mp (PlanningReply.planned.inj hreply) with hget | ⟨hmiss, -, -⟩
  · obtain ⟨st, hst, intent', hbuilds, hkey⟩ := cache_built mint planner r before _ _ hget
    refine ⟨st, List.mem_append_left _ hst, intent', hbuilds, ?_⟩
    obtain ⟨order', hcall'⟩ := hbuilds.call
    have hbefore : (history mint planner r before).map Machine.Step.call = before :=
      Machine.trace_map_call _ _
    have hmem : st.call ∈ before := hbefore ▸ List.mem_map_of_mem hst
    have hdealt := halike order' intent' order intent
      (by rw [hcalls, ← hcall']; exact List.mem_append_left _ hmem)
      (by rw [hcalls]; exact List.mem_append_right _ List.mem_cons_self)
    exact ((Question.key_faithful_iff hsha).mpr hdealt).mp hkey
  · exact ⟨_, List.mem_append_right _ List.mem_cons_self, intent, ⟨⟨order, rfl⟩, hmiss, hreply⟩,
      ⟨rfl, rfl, rfl⟩⟩

end PlanningSystem

/-- **Faithful keys.** With an injective hash, the keys of two questions are equal exactly for
the same question if and only if the pieces of the two, where they agree, are dealt out
alike; and a planner asked only such questions serves every plan for the question it was
built for. -/
theorem planKeys_faithful_iff (mint : PlannerMint)
    (hsha : Function.Injective mint.sha256Hex) :
    (∀ q q' : Question,
      (q.key mint = q'.key mint ↔ Question.Same mint q q') ↔ Question.DealtAlike mint q q') ∧
    ∀ (planner : RegistryPlanner) (r : Registry) (calls : List PlanningCall),
      (∀ order intent order' intent', .plan order intent ∈ calls →
        .plan order' intent' ∈ calls →
          Question.DealtAlike mint intent.question intent'.question) →
        PlanningSystem.ServesOwn mint planner r calls :=
  ⟨fun _ _ => Question.key_faithful_iff hsha,
    fun _ _ _ halike => PlanningSystem.servesOwn_of_dealtAlike hsha halike⟩

/-- ASCII lower-casing, node ids that are tallies, the SHA-256 digests of two texts, and no
two digests alike. -/
def injectiveMint : PlannerMint where
  sha256Hex text :=
    if text = "AnalyticalIntent|warehouse|check stock" then
      "e4ee014b2d3141c0c6c1f24ca4fe5b850dc6b099d570d60b8c516494a7271b58"
    else if text = "AnalyticalIntent|warehouse|night|check stock" then
      "3ed7cf25949ec94f631339c9134c80d74c27f65fcae781b0735bf0a5430545d7"
    else "-" ++ text
  toLowercase text := String.ofList (text.toList.map Text.toAsciiLowercase)
  nodeId n := ⟨String.ofList (List.replicate n 'n')⟩

theorem injectiveMint_injective : Function.Injective injectiveMint.sha256Hex := by
  have hdash : ∀ (text digest : String), digest.toList.head? ≠ some '-' → "-" ++ text ≠ digest := by
    intro text digest hhead heq
    rw [← heq] at hhead
    simp at hhead
  intro text text' h
  simp only [injectiveMint] at h
  split_ifs at h with h₁ h₂ h₂ h₃ h₃ h₂ h₃ h₃
  · rw [h₁, h₂]
  · exact absurd h (by decide)
  · exact absurd h.symm (hdash _ _ (by decide))
  · exact absurd h (by decide)
  · rw [‹text = _›, ‹text' = _›]
  · exact absurd h.symm (hdash _ _ (by decide))
  · exact absurd h (hdash _ _ (by decide))
  · exact absurd h (hdash _ _ (by decide))
  · exact (String.append_right_inj "-").mp h

/-- A registry with the stock capability. -/
def stocked : Registry := (Registry.inMemory.register stockCap).2

/-- The question about the stock, for another domain. -/
def nightIntent : IntentEnvelope := { stockIntent with domain := "warehouse|night" }

/-- Its pieces, dealt out another way. -/
def nightGoalIntent : IntentEnvelope := { stockIntent with goal := "night|check stock" }

/-- The two domains are told apart, and the second question gets the plan of the first. -/
theorem planKeys_stockIntent :
    stockIntent.question.key injectiveMint ≠ nightIntent.question.key injectiveMint ∧
      PlanningSystem.ServesOwn injectiveMint defaultPlanner stocked
        [.plan asStored stockIntent, .plan asStored stockIntent] := by
  obtain ⟨hkeys, hserves⟩ := planKeys_faithful_iff injectiveMint injectiveMint_injective
  constructor
  · intro heq
    have hsame := ((hkeys _ _).mpr fun hcut => absurd hcut (by decide)).mp heq
    exact absurd hsame.domain (by decide)
  · refine hserves _ _ _ fun order intent order' intent' hcall hcall' _ => ?_
    simp only [List.mem_cons, List.not_mem_nil, or_false, or_self,
      PlanningCall.plan.injEq] at hcall hcall'
    rw [hcall.2, hcall'.2]
    exact ⟨rfl, rfl⟩

/-- The two questions have one key, and the second is served the plan of the first. -/
theorem nightIntent_not_faithful :
    (¬ ∀ mint : PlannerMint, Function.Injective mint.sha256Hex → ∀ q q' : Question,
      (q.key mint = q'.key mint ↔ Question.Same mint q q')) ∧
    ¬ ∀ (mint : PlannerMint) (planner : RegistryPlanner) (r : Registry)
        (calls : List PlanningCall), Function.Injective mint.sha256Hex →
          PlanningSystem.ServesOwn mint planner r calls := by
  have hkey : nightIntent.planKey injectiveMint = nightGoalIntent.planKey injectiveMint := by
    decide +kernel
  constructor
  · intro h
    have hsame := (h injectiveMint injectiveMint_injective nightIntent.question
      nightGoalIntent.question).mp hkey
    exact absurd hsame.domain (by decide)
  · intro h
    have hcached : ((defaultPlanner.plan injectiveMint stocked asStored .new
        nightGoalIntent).2.cache.get (nightIntent.planKey injectiveMint)).isSome = true := by
      decide +kernel
    obtain ⟨plan, hget⟩ := Option.isSome_iff_exists.mp hcached
    obtain ⟨st, hst, intent, hbuilds, hsame⟩ := h injectiveMint defaultPlanner stocked
      [.plan asStored nightGoalIntent, .plan asStored nightIntent] injectiveMint_injective
      [_] _ [] rfl asStored nightIntent plan rfl
      (congrArg PlanningReply.planned (plan_eq_ok_iff.mpr (Or.inl hget)))
    obtain ⟨order, hcall⟩ := hbuilds.call
    rcases List.mem_cons.mp hst with rfl | hst
    · -- the first call builds its plan for the other question
      cases hcall
      exact absurd hsame.domain (by decide)
    · -- the second call builds none
      rw [List.mem_singleton.mp hst] at hcall hbuilds
      cases hcall
      exact absurd (hget.symm.trans hbuilds.missed) (by simp)

end Aaf
