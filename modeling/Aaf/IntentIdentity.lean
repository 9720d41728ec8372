import Aaf.Approval
import Aaf.IntentHistory
import Aaf.TraceRecord

/-!
# The identity of a compiled intent

Approval requests and traces are kept under the ids of an intent, so what keeps
two requests apart is that their intents have different ids. The ids are minted on
a cache miss only: two compiled calls get intents of their own exactly when their
texts have different semantic hashes (`newIntent_iff`).
-/

namespace Aaf

variable {mint : Mint} {c : IntentCompiler} {args : CompileArgs} {env env' : IntentEnvelope}
  {key key' : String}

/-! ## The cache keeps what it has -/

/-- A call finds its envelope in the cache and changes nothing there, or mints
one and puts it there, or compiles nothing. -/
theorem compile_cases (mint : Mint) (c : IntentCompiler) (args : CompileArgs) :
    (∃ env, c.cache.get mint args.rawInput = some env ∧
      c.compile mint args = (.ok (.compiled env), c)) ∨
    (c.cache.get mint args.rawInput = none ∧
      ∃ env, env.intentId = mint.intentId c.minted ∧ env.traceId = mint.traceId c.minted ∧
        c.compile mint args = (.ok (.compiled env),
          { c with
            minted := c.minted + 1
            cache := c.cache.put mint args.rawInput env })) ∨
    ((∀ env, (c.compile mint args).1 ≠ .ok (.compiled env)) ∧
      (c.compile mint args).2.cache = c.cache) := by
  rcases hget : c.cache.get mint args.rawInput with _ | env
  · by_cases ha : Accepts c.classifier args
    · obtain ⟨t, ht⟩ := Option.isSome_iff_exists.mp ha.1
      exact Or.inr (Or.inl ⟨rfl, _, rfl, rfl, compile_miss_accepts hget ht ha⟩)
    · exact Or.inr (Or.inr (compile_miss_rejects hget ha))
  · exact Or.inl ⟨env, rfl, compile_hit hget⟩

/-- The stream position never goes back. -/
theorem minted_le_compile (mint : Mint) (c : IntentCompiler) (args : CompileArgs) :
    c.minted ≤ (c.compile mint args).2.minted := by
  rw [IntentCompiler.compile]
  split
  · exact le_refl _
  · split
    · exact le_refl _
    · dsimp only
      split
      · exact Nat.le_succ _
      · split
        · exact Nat.le_succ _
        · exact Nat.le_succ _

/-- What a call compiled is in the cache after it. -/
theorem lookup_compiled (h : (c.compile mint args).1 = .ok (.compiled env)) :
    (c.compile mint args).2.cache.lookup (semanticHash mint args.rawInput) = some env := by
  rcases compile_cases mint c args with ⟨env', hget, heq⟩ | ⟨-, env', -, -, heq⟩ | ⟨hnone, -⟩
  · rw [heq] at h ⊢
    obtain rfl : env' = env := by simpa using h
    exact hget
  · rw [heq] at h ⊢
    obtain rfl : env' = env := by simpa using h
    exact AList.lookup_insert _
  · exact absurd h (hnone env)

/-- Entries are never overwritten. -/
theorem lookup_compile (mint : Mint) (args : CompileArgs) (h : c.cache.lookup key = some env) :
    (c.compile mint args).2.cache.lookup key = some env := by
  rcases compile_cases mint c args with ⟨env', hget, heq⟩ | ⟨hmiss, env', -, -, heq⟩ | ⟨-, hcache⟩
  · rw [heq]
    exact h
  · rw [heq]
    have hne : key ≠ semanticHash mint args.rawInput := by
      rintro rfl
      rw [IntentCache.get, h] at hmiss
      cases hmiss
    exact (AList.lookup_insert_ne hne).trans h
  · rw [hcache]
    exact h

theorem lookup_after (mint : Mint) (history : List CompileArgs)
    (h : c.cache.lookup key = some env) :
    (c.after mint history).cache.lookup key = some env := by
  induction history using List.reverseRecOn with
  | nil => exact h
  | append_singleton history args ih =>
    rw [after_concat]
    exact lookup_compile mint args ih

/-! ## Different entries have different ids -/

/-- The cached envelopes were minted, each from a position of its own. -/
structure Minted (mint : Mint) (c : IntentCompiler) : Prop where
  position : ∀ key env, c.cache.lookup key = some env →
    ∃ k < c.minted, env.intentId = mint.intentId k ∧ env.traceId = mint.traceId k
  distinct : ∀ key key' env env', c.cache.lookup key = some env →
    c.cache.lookup key' = some env' → key ≠ key' →
      env.intentId ≠ env'.intentId ∧ env.traceId ≠ env'.traceId

/-- An envelope minted now differs from every cached one. -/
theorem Minted.ne_new (hintent : Function.Injective mint.intentId)
    (htrace : Function.Injective mint.traceId) (h : Minted mint c)
    (hlookup : c.cache.lookup key = some env) (hid : env'.intentId = mint.intentId c.minted)
    (htid : env'.traceId = mint.traceId c.minted) :
    env.intentId ≠ env'.intentId ∧ env.traceId ≠ env'.traceId := by
  obtain ⟨k, hk, hkid, hktid⟩ := h.position key env hlookup
  refine ⟨fun heq => ?_, fun heq => ?_⟩
  · rw [hkid, hid] at heq
    have := hintent heq
    omega
  · rw [hktid, htid] at heq
    have := htrace heq
    omega

/-- One call keeps the ids apart. -/
theorem Minted.step (hintent : Function.Injective mint.intentId)
    (htrace : Function.Injective mint.traceId) (h : Minted mint c) (args : CompileArgs) :
    Minted mint (c.compile mint args).2 := by
  have hle := minted_le_compile mint c args
  rcases compile_cases mint c args with ⟨env, -, heq⟩ | ⟨-, env, hid, htid, heq⟩ | ⟨-, hcache⟩
  · rw [heq]
    exact h
  · -- the new envelope takes the position the counter then leaves behind
    have hold : ∀ {key : String} {env' : IntentEnvelope},
        (c.compile mint args).2.cache.lookup key = some env' →
        (key = semanticHash mint args.rawInput ∧ env' = env) ∨
          (key ≠ semanticHash mint args.rawInput ∧ c.cache.lookup key = some env') := by
      intro key env' hlookup
      rw [heq] at hlookup
      by_cases hkey : key = semanticHash mint args.rawInput
      · subst hkey
        refine Or.inl ⟨rfl, ?_⟩
        have hnew := hlookup.symm.trans (AList.lookup_insert c.cache)
        exact Option.some.inj hnew
      · exact Or.inr ⟨hkey, (AList.lookup_insert_ne hkey).symm.trans hlookup⟩
    refine ⟨fun key env' hlookup => ?_, fun key key' env₁ env₂ h₁ h₂ hne => ?_⟩
    · rcases hold hlookup with ⟨-, rfl⟩ | ⟨-, hlookup'⟩
      · rw [heq]
        exact ⟨c.minted, Nat.lt_succ_self _, hid, htid⟩
      · obtain ⟨k, hk, hids⟩ := h.position key env' hlookup'
        exact ⟨k, lt_of_lt_of_le hk hle, hids⟩
    · rcases hold h₁ with ⟨rfl, rfl⟩ | ⟨-, h₁'⟩
      · rcases hold h₂ with ⟨rfl, -⟩ | ⟨-, h₂'⟩
        · exact absurd rfl hne
        · obtain ⟨hne₁, hne₂⟩ := h.ne_new hintent htrace h₂' hid htid
          exact ⟨hne₁.symm, hne₂.symm⟩
      · rcases hold h₂ with ⟨-, rfl⟩ | ⟨-, h₂'⟩
        · exact h.ne_new hintent htrace h₁' hid htid
        · exact h.distinct key key' env₁ env₂ h₁' h₂' hne
  · refine ⟨fun key env hlookup => ?_, fun key key' env env' h₁ h₂ hne => ?_⟩
    · rw [hcache] at hlookup
      obtain ⟨k, hk, hids⟩ := h.position key env hlookup
      exact ⟨k, lt_of_lt_of_le hk hle, hids⟩
    · rw [hcache] at h₁ h₂
      exact h.distinct key key' env env' h₁ h₂ hne

theorem Minted.after (hintent : Function.Injective mint.intentId)
    (htrace : Function.Injective mint.traceId) (h : Minted mint c) (history : List CompileArgs) :
    Minted mint (c.after mint history) := by
  induction history using List.reverseRecOn with
  | nil => exact h
  | append_singleton history args ih =>
    rw [after_concat]
    exact ih.step hintent htrace args

theorem minted_fresh (mint : Mint) (classifier : String → Option IntentType)
    (extractor : String → BTreeMap String Json) (n : ℕ) :
    Minted mint (IntentCompiler.fresh classifier extractor n) := by
  refine ⟨fun key env h => ?_, fun key key' env env' h => ?_⟩
  · cases h
  · cases h

/-! ## Two compiled calls -/

/-- What is done in the name of `env` does not reach `env'`: an approval or a
rejection for it leaves the answer of every gate to `env'` as it was, and a run of
it leaves the trace of `env'` as it was. -/
structure Apart (env env' : IntentEnvelope) : Prop where
  approval : ∀ (gate : ApprovalNode) (wf : ApprovalWorkflow) (approved : Bool),
    (gate.run env' (wf.resolve (requestIdOf env.intentId) approved).2).1 = (gate.run env' wf).1
  trace : ∀ (σ : Type) [TraceStore σ] (exec : GraphExecutor (Recorder σ)) (world : World)
    (g : Graph), (exec.run world g env).state.recorder.traces.lookup env'.traceId =
      exec.recorder.traces.lookup env'.traceId

/-- Two envelopes are two intents. -/
structure NewIntent (env env' : IntentEnvelope) : Prop where
  intentId : env.intentId ≠ env'.intentId
  traceId : env.traceId ≠ env'.traceId
  apart : Apart env env'
  apart' : Apart env' env

/-- Different ids keep intents apart. -/
theorem apart_of_ne (hid : env.intentId ≠ env'.intentId) (htid : env.traceId ≠ env'.traceId) :
    Apart env env' := by
  refine ⟨fun gate wf approved => ?_, fun σ _ exec world g => ?_⟩
  · apply gate.run_congr
    apply ApprovalWorkflow.get_resolve_ne
    intro heq
    exact hid (requestIdOf_injective heq).symm
  · exact GraphExecutor.run_cases.lookup_ne htid.symm

/-- **Every compiled intent is a new one, exactly when.** In every history, two
calls that compile get two intents if and only if their texts have different
semantic hashes. -/
theorem newIntent_iff (mint : Mint) (hintent : Function.Injective mint.intentId)
    (htrace : Function.Injective mint.traceId) (classifier : String → Option IntentType)
    (extractor : String → BTreeMap String Json) (n : ℕ) (before between : List CompileArgs)
    (args args' : CompileArgs) (env env' : IntentEnvelope)
    (hfirst :
      (((IntentCompiler.fresh classifier extractor n).after mint before).compile mint args).1 =
        .ok (.compiled env))
    (hsecond :
      (((IntentCompiler.fresh classifier extractor n).after mint
        (before ++ args :: between)).compile mint args').1 = .ok (.compiled env')) :
    NewIntent env env' ↔ semanticHash mint args.rawInput ≠ semanticHash mint args'.rawInput := by
  have hafter : (IntentCompiler.fresh classifier extractor n).after mint
      (before ++ args :: between) =
      ((((IntentCompiler.fresh classifier extractor n).after mint before).compile mint
        args).2).after mint between := by
    simp [IntentCompiler.after]
  -- both envelopes are in the cache the second call leaves
  have hkept := lookup_compile mint args' (lookup_after mint between (lookup_compiled hfirst))
  rw [← hafter] at hkept
  have hlast := lookup_compiled hsecond
  have hinv := ((minted_fresh mint classifier extractor n).after hintent htrace
    (before ++ args :: between)).step hintent htrace args'
  refine ⟨fun h heq => ?_, fun hne => ?_⟩
  · rw [heq, hlast] at hkept
    cases hkept
    exact h.intentId rfl
  · obtain ⟨hid, htid⟩ := hinv.distinct _ _ env env' hkept hlast hne
    exact ⟨hid, htid, apart_of_ne hid htid, apart_of_ne hid.symm htid.symm⟩

/-- A mint whose ids are tallies; the digests are SHA-256 of `show stock` and of
`show sales`. -/
def tallyMint : Mint where
  sha256Hex text :=
    if text = "show stock" then "aca4cf5a16549fb4ad635ef9aeab252a60db3592c9b6b69e0a1a02ad8dc2d62e"
    else "9cc6fcdc7100cd4732b471ba1663d64f7b326f0e058eaff52fd757b5026d5167"
  intentId n := ⟨String.ofList (List.replicate n 'i')⟩
  traceId n := ⟨String.ofList (List.replicate n 't')⟩
  now n := n

theorem tallyMint_intentId_injective : Function.Injective tallyMint.intentId := by
  intro k k' h
  have hraw := congrArg (fun id : IntentId => id.raw.length) h
  simpa [tallyMint] using hraw

theorem tallyMint_traceId_injective : Function.Injective tallyMint.traceId := by
  intro k k' h
  have hraw := congrArg (fun id : TraceId => id.raw.length) h
  simpa [tallyMint] using hraw

/-- Every text is a question about figures. -/
def analyst : IntentCompiler := .fresh (fun _ => some .analyticalIntent) (fun _ => ∅) 0

/-- The guest asks for something else. -/
def bobStockCall : CompileArgs := { bobCall with rawInput := "show stock" }

theorem newIntent_iff_bobStockCall :
    NewIntent (draft tallyMint 0 aliceCall .analyticalIntent ∅)
        (draft tallyMint 1 bobStockCall .analyticalIntent ∅) ↔
      semanticHash tallyMint aliceCall.rawInput ≠ semanticHash tallyMint bobStockCall.rawInput := by
  refine newIntent_iff tallyMint tallyMint_intentId_injective tallyMint_traceId_injective
    (fun _ => some .analyticalIntent) (fun _ => ∅) 0 [] [] aliceCall bobStockCall _ _ ?_ ?_
  · exact congrArg Prod.fst (compile_miss_accepts (c := analyst) rfl rfl (by decide +kernel))
  · have hmiss : (analyst.after tallyMint [aliceCall]).cache.get tallyMint
        bobStockCall.rawInput = none := Option.isNone_iff_eq_none.mp (by decide +kernel)
    have hone : (analyst.after tallyMint [aliceCall]).minted = 1 := by decide +kernel
    have hcls : CacheOf tallyMint (fun _ => some .analyticalIntent) (fun _ => ∅) [aliceCall]
        (analyst.after tallyMint [aliceCall]) := cache_after _ _ _ _ _
    have hcompile := congrArg Prod.fst
      (compile_miss_accepts hmiss (congrFun hcls.classifier_eq _) (by
        rw [hcls.classifier_eq]
        decide +kernel))
    rw [hone, hcls.extractor_eq] at hcompile
    exact hcompile

/-- Two people type the same text: both get the first one's intent. -/
theorem repeated_text_not_newIntent :
    ¬ ∀ (mint : Mint), Function.Injective mint.intentId → Function.Injective mint.traceId →
      ∀ (classifier : String → Option IntentType) (extractor : String → BTreeMap String Json)
        (n : ℕ) (before between : List CompileArgs) (args args' : CompileArgs)
        (env env' : IntentEnvelope),
        (((IntentCompiler.fresh classifier extractor n).after mint before).compile mint args).1 =
          .ok (.compiled env) →
        (((IntentCompiler.fresh classifier extractor n).after mint
          (before ++ args :: between)).compile mint args').1 = .ok (.compiled env') →
        NewIntent env env' := by
  intro h
  have hfirst : (analyst.compile tallyMint aliceCall).1 = _ :=
    congrArg Prod.fst (compile_miss_accepts rfl rfl (by decide +kernel))
  have hstored := lookup_compiled hfirst
  have hsecond : ((analyst.after tallyMint [aliceCall]).compile tallyMint bobCall).1 = _ :=
    congrArg Prod.fst (compile_hit hstored)
  have hnew := h tallyMint tallyMint_intentId_injective tallyMint_traceId_injective
    (fun _ => some .analyticalIntent) (fun _ => ∅) 0 [] [] aliceCall bobCall _ _ hfirst hsecond
  exact hnew.intentId rfl

end Aaf
