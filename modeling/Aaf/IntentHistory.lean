import Aaf.Intent

/-!
# Compilation over a history of calls

A cache entry is written once, by the first call with its semantic hash that
passes classification, refinement and validation; every later call with that
hash is answered with the stored envelope, whoever makes it. `storedBy` names
that first call from the arguments alone, and `cache_after` ties the cache of
any reachable compiler to it.

The consequence for isolation between requesters is exact: a call is served
its own envelope precisely when the call that wrote the entry agrees with it in
everything an envelope is built from (`compile_isolated_iff`).
-/

namespace Aaf

variable {mint : Mint} {c : IntentCompiler} {args : CompileArgs}

/-! ## One call -/

/-- The arguments pass classification, refinement and validation. -/
def Accepts (classifier : String → Option IntentType) (args : CompileArgs) : Prop :=
  (classifier args.rawInput).isSome = true ∧ Text.isBlank args.rawInput = false ∧
    Text.isBlank args.domain = false ∧ args.budget.validate = .ok ()

instance (classifier : String → Option IntentType) : DecidablePred (Accepts classifier) :=
  fun _ => inferInstanceAs (Decidable (_ ∧ _ ∧ _ ∧ _))

/-- The compiler asks about the goal or the domain exactly when one of them is
blank; the cap of two questions never drops either. -/
theorem questionsFor_any (env : IntentEnvelope) :
    (questionsFor env).any (fun q => q.field == "goal" || q.field == "domain") =
      (Text.isBlank env.goal || Text.isBlank env.domain) := by
  rw [questionsFor]
  rcases Text.isBlank env.goal with _ | _ <;> rcases Text.isBlank env.domain with _ | _ <;>
    rcases env.intentType <;> simp <;> split <;> simp

/-- The refinement gate of `compile`, for the envelope it drafts. -/
theorem draft_asks (n : ℕ) (t : IntentType) (m : BTreeMap String Json) :
    (!(questionsFor (draft mint n args t m)).isEmpty &&
        (questionsFor (draft mint n args t m)).any
          (fun q => q.field == "goal" || q.field == "domain")) =
      (Text.isBlank args.rawInput || Text.isBlank args.domain) := by
  have hany := questionsFor_any (draft mint n args t m)
  have hgoal : Text.isBlank (draft mint n args t m).goal = Text.isBlank args.rawInput :=
    Text.isBlank_trim args.rawInput
  have hdomain : (draft mint n args t m).domain = args.domain := rfl
  rw [hgoal, hdomain] at hany
  rw [← hany]
  rcases questionsFor (draft mint n args t m) with _ | ⟨q, qs⟩ <;> simp

/-- Validation of a drafted envelope, once goal and domain are not blank,
comes down to the budget. -/
theorem draft_validate (n : ℕ) (t : IntentType) (m : BTreeMap String Json)
    (hgoal : Text.isBlank args.rawInput = false) (hdomain : Text.isBlank args.domain = false) :
    (draft mint n args t m).validate = args.budget.validate := by
  have hg : Text.isBlank (draft mint n args t m).goal = false := by
    rw [← hgoal]
    exact Text.isBlank_trim args.rawInput
  have hd : Text.isBlank (draft mint n args t m).domain = false := hdomain
  have hdepth : ¬ (draft mint n args t m).depth > maxDepth := by
    simp [draft, enrich]
  rw [IntentEnvelope.validate, hg, hd, if_neg hdepth]
  rfl

/-- A hit returns the stored envelope and changes nothing. -/
theorem compile_hit {env : IntentEnvelope} (h : c.cache.get mint args.rawInput = some env) :
    c.compile mint args = (.ok (.compiled env), c) := by
  simp only [IntentCompiler.compile, h]

/-- A miss on acceptable arguments drafts an envelope and stores it. -/
theorem compile_miss_accepts {t : IntentType} (h : c.cache.get mint args.rawInput = none)
    (ht : c.classifier args.rawInput = some t) (ha : Accepts c.classifier args) :
    c.compile mint args =
      (.ok (.compiled (draft mint c.minted args t (c.extractor args.rawInput))),
        { c with
          minted := c.minted + 1
          cache := c.cache.put mint args.rawInput
            (draft mint c.minted args t (c.extractor args.rawInput)) }) := by
  obtain ⟨-, hgoal, hdomain, hbudget⟩ := ha
  simp only [IntentCompiler.compile, h, ht, draft_asks, hgoal, hdomain,
    draft_validate _ _ _ hgoal hdomain, hbudget, Bool.or_self, Bool.false_eq_true, if_false]

/-- A miss on arguments that are not acceptable compiles nothing and leaves
the cache alone. -/
theorem compile_miss_rejects (h : c.cache.get mint args.rawInput = none)
    (ha : ¬ Accepts c.classifier args) :
    (∀ env, (c.compile mint args).1 ≠ .ok (.compiled env)) ∧
      (c.compile mint args).2.cache = c.cache := by
  rcases ht : c.classifier args.rawInput with _ | t
  · simp only [IntentCompiler.compile, h, ht]
    simp
  · rcases hgd : (Text.isBlank args.rawInput || Text.isBlank args.domain) with _ | _
    · obtain ⟨hgoal, hdomain⟩ := Bool.or_eq_false_iff.mp hgd
      rcases hb : args.budget.validate with e | _
      · simp only [IntentCompiler.compile, h, ht, draft_asks, hgd, Bool.false_eq_true, if_false,
          draft_validate _ _ _ hgoal hdomain, hb]
        simp
      · exact absurd ⟨by rw [ht]; rfl, hgoal, hdomain, hb⟩ ha
    · simp only [IntentCompiler.compile, h, ht, draft_asks, hgd, if_true]
      simp

/-- No call changes the plug-ins. -/
theorem compile_plugins (mint : Mint) (c : IntentCompiler) (args : CompileArgs) :
    (c.compile mint args).2.classifier = c.classifier ∧
      (c.compile mint args).2.extractor = c.extractor := by
  rw [IntentCompiler.compile]
  split
  · exact ⟨rfl, rfl⟩
  · split
    · exact ⟨rfl, rfl⟩
    · dsimp only
      split
      · exact ⟨rfl, rfl⟩
      · split <;> exact ⟨rfl, rfl⟩

/-! ## A history of calls -/

variable {classifier : String → Option IntentType} {extractor : String → BTreeMap String Json}

theorem after_concat (history : List CompileArgs) :
    c.after mint (history ++ [args]) = ((c.after mint history).compile mint args).2 := by
  simp [IntentCompiler.after]

/-- The call of `history` that wrote the cache entry under `key`: the first
acceptable one with that semantic hash. -/
def storedBy (mint : Mint) (classifier : String → Option IntentType)
    (history : List CompileArgs) (key : String) : Option CompileArgs :=
  history.find? fun a => decide (semanticHash mint a.rawInput = key ∧ Accepts classifier a)

/-- `env` is the envelope the compiler drafts for `w`, from some stream
position. -/
def DraftedFor (mint : Mint) (classifier : String → Option IntentType)
    (extractor : String → BTreeMap String Json) (w : CompileArgs) (env : IntentEnvelope) : Prop :=
  ∃ k t, classifier w.rawInput = some t ∧ env = draft mint k w t (extractor w.rawInput)

/-- What a history leaves in the cache: under each key the draft of the call
that wrote it, and nothing where no call did. -/
structure CacheOf (mint : Mint) (classifier : String → Option IntentType)
    (extractor : String → BTreeMap String Json) (history : List CompileArgs)
    (c : IntentCompiler) : Prop where
  classifier_eq : c.classifier = classifier
  extractor_eq : c.extractor = extractor
  empty : ∀ key, storedBy mint classifier history key = none → c.cache.lookup key = none
  entry : ∀ key w, storedBy mint classifier history key = some w →
    ∃ env, c.cache.lookup key = some env ∧ DraftedFor mint classifier extractor w env

theorem storedBy_concat (history : List CompileArgs) (key : String) :
    storedBy mint classifier (history ++ [args]) key =
      (storedBy mint classifier history key).or
        (if semanticHash mint args.rawInput = key ∧ Accepts classifier args then some args
          else none) := by
  simp only [storedBy, List.find?_append, List.find?_singleton, decide_eq_true_eq]

theorem CacheOf.get_eq_none_iff {history : List CompileArgs}
    (h : CacheOf mint classifier extractor history c) :
    c.cache.get mint args.rawInput = none ↔
      storedBy mint classifier history (semanticHash mint args.rawInput) = none := by
  rw [IntentCache.get]
  refine ⟨fun hget => ?_, h.empty _⟩
  rcases hstored : storedBy mint classifier history (semanticHash mint args.rawInput) with _ | w
  · rfl
  · obtain ⟨env, henv, -⟩ := h.entry _ w hstored
    rw [henv] at hget
    cases hget

/-- A call that leaves the cache alone has written nothing. -/
theorem CacheOf.kept {history : List CompileArgs} {c' : IntentCompiler}
    (h : CacheOf mint classifier extractor history c) (hcls : c'.classifier = classifier)
    (hext : c'.extractor = extractor) (hcache : c'.cache = c.cache)
    (hsame : ∀ key, storedBy mint classifier (history ++ [args]) key =
      storedBy mint classifier history key) :
    CacheOf mint classifier extractor (history ++ [args]) c' := by
  refine ⟨hcls, hext, fun key hkey => ?_, fun key w hkey => ?_⟩
  · rw [hcache]
    exact h.empty key (hsame key ▸ hkey)
  · rw [hcache]
    exact h.entry key w (hsame key ▸ hkey)

/-- A call that compiles something new writes its draft. -/
theorem CacheOf.written {history : List CompileArgs} {t : IntentType}
    (h : CacheOf mint classifier extractor history c)
    (hget : c.cache.get mint args.rawInput = none) (ht : c.classifier args.rawInput = some t)
    (ha : Accepts c.classifier args) :
    CacheOf mint classifier extractor (history ++ [args]) (c.compile mint args).2 := by
  obtain ⟨hcls, hext⟩ := compile_plugins mint c args
  have ha' : Accepts classifier args := h.classifier_eq ▸ ha
  have hstep := compile_miss_accepts hget ht ha
  refine ⟨hcls.trans h.classifier_eq, hext.trans h.extractor_eq, fun key hkey => ?_,
    fun key w hkey => ?_⟩
  · rw [storedBy_concat, Option.or_eq_none_iff] at hkey
    have hne : key ≠ semanticHash mint args.rawInput := by
      rintro rfl
      simp [ha'] at hkey
    rw [hstep]
    exact (AList.lookup_insert_ne hne).trans (h.empty key hkey.1)
  · rw [storedBy_concat] at hkey
    rw [hstep]
    by_cases hk : key = semanticHash mint args.rawInput
    · subst hk
      rw [h.get_eq_none_iff.mp hget, if_pos ⟨rfl, ha'⟩] at hkey
      obtain rfl : args = w := Option.some.inj hkey
      refine ⟨_, AList.lookup_insert _, c.minted, t, ?_, ?_⟩
      · rw [← h.classifier_eq]
        exact ht
      · rw [h.extractor_eq]
    · rw [if_neg fun hc => hk hc.1.symm, Option.or_none] at hkey
      obtain ⟨env, henv, hd⟩ := h.entry key w hkey
      exact ⟨env, (AList.lookup_insert_ne hk).trans henv, hd⟩

/-- One call keeps the description of the cache. -/
theorem CacheOf.step {history : List CompileArgs}
    (h : CacheOf mint classifier extractor history c) :
    CacheOf mint classifier extractor (history ++ [args]) (c.compile mint args).2 := by
  rcases hget : c.cache.get mint args.rawInput with _ | env
  · by_cases ha : Accepts c.classifier args
    · obtain ⟨t, ht⟩ := Option.isSome_iff_exists.mp ha.1
      exact h.written hget ht ha
    · -- the call compiles nothing
      obtain ⟨hcls, hext⟩ := compile_plugins mint c args
      refine h.kept (hcls.trans h.classifier_eq) (hext.trans h.extractor_eq)
        (compile_miss_rejects hget ha).2 fun key => ?_
      rw [h.classifier_eq] at ha
      rw [storedBy_concat, if_neg fun hc => ha hc.2, Option.or_none]
  · -- a hit: the entry was there already
    have hsome : (storedBy mint classifier history (semanticHash mint args.rawInput)).isSome := by
      rw [Option.isSome_iff_ne_none, ne_eq, ← h.get_eq_none_iff, hget]
      exact Option.some_ne_none env
    rw [compile_hit hget]
    refine h.kept h.classifier_eq h.extractor_eq rfl fun key => ?_
    rw [storedBy_concat]
    by_cases hk : semanticHash mint args.rawInput = key
    · subst hk
      exact Option.or_of_isSome hsome
    · rw [if_neg fun hc => hk hc.1, Option.or_none]

/-- **The cache of a history.** -/
theorem cache_after (mint : Mint) (classifier : String → Option IntentType)
    (extractor : String → BTreeMap String Json) (n : ℕ) (history : List CompileArgs) :
    CacheOf mint classifier extractor history
      ((IntentCompiler.fresh classifier extractor n).after mint history) := by
  induction history using List.reverseRecOn with
  | nil =>
    refine ⟨rfl, rfl, fun key _ => rfl, fun key w hkey => ?_⟩
    cases hkey
  | append_singleton history args ih =>
    rw [after_concat]
    exact ih.step

/-! ## Isolation between requesters -/

/-- `env` is the arguments' own envelope: it carries their requester, domain
and budget, and up to the minted identifiers and clock reading it is what a
compiler with an empty cache produces for them. -/
structure Isolated (mint : Mint) (classifier : String → Option IntentType)
    (extractor : String → BTreeMap String Json) (args : CompileArgs) (env : IntentEnvelope) :
    Prop where
  requester : env.requester = args.requester
  domain : env.domain = args.domain
  budget : env.budget = args.budget
  content : ∀ n, ∃ env',
    ((IntentCompiler.fresh classifier extractor n).compile mint args).1 = .ok (.compiled env') ∧
      env = { env' with
        intentId := env.intentId, traceId := env.traceId, createdAt := env.createdAt }

/-- Two calls agree in everything an envelope is built from. -/
def Agrees (classifier : String → Option IntentType) (extractor : String → BTreeMap String Json)
    (w args : CompileArgs) : Prop :=
  w.requester = args.requester ∧ w.domain = args.domain ∧ w.budget = args.budget ∧
    Text.trim w.rawInput = Text.trim args.rawInput ∧
    classifier w.rawInput = classifier args.rawInput ∧
    enrichConstraints args.requester.role (extractor w.rawInput) =
      enrichConstraints args.requester.role (extractor args.rawInput)

/-- What an empty cache compiles acceptable arguments into. -/
theorem fresh_compile {n : ℕ} {t : IntentType} (ht : classifier args.rawInput = some t)
    (ha : Accepts classifier args) :
    ((IntentCompiler.fresh classifier extractor n).compile mint args).1 =
      .ok (.compiled (draft mint n args t (extractor args.rawInput))) := by
  rw [compile_miss_accepts (c := IntentCompiler.fresh classifier extractor n) rfl ht ha]
  rfl

/-- Arguments compiled with an empty cache are acceptable. -/
theorem fresh_compile_accepts {n : ℕ} {env : IntentEnvelope}
    (h : ((IntentCompiler.fresh classifier extractor n).compile mint args).1 =
      .ok (.compiled env)) : Accepts classifier args := by
  by_contra ha
  exact (compile_miss_rejects (c := IntentCompiler.fresh classifier extractor n) rfl ha).1 env h

/-- A draft made for an acceptable `w` is the arguments' own envelope exactly
when `w` agrees with them. -/
theorem isolated_draft_iff {w : CompileArgs} {env : IntentEnvelope}
    (hw : Accepts classifier w) (hd : DraftedFor mint classifier extractor w env) :
    Isolated mint classifier extractor args env ↔ Agrees classifier extractor w args := by
  obtain ⟨k, t, ht, rfl⟩ := hd
  refine ⟨fun h => ?_, fun h => ?_⟩
  · obtain ⟨env', henv', heq⟩ := h.content 0
    have ha := fresh_compile_accepts henv'
    obtain ⟨t', ht'⟩ := Option.isSome_iff_exists.mp ha.1
    rw [fresh_compile ht' ha] at henv'
    obtain rfl : draft mint 0 args t' (extractor args.rawInput) = env' := by
      simpa using henv'
    have hreq : w.requester = args.requester := h.requester
    have hgoal := congrArg IntentEnvelope.goal heq
    have htype := congrArg IntentEnvelope.intentType heq
    have hcons := congrArg IntentEnvelope.constraints heq
    simp only [draft, enrich] at hgoal htype hcons
    refine ⟨hreq, h.domain, h.budget, hgoal, ?_, ?_⟩
    · rw [ht, ht', htype]
    · rw [hreq] at hcons
      exact hcons
  · obtain ⟨hreq, hdom, hbud, htrim, hcls, hcons⟩ := h
    have ht' : classifier args.rawInput = some t := hcls ▸ ht
    have ha : Accepts classifier args := by
      refine ⟨by rw [ht']; rfl, ?_, hdom ▸ hw.2.2.1, hbud ▸ hw.2.2.2⟩
      rw [← Text.isBlank_trim, ← htrim, Text.isBlank_trim]
      exact hw.2.1
    refine ⟨hreq, hdom, hbud, fun n => ⟨_, fresh_compile ht' ha, ?_⟩⟩
    simp only [draft, enrich, hreq, hdom, hbud, htrim, hcons]

/-- **Isolation, exactly.** After any history, whatever a call compiles to is
its own envelope if and only if the call that wrote the cache entry it hits, if
there is one, agrees with it. -/
theorem compile_isolated_iff (mint : Mint) (classifier : String → Option IntentType)
    (extractor : String → BTreeMap String Json) (n : ℕ) (history : List CompileArgs)
    (args : CompileArgs) :
    (∀ env,
      (((IntentCompiler.fresh classifier extractor n).after mint history).compile mint args).1 =
        .ok (.compiled env) → Isolated mint classifier extractor args env) ↔
      ∀ w, storedBy mint classifier history (semanticHash mint args.rawInput) = some w →
        Agrees classifier extractor w args := by
  have hinv := cache_after mint classifier extractor n history
  have hacc : Accepts
      ((IntentCompiler.fresh classifier extractor n).after mint history).classifier args ↔
      Accepts classifier args := by rw [hinv.classifier_eq]
  rcases hs : storedBy mint classifier history (semanticHash mint args.rawInput) with _ | w
  · -- nothing stored: the call is a miss and drafts for itself
    have hget := hinv.empty _ hs
    refine ⟨fun _ w hw => absurd hw (by simp), fun _ env henv => ?_⟩
    by_cases ha : Accepts classifier args
    · obtain ⟨t, ht⟩ := Option.isSome_iff_exists.mp ha.1
      have ht' : ((IntentCompiler.fresh classifier extractor n).after mint history).classifier
          args.rawInput = some t := by rw [hinv.classifier_eq, ht]
      rw [compile_miss_accepts hget ht' (hacc.mpr ha), hinv.extractor_eq] at henv
      have hd : DraftedFor mint classifier extractor args env := by
        refine ⟨((IntentCompiler.fresh classifier extractor n).after mint history).minted, t, ht, ?_⟩
        simpa using henv.symm
      exact (isolated_draft_iff ha hd).mpr ⟨rfl, rfl, rfl, rfl, rfl, rfl⟩
    · exact absurd henv ((compile_miss_rejects hget (hacc.not.mpr ha)).1 env)
  · obtain ⟨env, hget, hd⟩ := hinv.entry _ w hs
    have hw : Accepts classifier w := by
      have := List.find?_some hs
      simp only [decide_eq_true_eq] at this
      exact this.2
    rw [compile_hit hget]
    refine ⟨fun h w' hw' => ?_, fun h env' henv' => ?_⟩
    · obtain rfl : w = w' := Option.some.inj hw'
      exact (isolated_draft_iff hw hd).mp (h env rfl)
    · obtain rfl : env = env' := by simpa using henv'
      exact (isolated_draft_iff hw hd).mpr (h w rfl)

/-- A mint whose streams count up; the digest is SHA-256 of `show sales`. -/
def countingMint : Mint where
  sha256Hex := fun _ => "9cc6fcdc7100cd4732b471ba1663d64f7b326f0e058eaff52fd757b5026d5167"
  intentId := fun n => ⟨"int-" ++ toString n⟩
  traceId := fun n => ⟨"trace-" ++ toString n⟩
  now := fun n => n

/-- A manager asks for the sales figures. -/
def aliceCall : CompileArgs where
  rawInput := "show sales"
  requester := ⟨"alice", "sales_manager", ["sales:read", "auto-approve"], some ⟨"tenant-a"⟩⟩
  domain := "sales"
  budget := ⟨5000, .finite 1, 30000⟩

/-- A guest of another tenant types the same text. -/
def bobCall : CompileArgs where
  rawInput := "show sales"
  requester := ⟨"bob", "guest", [], some ⟨"tenant-b"⟩⟩
  domain := "warehouse"
  budget := ⟨10, .finite 1, 1000⟩

/-- The guest is handed the manager's envelope: identity, scopes, tenant,
domain and budget. -/
theorem compile_leaks_requester :
    ¬ ∀ (mint : Mint) (classifier : String → Option IntentType)
      (extractor : String → BTreeMap String Json) (n : ℕ) (history : List CompileArgs)
      (args : CompileArgs) (env : IntentEnvelope),
      (((IntentCompiler.fresh classifier extractor n).after mint history).compile mint args).1 =
        .ok (.compiled env) → Isolated mint classifier extractor args env := by
  intro h
  have hinv := cache_after countingMint (fun _ => some .analyticalIntent) (fun _ => ∅) 0 [aliceCall]
  have hstored : storedBy countingMint (fun _ => some .analyticalIntent) [aliceCall]
      (semanticHash countingMint bobCall.rawInput) = some aliceCall := by decide +kernel
  obtain ⟨env, hget, k, t, -, henv⟩ := hinv.entry _ aliceCall hstored
  have hbob := h countingMint (fun _ => some .analyticalIntent) (fun _ => ∅) 0 [aliceCall] bobCall
    env (congrArg Prod.fst (compile_hit hget))
  have hreq : aliceCall.requester = bobCall.requester := by
    rw [← hbob.requester, henv]
    rfl
  exact absurd hreq (by decide)

end Aaf
