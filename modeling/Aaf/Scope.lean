import Aaf.Composition
import Aaf.Policy
import Aaf.Registration
import Aaf.Wildcard

/-!
# Scopes

`aaf-policy`'s permission model: the scopes of a request are those of the intent that the
user's scopes cover and the agent's autonomy admits. Two wildcard languages meet here.
A grant may end in `:*`, or be `*`; an entry of the autonomy ceiling may start with `*`.

* `scopes_not_amplified`: what the effective scopes cover, both sides cover and the
  ceiling admits.
* `computeEffectiveScopes_eq_iff`: the first of the two public computations reads the
  ceiling as grants, and so loses scopes.
* `gates_match_exactly`: the rules that ask for a scope ask for its text.
-/

namespace Aaf

/-! ## Matching -/

/-- `scope_matches`. The source compares the byte after the prefix: when the text starts
with the prefix, it is the byte of the next character. -/
def scopeMatches (granted required : String) : Bool :=
  if granted = required ∨ granted = "*" then true
  else
    match Text.stripSuffix granted ":*" with
    | some pre => Text.startsWith required pre && decide (required.toList[pre.length]? = some ':')
    | none => false

/-- `autonomy_ceiling`. -/
def autonomyCeiling : AutonomyLevel → List String
  | .level1 => []
  | .level2 => ["*:read"]
  | .level3 => ["*:read", "*:write"]
  | .level4 => ["*:read", "*:write", "*:delete", "*:send", "*:execute"]
  | .level5 => ["*"]

/-- `ceiling_matches`. -/
def ceilingMatches (ceiling scope : String) : Bool :=
  if ceiling = "*" then true
  else
    match Text.stripPrefix ceiling "*" with
    | some suffix => Text.endsWith scope suffix
    | none => decide (ceiling = scope)

/-- `scope_matches_with_ceiling`. -/
def scopeMatchesWithCeiling (granted required : String) : Bool :=
  scopeMatches granted required || ceilingMatches granted required

/-- The intent scopes that the user's scopes cover, as a `BTreeSet`. -/
def afterIntent (userScopes intentScopes : List String) : List String :=
  btreeSet (intentScopes.filter fun is => userScopes.any fun us => scopeMatches us is)

/-- `compute_effective_scopes`. -/
def computeEffectiveScopes (userScopes intentScopes : List String) (agentLevel : AutonomyLevel) :
    List String :=
  (afterIntent userScopes intentScopes).filter fun s =>
    (autonomyCeiling agentLevel).any fun c => scopeMatches c s

/-- `effective_scopes`. -/
def effectiveScopes (userScopes intentScopes : List String) (agentLevel : AutonomyLevel) :
    List String :=
  (afterIntent userScopes intentScopes).filter fun s =>
    (autonomyCeiling agentLevel).any fun c => scopeMatchesWithCeiling c s

/-- Some scope of the list covers `x`. -/
def Covered (scopes : List String) (x : String) : Prop := ∃ s ∈ scopes, scopeMatches s x = true

instance (scopes : List String) (x : String) : Decidable (Covered scopes x) :=
  inferInstanceAs (Decidable (∃ s ∈ scopes, scopeMatches s x = true))

/-- The ceiling of the level admits `x`. -/
def Admitted (level : AutonomyLevel) (x : String) : Prop :=
  ∃ c ∈ autonomyCeiling level, ceilingMatches c x = true

instance (level : AutonomyLevel) (x : String) : Decidable (Admitted level x) :=
  inferInstanceAs (Decidable (∃ c ∈ autonomyCeiling level, ceilingMatches c x = true))

/-! ## Coverage is a preorder -/

/-- The test after a wildcard's stem: the text goes on with a colon. -/
theorem colon_after_iff {pre required : String} :
    (Text.startsWith required pre && decide (required.toList[pre.length]? = some ':')) = true ↔
      pre.toList ++ [':'] <+: required.toList := by
  rw [Bool.and_eq_true, decide_eq_true_eq, Text.startsWith_iff, ← String.length_toList]
  refine ⟨?_, ?_⟩
  · rintro ⟨⟨rest, hrest⟩, hcolon⟩
    rw [← hrest, List.getElem?_append_right (le_refl _), Nat.sub_self] at hcolon
    rw [← hrest, List.prefix_append_right_inj]
    rcases rest with _ | ⟨c, rest⟩
    · cases hcolon
    · cases hcolon
      exact ⟨rest, rfl⟩
  · rintro ⟨rest, hrest⟩
    rw [← hrest]
    refine ⟨⟨':' :: rest, by simp⟩, by simp⟩

/-- Matching is coverage with `:` for the separator and `*` for the star. -/
theorem scopeMatches_iff {granted required : String} :
    scopeMatches granted required = true ↔
      Wildcard.Covers ':' '*' granted.toList required.toList := by
  have hstar : granted = "*" ↔ granted.toList = ['*'] := by
    rw [← String.toList_inj]
    rfl
  rw [scopeMatches, Wildcard.Covers, ← hstar, String.toList_inj]
  by_cases heq : granted = required ∨ granted = "*"
  · rw [if_pos heq]
    rcases heq with heq | heq
    · exact ⟨fun _ => Or.inl heq, fun _ => rfl⟩
    · exact ⟨fun _ => Or.inr (Or.inl heq), fun _ => rfl⟩
  · rw [if_neg heq]
    obtain ⟨hne, hnotStar⟩ := not_or.mp heq
    rcases hstrip : Text.stripSuffix granted ":*" with _ | pre
    · simp only [hne, hnotStar, false_or, Bool.false_eq_true, false_iff]
      rintro ⟨stem, hstem, -⟩
      have hsome : Text.stripSuffix granted ":*" = some (String.ofList stem) := by
        rw [Text.stripSuffix_eq_some_iff, hstem, String.toList_ofList]
        rfl
      rw [hstrip] at hsome
      cases hsome
    · have hgranted : granted.toList = pre.toList ++ [':', '*'] :=
        Text.stripSuffix_eq_some_iff.mp hstrip
      simp only [hne, hnotStar, false_or, colon_after_iff]
      refine ⟨fun h => ⟨pre.toList, hgranted, h⟩, ?_⟩
      rintro ⟨stem, hstem, h⟩
      rw [hgranted] at hstem
      rw [List.append_cancel_right hstem]
      exact h

theorem scopeMatches_refl (s : String) : scopeMatches s s = true :=
  scopeMatches_iff.mpr (.refl _ _ _)

theorem scopeMatches_trans {a b c : String} (h : scopeMatches a b = true)
    (h' : scopeMatches b c = true) : scopeMatches a c = true :=
  scopeMatches_iff.mpr ((scopeMatches_iff.mp h).trans (by decide) (scopeMatches_iff.mp h'))

theorem Covered.trans {scopes : List String} {s x : String} (h : Covered scopes s)
    (hs : scopeMatches s x = true) : Covered scopes x := by
  obtain ⟨t, ht, hts⟩ := h
  exact ⟨t, ht, scopeMatches_trans hts hs⟩

theorem Covered.of_mem {scopes : List String} {s : String} (h : s ∈ scopes) : Covered scopes s :=
  ⟨s, h, scopeMatches_refl s⟩

/-! ## The ceiling -/

/-- The endings that the ceiling of a level admits; the last level admits everything. -/
def admittedSuffixes : AutonomyLevel → List String
  | .level1 => []
  | .level2 => [":read"]
  | .level3 => [":read", ":write"]
  | .level4 => [":read", ":write", ":delete", ":send", ":execute"]
  | .level5 => []

theorem admitted_iff {level : AutonomyLevel} {x : String} :
    Admitted level x ↔
      level = .level5 ∨ ∃ suffix ∈ admittedSuffixes level, Text.endsWith x suffix = true := by
  cases level with
  | level1 => simp [Admitted, autonomyCeiling, admittedSuffixes]
  | level2 =>
    have hread : ceilingMatches "*:read" x = Text.endsWith x ":read" := rfl
    simp [Admitted, autonomyCeiling, admittedSuffixes, hread]
  | level3 =>
    have hread : ceilingMatches "*:read" x = Text.endsWith x ":read" := rfl
    have hwrite : ceilingMatches "*:write" x = Text.endsWith x ":write" := rfl
    simp [Admitted, autonomyCeiling, admittedSuffixes, hread, hwrite]
  | level4 =>
    have hread : ceilingMatches "*:read" x = Text.endsWith x ":read" := rfl
    have hwrite : ceilingMatches "*:write" x = Text.endsWith x ":write" := rfl
    have hdelete : ceilingMatches "*:delete" x = Text.endsWith x ":delete" := rfl
    have hsend : ceilingMatches "*:send" x = Text.endsWith x ":send" := rfl
    have hexecute : ceilingMatches "*:execute" x = Text.endsWith x ":execute" := rfl
    simp [Admitted, autonomyCeiling, admittedSuffixes, hread, hwrite, hdelete, hsend, hexecute]
  | level5 =>
    have hall : ceilingMatches "*" x = true := rfl
    simp [Admitted, autonomyCeiling, hall]

/-- No ending that a ceiling admits has a star at its end. -/
theorem getLast_of_mem_admittedSuffixes {level : AutonomyLevel} {suffix : String}
    (h : suffix ∈ admittedSuffixes level) :
    suffix.toList ≠ [] ∧ suffix.toList.getLast? ≠ some '*' := by
  have hall : ∀ level, ∀ suffix ∈ admittedSuffixes level,
      suffix.toList ≠ [] ∧ suffix.toList.getLast? ≠ some '*' := by
    intro level
    cases level <;> decide
  exact hall level suffix h

/-- Below the last level, an admitted scope has no star at its end. -/
theorem Admitted.getLast {level : AutonomyLevel} {x : String} (h : Admitted level x) :
    level = .level5 ∨ x.toList.getLast? ≠ some '*' := by
  rcases admitted_iff.mp h with hlevel | ⟨suffix, hmem, hends⟩
  · exact Or.inl hlevel
  · obtain ⟨hne, hlast⟩ := getLast_of_mem_admittedSuffixes hmem
    obtain ⟨pre, hpre⟩ := Text.endsWith_iff.mp hends
    refine Or.inr ?_
    rw [← hpre, List.getLast?_append_of_ne_nil _ hne]
    exact hlast

/-- So that, whatever it covers, the ceiling admits. -/
theorem Admitted.covers {level : AutonomyLevel} {s x : String} (h : Admitted level s)
    (hs : scopeMatches s x = true) : Admitted level x := by
  rcases h.getLast with hlevel | hlast
  · exact admitted_iff.mpr (Or.inl hlevel)
  · have heq := (scopeMatches_iff.mp hs).eq_of_getLast hlast
    rw [← String.toList_inj.mp heq]
    exact h

/-- A ceiling entry read as a grant covers nothing that it does not admit. -/
theorem Admitted.of_grant {level : AutonomyLevel} {c s : String} (hc : c ∈ autonomyCeiling level)
    (h : scopeMatches c s = true) : Admitted level s := by
  have hself : ∀ level, ∀ c ∈ autonomyCeiling level, Admitted level c := by
    intro level
    cases level <;> decide
  exact (hself level c hc).covers h

theorem Admitted.mono {level level' : AutonomyLevel} {x : String} (h : Admitted level x)
    (hle : level.asU8 ≤ level'.asU8) : Admitted level' x := by
  have hsuffixes : ∀ level level' : AutonomyLevel, level.asU8 ≤ level'.asU8 →
      level' = .level5 ∨ (level ≠ .level5 ∧ admittedSuffixes level ⊆ admittedSuffixes level') := by
    intro level level'
    cases level <;> cases level' <;> decide
  rcases hsuffixes level level' hle with hlast | ⟨hnot, hsub⟩
  · exact admitted_iff.mpr (Or.inl hlast)
  · rcases admitted_iff.mp h with hlast | ⟨suffix, hmem, hends⟩
    · exact absurd hlast hnot
    · exact admitted_iff.mpr (Or.inr ⟨suffix, hsub hmem, hends⟩)

/-! ## Effective scopes -/

theorem mem_btreeSet {l : List String} {s : String} : s ∈ btreeSet l ↔ s ∈ l := by
  rw [btreeSet, List.mem_insertionSort, List.mem_dedup]

theorem mem_afterIntent {users intents : List String} {s : String} :
    s ∈ afterIntent users intents ↔ s ∈ intents ∧ Covered users s := by
  rw [afterIntent, mem_btreeSet, List.mem_filter, List.any_eq_true]
  rfl

/-- The effective scopes are those of the intent that the user covers and the ceiling
admits. -/
theorem mem_effectiveScopes {users intents : List String} {level : AutonomyLevel} {s : String} :
    s ∈ effectiveScopes users intents level ↔
      s ∈ intents ∧ Covered users s ∧ Admitted level s := by
  have hceiling : ((autonomyCeiling level).any fun c => scopeMatchesWithCeiling c s) = true ↔
      Admitted level s := by
    rw [List.any_eq_true]
    refine ⟨?_, ?_⟩
    · rintro ⟨c, hc, hmatch⟩
      rcases Bool.or_eq_true_iff.mp hmatch with hgrant | hadmit
      · exact .of_grant hc hgrant
      · exact ⟨c, hc, hadmit⟩
    · rintro ⟨c, hc, hadmit⟩
      exact ⟨c, hc, Bool.or_eq_true_iff.mpr (Or.inr hadmit)⟩
  rw [effectiveScopes, List.mem_filter, mem_afterIntent, hceiling, and_assoc]

/-- **No amplification.** Whatever the effective scopes cover is covered by the user and
by the intent, and admitted by the ceiling. Coverage is reflexive and transitive on all
texts, and more scopes of the user or of the intent, or a higher level, take no effective
scope away. -/
theorem scopes_not_amplified (users intents : List String) (level : AutonomyLevel) :
    (∀ x, Covered (effectiveScopes users intents level) x →
      Covered users x ∧ Covered intents x ∧ Admitted level x) ∧
    (∀ s, scopeMatches s s = true) ∧
    (∀ a b c, scopeMatches a b = true → scopeMatches b c = true → scopeMatches a c = true) ∧
    ∀ users' intents' level', users ⊆ users' → intents ⊆ intents' →
      level.asU8 ≤ level'.asU8 →
      effectiveScopes users intents level ⊆ effectiveScopes users' intents' level' := by
  refine ⟨fun x => ?_, scopeMatches_refl, fun a b c => scopeMatches_trans, ?_⟩
  · rintro ⟨s, hs, hcovers⟩
    obtain ⟨hintent, huser, hadmitted⟩ := mem_effectiveScopes.mp hs
    exact ⟨huser.trans hcovers, (Covered.of_mem hintent).trans hcovers, hadmitted.covers hcovers⟩
  · intro users' intents' level' husers hintents hlevel s hs
    obtain ⟨hintent, ⟨u, hu, hcovers⟩, hadmitted⟩ := mem_effectiveScopes.mp hs
    exact mem_effectiveScopes.mpr
      ⟨hintents hintent, ⟨u, husers hu, hcovers⟩, hadmitted.mono hlevel⟩

/-! ## The ceiling read as grants -/

/-- Read as grants, the entries of a ceiling cover everything at the last level, and
nothing but their own texts below it. -/
theorem exists_grant_iff {level : AutonomyLevel} {s : String} :
    (∃ c ∈ autonomyCeiling level, scopeMatches c s = true) ↔
      level = .level5 ∨ s ∈ autonomyCeiling level := by
  refine ⟨?_, ?_⟩
  · rintro ⟨c, hc, hgrant⟩
    rcases (Admitted.of_grant hc (scopeMatches_refl c)).getLast with hlevel | hlast
    · exact Or.inl hlevel
    · have heq := (scopeMatches_iff.mp hgrant).eq_of_getLast hlast
      rw [← String.toList_inj.mp heq]
      exact Or.inr hc
  · rintro (rfl | hmem)
    · exact ⟨"*", List.mem_cons_self, scopeMatches_iff.mpr (Or.inr (Or.inl rfl))⟩
    · exact ⟨s, hmem, scopeMatches_refl s⟩

theorem mem_computeEffectiveScopes {users intents : List String} {level : AutonomyLevel}
    {s : String} :
    s ∈ computeEffectiveScopes users intents level ↔
      s ∈ intents ∧ Covered users s ∧ (level = .level5 ∨ s ∈ autonomyCeiling level) := by
  rw [computeEffectiveScopes, List.mem_filter, mem_afterIntent, List.any_eq_true,
    exists_grant_iff, and_assoc]

/-- **Two computations.** `compute_effective_scopes` agrees with `effective_scopes` exactly
at the last level, or when the only scopes left to admit are spelled as the ceiling's own
entries. -/
theorem computeEffectiveScopes_eq_iff (users intents : List String) (level : AutonomyLevel) :
    computeEffectiveScopes users intents level = effectiveScopes users intents level ↔
      level = .level5 ∨
        ∀ s ∈ intents, Covered users s → Admitted level s → s ∈ autonomyCeiling level := by
  refine ⟨fun heq => ?_, fun h => ?_⟩
  · by_cases hlevel : level = .level5
    · exact Or.inl hlevel
    · refine Or.inr fun s hs hcovered hadmitted => ?_
      have hmem := mem_effectiveScopes.mpr ⟨hs, hcovered, hadmitted⟩
      rw [← heq, mem_computeEffectiveScopes] at hmem
      exact hmem.2.2.resolve_left hlevel
  · -- both filter the same list, so it is enough that they keep the same members
    refine List.filter_congr fun s hs => ?_
    obtain ⟨hintent, hcovered⟩ := mem_afterIntent.mp hs
    have hgrant : s ∈ computeEffectiveScopes users intents level ↔
        s ∈ effectiveScopes users intents level := by
      rw [mem_computeEffectiveScopes, mem_effectiveScopes]
      refine ⟨?_, ?_⟩
      · rintro ⟨-, -, hmem⟩
        obtain ⟨c, hc, hmatch⟩ := exists_grant_iff.mpr hmem
        exact ⟨hintent, hcovered, .of_grant hc hmatch⟩
      · rintro ⟨-, -, hadmitted⟩
        exact ⟨hintent, hcovered, h.imp_right fun hall => hall s hintent hcovered hadmitted⟩
    rw [computeEffectiveScopes, effectiveScopes, List.mem_filter, List.mem_filter] at hgrant
    simpa only [hs, true_and, ← Bool.eq_iff_iff] using hgrant

/-- At level two a read scope is effective, and `compute_effective_scopes` drops it. -/
theorem computeEffectiveScopes_ne :
    ¬ ∀ users intents level,
      computeEffectiveScopes users intents level = effectiveScopes users intents level := by
  intro h
  have heq := h ["order:read"] ["order:read"] .level2
  revert heq
  decide +kernel

/-! ## The gates -/

section Gates

variable {ctx : PolicyContext} {cap : CapabilityContract}

theorem scopeCheck_eq_none_iff (hcap : ctx.capability = some cap)
    (hscope : Text.isBlank cap.requiredScope = false) :
    scopeCheck.evaluate ctx = none ↔ Text.trim cap.requiredScope ∈ ctx.requester.scopes := by
  have hevaluate : scopeCheck.evaluate ctx =
      if ctx.requester.scopes.contains (Text.trim cap.requiredScope) then none
      else some ⟨"scope-check", .scopeCheck, .error,
        "requester missing required scope `" ++ Text.trim cap.requiredScope ++
          "` for capability `" ++ cap.id.raw ++ "`"⟩ := by
    have hrequired : Text.trim cap.requiredScope ≠ "" := by
      intro hempty
      rw [Text.isBlank, hempty] at hscope
      cases hscope
    simp [scopeCheck, hcap, hrequired]
  rw [hevaluate, ← List.contains_iff_mem]
  split <;> simp_all

theorem classificationCheck_eq_none_iff {needs : String} (hcap : ctx.capability = some cap)
    (hneeds : (cap.dataClassification = .confidential ∧ needs = "confidential:read") ∨
      (cap.dataClassification = .restricted ∧ needs = "restricted:read")) :
    classificationCheck ctx = none ↔ needs ∈ ctx.requester.scopes := by
  rw [← List.contains_iff_mem]
  rcases hneeds with ⟨hclass, rfl⟩ | ⟨hclass, rfl⟩ <;>
    simp [classificationCheck, hcap, hclass]

/-- **The gates match texts.** For a capability that requires a scope, `ScopeCheck` passes
exactly the requesters that hold the very scope, and so does the classification check with
`confidential:read` and `restricted:read`. Whoever passes is covered, but a wildcard is
not enough. -/
theorem gates_match_exactly (hcap : ctx.capability = some cap) :
    (Text.isBlank cap.requiredScope = false →
      (scopeCheck.evaluate ctx = none ↔ Text.trim cap.requiredScope ∈ ctx.requester.scopes) ∧
      (scopeCheck.evaluate ctx = none →
        Covered ctx.requester.scopes (Text.trim cap.requiredScope))) ∧
    ∀ needs, (cap.dataClassification = .confidential ∧ needs = "confidential:read") ∨
        (cap.dataClassification = .restricted ∧ needs = "restricted:read") →
      (classificationCheck ctx = none ↔ needs ∈ ctx.requester.scopes) ∧
      (classificationCheck ctx = none → Covered ctx.requester.scopes needs) := by
  refine ⟨fun hscope => ?_, fun needs hneeds => ?_⟩
  · have hiff := scopeCheck_eq_none_iff hcap hscope
    exact ⟨hiff, fun hnone => .of_mem (hiff.mp hnone)⟩
  · have hiff := classificationCheck_eq_none_iff hcap hneeds
    exact ⟨hiff, fun hnone => .of_mem (hiff.mp hnone)⟩

end Gates

/-- A capability on confidential data that requires `order:read`. -/
def orderReader : CapabilityContract :=
  { CapabilityContract.plain ⟨"cap-orders"⟩ "orders" with
    requiredScope := "order:read"
    dataClassification := .confidential }

/-- A question that asks for nothing in particular, from a requester with the scopes. -/
def questionOf (scopes : List String) : IntentEnvelope where
  intentId := ⟨"int-1"⟩
  intentType := .analyticalIntent
  requester := ⟨"alice", "operator", scopes, none⟩
  goal := "list the orders"
  domain := "orders"
  constraints := ∅
  budget := ⟨1000, .finite 1, 1000⟩
  deadline := none
  riskTier := .read
  approvalPolicy := "none"
  outputContract := none
  traceId := ⟨"trace-1"⟩
  depth := 0
  createdAt := 0
  entitiesInContext := []

/-- The context in which a capability is about to be called for that question. -/
def askingFor (cap : CapabilityContract) (scopes : List String) : PolicyContext where
  intent := questionOf scopes
  capability := some cap
  requester := (questionOf scopes).requester
  payload := none
  output := none
  sideEffect := none
  remainingBudget := (questionOf scopes).budget
  tenant := none
  composedWrites := 0
  ontologyClassLookup := none

theorem gates_match_exactly_orderReader :
    (askingFor orderReader ["order:read"]).capability = some orderReader ∧
      scopeCheck.evaluate (askingFor orderReader ["order:read"]) = none := by
  have hgate := @gates_match_exactly (askingFor orderReader ["order:read"]) orderReader rfl
  exact ⟨rfl, (hgate.1 (by decide +kernel)).1.mpr (by decide +kernel)⟩

/-- The holder of the two wildcards, who covers both scopes, is refused by both gates. -/
theorem wildcard_holder_refused :
    ¬ (scopeCheck.evaluate (askingFor orderReader ["order:*", "confidential:*"]) = none ↔
        Covered ["order:*", "confidential:*"] (Text.trim orderReader.requiredScope)) ∧
      ¬ (classificationCheck (askingFor orderReader ["order:*", "confidential:*"]) = none ↔
        Covered ["order:*", "confidential:*"] "confidential:read") := by
  decide +kernel

end Aaf
