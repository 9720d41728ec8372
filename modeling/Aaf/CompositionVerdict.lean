import Aaf.ClassificationFlow

/-!
# The verdict of the composition check

What the entity-aware check (`aaf-planner`) says about a list of capabilities, in terms of
the list alone. Each detector finds a property of it: an entity written under two tenants
(`CrossesTenants`), an entity with two write references (`HasContested`), a capability that
reads above its class (`Leaks`). None of them depends on the order, and a larger list has
them all the more.

`verdict_perm_and_mono_iff`: the verdict and its kind are those of any permutation, and a
rejected list stays rejected when it grows, unless the count of the write-class capabilities
wraps around. `reportsDoubleWrite_exact_iff`: a reported double-write is one of two
capabilities unless a single one lists two references to the entity.
-/

namespace Aaf

/-- Which violation it is, without the names. -/
inductive ViolationKind : Type where
  | doubleWrite : ViolationKind
  | classificationLeak : ViolationKind
  | crossTenantFanOut : ViolationKind
  deriving DecidableEq, Repr

/-- The variant of a violation. -/
def CompositionViolation.kind : CompositionViolation → ViolationKind
  | .doubleWrite .. => .doubleWrite
  | .classificationLeak .. => .classificationLeak
  | .crossTenantFanOut .. => .crossTenantFanOut

/-! ## A set of strings as a sorted list -/

section BtreeSet

variable {l : List String} {s : String}

theorem btreeSet_sorted (l : List String) : (btreeSet l).Pairwise (· ≤ ·) :=
  List.pairwise_insertionSort _ _

/-- Two elements make a set of two. -/
theorem two_le_length_btreeSet : 2 ≤ (btreeSet l).length ↔ ∃ s ∈ l, ∃ s' ∈ l, s ≠ s' := by
  rw [btreeSet, List.length_insertionSort, ← List.card_toFinset]
  refine Finset.one_lt_card.trans ?_
  simp only [List.mem_toFinset]

/-- The first hit in a sorted list is the least one. -/
theorem find?_eq_some_iff_least {p : String → Bool} (h : l.Pairwise (· ≤ ·)) :
    l.find? p = some s ↔ (s ∈ l ∧ p s = true) ∧ ∀ s' ∈ l, p s' = true → s ≤ s' := by
  induction h with
  | nil => simp
  | cons hle hsorted ih =>
    rename_i a l
    by_cases hp : p a = true
    · rw [List.find?_cons_of_pos hp, Option.some.injEq]
      constructor
      · rintro rfl
        refine ⟨⟨List.mem_cons_self, hp⟩, fun s' hs' _ => ?_⟩
        rcases List.mem_cons.mp hs' with rfl | hs'
        · exact le_refl _
        · exact hle s' hs'
      · rintro ⟨⟨hs, -⟩, hleast⟩
        refine le_antisymm ?_ (hleast a List.mem_cons_self hp)
        rcases List.mem_cons.mp hs with rfl | hs
        · exact le_refl _
        · exact hle s hs
    · rw [List.find?_cons_of_neg hp, ih]
      have hne : ∀ {s' : String}, p s' = true → s' ≠ a := by
        rintro s' hs' rfl
        exact hp hs'
      constructor
      · rintro ⟨⟨hs, hps⟩, hleast⟩
        refine ⟨⟨List.mem_cons_of_mem _ hs, hps⟩, fun s' hs' hps' => ?_⟩
        exact hleast s' ((List.mem_cons.mp hs').resolve_left (hne hps')) hps'
      · rintro ⟨⟨hs, hps⟩, hleast⟩
        refine ⟨⟨(List.mem_cons.mp hs).resolve_left (hne hps), hps⟩, fun s' hs' hps' => ?_⟩
        exact hleast s' (List.mem_cons_of_mem _ hs') hps'

end BtreeSet

/-! ## What the detectors find -/

section Detectors

variable {caps caps' : List CapabilityContract} {e : String}

/-- An entity id is written under two tenants. -/
def CrossesTenants (caps : List CapabilityContract) : Prop :=
  ∃ w ∈ writesOf caps, ∃ w' ∈ writesOf caps, w.1.entityId = w'.1.entityId ∧
    ∃ t ∈ w.1.tenant, ∃ t' ∈ w'.1.tenant, t.raw ≠ t'.raw

/-- How many write references to an entity id the capabilities declare. -/
def referencesTo (caps : List CapabilityContract) (e : String) : ℕ :=
  (writesOf caps).countP fun w => w.1.entityId = e

/-- An entity id with two write references. -/
def Contested (caps : List CapabilityContract) (e : String) : Prop := 2 ≤ referencesTo caps e

/-- Some entity id is contested. -/
def HasContested (caps : List CapabilityContract) : Prop := ∃ e, Contested caps e

/-- The first contested entity id, as a `BTreeMap` iterates. -/
def FirstContested (caps : List CapabilityContract) (e : String) : Prop :=
  Contested caps e ∧ ∀ e', Contested caps e' → e ≤ e'

/-- There is a writer for each reference. -/
theorem length_writersOf (caps : List CapabilityContract) (e : String) :
    (writersOf caps e).length = referencesTo caps e := by
  rw [writersOf, List.length_filterMap_eq_countP, referencesTo]
  refine List.countP_congr fun w _ => ?_
  by_cases he : w.1.entityId = e
  · simp [he]
  · simp [he]

theorem Contested.mem_writes (h : Contested caps e) :
    e ∈ (writesOf caps).map fun w => w.1.entityId := by
  have hpos : 0 < referencesTo caps e := lt_of_lt_of_le Nat.zero_lt_two h
  obtain ⟨w, hw, he⟩ := List.countP_pos_iff.mp hpos
  exact List.mem_map.mpr ⟨w, hw, of_decide_eq_true he⟩

/-- The detector reports the first contested entity, with a writer for each reference. -/
theorem detectDoubleWrite_eq_some_iff {v : CompositionViolation} :
    detectDoubleWrite caps = some v ↔
      ∃ e, FirstContested caps e ∧ v = .doubleWrite e (writersOf caps e) := by
  simp only [detectDoubleWrite, Option.map_eq_some_iff]
  refine exists_congr fun e => and_congr ?_ eq_comm
  rw [find?_eq_some_iff_least (btreeSet_sorted _)]
  simp only [mem_btreeSet, decide_eq_true_eq, length_writersOf]
  constructor
  · rintro ⟨⟨-, htwo⟩, hleast⟩
    exact ⟨htwo, fun e' he' => hleast e' he'.mem_writes he'⟩
  · rintro ⟨htwo, hleast⟩
    exact ⟨⟨htwo.mem_writes, htwo⟩, fun e' _ he' => hleast e' he'⟩

/-- Among the contested entities there is a first one. -/
theorem HasContested.exists_first (h : HasContested caps) : ∃ e, FirstContested caps e := by
  rcases hfind : (btreeSet ((writesOf caps).map fun w => w.1.entityId)).find?
      (fun e => decide (2 ≤ (writersOf caps e).length)) with _ | e
  · obtain ⟨e, he⟩ := h
    have hnone := List.find?_eq_none.mp hfind e (mem_btreeSet.mpr he.mem_writes)
    rw [decide_eq_true_eq, length_writersOf] at hnone
    exact absurd he hnone
  · have hsome : detectDoubleWrite caps = some (.doubleWrite e (writersOf caps e)) := by
      simp only [detectDoubleWrite, hfind, Option.map_some]
    obtain ⟨e, hfirst, -⟩ := detectDoubleWrite_eq_some_iff.mp hsome
    exact ⟨e, hfirst⟩

theorem detectDoubleWrite_isSome_iff :
    (detectDoubleWrite caps).isSome = true ↔ HasContested caps := by
  rw [Option.isSome_iff_exists]
  constructor
  · rintro ⟨v, hv⟩
    obtain ⟨e, hfirst, -⟩ := detectDoubleWrite_eq_some_iff.mp hv
    exact ⟨e, hfirst.1⟩
  · intro h
    obtain ⟨e, hfirst⟩ := h.exists_first
    exact ⟨_, detectDoubleWrite_eq_some_iff.mpr ⟨e, hfirst, rfl⟩⟩

theorem mem_tenants {e t : String} :
    t ∈ (writesOf caps).filterMap (fun w =>
        if w.1.entityId = e then w.1.tenant.map TenantId.raw else none) ↔
      ∃ w ∈ writesOf caps, w.1.entityId = e ∧ ∃ tenant ∈ w.1.tenant, tenant.raw = t := by
  rw [List.mem_filterMap]
  refine exists_congr fun w => and_congr_right fun _ => ?_
  by_cases he : w.1.entityId = e
  · simp [he]
  · simp [he]

/-- Two tenants of one entity are two tenants of the plan, so the first clause of the
detector adds nothing to the second. -/
theorem detectCrossTenantFanOut_isSome_iff :
    (detectCrossTenantFanOut caps).isSome = true ↔ CrossesTenants caps := by
  have hsplit : CrossesTenants caps ↔
      ∃ w ∈ writesOf caps, 2 ≤ (tenantsOf caps w.1.entityId).length := by
    simp only [tenantsOf, two_le_length_btreeSet, mem_tenants]
    constructor
    · rintro ⟨w, hw, w', hw', he, t, ht, t', ht', hne⟩
      exact ⟨w, hw, t.raw, ⟨w, hw, rfl, t, ht, rfl⟩, t'.raw, ⟨w', hw', he.symm, t', ht', rfl⟩, hne⟩
    · rintro ⟨_, -, -, ⟨w, hw, he, t, ht, rfl⟩, -, ⟨w', hw', he', t', ht', rfl⟩, hne⟩
      exact ⟨w, hw, w', hw', he.trans he'.symm, t, ht, t', ht', hne⟩
  have htenants : CrossesTenants caps → 2 ≤ (btreeSet ((writesOf caps).filterMap fun w =>
      w.1.tenant.map TenantId.raw)).length := by
    rintro ⟨w, hw, w', hw', -, t, ht, t', ht', hne⟩
    refine two_le_length_btreeSet.mpr ⟨t.raw, ?_, t'.raw, ?_, hne⟩
    · exact List.mem_filterMap.mpr ⟨w, hw, by rw [ht, Option.map_some]⟩
    · exact List.mem_filterMap.mpr ⟨w', hw', by rw [ht', Option.map_some]⟩
  simp only [detectCrossTenantFanOut]
  by_cases hcross : CrossesTenants caps
  · rw [if_pos ⟨htenants hcross, hsplit.mp hcross⟩]
    simp [hcross]
  · rw [if_neg fun h => hcross (hsplit.mpr h.2)]
    simp [hcross]

end Detectors

/-! ## The verdict -/

namespace EntityAwareComposition

variable (checker : EntityAwareComposition) {caps caps' : List CapabilityContract}

/-- The kind of violation that is reported, none for an accepted list. -/
def verdict (capabilities : List CapabilityContract) : Option ViolationKind :=
  match checker.check capabilities with
  | .error v => some v.kind
  | .ok () => none

/-- The list is rejected. -/
def Rejects (capabilities : List CapabilityContract) : Prop :=
  checker.check capabilities ≠ .ok ()

/-- Some capability of the list leaks. -/
def HasLeak (capabilities : List CapabilityContract) : Prop :=
  ∃ cap ∈ capabilities, checker.Leaks cap

/-- The kind that a detector reports, from the property it finds. -/
theorem map_kind_eq {found : Option CompositionViolation} {p : Prop} [Decidable p]
    {k : ViolationKind} (hfound : found.isSome = true ↔ p) (hkind : ∀ v ∈ found, v.kind = k) :
    found.map CompositionViolation.kind = if p then some k else none := by
  cases found with
  | none => rw [if_neg fun hp => Bool.false_ne_true (hfound.mpr hp), Option.map_none]
  | some v => rw [if_pos (hfound.mp rfl), Option.map_some, hkind v rfl]

theorem kind_of_crossTenant {capabilities : List CapabilityContract} {v : CompositionViolation}
    (h : v ∈ detectCrossTenantFanOut capabilities) : v.kind = .crossTenantFanOut := by
  simp only [detectCrossTenantFanOut, Option.mem_def] at h
  split at h
  · rw [← Option.some.inj h]
    rfl
  · cases h

theorem kind_of_doubleWrite {capabilities : List CapabilityContract} {v : CompositionViolation}
    (h : v ∈ detectDoubleWrite capabilities) : v.kind = .doubleWrite := by
  obtain ⟨e, -, rfl⟩ := detectDoubleWrite_eq_some_iff.mp h
  rfl

/-- **What the check reports.** Its cascade, on the properties of the list. -/
theorem verdict_eq (capabilities : List CapabilityContract)
    [Decidable (CrossesTenants capabilities)] [Decidable (HasContested capabilities)]
    [Decidable (checker.HasLeak capabilities)] :
    checker.verdict capabilities =
      if ¬ checker.base.isSafe capabilities then some .doubleWrite
      else if CrossesTenants capabilities then some .crossTenantFanOut
      else if HasContested capabilities then some .doubleWrite
      else if checker.HasLeak capabilities then some .classificationLeak
      else none := by
  have hfan : (detectCrossTenantFanOut capabilities).map CompositionViolation.kind =
      if CrossesTenants capabilities then some .crossTenantFanOut else none :=
    map_kind_eq detectCrossTenantFanOut_isSome_iff fun _ => kind_of_crossTenant
  have hdouble : (detectDoubleWrite capabilities).map CompositionViolation.kind =
      if HasContested capabilities then some .doubleWrite else none :=
    map_kind_eq detectDoubleWrite_isSome_iff fun _ => kind_of_doubleWrite
  have hleak : (checker.classificationLookup.bind (detectClassificationLeak capabilities)).map
      CompositionViolation.kind =
        if checker.HasLeak capabilities then some .classificationLeak else none :=
    map_kind_eq (Option.isSome_iff_exists.trans (exists_leak_iff checker capabilities))
      fun v hv => by
        obtain ⟨_, _, _, _, rfl⟩ := leak_of_detect hv
        rfl
  have hviolation : (checker.violation capabilities).map CompositionViolation.kind =
      if CrossesTenants capabilities then some .crossTenantFanOut
      else if HasContested capabilities then some .doubleWrite
      else if checker.HasLeak capabilities then some .classificationLeak
      else none := by
    rw [violation, Option.map_or, Option.map_or, hfan, hdouble, hleak]
    split_ifs <;> rfl
  rw [verdict, check, ← hviolation]
  by_cases hsafe : checker.base.isSafe capabilities = true
  · rw [if_neg (not_not.mpr hsafe), if_neg (not_not.mpr hsafe)]
    cases checker.violation capabilities <;> rfl
  · rw [if_pos hsafe, if_pos hsafe]
    rfl

theorem rejects_iff (capabilities : List CapabilityContract) :
    checker.Rejects capabilities ↔ checker.base.isSafe capabilities = false ∨
      CrossesTenants capabilities ∨ HasContested capabilities ∨ checker.HasLeak capabilities := by
  classical
  have hverdict : checker.Rejects capabilities ↔ checker.verdict capabilities ≠ none := by
    rw [Rejects, verdict]
    rcases checker.check capabilities with v | ⟨⟩
    · simp
    · simp
  rw [hverdict, verdict_eq, ← Bool.not_eq_true]
  split_ifs <;> simp_all

end EntityAwareComposition

/-! ## Permutations and larger lists -/

section Growth

variable {caps caps' : List CapabilityContract}

theorem crossesTenants_of_subset (h : writesOf caps ⊆ writesOf caps') (hc : CrossesTenants caps) :
    CrossesTenants caps' := by
  obtain ⟨w, hw, w', hw', hentity, htenants⟩ := hc
  exact ⟨w, h hw, w', h hw', hentity, htenants⟩

/-- A larger list declares the writes of a smaller one. -/
theorem writesOf_subperm (h : caps.Subperm caps') : (writesOf caps).Subperm (writesOf caps') := by
  obtain ⟨l, hperm, hsub⟩ := h
  exact (writesOf_perm hperm).symm.subperm.trans (hsub.flatMap _).subperm

theorem hasContested_of_subperm (h : caps.Subperm caps') (hc : HasContested caps) :
    HasContested caps' := by
  obtain ⟨e, he⟩ := hc
  exact ⟨e, le_trans he ((writesOf_subperm h).countP_le _)⟩

end Growth

namespace EntityAwareComposition

variable (checker : EntityAwareComposition) {caps caps' : List CapabilityContract}

theorem hasLeak_of_subset (h : caps ⊆ caps') (hc : checker.HasLeak caps) :
    checker.HasLeak caps' := by
  obtain ⟨cap, hcap, hleaks⟩ := hc
  exact ⟨cap, h hcap, hleaks⟩

/-- The verdict and its kind do not depend on the order. -/
theorem verdict_perm (h : caps.Perm caps') : checker.verdict caps = checker.verdict caps' := by
  classical
  have hcross : CrossesTenants caps ↔ CrossesTenants caps' :=
    ⟨crossesTenants_of_subset (writesOf_perm h).subset,
      crossesTenants_of_subset (writesOf_perm h.symm).subset⟩
  have hcontested : HasContested caps ↔ HasContested caps' :=
    ⟨hasContested_of_subperm h.subperm, hasContested_of_subperm h.symm.subperm⟩
  have hleak : checker.HasLeak caps ↔ checker.HasLeak caps' :=
    ⟨checker.hasLeak_of_subset h.subset, checker.hasLeak_of_subset h.symm.subset⟩
  rw [verdict_eq, verdict_eq, checker.base.isSafe_perm h]
  simp only [hcross, hcontested, hleak]

/-- The write-class capabilities of a list, uncounted by the machine. -/
def writeCount (capabilities : List CapabilityContract) : ℕ :=
  capabilities.countP fun cap => cap.sideEffect.requiresCompensation

/-- The count is taken as a `u32`. -/
theorem isSafe_iff (base : CompositionChecker) (capabilities : List CapabilityContract) :
    base.isSafe capabilities = true ↔
      writeCount capabilities % UInt32.size ≤ base.maxWrites.toNat := by
  rw [CompositionChecker.isSafe, decide_eq_true_eq, UInt32.le_iff_toNat_le, UInt32.toNat_ofNat']
  rfl

/-- Nothing but the number of its writes speaks against the list: they are more than
allowed, and their count as a `u32` is not. -/
structure PassesOverLimit (capabilities : List CapabilityContract) : Prop where
  limited : checker.base.maxWrites.toNat + 1 < UInt32.size
  exceeds : checker.base.maxWrites.toNat < writeCount capabilities
  wraps : writeCount capabilities % UInt32.size ≤ checker.base.maxWrites.toNat
  tenants : ¬ CrossesTenants capabilities
  contested : ¬ HasContested capabilities
  leaks : ¬ checker.HasLeak capabilities

/-- Any number of the write-class capabilities of a list make a list of their own. -/
theorem exists_subperm_writeCount {n : ℕ} (h : n ≤ writeCount caps') :
    ∃ caps, caps.Subperm caps' ∧ writeCount caps = n := by
  refine ⟨(caps'.filter fun cap => cap.sideEffect.requiresCompensation).take n, ?_, ?_⟩
  · exact ((List.take_sublist _ _).trans List.filter_sublist).subperm
  · rw [writeCount, List.countP_eq_length.mpr, List.length_take, ← List.countP_eq_length_filter]
    · exact min_eq_left h
    · intro cap hcap
      exact (List.mem_filter.mp (List.mem_of_mem_take hcap)).2

/-- **Order and growth.** The verdict and its kind are those of every permutation. A list
that contains a rejected one is rejected as well, unless its count wraps around and nothing
else speaks against it. -/
theorem verdict_perm_and_mono_iff (checker : EntityAwareComposition) :
    (∀ caps caps' : List CapabilityContract, caps.Perm caps' →
      checker.verdict caps = checker.verdict caps') ∧
    ∀ caps' : List CapabilityContract,
      (∀ caps : List CapabilityContract, caps.Subperm caps' →
        checker.Rejects caps → checker.Rejects caps') ↔ ¬ checker.PassesOverLimit caps' := by
  refine ⟨fun caps caps' h => checker.verdict_perm h, fun caps' => ⟨fun hmono hpass => ?_, ?_⟩⟩
  · -- one write more than allowed is a list that the count does not wrap for
    obtain ⟨caps, hsub, hcount⟩ := exists_subperm_writeCount hpass.exceeds
    have hunsafe : checker.base.isSafe caps = false := by
      rw [← Bool.not_eq_true, isSafe_iff, hcount, Nat.mod_eq_of_lt hpass.limited]
      omega
    have hrejects := (checker.rejects_iff caps').mp
      (hmono caps hsub ((checker.rejects_iff caps).mpr (Or.inl hunsafe)))
    have hsafe := (isSafe_iff checker.base caps').mpr hpass.wraps
    rw [hsafe] at hrejects
    simp [hpass.tenants, hpass.contested, hpass.leaks] at hrejects
  · intro hnot caps hsub hrejects
    by_contra haccepts
    rw [rejects_iff, not_or, not_or, not_or, Bool.not_eq_false, isSafe_iff] at haccepts
    obtain ⟨hwraps, htenants, hcontested, hleaks⟩ := haccepts
    rcases (checker.rejects_iff caps).mp hrejects with hunsafe | hcross | hcont | hleak
    · rw [← Bool.not_eq_true, isSafe_iff, not_le] at hunsafe
      have hmod := Nat.mod_lt (writeCount caps) (show 0 < UInt32.size by decide)
      have hle : writeCount caps ≤ writeCount caps' := hsub.countP_le _
      have hcount := Nat.mod_le (writeCount caps) UInt32.size
      exact hnot ⟨by omega, by omega, hwraps, htenants, hcontested, hleaks⟩
    · exact htenants (crossesTenants_of_subset (writesOf_subperm hsub).subset hcross)
    · exact hcontested (hasContested_of_subperm hsub hcont)
    · exact hleaks (checker.hasLeak_of_subset hsub.subset hleak)

/-- A capability that sends something and writes no entity. -/
def mailCap : CapabilityContract :=
  { CapabilityContract.plain ⟨"cap-mail"⟩ "send mail" with sideEffect := .send }

theorem rejects_replicate_mailCap (n : ℕ) :
    (EntityAwareComposition.mk .default none).Rejects (List.replicate n mailCap) ↔
      3 < n % UInt32.size := by
  have hwrites : writesOf (List.replicate n mailCap) = [] := by
    rw [writesOf, List.flatMap_eq_nil_iff]
    intro cap hcap
    rw [List.eq_of_mem_replicate hcap]
    rfl
  have hcount : writeCount (List.replicate n mailCap) = n := by
    rw [writeCount, List.countP_replicate, if_pos (by rfl)]
  have hcross : ¬ CrossesTenants (List.replicate n mailCap) := by
    rintro ⟨w, hw, -⟩
    rw [hwrites] at hw
    cases hw
  have hcontested : ¬ HasContested (List.replicate n mailCap) := by
    rintro ⟨e, he⟩
    rw [Contested, referencesTo, hwrites] at he
    exact absurd he (Nat.not_succ_le_zero 1)
  have hleak : ¬ (EntityAwareComposition.mk .default none).HasLeak
      (List.replicate n mailCap) := by
    rintro ⟨cap, -, lookup, hlookup, -⟩
    cases hlookup
  rw [rejects_iff, ← Bool.not_eq_true, isSafe_iff, hcount, not_le]
  simp only [hcross, hcontested, hleak, or_false]
  rfl

/-- Four mails are too many and `2 ^ 32` of them are not. -/
theorem manyMails_accepted :
    (List.replicate 4 mailCap).Subperm (List.replicate UInt32.size mailCap) ∧
      (EntityAwareComposition.mk .default none).Rejects (List.replicate 4 mailCap) ∧
      ¬ (EntityAwareComposition.mk .default none).Rejects
        (List.replicate UInt32.size mailCap) := by
  refine ⟨?_, ?_, ?_⟩
  · exact (List.replicate_sublist_replicate _).mpr (by decide) |>.subperm
  · rw [rejects_replicate_mailCap]
    decide
  · rw [rejects_replicate_mailCap, Nat.mod_self]
    decide

end EntityAwareComposition

/-! ## Double-writes -/

section DoubleWrite

variable {caps : List CapabilityContract} {e : String}

/-- The capability declares a write to the entity id. -/
def WritesTo (cap : CapabilityContract) (e : String) : Prop := ∃ w ∈ cap.writes, w.entityId = e

/-- Two different capabilities of the list declare a write to the entity id. -/
def SharedWrite (caps : List CapabilityContract) (e : String) : Prop :=
  ∃ cap ∈ caps, ∃ cap' ∈ caps, cap.id ≠ cap'.id ∧ WritesTo cap e ∧ WritesTo cap' e

/-- The references to an entity id within one capability. -/
def ownReferences (cap : CapabilityContract) (e : String) : ℕ :=
  cap.writes.countP fun w => w.entityId = e

/-- A capability is a writer as often as it refers to the entity. -/
theorem writersOf_eq (caps : List CapabilityContract) (e : String) :
    writersOf caps e = caps.flatMap fun cap => List.replicate (ownReferences cap e) cap.id.raw := by
  rw [writersOf, writesOf, List.filterMap_flatMap]
  congr 1
  funext cap
  rw [List.filterMap_map, ownReferences, Function.comp_def]
  induction cap.writes with
  | nil => rfl
  | cons w writes ih =>
    by_cases he : w.entityId = e
    · simp [he, ih, List.replicate_succ]
    · simp [he, ih]

theorem writesTo_iff {cap : CapabilityContract} : WritesTo cap e ↔ 0 < ownReferences cap e := by
  simp [WritesTo, ownReferences, List.countP_pos_iff]

theorem mem_writersOf {name : String} :
    name ∈ writersOf caps e ↔ ∃ cap ∈ caps, cap.id.raw = name ∧ WritesTo cap e := by
  simp only [writersOf_eq, List.mem_flatMap, List.mem_replicate, writesTo_iff, Nat.pos_iff_ne_zero]
  refine exists_congr fun cap => and_congr_right fun _ => ?_
  rw [and_comm, eq_comm]

/-- With distinct ids, only a capability with two references is a writer twice. -/
theorem nodup_writersOf_iff (hids : (caps.map CapabilityContract.id).Nodup) :
    (writersOf caps e).Nodup ↔ ∀ cap ∈ caps, ownReferences cap e ≤ 1 := by
  rw [writersOf_eq, List.nodup_flatMap]
  simp only [List.nodup_replicate]
  refine and_iff_left (List.Pairwise.imp ?_ (List.pairwise_map.mp hids))
  intro cap cap' hne name hname hname'
  have hraw := (List.eq_of_mem_replicate hname).symm.trans (List.eq_of_mem_replicate hname')
  exact hne (congrArg CapabilityId.mk hraw)

/-- Two writers make an entity contested. -/
theorem SharedWrite.contested (h : SharedWrite caps e) : Contested caps e := by
  obtain ⟨cap, hcap, cap', hcap', hne, hwrites, hwrites'⟩ := h
  have hmem := mem_writersOf.mpr ⟨cap, hcap, rfl, hwrites⟩
  have hmem' := mem_writersOf.mpr ⟨cap', hcap', rfl, hwrites'⟩
  rw [Contested, ← length_writersOf]
  rcases hwriters : writersOf caps e with _ | ⟨name, _ | ⟨name', rest⟩⟩
  · rw [hwriters] at hmem
    cases hmem
  · rw [hwriters, List.mem_singleton] at hmem hmem'
    exact absurd (congrArg CapabilityId.mk (hmem.trans hmem'.symm)) hne
  · rw [List.length_cons, List.length_cons]
    omega

/-- A contested entity without repeated writers has two of them. -/
theorem Contested.shared (h : Contested caps e) (hnodup : (writersOf caps e).Nodup) :
    SharedWrite caps e := by
  rw [Contested, ← length_writersOf] at h
  rcases hwriters : writersOf caps e with _ | ⟨name, _ | ⟨name', rest⟩⟩
  · rw [hwriters] at h
    exact absurd h (Nat.not_succ_le_zero 1)
  · rw [hwriters] at h
    exact absurd h (Nat.lt_irrefl 1)
  · have hmem : name ∈ writersOf caps e := by simp [hwriters]
    have hmem' : name' ∈ writersOf caps e := by simp [hwriters]
    obtain ⟨cap, hcap, rfl, hwrites⟩ := mem_writersOf.mp hmem
    obtain ⟨cap', hcap', rfl, hwrites'⟩ := mem_writersOf.mp hmem'
    rw [hwriters] at hnodup
    refine ⟨cap, hcap, cap', hcap', fun hid => ?_, hwrites, hwrites'⟩
    exact (List.nodup_cons.mp hnodup).1 (by simp [hid])

namespace EntityAwareComposition

variable {checker : EntityAwareComposition}

/-- The check names the entity in a double-write. -/
def ReportsDoubleWrite (checker : EntityAwareComposition) (caps : List CapabilityContract)
    (e : String) : Prop :=
  ∃ names, checker.check caps = .error (.doubleWrite e names)

/-- What a double-write is for: the entity that is reported is the first one with two
writers, and the report names its writers, each once. -/
structure ReportsTwoWriters (checker : EntityAwareComposition) (caps : List CapabilityContract) :
    Prop where
  reports_iff : ∀ e, checker.ReportsDoubleWrite caps e ↔
    SharedWrite caps e ∧ ∀ e', SharedWrite caps e' → e ≤ e'
  nodup : ∀ e names, checker.check caps = .error (.doubleWrite e names) → names.Nodup
  names : ∀ e names, checker.check caps = .error (.doubleWrite e names) →
    ∀ name, name ∈ names ↔ ∃ cap ∈ caps, cap.id.raw = name ∧ WritesTo cap e

/-- With the two checks before it out of the way, the check reports what the detector
finds. -/
theorem check_eq_doubleWrite_iff (hsafe : checker.base.isSafe caps = true)
    (hfan : detectCrossTenantFanOut caps = none) {names : List String} :
    checker.check caps = .error (.doubleWrite e names) ↔
      FirstContested caps e ∧ names = writersOf caps e := by
  rw [check, if_neg (not_not.mpr hsafe), violation, hfan, Option.none_or]
  rcases hdouble : detectDoubleWrite caps with _ | v
  · have hnone : ¬ FirstContested caps e := fun hfirst => by
      have hsome := detectDoubleWrite_eq_some_iff.mpr ⟨e, hfirst, rfl⟩
      rw [hdouble] at hsome
      cases hsome
    rw [Option.none_or]
    rcases hleak : checker.classificationLookup.bind (detectClassificationLeak caps) with _ | v
    · simp [hnone]
    · obtain ⟨_, _, _, _, rfl⟩ := leak_of_detect hleak
      simp [hnone]
  · obtain ⟨e', hfirst, rfl⟩ := detectDoubleWrite_eq_some_iff.mp hdouble
    simp only [Option.some_or, Except.error.injEq, CompositionViolation.doubleWrite.injEq]
    constructor
    · rintro ⟨rfl, rfl⟩
      exact ⟨hfirst, rfl⟩
    · rintro ⟨hfirst', rfl⟩
      have he : e' = e := le_antisymm (hfirst.2 e hfirst'.1) (hfirst'.2 e' hfirst.1)
      exact ⟨he, by rw [he]⟩

/-- **Double-writes.** A list of capabilities with distinct ids that passes the checks before
has its double-writes reported as two writers of one entity, each once, exactly when no
capability refers twice to the first contested entity. -/
theorem reportsDoubleWrite_exact_iff (hids : (caps.map CapabilityContract.id).Nodup)
    (hsafe : checker.base.isSafe caps = true) (hfan : detectCrossTenantFanOut caps = none) :
    checker.ReportsTwoWriters caps ↔
      ∀ e, FirstContested caps e → ∀ cap ∈ caps, ownReferences cap e ≤ 1 := by
  constructor
  · intro hexact e hfirst
    rw [← nodup_writersOf_iff hids]
    exact hexact.nodup e _ ((check_eq_doubleWrite_iff hsafe hfan).mpr ⟨hfirst, rfl⟩)
  · intro hsingle
    have hnodup : ∀ e, FirstContested caps e → (writersOf caps e).Nodup := fun e hfirst =>
      (nodup_writersOf_iff hids).mpr (hsingle e hfirst)
    refine ⟨fun e => ?_, fun e names hcheck => ?_, fun e names hcheck name => ?_⟩
    · simp only [ReportsDoubleWrite, check_eq_doubleWrite_iff hsafe hfan, exists_eq_right]
      constructor
      · intro hfirst
        exact ⟨hfirst.1.shared (hnodup e hfirst), fun e' he' => hfirst.2 e' he'.contested⟩
      · rintro ⟨hshared, hleast⟩
        -- the first contested entity has two writers, so it is the first of those as well
        obtain ⟨e', hfirst⟩ := HasContested.exists_first ⟨e, hshared.contested⟩
        have hle := hleast e' (hfirst.1.shared (hnodup e' hfirst))
        have he : e = e' := le_antisymm hle (hfirst.2 e hshared.contested)
        rw [he]
        exact hfirst
    · obtain ⟨hfirst, rfl⟩ := (check_eq_doubleWrite_iff hsafe hfan).mp hcheck
      exact hnodup e hfirst
    · obtain ⟨-, rfl⟩ := (check_eq_doubleWrite_iff hsafe hfan).mp hcheck
      exact mem_writersOf

/-- A capability that writes two shelves of the stock. -/
def shelvingCap : CapabilityContract :=
  { CapabilityContract.plain ⟨"cap-shelving"⟩ "restock" with
    sideEffect := .write
    writes := [⟨"warehouse.Stock", ⟨1, 0, 0⟩, none, some "shelf-1"⟩,
      ⟨"warehouse.Stock", ⟨1, 0, 0⟩, none, some "shelf-2"⟩] }

/-- A capability that writes the stock. -/
def countingCap (id : String) : CapabilityContract :=
  { CapabilityContract.plain ⟨id⟩ "count stock" with
    sideEffect := .write
    writes := [⟨"warehouse.Stock", ⟨1, 0, 0⟩, none, none⟩] }

/-- Two capabilities with one reference each. -/
theorem reportsDoubleWrite_exact_countingCap :
    (EntityAwareComposition.mk .default none).ReportsTwoWriters
      [countingCap "cap-a", countingCap "cap-b"] := by
  refine (reportsDoubleWrite_exact_iff ?_ ?_ ?_).mpr ?_
  · decide +kernel
  · decide +kernel
  · decide +kernel
  · intro e _ cap hcap
    have hone : ∀ cap ∈ [countingCap "cap-a", countingCap "cap-b"], cap.writes.length = 1 := by
      simp [countingCap]
    exact (List.countP_le_length).trans (hone cap hcap).le

/-- One capability with two references is reported as two writers. -/
theorem shelvingCap_reported :
    ([shelvingCap].map CapabilityContract.id).Nodup ∧
      (EntityAwareComposition.mk .default none).base.isSafe [shelvingCap] = true ∧
      detectCrossTenantFanOut [shelvingCap] = none ∧
      (EntityAwareComposition.mk .default none).check [shelvingCap] =
        .error (.doubleWrite "warehouse.Stock" ["cap-shelving", "cap-shelving"]) ∧
      ¬ (EntityAwareComposition.mk .default none).ReportsTwoWriters [shelvingCap] := by
  have hcheck : (EntityAwareComposition.mk .default none).check [shelvingCap] =
      .error (.doubleWrite "warehouse.Stock" ["cap-shelving", "cap-shelving"]) := by
    decide +kernel
  refine ⟨by decide +kernel, by decide +kernel, by decide +kernel, hcheck, fun hexact => ?_⟩
  have hnodup := hexact.nodup _ _ hcheck
  revert hnodup
  decide

end EntityAwareComposition

end DoubleWrite

end Aaf
