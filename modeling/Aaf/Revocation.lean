import Mathlib.Data.Finset.Insert
import Aaf.Identity

/-!
# The revocation registry

`InMemoryRevocationRegistry`: the entries in the order of the calls, and an index of what they
revoke. A call appends its entry and indexes it; it does not look at the signature. So the
entries are authentic as long as those of the calls are: `authenticLog_iff`.
-/

namespace Aaf

/-- `InMemoryRevocationRegistry`. -/
structure InMemoryRevocationRegistry where
  entries : List RevocationEntry
  index : Finset (RevocationKind × String)

namespace InMemoryRevocationRegistry

/-- `InMemoryRevocationRegistry::new`. -/
def new : InMemoryRevocationRegistry := ⟨[], ∅⟩

/-- `InMemoryRevocationRegistry::revoke`. -/
def revoke (reg : InMemoryRevocationRegistry) (entry : RevocationEntry) :
    Except IdentityError Unit × InMemoryRevocationRegistry :=
  let key := (entry.kind, entry.target)
  (.ok (), ⟨reg.entries ++ [entry], insert key reg.index⟩)

/-- `InMemoryRevocationRegistry::is_revoked`. -/
def isRevoked (reg : InMemoryRevocationRegistry) (kind : RevocationKind) (target : String) : Bool :=
  decide ((kind, target) ∈ reg.index)

/-- `InMemoryRevocationRegistry::list`. -/
def list (reg : InMemoryRevocationRegistry) : List RevocationEntry := reg.entries

/-- The registry after the calls. -/
def after (calls : List RevocationEntry) : InMemoryRevocationRegistry := Machine.run revoke new calls

/-! ## The list and the index -/

/-- What the index holds is what the list has. -/
def Indexed (reg : InMemoryRevocationRegistry) : Prop :=
  ∀ kind target, reg.isRevoked kind target = true ↔
    ∃ entry ∈ reg.list, entry.kind = kind ∧ entry.target = target

theorem isRevoked_revoke (reg : InMemoryRevocationRegistry) (entry : RevocationEntry)
    (kind : RevocationKind) (target : String) :
    (reg.revoke entry).2.isRevoked kind target = true ↔
      entry.kind = kind ∧ entry.target = target ∨ reg.isRevoked kind target = true := by
  simp only [isRevoked, revoke, decide_eq_true_eq, Finset.mem_insert, Prod.mk.injEq]
  rw [eq_comm, eq_comm (a := target)]

theorem mem_list_revoke (reg : InMemoryRevocationRegistry) (entry e : RevocationEntry) :
    e ∈ (reg.revoke entry).2.list ↔ e ∈ reg.list ∨ e = entry := by
  rw [list, revoke, List.mem_append, List.mem_singleton]
  rfl

theorem indexed_revoke (reg : InMemoryRevocationRegistry) (entry : RevocationEntry)
    (h : reg.Indexed) : (reg.revoke entry).2.Indexed := by
  intro kind target
  rw [isRevoked_revoke, h kind target]
  refine ⟨?_, ?_⟩
  · rintro (hnew | ⟨e, he, hkey⟩)
    · exact ⟨entry, (mem_list_revoke reg entry entry).mpr (Or.inr rfl), hnew⟩
    · exact ⟨e, (mem_list_revoke reg entry e).mpr (Or.inl he), hkey⟩
  · rintro ⟨e, he, hkey⟩
    rcases (mem_list_revoke reg entry e).mp he with hold | rfl
    · exact Or.inr ⟨e, hold, hkey⟩
    · exact Or.inl hkey

theorem indexed_after (calls : List RevocationEntry) : (after calls).Indexed := by
  have hnew : new.Indexed := by
    intro kind target
    simp [isRevoked, list, new]
  exact Machine.run_invariant hnew indexed_revoke calls

/-! ## Authentic entries -/

/-- The entries that revoke something verify. -/
def Authentic (p : Primitives) (verifier : Verifier) (reg : InMemoryRevocationRegistry) : Prop :=
  ∀ entry ∈ reg.list, reg.isRevoked entry.kind entry.target = true →
    entry.verify p verifier = .ok ()

/-- A call keeps the entries authentic exactly when its own verifies. -/
theorem authentic_revoke_iff {p : Primitives} {verifier : Verifier}
    (reg : InMemoryRevocationRegistry) (entry : RevocationEntry) (hindexed : reg.Indexed)
    (h : reg.Authentic p verifier) :
    (reg.revoke entry).2.Authentic p verifier ↔ entry.verify p verifier = .ok () := by
  refine ⟨fun hafter => ?_, fun hentry e he _ => ?_⟩
  · exact hafter entry ((mem_list_revoke reg entry entry).mpr (Or.inr rfl))
      ((isRevoked_revoke reg entry _ _).mpr (Or.inl ⟨rfl, rfl⟩))
  · rcases (mem_list_revoke reg entry e).mp he with hold | rfl
    · exact h e hold ((hindexed _ _).mpr ⟨e, hold, rfl, rfl⟩)
    · exact hentry

/-- **An append-only list of authentic entries**, after any number of the calls: no call takes
an entry back or moves it, revoked is what the list has an entry for, and the entries verify. -/
structure AuthenticLog (p : Primitives) (verifier : Verifier) (calls : List RevocationEntry) :
    Prop where
  append_only : ∀ st ∈ Machine.trace revoke new calls, st.before.list <+: st.after.list
  indexed : ∀ pre post, calls = pre ++ post → (after pre).Indexed
  authentic : ∀ pre post, calls = pre ++ post → (after pre).Authentic p verifier

/-- **The registry is an append-only list of authentic entries exactly when every entry that it
is given verifies.** -/
theorem authenticLog_iff (p : Primitives) (verifier : Verifier) (calls : List RevocationEntry) :
    AuthenticLog p verifier calls ↔ ∀ entry ∈ calls, entry.verify p verifier = .ok () := by
  have hauthentic : (∀ pre post, calls = pre ++ post → (after pre).Authentic p verifier) ↔
      ∀ st ∈ Machine.trace revoke new calls, st.call.verify p verifier = .ok () := by
    refine Machine.forall_run_iff indexed_after ?_ authentic_revoke_iff calls
    intro entry hentry
    cases hentry
  refine ⟨fun h => Machine.forall_calls (hauthentic.mp h.authentic), fun h => ⟨?_, ?_, ?_⟩⟩
  · intro st hst
    obtain ⟨before, entry, _, -, rfl⟩ := Machine.mem_trace_iff.mp hst
    exact List.prefix_append _ [entry]
  · intro pre post _
    exact indexed_after pre
  · refine hauthentic.mpr fun st hst => ?_
    obtain ⟨before, entry, rest, hcalls, rfl⟩ := Machine.mem_trace_iff.mp hst
    exact h entry (by rw [hcalls]; exact List.mem_append_right _ List.mem_cons_self)

/-- No keystore accepts an entry without a signature. -/
theorem verify_ne_ok_of_unsigned {p : Primitives} (hp : p.Collisionless) (ks : InMemoryKeystore)
    {entry : RevocationEntry} (hunsigned : entry.signature = "") :
    entry.verify p (ks.verify p) ≠ .ok () := by
  intro hverify
  obtain ⟨material, -, hsigned⟩ :=
    InMemoryKeystore.sign_eq_ok_iff.mp ((InMemoryKeystore.verify_eq_ok_iff p ks _ _ _).mp hverify)
  have hlength : 12 ≤ (hmacSha256 p material.secret
      (Text.asBytes (entry.body.canonicalHash p))).length := hp.digest_length _
  have hempty := congrArg (fun s => s.toList.length) (hsigned.trans hunsigned)
  rw [length_hexEncode, String.toList_empty, List.length_nil] at hempty
  omega

/-- An entry that nobody signed, in the name of the administrator. -/
def forged : RevocationEntry :=
  ⟨.did, "did:aaf:5f70bf18a086007016e948b0", "compromised key", 0, AdminKey.did, ""⟩

/-- The forged entry revokes its target. -/
theorem forged_revokes :
    (after [forged]).isRevoked .did "did:aaf:5f70bf18a086007016e948b0" = true ∧
      ¬ AuthenticLog AdminKey.primitives (AdminKey.keystore.verify AdminKey.primitives)
        [forged] := by
  refine ⟨by decide, fun h => ?_⟩
  have hverify := h.authentic [forged] [] rfl forged (by decide) (by decide)
  exact verify_ne_ok_of_unsigned AdminKey.collisionless AdminKey.keystore rfl hverify

end InMemoryRevocationRegistry

end Aaf
