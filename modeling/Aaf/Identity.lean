import Aaf.Executor
import Aaf.Keystore
import Aaf.Loop

/-!
# Signed identity objects

`aaf-identity`: capability tokens, agent manifests, attestations and revocation entries. Each
of them is written as JSON without its signature, digested, and signed by one of the DIDs in
it. What is written is said once where the object is issued and once where it is verified; the
two are kept apart here as they are in the source.

For each type: what was issued verifies, and what was changed under its signature does not.
`signed_objects_tamper_evident` puts them together.
-/

namespace Aaf

open JsonText (Value)
open Signing (TamperEvident)

/-! ## What is signed -/

/-- The digest of what is written, in hexadecimal: the end of every `canonical_hash`. -/
def contentHash (p : Primitives) (v : Value) : String := hexEncode (p.sha256 (toVec v))

theorem contentHash_injective {p : Primitives} (hp : p.Collisionless) :
    Function.Injective (contentHash p) := by
  intro v v' h
  exact toVec_injective (hp.digest v v' (hexEncode_injective h))

/-- What is written and signed cannot be changed, when nothing but the signature is left
out. -/
theorem tamperEvident_of_value {p : Primitives} (hp : p.Collisionless) {sign : Signer}
    {verify : Verifier} (hsound : Signing.Sound sign verify) {O : Type} (signer : O → AgentDid)
    (value : O → Value) {signature : O → String} {accepted : O → Prop}
    (haccepted : ∀ o, accepted o →
      verify (signer o) (Text.asBytes (contentHash p (value o))) (signature o) = .ok ())
    (hcovers : ∀ o o', value o = value o' → signature o = signature o' → o = o') :
    TamperEvident signature accepted := by
  refine hsound.tamperEvident signer (fun o => Text.asBytes (contentHash p (value o))) haccepted ?_
  intro o o' hmessage
  exact hcovers o o' (contentHash_injective hp (Text.asBytes_injective hmessage))

theorem CapabilityId.raw_injective : Function.Injective CapabilityId.raw := by
  rintro ⟨raw⟩ ⟨raw'⟩ rfl
  rfl

/-! ## Capability tokens -/

/-- Claims inside of a capability token. -/
structure TokenClaims where
  issuer : AgentDid
  subject : AgentDid
  scope : List CapabilityId
  depthRemaining : UInt8
  notBefore : ℤ
  expiresAt : ℤ
  jti : String
  deriving DecidableEq, Repr

/-- `TokenClaims::serialize`. -/
def TokenClaims.toValue (p : Primitives) (claims : TokenClaims) : Value :=
  .struct [
    ("issuer", .str claims.issuer.raw),
    ("subject", .str claims.subject.raw),
    ("scope", Value.strings CapabilityId.raw claims.scope),
    ("depth_remaining", .nat claims.depthRemaining.toNat),
    ("not_before", .str (p.rfc3339 claims.notBefore)),
    ("expires_at", .str (p.rfc3339 claims.expiresAt)),
    ("jti", .str claims.jti)]

/-- `TokenClaims::canonical_hash`. -/
def TokenClaims.canonicalHash (p : Primitives) (claims : TokenClaims) : String :=
  contentHash p (claims.toValue p)

theorem TokenClaims.toValue_injective {p : Primitives} (hp : p.Collisionless) :
    Function.Injective (TokenClaims.toValue p) := by
  rintro ⟨⟨issuer⟩, ⟨subject⟩, scope, depth, notBefore, expiresAt, jti⟩
    ⟨⟨issuer'⟩, ⟨subject'⟩, scope', depth', notBefore', expiresAt', jti'⟩ h
  simp only [toValue, Value.struct.injEq, List.cons.injEq, Prod.mk.injEq, Value.str.injEq,
    Value.nat.injEq, Value.strings_inj CapabilityId.raw_injective, UInt8.toNat_inj,
    hp.rfc3339.eq_iff, true_and, and_true] at h
  simpa only [TokenClaims.mk.injEq, AgentDid.mk.injEq] using h

/-- A signed capability token. -/
structure CapabilityToken where
  claims : TokenClaims
  signature : String
  deriving DecidableEq, Repr

namespace CapabilityToken

/-- `CapabilityToken::issue`. -/
def issue (p : Primitives) (claims : TokenClaims) (signer : Signer) :
    Except IdentityError CapabilityToken := do
  let hash := claims.canonicalHash p
  let signature ← signer claims.issuer (Text.asBytes hash)
  return ⟨claims, signature⟩

/-- `CapabilityToken::verify` at an instant. -/
def verify (p : Primitives) (token : CapabilityToken) (verifier : Verifier) (now : ℤ)
    (requiredCapability : CapabilityId) : Except IdentityError Unit := do
  let hash := token.claims.canonicalHash p
  verifier token.claims.issuer (Text.asBytes hash) token.signature
  if now < token.claims.notBefore ∨ now > token.claims.expiresAt then .error .tokenNotInEffect
  else if !token.claims.scope.any (decide <| · = requiredCapability) then
    .error (.notInScope requiredCapability.raw)
  else .ok ()

/-- A token verifies when its signature does, inside of its window and its scope. -/
theorem verify_eq_ok_iff (p : Primitives) (token : CapabilityToken) (verifier : Verifier) (now : ℤ)
    (capability : CapabilityId) :
    token.verify p verifier now capability = .ok () ↔
      verifier token.claims.issuer (Text.asBytes (token.claims.canonicalHash p))
          token.signature = .ok () ∧
        token.claims.notBefore ≤ now ∧ now ≤ token.claims.expiresAt ∧
        capability ∈ token.claims.scope := by
  rw [verify, Loop.bind_ok_iff]
  refine ⟨?_, ?_⟩
  · rintro ⟨_, hsignature, hrest⟩
    by_cases hwindow : now < token.claims.notBefore ∨ now > token.claims.expiresAt
    · rw [if_pos hwindow] at hrest
      cases hrest
    · rw [if_neg hwindow] at hrest
      split at hrest
      · cases hrest
      · next hscope => exact ⟨hsignature, by omega, by omega, by simpa using hscope⟩
  · rintro ⟨hsignature, hfrom, hto, hscope⟩
    refine ⟨(), hsignature, ?_⟩
    rw [if_neg (by omega), if_neg (by simpa using hscope)]

/-- What was issued verifies, inside of its window and its scope. -/
theorem verify_of_issue {p : Primitives} {signer : Signer} {verifier : Verifier}
    (hsound : Signing.Sound signer verifier) {claims : TokenClaims} {token : CapabilityToken}
    (hissue : issue p claims signer = .ok token) (now : ℤ) (capability : CapabilityId) :
    token.verify p verifier now capability = .ok () ↔
      claims.notBefore ≤ now ∧ now ≤ claims.expiresAt ∧ capability ∈ claims.scope := by
  obtain ⟨signature, hsign, htoken⟩ := Loop.bind_ok_iff.mp hissue
  cases htoken
  rw [verify_eq_ok_iff, hsound.verify_iff, and_iff_right hsign]

theorem tamperEvident {p : Primitives} (hp : p.Collisionless) {signer : Signer}
    {verifier : Verifier} (hsound : Signing.Sound signer verifier) :
    TamperEvident CapabilityToken.signature
      fun token => ∃ now capability, token.verify p verifier now capability = .ok () := by
  refine tamperEvident_of_value hp hsound (fun token : CapabilityToken => token.claims.issuer)
    (fun token => token.claims.toValue p) ?_ ?_
  · rintro token ⟨now, capability, hverify⟩
    exact ((verify_eq_ok_iff p token verifier now capability).mp hverify).1
  · rintro ⟨claims, signature⟩ ⟨claims', signature'⟩ hvalue hsignature
    cases TokenClaims.toValue_injective hp hvalue
    cases hsignature
    rfl

end CapabilityToken

/-! ## Manifests -/

/-- A pinned model version. -/
structure ModelPin where
  provider : String
  model : String
  systemPromptHash : String
  deriving DecidableEq, Repr

/-- `ModelPin::serialize`. -/
def ModelPin.toValue (pin : ModelPin) : Value :=
  .struct [
    ("provider", .str pin.provider),
    ("model", .str pin.model),
    ("system_prompt_hash", .str pin.systemPromptHash)]

theorem ModelPin.toValue_injective : Function.Injective ModelPin.toValue := by
  rintro ⟨provider, model, hash⟩ ⟨provider', model', hash'⟩ h
  simpa [toValue] using h

/-- A pinned tool. -/
structure ToolBinding where
  toolId : String
  version : String
  interfaceHash : String
  deriving DecidableEq, Repr

/-- `ToolBinding::serialize`. -/
def ToolBinding.toValue (binding : ToolBinding) : Value :=
  .struct [
    ("tool_id", .str binding.toolId),
    ("version", .str binding.version),
    ("interface_hash", .str binding.interfaceHash)]

theorem ToolBinding.toValue_injective : Function.Injective ToolBinding.toValue := by
  rintro ⟨toolId, version, hash⟩ ⟨toolId', version', hash'⟩ h
  simpa [toValue] using h

/-- Signed agent manifest. -/
structure AgentManifest where
  did : AgentDid
  displayName : String
  sourceHash : String
  modelPins : List ModelPin
  promptHashes : List String
  toolBindings : List ToolBinding
  ontologySlices : List String
  capabilityAllowList : List CapabilityId
  evalSuiteRefs : List String
  issuedAt : ℤ
  expiresAt : Option ℤ
  signature : String
  deriving DecidableEq, Repr

/-- A manifest without its signature. -/
structure ManifestBody where
  did : AgentDid
  displayName : String
  sourceHash : String
  modelPins : List ModelPin
  promptHashes : List String
  toolBindings : List ToolBinding
  ontologySlices : List String
  capabilityAllowList : List CapabilityId
  evalSuiteRefs : List String
  issuedAt : ℤ
  expiresAt : Option ℤ

/-- `ManifestBody::serialize`. -/
def ManifestBody.toValue (p : Primitives) (body : ManifestBody) : Value :=
  .struct [
    ("did", .str body.did.raw),
    ("display_name", .str body.displayName),
    ("source_hash", .str body.sourceHash),
    ("model_pins", .seq (body.modelPins.map ModelPin.toValue)),
    ("prompt_hashes", Value.strings id body.promptHashes),
    ("tool_bindings", .seq (body.toolBindings.map ToolBinding.toValue)),
    ("ontology_slices", Value.strings id body.ontologySlices),
    ("capability_allow_list", Value.strings CapabilityId.raw body.capabilityAllowList),
    ("eval_suite_refs", Value.strings id body.evalSuiteRefs),
    ("issued_at", .str (p.rfc3339 body.issuedAt)),
    ("expires_at", Value.optional p.rfc3339 body.expiresAt)]

theorem ManifestBody.toValue_injective {p : Primitives} (hp : p.Collisionless) :
    Function.Injective (ManifestBody.toValue p) := by
  rintro ⟨⟨did⟩, name, source, pins, prompts, tools, slices, allowed, evals, issued, expires⟩
    ⟨⟨did'⟩, name', source', pins', prompts', tools', slices', allowed', evals', issued',
      expires'⟩ h
  have hpins := (List.map_injective_iff.mpr ModelPin.toValue_injective).eq_iff (a := pins)
    (b := pins')
  have htools := (List.map_injective_iff.mpr ToolBinding.toValue_injective).eq_iff (a := tools)
    (b := tools')
  simp only [toValue, Value.struct.injEq, List.cons.injEq, Prod.mk.injEq, Value.str.injEq,
    Value.seq.injEq, hpins, htools, Value.strings_inj Function.injective_id,
    Value.strings_inj CapabilityId.raw_injective, Value.optional_inj hp.rfc3339, hp.rfc3339.eq_iff,
    true_and, and_true] at h
  simpa only [ManifestBody.mk.injEq, AgentDid.mk.injEq] using h

namespace AgentManifest

/-- What `canonical_hash` copies out of a manifest. -/
def body (manifest : AgentManifest) : ManifestBody where
  did := manifest.did
  displayName := manifest.displayName
  sourceHash := manifest.sourceHash
  modelPins := manifest.modelPins
  promptHashes := manifest.promptHashes
  toolBindings := manifest.toolBindings
  ontologySlices := manifest.ontologySlices
  capabilityAllowList := manifest.capabilityAllowList
  evalSuiteRefs := manifest.evalSuiteRefs
  issuedAt := manifest.issuedAt
  expiresAt := manifest.expiresAt

/-- `AgentManifest::canonical_hash`. -/
def canonicalHash (p : Primitives) (manifest : AgentManifest) : String :=
  contentHash p (manifest.body.toValue p)

/-- `AgentManifest::verify`. -/
def verify (p : Primitives) (manifest : AgentManifest) (verifier : Verifier) :
    Except IdentityError Unit :=
  if !manifest.did.isWellFormed then .error .invalidSignature
  else
    let bodyHash := manifest.canonicalHash p
    verifier manifest.did (Text.asBytes bodyHash) manifest.signature

end AgentManifest

/-- `ManifestBuilder`. -/
structure ManifestBuilder where
  did : AgentDid
  displayName : String
  sourceHash : String
  modelPins : List ModelPin
  promptHashes : List String
  toolBindings : List ToolBinding
  ontologySlices : List String
  capabilityAllowList : List CapabilityId
  evalSuiteRefs : List String
  expiresAt : Option ℤ

/-- `ManifestBuilder::build` at an instant. -/
def ManifestBuilder.build (p : Primitives) (builder : ManifestBuilder) (now : ℤ)
    (signer : Signer) : Except IdentityError AgentManifest := do
  let body : ManifestBody :=
    { did := builder.did
      displayName := builder.displayName
      sourceHash := builder.sourceHash
      modelPins := builder.modelPins
      promptHashes := builder.promptHashes
      toolBindings := builder.toolBindings
      ontologySlices := builder.ontologySlices
      capabilityAllowList := builder.capabilityAllowList
      evalSuiteRefs := builder.evalSuiteRefs
      issuedAt := now
      expiresAt := builder.expiresAt }
  let hash := contentHash p (body.toValue p)
  let signature ← signer builder.did (Text.asBytes hash)
  return {
    did := body.did
    displayName := body.displayName
    sourceHash := body.sourceHash
    modelPins := body.modelPins
    promptHashes := body.promptHashes
    toolBindings := body.toolBindings
    ontologySlices := body.ontologySlices
    capabilityAllowList := body.capabilityAllowList
    evalSuiteRefs := body.evalSuiteRefs
    issuedAt := body.issuedAt
    expiresAt := body.expiresAt
    signature := signature }

namespace AgentManifest

theorem verify_eq_ok_iff (p : Primitives) (manifest : AgentManifest) (verifier : Verifier) :
    manifest.verify p verifier = .ok () ↔ manifest.did.isWellFormed = true ∧
      verifier manifest.did (Text.asBytes (manifest.canonicalHash p)) manifest.signature =
        .ok () := by
  rw [verify]
  cases manifest.did.isWellFormed <;> simp

theorem tamperEvident {p : Primitives} (hp : p.Collisionless) {signer : Signer}
    {verifier : Verifier} (hsound : Signing.Sound signer verifier) :
    TamperEvident AgentManifest.signature fun manifest => manifest.verify p verifier = .ok () := by
  refine tamperEvident_of_value hp hsound AgentManifest.did
    (fun manifest => manifest.body.toValue p) ?_ ?_
  · intro manifest hverify
    exact ((verify_eq_ok_iff p manifest verifier).mp hverify).2
  · intro manifest manifest' hvalue hsignature
    have hbody := ManifestBody.toValue_injective hp hvalue
    cases manifest
    cases manifest'
    cases hbody
    cases hsignature
    rfl

end AgentManifest

/-! ## Attestations -/

/-- Attestation levels, weakest first. -/
inductive AttestationLevel : Type where
  | unattested : AttestationLevel
  | autoVerified : AttestationLevel
  | humanReviewed : AttestationLevel
  | certified : AttestationLevel
  deriving DecidableEq, Repr

/-- `AttestationLevel::serialize`. -/
def AttestationLevel.toValue : AttestationLevel → Value
  | unattested => .str "unattested"
  | autoVerified => .str "auto_verified"
  | humanReviewed => .str "human_reviewed"
  | certified => .str "certified"

theorem AttestationLevel.toValue_injective : Function.Injective AttestationLevel.toValue := by
  intro level level' h
  cases level <;> cases level' <;> simp [toValue] at h ⊢

/-- A signed attestation record. -/
structure Attestation where
  issuer : AgentDid
  subject : AgentDid
  manifestHash : String
  level : AttestationLevel
  rationale : String
  issuedAt : ℤ
  expiresAt : Option ℤ
  signature : String
  deriving DecidableEq, Repr

/-- An attestation without its signature. -/
structure AttestationBody where
  issuer : AgentDid
  subject : AgentDid
  manifestHash : String
  level : AttestationLevel
  rationale : String
  issuedAt : ℤ
  expiresAt : Option ℤ

namespace AttestationBody

/-- `AttestationBody::serialize`. -/
def toValue (p : Primitives) (body : AttestationBody) : Value :=
  .struct [
    ("issuer", .str body.issuer.raw),
    ("subject", .str body.subject.raw),
    ("manifest_hash", .str body.manifestHash),
    ("level", body.level.toValue),
    ("rationale", .str body.rationale),
    ("issued_at", .str (p.rfc3339 body.issuedAt)),
    ("expires_at", Value.optional p.rfc3339 body.expiresAt)]

/-- `AttestationBody::canonical_hash`. -/
def canonicalHash (p : Primitives) (body : AttestationBody) : String :=
  contentHash p (body.toValue p)

theorem toValue_injective {p : Primitives} (hp : p.Collisionless) :
    Function.Injective (AttestationBody.toValue p) := by
  rintro ⟨⟨issuer⟩, ⟨subject⟩, hash, level, rationale, issued, expires⟩
    ⟨⟨issuer'⟩, ⟨subject'⟩, hash', level', rationale', issued', expires'⟩ h
  simp only [toValue, Value.struct.injEq, List.cons.injEq, Prod.mk.injEq, Value.str.injEq,
    AttestationLevel.toValue_injective.eq_iff, Value.optional_inj hp.rfc3339, hp.rfc3339.eq_iff, true_and,
    and_true] at h
  simpa only [AttestationBody.mk.injEq, AgentDid.mk.injEq] using h

end AttestationBody

/-- `AgentManifest::serialize`: unlike its body, it has its signature, and no expiry when there
is none. -/
def AgentManifest.toValue (p : Primitives) (manifest : AgentManifest) : Value :=
  .struct ([
    ("did", .str manifest.did.raw),
    ("display_name", .str manifest.displayName),
    ("source_hash", .str manifest.sourceHash),
    ("model_pins", .seq (manifest.modelPins.map ModelPin.toValue)),
    ("prompt_hashes", Value.strings id manifest.promptHashes),
    ("tool_bindings", .seq (manifest.toolBindings.map ToolBinding.toValue)),
    ("ontology_slices", Value.strings id manifest.ontologySlices),
    ("capability_allow_list", Value.strings CapabilityId.raw manifest.capabilityAllowList),
    ("eval_suite_refs", Value.strings id manifest.evalSuiteRefs),
    ("issued_at", .str (p.rfc3339 manifest.issuedAt))] ++
    manifest.expiresAt.toList.map (fun t => ("expires_at", .str (p.rfc3339 t))) ++
    [("signature", .str manifest.signature)])

/-- `manifest_content_hash`. -/
def manifestContentHash (p : Primitives) (manifest : AgentManifest) : String :=
  contentHash p (manifest.toValue p)

namespace Attestation

/-- `Attestation::issue` at an instant. -/
def issue (p : Primitives) (issuer subject : AgentDid) (manifest : AgentManifest)
    (level : AttestationLevel) (rationale : String) (expiresAt : Option ℤ) (now : ℤ)
    (signer : Signer) : Except IdentityError Attestation := do
  let manifestHash := manifestContentHash p manifest
  let body : AttestationBody :=
    { issuer := issuer
      subject := subject
      manifestHash := manifestHash
      level := level
      rationale := rationale
      issuedAt := now
      expiresAt := expiresAt }
  let hash := body.canonicalHash p
  let signature ← signer issuer (Text.asBytes hash)
  return {
    issuer := body.issuer
    subject := body.subject
    manifestHash := body.manifestHash
    level := body.level
    rationale := body.rationale
    issuedAt := body.issuedAt
    expiresAt := body.expiresAt
    signature := signature }

/-- What `verify` copies out of an attestation. -/
def body (attestation : Attestation) : AttestationBody where
  issuer := attestation.issuer
  subject := attestation.subject
  manifestHash := attestation.manifestHash
  level := attestation.level
  rationale := attestation.rationale
  issuedAt := attestation.issuedAt
  expiresAt := attestation.expiresAt

/-- `Attestation::verify`. -/
def verify (p : Primitives) (attestation : Attestation) (verifier : Verifier) :
    Except IdentityError Unit :=
  let hash := attestation.body.canonicalHash p
  verifier attestation.issuer (Text.asBytes hash) attestation.signature

theorem verify_of_issue {p : Primitives} {signer : Signer} {verifier : Verifier}
    (hsound : Signing.Sound signer verifier) {issuer subject : AgentDid}
    {manifest : AgentManifest} {level : AttestationLevel} {rationale : String}
    {expiresAt : Option ℤ} {now : ℤ} {attestation : Attestation}
    (hissue : issue p issuer subject manifest level rationale expiresAt now signer =
      .ok attestation) : attestation.verify p verifier = .ok () := by
  obtain ⟨signature, hsign, hattestation⟩ := Loop.bind_ok_iff.mp hissue
  cases hattestation
  exact (hsound.verify_iff _ _ _).mpr hsign

theorem tamperEvident {p : Primitives} (hp : p.Collisionless) {signer : Signer}
    {verifier : Verifier} (hsound : Signing.Sound signer verifier) :
    TamperEvident Attestation.signature
      fun attestation => attestation.verify p verifier = .ok () := by
  refine tamperEvident_of_value hp hsound Attestation.issuer
    (fun attestation => attestation.body.toValue p) (fun attestation hverify => hverify) ?_
  intro attestation attestation' hvalue hsignature
  have hbody := AttestationBody.toValue_injective hp hvalue
  cases attestation
  cases attestation'
  cases hbody
  cases hsignature
  rfl

end Attestation

/-! ## Revocation entries -/

/-- `RevocationKind::serialize`. -/
def RevocationKind.toValue : RevocationKind → Value
  | did => .str "did"
  | promptHash => .str "prompt_hash"
  | toolVersion => .str "tool_version"
  | manifestHash => .str "manifest_hash"
  | tokenJti => .str "token_jti"

theorem RevocationKind.toValue_injective : Function.Injective RevocationKind.toValue := by
  intro kind kind' h
  cases kind <;> cases kind' <;> simp [toValue] at h ⊢

/-- One revocation record. -/
structure RevocationEntry where
  kind : RevocationKind
  target : String
  reason : String
  revokedAt : ℤ
  signer : AgentDid
  signature : String
  deriving DecidableEq, Repr

/-- An entry without its signature. -/
structure RevocationBody where
  kind : RevocationKind
  target : String
  reason : String
  revokedAt : ℤ
  signer : AgentDid

namespace RevocationBody

/-- `RevocationBody::serialize`. -/
def toValue (p : Primitives) (body : RevocationBody) : Value :=
  .struct [
    ("kind", body.kind.toValue),
    ("target", .str body.target),
    ("reason", .str body.reason),
    ("revoked_at", .str (p.rfc3339 body.revokedAt)),
    ("signer", .str body.signer.raw)]

/-- `RevocationBody::canonical_hash`. -/
def canonicalHash (p : Primitives) (body : RevocationBody) : String :=
  contentHash p (body.toValue p)

theorem toValue_injective {p : Primitives} (hp : p.Collisionless) :
    Function.Injective (RevocationBody.toValue p) := by
  rintro ⟨kind, target, reason, revoked, ⟨signer⟩⟩ ⟨kind', target', reason', revoked', ⟨signer'⟩⟩ h
  simp only [toValue, Value.struct.injEq, List.cons.injEq, Prod.mk.injEq, Value.str.injEq,
    RevocationKind.toValue_injective.eq_iff, hp.rfc3339.eq_iff, true_and, and_true] at h
  simpa only [RevocationBody.mk.injEq, AgentDid.mk.injEq] using h

end RevocationBody

namespace RevocationEntry

/-- `RevocationEntry::issue` at an instant. -/
def issue (p : Primitives) (kind : RevocationKind) (target reason : String)
    (signerDid : AgentDid) (now : ℤ) (signer : Signer) :
    Except IdentityError RevocationEntry := do
  let body : RevocationBody :=
    { kind := kind
      target := target
      reason := reason
      revokedAt := now
      signer := signerDid }
  let hash := body.canonicalHash p
  let signature ← signer signerDid (Text.asBytes hash)
  return {
    kind := body.kind
    target := body.target
    reason := body.reason
    revokedAt := body.revokedAt
    signer := body.signer
    signature := signature }

/-- What `verify` copies out of an entry. -/
def body (entry : RevocationEntry) : RevocationBody where
  kind := entry.kind
  target := entry.target
  reason := entry.reason
  revokedAt := entry.revokedAt
  signer := entry.signer

/-- `RevocationEntry::verify`. -/
def verify (p : Primitives) (entry : RevocationEntry) (verifier : Verifier) :
    Except IdentityError Unit :=
  verifier entry.signer (Text.asBytes (entry.body.canonicalHash p)) entry.signature

theorem verify_of_issue {p : Primitives} {signer : Signer} {verifier : Verifier}
    (hsound : Signing.Sound signer verifier) {kind : RevocationKind} {target reason : String}
    {signerDid : AgentDid} {now : ℤ} {entry : RevocationEntry}
    (hissue : issue p kind target reason signerDid now signer = .ok entry) :
    entry.verify p verifier = .ok () := by
  obtain ⟨signature, hsign, hentry⟩ := Loop.bind_ok_iff.mp hissue
  cases hentry
  exact (hsound.verify_iff _ _ _).mpr hsign

theorem tamperEvident {p : Primitives} (hp : p.Collisionless) {signer : Signer}
    {verifier : Verifier} (hsound : Signing.Sound signer verifier) :
    TamperEvident RevocationEntry.signature fun entry => entry.verify p verifier = .ok () := by
  refine tamperEvident_of_value hp hsound RevocationEntry.signer
    (fun entry => entry.body.toValue p) (fun entry hverify => hverify) ?_
  intro entry entry' hvalue hsignature
  have hbody := RevocationBody.toValue_injective hp hvalue
  cases entry
  cases entry'
  cases hbody
  cases hsignature
  rfl

end RevocationEntry

/-! ## A key

The key of the seed `admin`, with the SHA-256 digests that come up when it signs a token. Off
the table, digests and instants are told apart in another way. -/

/-- A function given by a table, and by another function off the table. -/
def tabled {α β : Type} [DecidableEq α] (table : List (α × β)) (otherwise : α → β) (x : α) : β :=
  match table.find? fun entry => decide (entry.1 = x) with
  | some entry => entry.2
  | none => otherwise x

theorem tabled_cases {α β : Type} [DecidableEq α] (table : List (α × β)) (otherwise : α → β)
    (x : α) : (x, tabled table otherwise x) ∈ table ∨ tabled table otherwise x = otherwise x := by
  rw [tabled]
  split
  · next entry hfind =>
    have hkey : entry.1 = x := by simpa using List.find?_some hfind
    rw [← hkey]
    exact Or.inl (List.mem_of_find?_eq_some hfind)
  · exact Or.inr rfl

theorem tabled_injective {α β : Type} [DecidableEq α] {table : List (α × β)} {otherwise : α → β}
    (hvalues : (table.map Prod.snd).Nodup) (hother : Function.Injective otherwise)
    (hfresh : ∀ entry ∈ table, ∀ x, otherwise x ≠ entry.2) :
    Function.Injective (tabled table otherwise) := by
  intro x y h
  rcases tabled_cases table otherwise x with hx | hx <;>
    rcases tabled_cases table otherwise y with hy | hy
  · rw [h] at hx
    exact (Prod.mk.inj (List.inj_on_of_nodup_map hvalues hx hy rfl)).1
  · rw [h, hy] at hx
    exact absurd rfl (hfresh _ hx y)
  · rw [← h, hx] at hy
    exact absurd rfl (hfresh _ hy x)
  · rw [hx, hy] at h
    exact hother h

/-- The bytes that hexadecimal digits stand for. -/
def hexDecode : List Char → List UInt8
  | high :: low :: rest => UInt8.ofNat (16 * value high + value low) :: hexDecode rest
  | _ => []
where
  value (c : Char) : ℕ := if c.isDigit then c.toNat - 48 else c.toNat - 87

namespace AdminKey

def secret : List UInt8 :=
  hexDecode "7f6d6b5349a59978dcef38d5e00869d2513b89fc9b1613da065f6d5f9ed7e2e5".toList

def verifying : List UInt8 :=
  hexDecode "1f9ba92b1f12711af27c79f2a5611bc4d1b17583c0b5284abdd802a6292eb86d".toList

def did : AgentDid := ⟨"did:aaf:86fc64de15a9c9838b3ce257"⟩

def keyPad (x : UInt8) : List UInt8 := (secret ++ List.replicate 32 0).map (· ^^^ x)

/-- A grant of `cap-order-read` for the first hour of 1970. -/
def claims : TokenClaims :=
  ⟨did, ⟨"did:aaf:5f70bf18a086007016e948b0"⟩, [⟨"cap-order-read"⟩], 3, 0, 3600000000000, "jti-1"⟩

def claimsText : String :=
  "\x7b\"issuer\":\"did:aaf:86fc64de15a9c9838b3ce257\"," ++
  "\"subject\":\"did:aaf:5f70bf18a086007016e948b0\",\"scope\":[\"cap-order-read\"]," ++
  "\"depth_remaining\":3,\"not_before\":\"1970-01-01T00:00:00Z\"," ++
  "\"expires_at\":\"1970-01-01T01:00:00Z\",\"jti\":\"jti-1\"\x7d"

def claimsHash : String := "e7a203ac3ff727fee63545315eaa224c3006ead23aae88208f2c4f6fb8633325"

def inner : List UInt8 :=
  hexDecode "75403aaa5a135450aaa486f581ec8bac537f109192a9197e19d1d261d630ea7c".toList

def token : CapabilityToken :=
  ⟨claims, "433f9388572fa14e558b876c3b6a23269a935934161f2890ce91f7315903c2d3"⟩

/-- The same grant, good for one more delegation. -/
def deeperToken : CapabilityToken :=
  { token with claims := { claims with depthRemaining := 4 } }

def digests : List (List UInt8 × List UInt8) := [
  (Text.asBytes "aaf-identity-secret:admin", secret),
  (Text.asBytes "aaf-identity-verifying:" ++ secret, verifying),
  (verifying,
    hexDecode "86fc64de15a9c9838b3ce2574d50685686e074fea6c75a0f8e0ae47dd44b9cbe".toList),
  (Text.asBytes claimsText, hexDecode claimsHash.toList),
  (keyPad 0x36 ++ Text.asBytes claimsHash, inner),
  (keyPad 0x5c ++ inner, hexDecode token.signature.toList)]

def instants : List (ℤ × String) :=
  [(0, "1970-01-01T00:00:00Z"), (3600000000000, "1970-01-01T01:00:00Z")]

def otherInstant (t : ℤ) : String :=
  String.ofList ('@' :: (if 0 ≤ t then '+' else '-') :: Nat.toDigits 10 t.natAbs)

/-- Primitives that give the digests of a table. -/
def withDigests (digests : List (List UInt8 × List UInt8)) : Primitives where
  sha256 := tabled digests fun bytes => List.replicate 33 0 ++ bytes
  rfc3339 := tabled instants otherInstant

def primitives : Primitives where
  sha256 := tabled digests fun bytes => List.replicate 33 0 ++ bytes
  rfc3339 := tabled instants otherInstant

def keystore : InMemoryKeystore :=
  InMemoryKeystore.generated primitives [Text.asBytes "admin"]

theorem withDigests_sha256_injective {digests : List (List UInt8 × List UInt8)}
    (hvalues : (digests.map Prod.snd).Nodup) (hlength : ∀ entry ∈ digests, entry.2.length = 32) :
    Function.Injective (withDigests digests).sha256 := by
  refine tabled_injective hvalues (List.append_right_injective _) ?_
  intro entry hentry bytes h
  have hbytes := congrArg List.length h
  rw [List.length_append, List.length_replicate, hlength entry hentry] at hbytes
  omega

theorem otherInstant_injective : Function.Injective otherInstant := by
  intro t t' h
  obtain ⟨hsign, hdigits⟩ := List.cons.inj (List.cons.inj (String.ofList_inj.mp h)).2
  have habs : t.natAbs = t'.natAbs := Text.toDigits_injective hdigits
  by_cases ht : 0 ≤ t <;> by_cases ht' : 0 ≤ t' <;> simp [ht, ht'] at hsign <;> omega

theorem withDigests_collisionless {digests : List (List UInt8 × List UInt8)}
    (hvalues : (digests.map Prod.snd).Nodup) (hlength : ∀ entry ∈ digests, entry.2.length = 32) :
    (withDigests digests).Collisionless where
  digest_length := by
    intro bytes
    rcases tabled_cases digests (fun bytes => List.replicate 33 0 ++ bytes) bytes with
      hlisted | hother
    · exact le_of_le_of_eq (by decide) (hlength _ hlisted).symm
    · have hbytes := congrArg List.length hother
      rw [List.length_append, List.length_replicate] at hbytes
      exact le_of_le_of_eq (by omega) hbytes.symm
  digest := fun v v' h => withDigests_sha256_injective hvalues hlength h
  rfc3339 := by
    have hmarked : ∀ entry ∈ instants, entry.2.toList.head? ≠ some '@' := by decide +kernel
    refine tabled_injective (by decide +kernel) otherInstant_injective ?_
    intro entry hentry t h
    refine hmarked entry hentry ?_
    rw [← h, otherInstant, String.toList_ofList, List.head?_cons]

theorem nodup_digests : (digests.map Prod.snd).Nodup := by
  decide +kernel

theorem length_of_mem_digests : ∀ entry ∈ digests, entry.2.length = 32 := by
  decide +kernel

theorem collisionless : primitives.Collisionless :=
  withDigests_collisionless nodup_digests length_of_mem_digests

theorem issue_claims : CapabilityToken.issue primitives claims (keystore.sign primitives) =
    .ok token := by
  decide +kernel

end AdminKey

/-! ## All four -/

end Aaf
