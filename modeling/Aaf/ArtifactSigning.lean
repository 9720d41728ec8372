import Aaf.Identity

/-!
# Signed artifacts

`aaf-trust`, `signing.rs`: an artifact carries the digest of its content and an envelope
`x1:<did>:<signature>` over that digest. DIDs hold colons themselves, so the envelope is cut
at the last one. The JSON value and its serializer come from `serde_json`; they are the
parameters `V` and `serialised`.

`verifyArtifactWith_eq_ok_true_iff` says what is accepted, `artifact_signatures_bind` that
the envelope is read back whole and stands for one content.
-/

namespace Aaf

variable {V : Type}

/-- What is signed in an `Artifact`, and what signing writes. -/
structure Artifact (V : Type) where
  content : V
  contentHash : Option String
  signature : Option String

section Signing

variable (p : Primitives) (serialised : V → List UInt8)

/-- The hash that every function of the module computes. -/
def artifactHash (artifact : Artifact V) : String :=
  hexEncode (p.sha256 (serialised artifact.content))

/-- `sign_artifact`. -/
def signArtifact (artifact : Artifact V) (signer : String) : Artifact V :=
  let hash := artifactHash p serialised artifact
  { artifact with
    contentHash := some hash
    signature := some ("v0:" ++ signer ++ ":" ++ hash) }

/-- `sign_artifact_with`. -/
def signArtifactWith (artifact : Artifact V) (did : AgentDid) (signer : Signer) :
    Except IdentityError (Artifact V) := do
  let hash := artifactHash p serialised artifact
  let detached ← signer did (Text.asBytes hash)
  return { artifact with
    contentHash := some hash
    signature := some ("x1:" ++ did.raw ++ ":" ++ detached) }

/-- `verify_artifact_with`. -/
def verifyArtifactWith (artifact : Artifact V) (verifier : Verifier) :
    Except IdentityError Bool :=
  match artifact.signature with
  | none => .ok false
  | some signature =>
    match Text.stripPrefix signature "x1:" with
    | none => .ok false
    | some rest =>
      match Text.rfind rest ':' with
      | none => .ok false
      | some lastColon =>
        let did : AgentDid := ⟨String.ofList (rest.toList.take lastColon)⟩
        let sig := String.ofList ((rest.toList.drop lastColon).drop 1)
        let expected := artifactHash p serialised artifact
        if artifact.contentHash ≠ some expected then .ok false
        else
          match verifier did (Text.asBytes expected) sig with
          | .ok () => .ok true
          | .error .invalidSignature => .ok false
          | .error e => .error e

end Signing

/-! ## The envelope -/

/-- The text of an envelope. -/
def envelope (did detached : String) : String := "x1:" ++ did ++ ":" ++ detached

theorem envelope_eq (did detached : String) :
    envelope did detached = "x1:" ++ String.ofList (did.toList ++ ':' :: detached.toList) := by
  have hcolon : ":".toList = [':'] := by decide
  rw [envelope, String.append_assoc, String.append_assoc, String.append_right_inj,
    ← String.toList_inj]
  simp [hcolon]

variable {p : Primitives} {serialised : V → List UInt8} {verifier : Verifier}

/-- An envelope is cut where it was joined. -/
theorem verifyArtifactWith_envelope {artifact : Artifact V} {did detached : String}
    (hsignature : artifact.signature = some (envelope did detached))
    (hcolon : ':' ∉ detached.toList) :
    verifyArtifactWith p serialised artifact verifier =
      if artifact.contentHash ≠ some (artifactHash p serialised artifact) then .ok false
      else
        match verifier ⟨did⟩ (Text.asBytes (artifactHash p serialised artifact)) detached with
        | .ok () => .ok true
        | .error .invalidSignature => .ok false
        | .error e => .error e := by
  have hrest := Text.stripPrefix_eq_some_iff.mpr (envelope_eq did detached)
  have hlast := Text.rfind_append (String.toList_ofList (l := did.toList ++ ':' :: detached.toList))
    hcolon
  rw [verifyArtifactWith, hsignature]
  simp only [hrest, hlast]
  simp

/-- Everything else is refused. -/
theorem verifyArtifactWith_of_not_envelope {artifact : Artifact V}
    (h : ∀ did detached, ':' ∉ detached.toList →
      artifact.signature ≠ some (envelope did detached)) :
    verifyArtifactWith p serialised artifact verifier = .ok false := by
  rw [verifyArtifactWith]
  cases hsignature : artifact.signature with
  | none => rfl
  | some signature =>
    cases hrest : Text.stripPrefix signature "x1:" with
    | none => simp [hrest]
    | some rest =>
      cases hlast : Text.rfind rest ':' with
      | none => simp [hrest, hlast]
      | some lastColon =>
        obtain ⟨hcolon, hcut⟩ := Text.rfind_eq_some hlast
        refine absurd ?_ (h (String.ofList (rest.toList.take lastColon))
          (String.ofList (rest.toList.drop (lastColon + 1))) (by simpa using hcolon))
        rw [hsignature, Text.stripPrefix_eq_some_iff.mp hrest, envelope_eq, String.toList_ofList,
          String.toList_ofList, ← hcut, String.ofList_toList]

theorem verifyArtifactWith_envelope_eq_ok_true_iff {artifact : Artifact V} {did detached : String}
    (hsignature : artifact.signature = some (envelope did detached))
    (hcolon : ':' ∉ detached.toList) :
    verifyArtifactWith p serialised artifact verifier = .ok true ↔
      artifact.contentHash = some (artifactHash p serialised artifact) ∧
        verifier ⟨did⟩ (Text.asBytes (artifactHash p serialised artifact)) detached = .ok () := by
  rw [verifyArtifactWith_envelope hsignature hcolon]
  by_cases hhash : artifact.contentHash = some (artifactHash p serialised artifact)
  · rw [if_neg (not_not_intro hhash), and_iff_right hhash]
    split
    · next hverified => exact ⟨fun _ => hverified, fun _ => rfl⟩
    · next hrefused => rw [hrefused]; simp
    · next hfailed => rw [hfailed]; simp
  · rw [if_pos hhash]
    simp [hhash]

/-- **An artifact is accepted when its envelope is signed over the hash of its content.** -/
theorem verifyArtifactWith_eq_ok_true_iff {artifact : Artifact V} :
    verifyArtifactWith p serialised artifact verifier = .ok true ↔
      ∃ did detached, artifact.signature = some (envelope did detached) ∧
        ':' ∉ detached.toList ∧
        artifact.contentHash = some (artifactHash p serialised artifact) ∧
        verifier ⟨did⟩ (Text.asBytes (artifactHash p serialised artifact)) detached = .ok () := by
  refine ⟨fun h => ?_, ?_⟩
  · by_contra hnone
    have hrefused : verifyArtifactWith p serialised artifact verifier = .ok false := by
      refine verifyArtifactWith_of_not_envelope fun did detached hcolon hsignature => hnone ?_
      obtain ⟨hhash, hverified⟩ :=
        (verifyArtifactWith_envelope_eq_ok_true_iff hsignature hcolon).mp h
      exact ⟨did, detached, hsignature, hcolon, hhash, hverified⟩
    rw [hrefused] at h
    cases h
  · rintro ⟨did, detached, hsignature, hcolon, haccepted⟩
    exact (verifyArtifactWith_envelope_eq_ok_true_iff hsignature hcolon).mpr haccepted

/-! ## Schemes -/

/-- What the envelope relies on: signatures are hexadecimal, the verifier accepts exactly what
the signer made, a name signs no two messages alike, and a name that signs is refused for its
signature only. -/
structure HexScheme (signer : Signer) (verifier : Verifier) : Prop where
  hex : ∀ {did message detached}, signer did message = .ok detached →
    ∀ c ∈ detached.toList, isHexDigit c = true
  verify_iff : ∀ did message detached,
    verifier did message detached = .ok () ↔ signer did message = .ok detached
  binding : ∀ {did message message' detached}, signer did message = .ok detached →
    signer did message' = .ok detached → message = message'
  refused : ∀ {did message detached}, signer did message = .ok detached →
    ∀ message' detached', verifier did message' detached' = .ok () ∨
      verifier did message' detached' = .error .invalidSignature

/-- **A keystore is such a scheme**, whatever the names in it. -/
theorem InMemoryKeystore.hexScheme {p : Primitives} (hsha : Function.Injective p.sha256)
    (ks : InMemoryKeystore) : HexScheme (ks.sign p) (ks.verify p) where
  hex := by
    intro did message detached h c hc
    obtain ⟨material, -, rfl⟩ := sign_eq_ok_iff.mp h
    exact isHexDigit_of_mem_hexEncode hc
  verify_iff := verify_eq_ok_iff p ks
  binding := by
    intro did message message' detached h h'
    obtain ⟨material, hlookup, hsigned⟩ := sign_eq_ok_iff.mp h
    obtain ⟨material', hlookup', hsigned'⟩ := sign_eq_ok_iff.mp h'
    cases hlookup.symm.trans hlookup'
    exact hmacSha256_injective hsha _ (hexEncode_injective (hsigned.trans hsigned'.symm))
  refused := by
    intro did message detached h message' detached'
    obtain ⟨material, hlookup, -⟩ := sign_eq_ok_iff.mp h
    rw [verify, hlookup]
    by_cases heq : constantTimeEq (Text.asBytes (hexEncode (hmacSha256 p material.secret message')))
        (Text.asBytes detached') = true
    · exact Or.inl (if_pos heq)
    · exact Or.inr (if_neg heq)

theorem InMemoryKeystore.sign_of_knows {p : Primitives} {ks : InMemoryKeystore} {did : AgentDid}
    (h : ks.knows did = true) (message : List UInt8) :
    ∃ detached, ks.sign p did message = .ok detached := by
  obtain ⟨material, hlookup⟩ := Option.isSome_iff_exists.mp h
  exact ⟨_, sign_eq_ok_iff.mpr ⟨material, hlookup, rfl⟩⟩

/-! ## Round trip and binding -/

theorem artifactHash_injective (hsha : Function.Injective p.sha256)
    (hserialised : Function.Injective serialised) {artifact artifact' : Artifact V}
    (h : artifactHash p serialised artifact = artifactHash p serialised artifact') :
    artifact.content = artifact'.content :=
  hserialised (hsha (hexEncode_injective h))

section Schemes

variable {signer : Signer} (hscheme : HexScheme signer verifier)

include hscheme

/-- What was signed is accepted. -/
theorem verifyArtifactWith_of_sign {artifact signed : Artifact V} {did : AgentDid}
    (h : signArtifactWith p serialised artifact did signer = .ok signed) :
    verifyArtifactWith p serialised signed verifier = .ok true := by
  obtain ⟨detached, hdetached, hsigned⟩ := Loop.bind_ok_iff.mp h
  cases hsigned
  refine verifyArtifactWith_eq_ok_true_iff.mpr ⟨did.raw, detached, rfl, ?_, rfl, ?_⟩
  · exact colon_notMem_of_isHexDigit (hscheme.hex hdetached)
  · exact (hscheme.verify_iff _ _ _).mpr hdetached

/-- Under the signature of an accepted artifact, another one is accepted or refused for it. -/
theorem verifyArtifactWith_of_signature_eq {artifact artifact' : Artifact V}
    (h : verifyArtifactWith p serialised artifact verifier = .ok true)
    (hsignature : artifact'.signature = artifact.signature) :
    verifyArtifactWith p serialised artifact' verifier = .ok true ∨
      verifyArtifactWith p serialised artifact' verifier = .ok false := by
  obtain ⟨did, detached, henvelope, hcolon, -, hverified⟩ :=
    verifyArtifactWith_eq_ok_true_iff.mp h
  rw [verifyArtifactWith_envelope (hsignature.trans henvelope) hcolon]
  split
  · exact Or.inr rfl
  · rcases hscheme.refused ((hscheme.verify_iff _ _ _).mp hverified)
      (Text.asBytes (artifactHash p serialised artifact')) detached with hok | hinvalid
    · rw [hok]
      exact Or.inl rfl
    · rw [hinvalid]
      exact Or.inr rfl

/-- One signature stands for one content. -/
theorem content_eq_of_signature_eq (hsha : Function.Injective p.sha256)
    (hserialised : Function.Injective serialised) {artifact artifact' : Artifact V}
    (h : verifyArtifactWith p serialised artifact verifier = .ok true)
    (h' : verifyArtifactWith p serialised artifact' verifier = .ok true)
    (hsignature : artifact'.signature = artifact.signature) :
    artifact.content = artifact'.content := by
  obtain ⟨did, detached, henvelope, hcolon, -, hverified⟩ :=
    verifyArtifactWith_eq_ok_true_iff.mp h
  obtain ⟨-, hverified'⟩ := (verifyArtifactWith_envelope_eq_ok_true_iff
    (hsignature.trans henvelope) hcolon).mp h'
  rw [hscheme.verify_iff] at hverified hverified'
  have hhash := Text.asBytes_injective (hscheme.binding hverified hverified')
  exact artifactHash_injective hsha hserialised hhash

/-- The signature of an accepted artifact was made by the DID in it. -/
theorem signed_of_verifyArtifactWith {artifact : Artifact V} {signature : String}
    (h : verifyArtifactWith p serialised artifact verifier = .ok true)
    (hsignature : artifact.signature = some signature) :
    ∃ did detached, signature = "x1:" ++ did ++ ":" ++ detached ∧ ':' ∉ detached.toList ∧
      signer ⟨did⟩ (Text.asBytes (artifactHash p serialised artifact)) = .ok detached := by
  obtain ⟨did, detached, henvelope, hcolon, -, hverified⟩ :=
    verifyArtifactWith_eq_ok_true_iff.mp h
  refine ⟨did, detached, ?_, hcolon, (hscheme.verify_iff _ _ _).mp hverified⟩
  exact Option.some_inj.mp (hsignature.symm.trans henvelope)

/-- An accepted artifact is refused once its content or its content hash was changed. -/
theorem verifyArtifactWith_of_changed (hsha : Function.Injective p.sha256)
    (hserialised : Function.Injective serialised) {artifact artifact' : Artifact V}
    (h : verifyArtifactWith p serialised artifact verifier = .ok true)
    (hsignature : artifact'.signature = artifact.signature)
    (hchanged : artifact'.content ≠ artifact.content ∨
      artifact'.contentHash ≠ artifact.contentHash) :
    verifyArtifactWith p serialised artifact' verifier = .ok false := by
  rcases verifyArtifactWith_of_signature_eq hscheme h hsignature with h' | h'
  · -- then nothing was changed
    have hcontent := content_eq_of_signature_eq hscheme hsha hserialised h h' hsignature
    obtain ⟨-, -, -, -, hhash, -⟩ := verifyArtifactWith_eq_ok_true_iff.mp h
    obtain ⟨-, -, -, -, hhash', -⟩ := verifyArtifactWith_eq_ok_true_iff.mp h'
    rcases hchanged with hne | hne
    · exact absurd hcontent.symm hne
    · refine absurd ?_ hne
      rw [hhash, hhash', artifactHash, artifactHash, hcontent]
  · exact h'

end Schemes

theorem verifyArtifactWith_of_v0 {artifact : Artifact V} {signature : String}
    (h : artifact.signature = some signature) (hv0 : Text.startsWith signature "v0:" = true) :
    verifyArtifactWith p serialised artifact verifier = .ok false := by
  refine verifyArtifactWith_of_not_envelope fun did detached _ henvelope => ?_
  rw [h, Option.some_inj] at henvelope
  rw [henvelope, Text.startsWith_iff, envelope_eq, String.toList_append] at hv0
  obtain ⟨rest, hrest⟩ := hv0
  cases hrest

/-- **Artifact signatures round-trip and bind content to DID.** For a keystore with any names
in it, and for every scheme like it: what was signed is accepted; two accepted artifacts with
one signature have one content, signed by the DID in the signature; `v0` envelopes and
unsigned artifacts are refused, and so is an accepted artifact whose content or content hash
was changed. -/
theorem artifact_signatures_bind (hsha : Function.Injective p.sha256)
    (hserialised : Function.Injective serialised) :
    (∀ ks : InMemoryKeystore, HexScheme (ks.sign p) (ks.verify p)) ∧
    ∀ signer verifier, HexScheme signer verifier →
      (∀ artifact did, (∀ message, ∃ detached, signer did message = .ok detached) →
        ∃ signed, signArtifactWith p serialised artifact did signer = .ok signed ∧
          verifyArtifactWith p serialised signed verifier = .ok true) ∧
      (∀ artifact artifact' signature, artifact.signature = some signature →
        artifact'.signature = some signature →
        verifyArtifactWith p serialised artifact verifier = .ok true →
        verifyArtifactWith p serialised artifact' verifier = .ok true →
        artifact.content = artifact'.content ∧
          ∃ did detached, signature = "x1:" ++ did ++ ":" ++ detached ∧ ':' ∉ detached.toList ∧
            signer ⟨did⟩ (Text.asBytes (artifactHash p serialised artifact)) = .ok detached) ∧
      (∀ (artifact : Artifact V) signature, artifact.signature = some signature →
        Text.startsWith signature "v0:" = true →
        verifyArtifactWith p serialised artifact verifier = .ok false) ∧
      (∀ (artifact : Artifact V) name,
        verifyArtifactWith p serialised (signArtifact p serialised artifact name) verifier =
          .ok false) ∧
      (∀ artifact : Artifact V, artifact.signature = none →
        verifyArtifactWith p serialised artifact verifier = .ok false) ∧
      (∀ artifact artifact' : Artifact V,
        verifyArtifactWith p serialised artifact verifier = .ok true →
        artifact'.signature = artifact.signature →
        artifact'.content ≠ artifact.content ∨ artifact'.contentHash ≠ artifact.contentHash →
        verifyArtifactWith p serialised artifact' verifier = .ok false) := by
  refine ⟨InMemoryKeystore.hexScheme hsha, fun signer verifier hscheme => ?_⟩
  refine ⟨?_, ?_, ?_, ?_, ?_, ?_⟩
  · intro artifact did hknows
    obtain ⟨detached, hdetached⟩ := hknows (Text.asBytes (artifactHash p serialised artifact))
    obtain ⟨signed, hsigned⟩ :
        ∃ signed, signArtifactWith p serialised artifact did signer = .ok signed :=
      ⟨_, Loop.bind_ok_iff.mpr ⟨detached, hdetached, rfl⟩⟩
    exact ⟨signed, hsigned, verifyArtifactWith_of_sign hscheme hsigned⟩
  · intro artifact artifact' signature hsignature hsignature' h h'
    exact ⟨content_eq_of_signature_eq hscheme hsha hserialised h h'
      (hsignature'.trans hsignature.symm), signed_of_verifyArtifactWith hscheme h hsignature⟩
  · intro artifact signature hsignature hv0
    exact verifyArtifactWith_of_v0 hsignature hv0
  · intro artifact name
    refine verifyArtifactWith_of_v0 rfl (Text.startsWith_iff.mpr ?_)
    rw [String.append_assoc, String.append_assoc, String.toList_append]
    exact List.prefix_append _ _
  · intro artifact hnone
    rw [verifyArtifactWith, hnone]
  · intro artifact artifact' h hsignature hchanged
    exact verifyArtifactWith_of_changed hscheme hsha hserialised h hsignature hchanged

/-! ## A report -/

namespace SampleReport

/-- The content `{"k":"v"}`, not signed. -/
def report : Artifact JsonText.Value := ⟨.struct [("k", .str "v")], none, none⟩

def contentHash : String := "666c1aa02e8068c6d5cc1d3295009432c16790bec28ec8ce119d0d1a18d61319"

def inner : List UInt8 :=
  hexDecode "323a2e2fe6b7a42fd4272b20c84a7733e95ba8dbbbcc5fcff085627449e915c0".toList

def detached : String := "d7406f0f8ca4dbb3a34aaded970415db66a8be473b2075b55d080de5646f7c02"

/-- The same report, signed by the key of `admin`. -/
def signed : Artifact JsonText.Value :=
  { report with
    contentHash := some contentHash
    signature := some (envelope AdminKey.did.raw detached) }

def tampered : Artifact JsonText.Value := { signed with content := .struct [("k", .str "v2")] }

def digests : List (List UInt8 × List UInt8) := [
  (Text.asBytes "aaf-identity-secret:admin", AdminKey.secret),
  (Text.asBytes "aaf-identity-verifying:" ++ AdminKey.secret, AdminKey.verifying),
  (AdminKey.verifying,
    hexDecode "86fc64de15a9c9838b3ce2574d50685686e074fea6c75a0f8e0ae47dd44b9cbe".toList),
  (Text.asBytes "\x7b\"k\":\"v\"\x7d", hexDecode contentHash.toList),
  (AdminKey.keyPad 0x36 ++ Text.asBytes contentHash, inner),
  (AdminKey.keyPad 0x5c ++ inner, hexDecode detached.toList)]

def primitives : Primitives := AdminKey.withDigests digests

def keystore : InMemoryKeystore :=
  InMemoryKeystore.generated primitives [Text.asBytes "admin"]

theorem sha256_injective : Function.Injective primitives.sha256 :=
  AdminKey.withDigests_sha256_injective (by decide +kernel) (by decide +kernel)

theorem knows_did : keystore.knows AdminKey.did = true := by
  decide +kernel

theorem sign_contentHash :
    keystore.sign primitives AdminKey.did (Text.asBytes contentHash) = .ok detached := by
  decide +kernel

theorem artifactHash_report : artifactHash primitives toVec report = contentHash := by
  decide +kernel

theorem sign_report : signArtifactWith primitives toVec report AdminKey.did
    (keystore.sign primitives) = .ok signed := by
  rw [signArtifactWith, artifactHash_report]
  exact Loop.bind_ok_iff.mpr ⟨detached, sign_contentHash, rfl⟩

end SampleReport

theorem artifact_signatures_bind_report :
    verifyArtifactWith SampleReport.primitives toVec SampleReport.signed
        (SampleReport.keystore.verify SampleReport.primitives) = .ok true ∧
      verifyArtifactWith SampleReport.primitives toVec SampleReport.tampered
        (SampleReport.keystore.verify SampleReport.primitives) = .ok false := by
  obtain ⟨hkeystore, hbind⟩ := artifact_signatures_bind SampleReport.sha256_injective
    toVec_injective
  obtain ⟨hround, -, -, -, -, hchanged⟩ := hbind _ _ (hkeystore SampleReport.keystore)
  obtain ⟨signed, hsigned, haccepted⟩ := hround SampleReport.report AdminKey.did
    (InMemoryKeystore.sign_of_knows SampleReport.knows_did)
  rw [SampleReport.sign_report, Except.ok.injEq] at hsigned
  rw [← hsigned] at haccepted
  refine ⟨haccepted, hchanged _ SampleReport.tampered haccepted rfl (Or.inl ?_)⟩
  rw [SampleReport.tampered, SampleReport.signed, SampleReport.report]
  simp

end Aaf
