import Aaf.Identity

/-!
# Co-signed tokens

`aaf-federation`, `cosign.rs`: a capability token that crosses from one cell to another
carries a signature of each. Both are over one digest: the two DIDs and the signature of the
token, joined by `::`. The claims of the token are not in it.

The digest is read back in one way only, since the DIDs of a keystore end in hexadecimal
digits (`canonicalBytes_inj`), and the signature inside stands for the claims. So
`cosigned_binds` holds: under one signature of the issuing cell there are no two pairs of
cells and no two sets of claims.
-/

namespace Aaf

/-- Errors raised when a co-signed token is built or verified. -/
inductive CoSignError : Type where
  | invalidSignature (which : String) : CoSignError
  | identity (error : IdentityError) : CoSignError
  | innerTampered : CoSignError
  deriving DecidableEq, Repr

/-- `canonical_bytes`. -/
def canonicalBytes (p : Primitives) (token : CapabilityToken)
    (issuerCell receiverCell : AgentDid) : List UInt8 :=
  p.sha256 (Text.asBytes "aaf:cosign:v1:" ++ Text.asBytes issuerCell.raw ++ Text.asBytes "::" ++
    Text.asBytes receiverCell.raw ++ Text.asBytes "::" ++ Text.asBytes token.signature)

/-- A capability token with the signatures of both cells. -/
structure CoSignedToken where
  token : CapabilityToken
  issuerCell : AgentDid
  receiverCell : AgentDid
  issuerCellSig : String
  receiverCellSig : String
  deriving DecidableEq, Repr

/-- `cosign_token`. -/
def cosignToken (p : Primitives) (token : CapabilityToken) (issuerCell : AgentDid)
    (issuerSigner : Signer) (receiverCell : AgentDid) (receiverSigner : Signer) :
    Except CoSignError CoSignedToken := do
  let bytes := canonicalBytes p token issuerCell receiverCell
  let issuerCellSig ← (issuerSigner issuerCell bytes).mapError .identity
  let receiverCellSig ← (receiverSigner receiverCell bytes).mapError .identity
  return ⟨token, issuerCell, receiverCell, issuerCellSig, receiverCellSig⟩

/-- `verify_cosigned` at an instant. -/
def verifyCosigned (p : Primitives) (cosigned : CoSignedToken)
    (issuerCellVerifier receiverCellVerifier innerVerifier : Verifier) (now : ℤ)
    (required : CapabilityId) : Except CoSignError Unit := do
  let bytes := canonicalBytes p cosigned.token cosigned.issuerCell cosigned.receiverCell
  (issuerCellVerifier cosigned.issuerCell bytes cosigned.issuerCellSig).mapError
    fun _ => .invalidSignature "issuer"
  (receiverCellVerifier cosigned.receiverCell bytes cosigned.receiverCellSig).mapError
    fun _ => .invalidSignature "receiver"
  (cosigned.token.verify p innerVerifier now required).mapError fun
    | .invalidSignature => .innerTampered
    | other => .identity other

/-! ## What is accepted -/

theorem mapError_eq_ok_iff {ε ε' α : Type} {f : ε → ε'} {m : Except ε α} {a : α} :
    m.mapError f = .ok a ↔ m = .ok a := by
  cases m <;> simp [Except.mapError]

/-- A co-signed token is accepted when all three checks pass. -/
theorem verifyCosigned_eq_ok_iff (p : Primitives) (cosigned : CoSignedToken)
    (issuerCellVerifier receiverCellVerifier innerVerifier : Verifier) (now : ℤ)
    (required : CapabilityId) :
    verifyCosigned p cosigned issuerCellVerifier receiverCellVerifier innerVerifier now
        required = .ok () ↔
      issuerCellVerifier cosigned.issuerCell
          (canonicalBytes p cosigned.token cosigned.issuerCell cosigned.receiverCell)
          cosigned.issuerCellSig = .ok () ∧
        receiverCellVerifier cosigned.receiverCell
          (canonicalBytes p cosigned.token cosigned.issuerCell cosigned.receiverCell)
          cosigned.receiverCellSig = .ok () ∧
        cosigned.token.verify p innerVerifier now required = .ok () := by
  simp only [verifyCosigned, Loop.bind_unit_ok_iff, mapError_eq_ok_iff]

/-- What both cells signed is accepted when the token is. -/
theorem verifyCosigned_of_cosignToken {p : Primitives} {issuerSigner receiverSigner : Signer}
    {issuerVerifier receiverVerifier innerVerifier : Verifier}
    (hissuer : ∀ did message signature, issuerVerifier did message signature = .ok () ↔
      issuerSigner did message = .ok signature)
    (hreceiver : ∀ did message signature, receiverVerifier did message signature = .ok () ↔
      receiverSigner did message = .ok signature)
    {token : CapabilityToken} {issuerCell receiverCell : AgentDid} {cosigned : CoSignedToken}
    (hcosign : cosignToken p token issuerCell issuerSigner receiverCell receiverSigner =
      .ok cosigned) (now : ℤ) (required : CapabilityId) :
    verifyCosigned p cosigned issuerVerifier receiverVerifier innerVerifier now required =
        .ok () ↔ token.verify p innerVerifier now required = .ok () := by
  obtain ⟨issuerSig, hsigned, hrest⟩ := Loop.bind_ok_iff.mp hcosign
  obtain ⟨receiverSig, hsigned', hcosigned⟩ := Loop.bind_ok_iff.mp hrest
  rw [mapError_eq_ok_iff] at hsigned hsigned'
  cases hcosigned
  rw [verifyCosigned_eq_ok_iff, hissuer, hreceiver, and_iff_right hsigned,
    and_iff_right hsigned']

/-! ## Reading the digest back -/

/-- The text that is digested. -/
theorem canonicalBytes_eq (p : Primitives) (token : CapabilityToken)
    (issuerCell receiverCell : AgentDid) :
    canonicalBytes p token issuerCell receiverCell = p.sha256 (Text.asBytes
      ("aaf:cosign:v1:" ++ issuerCell.raw ++ "::" ++ receiverCell.raw ++ "::" ++
        token.signature)) := by
  simp only [canonicalBytes, Text.asBytes_append]

/-- A DID that was derived from a key, followed by a separator, ends there. -/
theorem fromVerifyingKey_append_inj {p : Primitives} {keyBytes keyBytes' : List UInt8}
    {rest rest' : List Char}
    (h : (AgentDid.fromVerifyingKey p keyBytes).raw.toList ++ ':' :: rest =
      (AgentDid.fromVerifyingKey p keyBytes').raw.toList ++ ':' :: rest') :
    AgentDid.fromVerifyingKey p keyBytes = AgentDid.fromVerifyingKey p keyBytes' ∧
      rest = rest' := by
  have hcolon : ∀ bytes, ':' ∉ (hexEncode (p.sha256 bytes)).toList.take 24 := by
    intro bytes
    refine colon_notMem_of_isHexDigit fun c hc => ?_
    exact isHexDigit_of_mem_hexEncode (List.mem_of_mem_take hc)
  simp only [AgentDid.fromVerifyingKey, String.toList_append, String.toList_ofList,
    List.append_assoc] at h
  obtain ⟨hthumbprint, hrest⟩ :=
    Text.append_cons_inj_first (hcolon _) (hcolon _) (List.append_cancel_left h)
  rw [AgentDid.fromVerifyingKey, AgentDid.fromVerifyingKey, hthumbprint]
  exact ⟨rfl, hrest⟩

/-- **The digest of derived DIDs is read back in one way.** -/
theorem canonicalBytes_inj {p : Primitives} (hsha : Function.Injective p.sha256)
    {token token' : CapabilityToken} {issuer issuer' receiver receiver' : AgentDid}
    (hissuer : ∃ keyBytes, issuer = AgentDid.fromVerifyingKey p keyBytes)
    (hissuer' : ∃ keyBytes, issuer' = AgentDid.fromVerifyingKey p keyBytes)
    (hreceiver : ∃ keyBytes, receiver = AgentDid.fromVerifyingKey p keyBytes)
    (hreceiver' : ∃ keyBytes, receiver' = AgentDid.fromVerifyingKey p keyBytes)
    (h : canonicalBytes p token issuer receiver = canonicalBytes p token' issuer' receiver') :
    issuer = issuer' ∧ receiver = receiver' ∧ token.signature = token'.signature := by
  obtain ⟨issuerKey, rfl⟩ := hissuer
  obtain ⟨issuerKey', rfl⟩ := hissuer'
  obtain ⟨receiverKey, rfl⟩ := hreceiver
  obtain ⟨receiverKey', rfl⟩ := hreceiver'
  rw [canonicalBytes_eq, canonicalBytes_eq] at h
  have htext := congrArg String.toList (Text.asBytes_injective (hsha h))
  have hseparator : "::".toList = [':', ':'] := by decide
  simp only [String.toList_append, List.append_assoc, hseparator, List.cons_append,
    List.nil_append] at htext
  obtain ⟨hissuers, hrest⟩ := fromVerifyingKey_append_inj (List.append_cancel_left htext)
  obtain ⟨hreceivers, hrest⟩ := fromVerifyingKey_append_inj (List.cons.inj hrest).2
  exact ⟨hissuers, hreceivers, String.toList_inj.mp (List.cons.inj hrest).2⟩

theorem InMemoryKeystore.fromVerifyingKey_of_verify {p : Primitives} {seeds : List (List UInt8)}
    {did : AgentDid} {message : List UInt8} {signature : String}
    (h : (generated p seeds).verify p did message signature = .ok ()) :
    ∃ keyBytes, did = AgentDid.fromVerifyingKey p keyBytes := by
  obtain ⟨material, hlookup, -⟩ := sign_eq_ok_iff.mp ((verify_eq_ok_iff _ _ _ _ _).mp h)
  exact derived_generated p seeds did (by rw [knows, hlookup]; rfl)

/-! ## Cells and claims -/

section Binding

variable {p : Primitives} (hp : p.Collisionless) (hsha : Function.Injective p.sha256)
  {issuerSeeds receiverSeeds innerSeeds : List (List UInt8)}

include hp

/-- One signature of a token stands for one set of claims. -/
theorem claims_eq_of_signature_eq
    (hmac : (InMemoryKeystore.generated p innerSeeds).MacInjective p)
    {token token' : CapabilityToken} {now now' : ℤ} {required required' : CapabilityId}
    (h : token.verify p ((InMemoryKeystore.generated p innerSeeds).verify p) now required =
      .ok ())
    (h' : token'.verify p ((InMemoryKeystore.generated p innerSeeds).verify p) now' required' =
      .ok ())
    (hsignature : token'.signature = token.signature) : token.claims = token'.claims := by
  by_contra hne
  have hevident := CapabilityToken.tamperEvident hp (InMemoryKeystore.sound hmac)
  exact hevident token token' ⟨now, required, h⟩ hsignature
    (fun htoken => hne (congrArg CapabilityToken.claims htoken).symm) ⟨now', required', h'⟩

include hsha

/-- **Co-signatures bind cells and claims.** With the DIDs that the keystores of both cells
generated, what `cosign_token` makes of an issued token is accepted inside of the token's
window and scope, and there only; and whatever is accepted under the same signature of the
issuing cell has the same cells and the same claims. -/
theorem cosigned_binds (hissuer : (InMemoryKeystore.generated p issuerSeeds).MacInjective p)
    (hinner : (InMemoryKeystore.generated p innerSeeds).MacInjective p) :
    let issuer := InMemoryKeystore.generated p issuerSeeds
    let receiver := InMemoryKeystore.generated p receiverSeeds
    let inner := InMemoryKeystore.generated p innerSeeds
    (∀ claims token issuerCell receiverCell cosigned,
      CapabilityToken.issue p claims (inner.sign p) = .ok token →
      cosignToken p token issuerCell (issuer.sign p) receiverCell (receiver.sign p) =
        .ok cosigned →
      ∀ now required,
        verifyCosigned p cosigned (issuer.verify p) (receiver.verify p) (inner.verify p) now
            required = .ok () ↔
          claims.notBefore ≤ now ∧ now ≤ claims.expiresAt ∧ required ∈ claims.scope) ∧
    (∀ cosigned cosigned' now now' required required',
      verifyCosigned p cosigned (issuer.verify p) (receiver.verify p) (inner.verify p) now
        required = .ok () →
      verifyCosigned p cosigned' (issuer.verify p) (receiver.verify p) (inner.verify p) now'
        required' = .ok () →
      cosigned.issuerCellSig = cosigned'.issuerCellSig →
      cosigned.issuerCell = cosigned'.issuerCell ∧
        cosigned.receiverCell = cosigned'.receiverCell ∧
        cosigned.token.claims = cosigned'.token.claims) := by
  intro issuer receiver inner
  refine ⟨?_, ?_⟩
  · intro claims token issuerCell receiverCell cosigned hissue hcosign now required
    rw [verifyCosigned_of_cosignToken (InMemoryKeystore.verify_eq_ok_iff p issuer)
      (InMemoryKeystore.verify_eq_ok_iff p receiver) hcosign]
    exact CapabilityToken.verify_of_issue (InMemoryKeystore.sound hinner) hissue now required
  · intro cosigned cosigned' now now' required required' haccepted haccepted' hsignature
    obtain ⟨hcell, hreceived, htoken⟩ :=
      (verifyCosigned_eq_ok_iff p cosigned _ _ _ now required).mp haccepted
    obtain ⟨hcell', hreceived', htoken'⟩ :=
      (verifyCosigned_eq_ok_iff p cosigned' _ _ _ now' required').mp haccepted'
    -- one signature, one digest
    have hsound := InMemoryKeystore.sound hissuer
    rw [hsound.verify_iff] at hcell hcell'
    rw [← hsignature] at hcell'
    have hbytes := hsound.binding hcell hcell'
    -- the digest gives back both cells and the signature inside
    obtain ⟨hissuers, hreceivers, hinside⟩ := canonicalBytes_inj hsha
      (InMemoryKeystore.fromVerifyingKey_of_verify ((hsound.verify_iff _ _ _).mpr hcell))
      (InMemoryKeystore.fromVerifyingKey_of_verify ((hsound.verify_iff _ _ _).mpr hcell'))
      (InMemoryKeystore.fromVerifyingKey_of_verify hreceived)
      (InMemoryKeystore.fromVerifyingKey_of_verify hreceived') hbytes
    exact ⟨hissuers, hreceivers, claims_eq_of_signature_eq hp hinner htoken htoken' hinside.symm⟩

end Binding

/-! ## One cell -/

namespace AdminCell

def cosigned : CoSignedToken where
  token := AdminKey.token
  issuerCell := AdminKey.did
  receiverCell := AdminKey.did
  issuerCellSig := "a2c49440f1c7f98743e16445e9329750ba55c193a86ae9524e10fa320229bdca"
  receiverCellSig := "a2c49440f1c7f98743e16445e9329750ba55c193a86ae9524e10fa320229bdca"

/-- The same signatures, over a token that is good for one more delegation. -/
def deeper : CoSignedToken := { cosigned with token := AdminKey.deeperToken }

def canonical : List UInt8 :=
  hexDecode "6ccb714e258486f820cd42f84426e760754cda7616548eccf0e80f4b6ca5b78a".toList

def inner : List UInt8 :=
  hexDecode "2c0dbc1cf2324f498aafcfb0350f49c751a16bcc4448a23f1454bbbf0e3f35f4".toList

/-- The digests of the token, and those of its co-signature. -/
def digests : List (List UInt8 × List UInt8) := AdminKey.digests ++ [
  (Text.asBytes ("aaf:cosign:v1:did:aaf:86fc64de15a9c9838b3ce257::" ++
    "did:aaf:86fc64de15a9c9838b3ce257::" ++
    "433f9388572fa14e558b876c3b6a23269a935934161f2890ce91f7315903c2d3"), canonical),
  (AdminKey.keyPad 0x36 ++ canonical, inner),
  (AdminKey.keyPad 0x5c ++ inner, hexDecode cosigned.issuerCellSig.toList)]

def primitives : Primitives := AdminKey.withDigests digests

def keystore : InMemoryKeystore :=
  InMemoryKeystore.generated primitives [Text.asBytes "admin"]

theorem nodup_digests : (digests.map Prod.snd).Nodup := by
  decide +kernel

theorem length_of_mem_digests : ∀ entry ∈ digests, entry.2.length = 32 := by
  refine List.forall_mem_append.mpr ⟨AdminKey.length_of_mem_digests, ?_⟩
  decide +kernel

theorem issue_claims : CapabilityToken.issue primitives AdminKey.claims
    (keystore.sign primitives) = .ok AdminKey.token := by
  decide +kernel

theorem cosign_token : cosignToken primitives AdminKey.token AdminKey.did
    (keystore.sign primitives) AdminKey.did (keystore.sign primitives) = .ok cosigned := by
  decide +kernel

end AdminCell

theorem cosigned_binds_adminCell :
    verifyCosigned AdminCell.primitives AdminCell.cosigned
        (AdminCell.keystore.verify AdminCell.primitives)
        (AdminCell.keystore.verify AdminCell.primitives)
        (AdminCell.keystore.verify AdminCell.primitives) 0 ⟨"cap-order-read"⟩ = .ok () ∧
      verifyCosigned AdminCell.primitives AdminCell.deeper
        (AdminCell.keystore.verify AdminCell.primitives)
        (AdminCell.keystore.verify AdminCell.primitives)
        (AdminCell.keystore.verify AdminCell.primitives) 0 ⟨"cap-order-read"⟩ ≠ .ok () := by
  have hsha := AdminKey.withDigests_sha256_injective AdminCell.nodup_digests
    AdminCell.length_of_mem_digests
  have hmac : AdminCell.keystore.MacInjective AdminCell.primitives :=
    InMemoryKeystore.macInjective_generated_singleton hsha _
  obtain ⟨hmade, hbound⟩ := @cosigned_binds AdminCell.primitives
    (AdminKey.withDigests_collisionless AdminCell.nodup_digests AdminCell.length_of_mem_digests)
    hsha _ [Text.asBytes "admin"] _ hmac hmac
  have haccepted := (hmade AdminKey.claims AdminKey.token AdminKey.did AdminKey.did
    AdminCell.cosigned AdminCell.issue_claims AdminCell.cosign_token 0 ⟨"cap-order-read"⟩).mpr
    (by decide)
  refine ⟨haccepted, fun hdeeper => ?_⟩
  obtain ⟨-, -, hclaims⟩ := hbound _ _ _ _ _ _ haccepted hdeeper rfl
  exact absurd hclaims (by decide)

end Aaf
