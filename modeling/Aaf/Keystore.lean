import Aaf.Contracts
import Aaf.JsonText
import Aaf.Machine
import Aaf.Signing
import Aaf.Text

/-!
# Keys and signatures

`aaf-identity`: DIDs, and the keystore that signs and verifies with HMAC-SHA256. SHA-256
itself and the text of an instant come from crates outside of the repository; they are the
fields of `Primitives`.

A keystore is a sound scheme: `InMemoryKeystore.sound`. Its names are the DIDs it generated,
and those are well formed: `InMemoryKeystore.isWellFormed_of_sign`.
-/

namespace Aaf

/-- What the crate takes from `sha2` and `chrono`. -/
structure Primitives where
  sha256 : List UInt8 → List UInt8
  /-- `DateTime::<Utc>::serialize` -/
  rfc3339 : ℤ → String

/-! ## Bytes -/

/-- The two digits of a byte. -/
def hexDigits (b : UInt8) : List Char :=
  [Nat.digitChar (b.toNat / 16), Nat.digitChar (b.toNat % 16)]

/-- `hex::encode`. -/
def hexEncode (bytes : List UInt8) : String := String.ofList (bytes.flatMap hexDigits)

theorem hexDigits_injective : Function.Injective hexDigits := by
  have hdigit : ∀ m n : Fin 16, Nat.digitChar m = Nat.digitChar n → m = n := by
    decide
  intro b b' h
  obtain ⟨hhigh, hlow⟩ := List.cons.inj h
  have hb := b.toNat_lt
  have hb' := b'.toNat_lt
  have hdiv := hdigit ⟨b.toNat / 16, by omega⟩ ⟨b'.toNat / 16, by omega⟩ hhigh
  have hmod := hdigit ⟨b.toNat % 16, by omega⟩ ⟨b'.toNat % 16, by omega⟩ (List.cons.inj hlow).1
  rw [Fin.mk.injEq] at hdiv hmod
  exact UInt8.toNat_inj.mp (by omega)

theorem length_hexEncode (bytes : List UInt8) :
    (hexEncode bytes).toList.length = 2 * bytes.length := by
  rw [hexEncode, String.toList_ofList, List.length_flatMap]
  simp [hexDigits, Nat.mul_comm]

theorem hexEncode_injective : Function.Injective hexEncode := by
  intro bytes bytes' h
  rw [hexEncode, hexEncode, String.ofList_inj] at h
  induction bytes generalizing bytes' with
  | nil =>
    cases bytes' with
    | nil => rfl
    | cons b' bytes' => cases h
  | cons b bytes ih =>
    cases bytes' with
    | nil => cases h
    | cons b' bytes' =>
      rw [List.flatMap_cons, List.flatMap_cons] at h
      obtain ⟨hdigits, hrest⟩ := List.append_inj h rfl
      rw [hexDigits_injective hdigits, ih hrest]

/-- A digit of `hex::encode`. -/
def isHexDigit (c : Char) : Bool := c.isDigit || decide ('a' ≤ c ∧ c ≤ 'f')

theorem isHexDigit_of_mem_hexEncode {bytes : List UInt8} {c : Char}
    (h : c ∈ (hexEncode bytes).toList) : isHexDigit c = true := by
  have hdigit : ∀ n : Fin 16, isHexDigit (Nat.digitChar n) = true := by decide
  rw [hexEncode, String.toList_ofList, List.mem_flatMap] at h
  obtain ⟨b, -, hc⟩ := h
  have hb := b.toNat_lt
  rcases List.mem_cons.mp hc with rfl | hc
  · exact hdigit ⟨b.toNat / 16, by omega⟩
  · rw [List.mem_singleton.mp hc]
    exact hdigit ⟨b.toNat % 16, by omega⟩

/-- Hexadecimal digits hold no separator. -/
theorem colon_notMem_of_isHexDigit {cs : List Char} (h : ∀ c ∈ cs, isHexDigit c = true) :
    ':' ∉ cs := by
  intro hcolon
  exact absurd (h ':' hcolon) (by decide)

/-- `constant_time_eq`: the differences of all bytes, collected. -/
def constantTimeEq (a b : List UInt8) : Bool :=
  if a.length ≠ b.length then false
  else decide ((a.zip b).foldl (fun diff bytes => diff ||| (bytes.1 ^^^ bytes.2)) 0 = 0)

theorem foldl_diff_eq_zero_iff (pairs : List (UInt8 × UInt8)) (diff : UInt8) :
    pairs.foldl (fun diff bytes => diff ||| (bytes.1 ^^^ bytes.2)) diff = 0 ↔
      diff = 0 ∧ ∀ bytes ∈ pairs, bytes.1 = bytes.2 := by
  induction pairs generalizing diff with
  | nil => simp
  | cons bytes pairs ih =>
    rw [List.foldl_cons, ih, UInt8.or_eq_zero_iff, UInt8.xor_eq_zero_iff, List.forall_mem_cons,
      and_assoc]

/-- Nothing is lost in collecting them. -/
theorem constantTimeEq_eq_true_iff {a b : List UInt8} : constantTimeEq a b = true ↔ a = b := by
  rw [constantTimeEq]
  by_cases hlen : a.length = b.length
  · rw [if_neg (not_not_intro hlen), decide_eq_true_eq, foldl_diff_eq_zero_iff]
    refine ⟨fun h => ?_, fun h => ⟨rfl, ?_⟩⟩
    · refine List.ext_getElem hlen fun i hi hi' => ?_
      exact h.2 (a[i], b[i]) (List.mem_iff_getElem.mpr ⟨i, by simp [hi, hi'], by simp⟩)
    · subst h
      intro bytes hbytes
      obtain ⟨i, hi, rfl⟩ := List.mem_iff_getElem.mp hbytes
      rw [List.getElem_zip]
  · rw [if_pos hlen]
    exact ⟨fun h => (by cases h), fun h => absurd (congrArg List.length h) hlen⟩

/-! ## Names -/

/-- `AgentDid`. -/
structure AgentDid where
  raw : String
  deriving DecidableEq, Repr

/-- `AgentDid::from_verifying_key`. -/
def AgentDid.fromVerifyingKey (p : Primitives) (keyBytes : List UInt8) : AgentDid :=
  let thumbprint := String.ofList ((hexEncode (p.sha256 keyBytes)).toList.take 24)
  ⟨"did:aaf:" ++ thumbprint⟩

/-- `AgentDid::is_well_formed`. -/
def AgentDid.isWellFormed (did : AgentDid) : Bool :=
  Text.startsWith did.raw "did:aaf:" &&
    decide ((Text.asBytes did.raw).length > (Text.asBytes "did:aaf:").length + 8)

/-- A derived DID is well formed when the digest is long enough for its thumbprint. -/
theorem AgentDid.isWellFormed_fromVerifyingKey (p : Primitives) (keyBytes : List UInt8)
    (hlength : 12 ≤ (p.sha256 keyBytes).length) :
    (AgentDid.fromVerifyingKey p keyBytes).isWellFormed = true := by
  rw [isWellFormed, fromVerifyingKey, Bool.and_eq_true, decide_eq_true_eq, Text.startsWith_iff,
    String.toList_append]
  refine ⟨List.prefix_append _ _, ?_⟩
  have hthumbprint :
      (String.ofList ((hexEncode (p.sha256 keyBytes)).toList.take 24)).toList.length = 24 := by
    rw [String.toList_ofList, List.length_take, length_hexEncode]
    omega
  have hbytes := Text.length_le_length_asBytes
    ("did:aaf:" ++ String.ofList ((hexEncode (p.sha256 keyBytes)).toList.take 24))
  rw [String.toList_append, List.length_append, hthumbprint] at hbytes
  have hhead : (Text.asBytes "did:aaf:").length = 8 ∧ "did:aaf:".toList.length = 8 := by decide
  rw [hhead.1]
  rw [hhead.2] at hbytes
  exact Nat.lt_of_lt_of_le (by decide) hbytes

/-! ## The keystore -/

/-- Errors of the identity crate. -/
inductive IdentityError : Type where
  | invalidSignature : IdentityError
  | tokenNotInEffect : IdentityError
  | notInScope (capability : String) : IdentityError
  | unknownDid (did : String) : IdentityError
  deriving DecidableEq, Repr

/-- `dyn Signer`. -/
abbrev Signer : Type := AgentDid → List UInt8 → Except IdentityError String

/-- `dyn Verifier`. -/
abbrev Verifier : Type := AgentDid → List UInt8 → String → Except IdentityError Unit

/-- Raw key material. -/
structure KeyMaterial where
  secret : List UInt8
  verifying : List UInt8
  deriving DecidableEq, Repr

/-- `KeyMaterial::from_seed`. -/
def KeyMaterial.fromSeed (p : Primitives) (seed : List UInt8) : KeyMaterial :=
  let secret := p.sha256 (Text.asBytes "aaf-identity-secret:" ++ seed)
  let verifying := p.sha256 (Text.asBytes "aaf-identity-verifying:" ++ secret)
  ⟨secret, verifying⟩

/-- `hmac_sha256`, with blocks of 64 bytes. -/
def hmacSha256 (p : Primitives) (key message : List UInt8) : List UInt8 :=
  let short := if key.length > 64 then p.sha256 key else key
  let padded := short ++ List.replicate (64 - short.length) 0
  let iKeyPad := padded.map (· ^^^ 0x36)
  let oKeyPad := padded.map (· ^^^ 0x5c)
  let inner := p.sha256 (iKeyPad ++ message)
  p.sha256 (oKeyPad ++ inner)

/-- A digest without collisions makes a MAC without. -/
theorem hmacSha256_injective {p : Primitives} (hp : Function.Injective p.sha256)
    (key : List UInt8) : Function.Injective (hmacSha256 p key) := by
  intro message message' h
  exact List.append_cancel_left (hp (List.append_cancel_left (hp h)))

/-- The entries of an `InMemoryKeystore`. -/
abbrev InMemoryKeystore : Type := HashMap AgentDid KeyMaterial

namespace InMemoryKeystore

/-- `InMemoryKeystore::generate`. -/
def generate (p : Primitives) (ks : InMemoryKeystore) (seed : List UInt8) :
    AgentDid × InMemoryKeystore :=
  let material := KeyMaterial.fromSeed p seed
  let did := AgentDid.fromVerifyingKey p material.verifying
  (did, ks.insert did material)

/-- `InMemoryKeystore::knows`. -/
def knows (ks : InMemoryKeystore) (did : AgentDid) : Bool := (ks.lookup did).isSome

/-- `InMemoryKeystore::sign`. -/
def sign (p : Primitives) (ks : InMemoryKeystore) : Signer := fun did message =>
  match ks.lookup did with
  | none => .error (.unknownDid did.raw)
  | some material => .ok (hexEncode (hmacSha256 p material.secret message))

/-- `InMemoryKeystore::verify`. -/
def verify (p : Primitives) (ks : InMemoryKeystore) : Verifier := fun did message signature =>
  match ks.lookup did with
  | none => .error (.unknownDid did.raw)
  | some material =>
    let expected := hexEncode (hmacSha256 p material.secret message)
    if constantTimeEq (Text.asBytes expected) (Text.asBytes signature) then .ok ()
    else .error .invalidSignature

/-- The keystores that calls of `generate` make. -/
def generated (p : Primitives) (seeds : List (List UInt8)) : InMemoryKeystore :=
  Machine.run (generate p) ∅ seeds

theorem sign_eq_ok_iff {p : Primitives} {ks : InMemoryKeystore} {did : AgentDid}
    {message : List UInt8} {signature : String} :
    sign p ks did message = .ok signature ↔ ∃ material, ks.lookup did = some material ∧
      hexEncode (hmacSha256 p material.secret message) = signature := by
  rw [sign]
  cases ks.lookup did <;> simp

/-- The check accepts exactly what was signed. -/
theorem verify_eq_ok_iff (p : Primitives) (ks : InMemoryKeystore) (did : AgentDid)
    (message : List UInt8) (signature : String) :
    verify p ks did message signature = .ok () ↔ sign p ks did message = .ok signature := by
  rw [verify, sign_eq_ok_iff]
  cases ks.lookup did with
  | none => simp
  | some material => simp [constantTimeEq_eq_true_iff, Text.asBytes_injective.eq_iff]

/-- Every name is derived from a key. -/
def Derived (p : Primitives) (ks : InMemoryKeystore) : Prop :=
  ∀ did, ks.knows did = true → ∃ keyBytes, did = AgentDid.fromVerifyingKey p keyBytes

theorem derived_generate {p : Primitives} (ks : InMemoryKeystore) (seed : List UInt8)
    (h : ks.Derived p) : Derived p (generate p ks seed).2 := by
  intro did hknown
  by_cases hdid : did = AgentDid.fromVerifyingKey p (KeyMaterial.fromSeed p seed).verifying
  · exact ⟨_, hdid⟩
  · rw [knows, generate, AList.lookup_insert_ne hdid] at hknown
    exact h did hknown

theorem derived_generated (p : Primitives) (seeds : List (List UInt8)) :
    (generated p seeds).Derived p := by
  have hempty : Derived p ∅ := by
    intro did hknown
    cases hknown
  exact Machine.run_invariant hempty derived_generate seeds

theorem eq_of_lookup_generated_singleton {p : Primitives} {seed : List UInt8} {did : AgentDid}
    {material : KeyMaterial} (h : (generated p [seed]).lookup did = some material) :
    material = KeyMaterial.fromSeed p seed := by
  rw [generated, Machine.run, Machine.run, generate] at h
  by_cases hdid : did = AgentDid.fromVerifyingKey p (KeyMaterial.fromSeed p seed).verifying
  · rw [hdid, AList.lookup_insert] at h
    exact (Option.some.inj h).symm
  · rw [AList.lookup_insert_ne hdid] at h
    cases h

end InMemoryKeystore

/-! ## What is assumed of the primitives -/

/-- `serde_json::to_vec`. -/
def toVec (v : JsonText.Value) : List UInt8 := Text.asBytes (String.ofList (JsonText.write v))

theorem toVec_injective : Function.Injective toVec := by
  intro v v' h
  exact JsonText.write_injective (String.ofList_inj.mp (Text.asBytes_injective h))

/-- The digest of a JSON text does not collide, and no two instants have one text. Of the
length of a digest only what a thumbprint takes is used. -/
structure Primitives.Collisionless (p : Primitives) : Prop where
  digest_length : ∀ bytes, 12 ≤ (p.sha256 bytes).length
  digest : ∀ v v', p.sha256 (toVec v) = p.sha256 (toVec v') → toVec v = toVec v'
  rfc3339 : Function.Injective p.rfc3339

namespace InMemoryKeystore

/-- No two messages have one MAC, be it under two keys of the keystore. -/
def MacInjective (p : Primitives) (ks : InMemoryKeystore) : Prop :=
  ∀ {did did' material material' message message'}, ks.lookup did = some material →
    ks.lookup did' = some material' →
    hmacSha256 p material.secret message = hmacSha256 p material'.secret message' →
    message = message'

theorem macInjective_generated_singleton {p : Primitives} (hp : Function.Injective p.sha256)
    (seed : List UInt8) : (generated p [seed]).MacInjective p := by
  intro did did' material material' message message' hlookup hlookup' h
  rw [eq_of_lookup_generated_singleton hlookup, eq_of_lookup_generated_singleton hlookup'] at h
  exact hmacSha256_injective hp _ h

/-- **A keystore is a sound scheme.** -/
theorem sound {p : Primitives} {ks : InMemoryKeystore} (hmac : ks.MacInjective p) :
    Signing.Sound (sign p ks) (verify p ks) where
  verify_iff := verify_eq_ok_iff p ks
  binding := by
    intro did did' message message' signature h h'
    obtain ⟨material, hlookup, hsigned⟩ := sign_eq_ok_iff.mp h
    obtain ⟨material', hlookup', hsigned'⟩ := sign_eq_ok_iff.mp h'
    exact hmac hlookup hlookup' (hexEncode_injective (hsigned.trans hsigned'.symm))

/-- **Signature checks.** The comparison says of any two byte strings whether they are equal.
So in every state a signature is accepted exactly when the DID is known and it is, to the
character, the one that `sign` returns. -/
theorem verify_accepts_exactly (p : Primitives) (ks : InMemoryKeystore) :
    (∀ a b : List UInt8, constantTimeEq a b = true ↔ a = b) ∧
    ∀ (did : AgentDid) (message : List UInt8) (signature : String),
      verify p ks did message signature = .ok () ↔
        ks.knows did = true ∧ sign p ks did message = .ok signature := by
  refine ⟨fun a b => constantTimeEq_eq_true_iff, fun did message signature => ?_⟩
  rw [verify_eq_ok_iff]
  -- whoever signs is known
  refine (and_iff_right_of_imp fun hsigned => ?_).symm
  obtain ⟨material, hlookup, -⟩ := sign_eq_ok_iff.mp hsigned
  rw [knows, hlookup]
  rfl

end InMemoryKeystore

end Aaf
