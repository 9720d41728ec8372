import Aaf.Identity
import Aaf.SbomExport

/-!
# The identity command line

`aaf-server identity`. Every command is a process with a keystore of its own: a key is made from
what the command was given, used, and forgotten when the process ends.

`verify` is no exception. It reads a file as it is read for `sign-manifest`, builds and signs a
manifest from it, and checks the signature it has just made. A signature in the file is not read. So
a manifest that was printed and then changed is refused by the library, under the key that signed
it, and accepted by the command line, under a name that is not the one in the file:
`verify_signs_anew`.
-/

namespace Aaf

/-! ## Building -/

/-- `ManifestBuilder::new`. -/
def ManifestBuilder.new (did : AgentDid) (displayName sourceHash : String) : ManifestBuilder where
  did := did
  displayName := displayName
  sourceHash := sourceHash
  modelPins := []
  promptHashes := []
  toolBindings := []
  ontologySlices := []
  capabilityAllowList := []
  evalSuiteRefs := []
  expiresAt := none

/-- `ManifestBuilder::prompt_hash`. -/
def ManifestBuilder.promptHash (builder : ManifestBuilder) (h : String) : ManifestBuilder :=
  { builder with promptHashes := builder.promptHashes ++ [h] }

/-- `ManifestBuilder::ontology_slice`. -/
def ManifestBuilder.ontologySlice (builder : ManifestBuilder) (slice : String) : ManifestBuilder :=
  { builder with ontologySlices := builder.ontologySlices ++ [slice] }

/-- `ManifestBuilder::allow`. -/
def ManifestBuilder.allow (builder : ManifestBuilder) (cap : CapabilityId) : ManifestBuilder :=
  { builder with capabilityAllowList := builder.capabilityAllowList ++ [cap] }

/-- `ManifestBuilder::eval_ref`. -/
def ManifestBuilder.evalRef (builder : ManifestBuilder) (r : String) : ManifestBuilder :=
  { builder with evalSuiteRefs := builder.evalSuiteRefs ++ [r] }

/-- `SbomEntry::with_locator`. -/
def SbomEntry.withLocator (entry : SbomEntry) (locator : String) : SbomEntry :=
  { entry with locator := some locator }

namespace IdentityCli

/-! ## What a command reads and prints -/

/-- YAML shape for `sign-manifest` and `verify`. -/
structure ManifestInput where
  displayName : String
  sourceHash : String
  capabilityAllowList : List String
  ontologySlices : List String
  evalSuiteRefs : List String
  promptHashes : List String
  seed : Option String
  deriving DecidableEq, Repr

/-- One entry of an SBOM file. -/
structure SbomEntryInput where
  kind : String
  name : String
  version : String
  contentHash : String
  locator : Option String
  deriving DecidableEq, Repr

/-- YAML shape for `export-sbom`. -/
structure SbomInput where
  did : String
  entries : List SbomEntryInput
  deriving DecidableEq, Repr

/-- The errors that a command ends in. -/
inductive CliError : Type where
  | text (message : String) : CliError
  | io (e : String) : CliError
  | yaml (e : String) : CliError
  | identity (e : IdentityError) : CliError
  deriving DecidableEq, Repr

/-- The lines on the two streams. -/
structure Printed where
  out : List String
  err : List String
  deriving DecidableEq, Repr

/-- What a process has from outside: the crates for digests, YAML and JSON, two clocks and the
disk. -/
structure Host where
  primitives : Primitives
  now : ℤ
  /-- nanoseconds, unless the clock is before 1970 -/
  sinceEpoch : Option ℕ
  readToString : String → Except String String
  manifestFromStr : String → Except String ManifestInput
  sbomFromStr : String → Except String SbomInput
  manifestToStringPretty : AgentManifest → String
  revocationToStringPretty : RevocationEntry → String
  spdxToStringPretty : SpdxDocument → String
  cyclonedxToStringPretty : CycloneDxDocument → String

/-! ## The commands -/

/-- `print_help`. -/
def helpLines : List String := [
  "usage: aaf-server identity <subcommand>",
  "",
  "  generate-did  [display-name]                                    mint a new DID",
  "  sign-manifest <manifest.yaml>                                   emit signed manifest JSON",
  "  verify        <manifest.yaml>                                   verify a signed manifest",
  "  export-sbom   <sbom.yaml> [--format spdx|cyclonedx]             " ++
    "render SBOM in SPDX/CycloneDX JSON",
  "  revoke        <did> <reason>                                    " ++
    "add a signed revocation entry",
  "  help                                                            show this message",
  "",
  "NOTE: the identity subcommand uses an in-memory keystore that",
  "forgets all keys on process exit. Persistent keystore / HSM /",
  "SPIFFE backends are a future concern."]

/-- `u128::to_le_bytes`. -/
def toLeBytes (n : ℕ) : List UInt8 := (List.range 16).map fun i => UInt8.ofNat (n / 256 ^ i)

/-- `display_seed`. -/
def displaySeed (host : Host) (display : String) : List UInt8 :=
  let nanos := host.sinceEpoch.getD 0
  Text.asBytes display ++ toLeBytes nanos

/-- `cmd_generate`. -/
def cmdGenerate (host : Host) (args : List String) : Except CliError Printed :=
  let display := args.head?.getD "cli-agent"
  let seed := displaySeed host display
  let did := (InMemoryKeystore.generate host.primitives ∅ seed).1
  .ok {
    out := [
      "did:         " ++ did.raw,
      "display:     " ++ display,
      "backend:     in-memory HMAC-SHA256 (X1 Slice A/B)",
      "",
      "This keystore forgets keys on shutdown — store the DID before exit."]
    err := [] }

/-- `cmd_revoke`. -/
def cmdRevoke (host : Host) (args : List String) : Except CliError Printed := do
  match args with
  | didStr :: word :: words =>
    let reason := " ".intercalate (word :: words)
    let (revokerDid, ks) := InMemoryKeystore.generate host.primitives ∅
      (displaySeed host "cli-revoker")
    let entry ← (RevocationEntry.issue host.primitives .did didStr reason revokerDid host.now
      (ks.sign host.primitives)).mapError .identity
    return ⟨[host.revocationToStringPretty entry], []⟩
  | _ => return ⟨[], ["usage: aaf-server identity revoke <did> <reason>"]⟩

/-- `manifest_seed`. -/
def manifestSeed (input : ManifestInput) : List UInt8 :=
  Text.asBytes (input.seed.getD ("did-seed-" ++ input.displayName))

/-- `build_signed_manifest`. -/
def buildSignedManifest (host : Host) (input : ManifestInput) :
    Except IdentityError (InMemoryKeystore × AgentDid × AgentManifest) := do
  let (did, ks) := InMemoryKeystore.generate host.primitives ∅ (manifestSeed input)
  let builder := ManifestBuilder.new did input.displayName input.sourceHash
  let builder := input.capabilityAllowList.foldl (fun builder cap => builder.allow ⟨cap⟩) builder
  let builder := input.ontologySlices.foldl ManifestBuilder.ontologySlice builder
  let builder := input.evalSuiteRefs.foldl ManifestBuilder.evalRef builder
  let builder := input.promptHashes.foldl ManifestBuilder.promptHash builder
  let manifest ← builder.build host.primitives host.now (ks.sign host.primitives)
  return (ks, did, manifest)

/-- What `sign-manifest` and `verify` begin with: the file that is named first, read and parsed. -/
def readManifest (host : Host) (usage : String) (args : List String) :
    Except CliError ManifestInput := do
  match args with
  | [] => throw (.text usage)
  | path :: _ =>
    let raw ← (host.readToString path).mapError .io
    (host.manifestFromStr raw).mapError .yaml

/-- `cmd_sign_manifest`. -/
def cmdSignManifest (host : Host) (args : List String) : Except CliError Printed := do
  let input ← readManifest host "usage: aaf-server identity sign-manifest <manifest.yaml>" args
  let (_, _, manifest) ← (buildSignedManifest host input).mapError .identity
  return ⟨[host.manifestToStringPretty manifest], []⟩

/-- `cmd_verify`. -/
def cmdVerify (host : Host) (args : List String) : Except CliError Printed := do
  let input ← readManifest host "usage: aaf-server identity verify <manifest.yaml>" args
  let (ks, did, manifest) ← (buildSignedManifest host input).mapError .identity
  (manifest.verify host.primitives (ks.verify host.primitives)).mapError .identity
  return ⟨["ok  " ++ did.raw ++ "  " ++ manifest.displayName], []⟩

/-- `parse_sbom_kind`. -/
def parseSbomKind (s : String) : SbomEntryKind :=
  match String.ofList (s.toList.map Text.toAsciiLowercase) with
  | "model" => .model
  | "prompt" => .prompt
  | "tool" => .tool
  | "ontology" => .ontology
  | "eval_suite" | "eval-suite" => .evalSuite
  | "training_data" | "training-data" => .trainingData
  | _ => .other

/-- The loop of `cmd_export_sbom` over the arguments behind the path. -/
def scanFormat (format : String) : List String → String
  | [] => format
  -- `--format` at the end has no value and is passed over
  | [_] => format
  | arg :: val :: args =>
    if arg = "--format" then scanFormat val args else scanFormat format (val :: args)

/-- What `cmd_export_sbom` makes of an entry. -/
def sbomEntry (e : SbomEntryInput) : SbomEntry :=
  let entry : SbomEntry := ⟨parseSbomKind e.kind, e.name, e.version, e.contentHash, none⟩
  match e.locator with
  | some loc => entry.withLocator loc
  | none => entry

/-- `cmd_export_sbom`. -/
def cmdExportSbom (host : Host) (args : List String) : Except CliError Printed := do
  match args with
  | [] => throw (.text
      "usage: aaf-server identity export-sbom <sbom.yaml> [--format spdx|cyclonedx]")
  | path :: rest =>
    let format := scanFormat "spdx" rest
    let raw ← (host.readToString path).mapError .io
    let input ← (host.sbomFromStr raw).mapError .yaml
    let sbom := input.entries.foldl (fun sbom e => sbom.push (sbomEntry e))
      (AgentSbom.new ⟨input.did⟩ host.now)
    match format with
    | "spdx" =>
      return ⟨[host.spdxToStringPretty (SbomExport.toSpdx host.primitives.rfc3339 sbom)], []⟩
    | "cyclonedx" =>
      return ⟨[host.cyclonedxToStringPretty
        (SbomExport.toCyclonedx host.primitives.rfc3339 sbom)], []⟩
    | other =>
      throw (.text ("unknown --format `" ++ other ++ "` (use spdx or cyclonedx)"))

/-- `dispatch`. -/
def dispatch (host : Host) (args : List String) : Except CliError Printed :=
  match args with
  | [] => .ok ⟨helpLines, []⟩
  | "generate" :: args | "generate-did" :: args => cmdGenerate host args
  | "sign-manifest" :: args => cmdSignManifest host args
  | "verify" :: args => cmdVerify host args
  | "export-sbom" :: args => cmdExportSbom host args
  | "revoke" :: args => cmdRevoke host args
  | "help" :: _ | "--help" :: _ | "-h" :: _ => .ok ⟨helpLines, []⟩
  | other :: _ => .ok ⟨helpLines, ["unknown identity subcommand `" ++ other ++ "`"]⟩

/-! ## What is printed -/

/-- A keystore of one key knows it by the name it gives. -/
theorem lookup_generated (p : Primitives) (seed : List UInt8) :
    (InMemoryKeystore.generated p [seed]).lookup
      (AgentDid.fromVerifyingKey p (KeyMaterial.fromSeed p seed).verifying) =
        some (KeyMaterial.fromSeed p seed) :=
  AList.lookup_insert _

/-- Pushing one after the other appends them all. -/
theorem foldl_push {σ α β : Type} {push : σ → β → σ} {f : List α → σ} {g : β → α}
    (hpush : ∀ l b, push (f l) b = f (l ++ [g b])) (bs : List β) (l : List α) :
    bs.foldl push (f l) = f (l ++ bs.map g) := by
  induction bs generalizing l with
  | nil => rw [List.foldl_nil, List.map_nil, List.append_nil]
  | cons b bs ih => rw [List.foldl_cons, hpush, ih, List.append_assoc, List.map_cons,
      List.singleton_append]

namespace ManifestInput

/-- The keystore of a process that was given the input. -/
def keystore (p : Primitives) (input : ManifestInput) : InMemoryKeystore :=
  InMemoryKeystore.generated p [manifestSeed input]

/-- The name of its key. -/
def did (p : Primitives) (input : ManifestInput) : AgentDid :=
  AgentDid.fromVerifyingKey p (KeyMaterial.fromSeed p (manifestSeed input)).verifying

/-- A manifest that says what the input says. -/
def manifest (p : Primitives) (input : ManifestInput) (now : ℤ) (signature : String) :
    AgentManifest where
  did := input.did p
  displayName := input.displayName
  sourceHash := input.sourceHash
  modelPins := []
  promptHashes := input.promptHashes
  toolBindings := []
  ontologySlices := input.ontologySlices
  capabilityAllowList := input.capabilityAllowList.map CapabilityId.mk
  evalSuiteRefs := input.evalSuiteRefs
  issuedAt := now
  expiresAt := none
  signature := signature

/-- The one that carries its signature. -/
def signed (p : Primitives) (input : ManifestInput) (now : ℤ) : AgentManifest :=
  input.manifest p now (hexEncode (hmacSha256 p (KeyMaterial.fromSeed p (manifestSeed input)).secret
    (Text.asBytes ((input.manifest p now "").canonicalHash p))))

/-- What is read from the text of a manifest: the fields that both have. -/
def ofManifest (m : AgentManifest) : ManifestInput where
  displayName := m.displayName
  sourceHash := m.sourceHash
  capabilityAllowList := m.capabilityAllowList.map CapabilityId.raw
  ontologySlices := m.ontologySlices
  evalSuiteRefs := m.evalSuiteRefs
  promptHashes := m.promptHashes
  seed := none

end ManifestInput

section Builder

variable (builder : ManifestBuilder) (l : List String)

theorem foldl_allow : l.foldl (fun builder cap => builder.allow ⟨cap⟩) builder =
    { builder with capabilityAllowList := builder.capabilityAllowList ++ l.map CapabilityId.mk } :=
  foldl_push (f := fun l => ({ builder with capabilityAllowList := l } : ManifestBuilder))
    (fun _ _ => rfl) l builder.capabilityAllowList

theorem foldl_ontologySlice : l.foldl ManifestBuilder.ontologySlice builder =
    { builder with ontologySlices := builder.ontologySlices ++ l.map id } :=
  foldl_push (f := fun l => ({ builder with ontologySlices := l } : ManifestBuilder))
    (fun _ _ => rfl) l builder.ontologySlices

theorem foldl_evalRef : l.foldl ManifestBuilder.evalRef builder =
    { builder with evalSuiteRefs := builder.evalSuiteRefs ++ l.map id } :=
  foldl_push (f := fun l => ({ builder with evalSuiteRefs := l } : ManifestBuilder))
    (fun _ _ => rfl) l builder.evalSuiteRefs

theorem foldl_promptHash : l.foldl ManifestBuilder.promptHash builder =
    { builder with promptHashes := builder.promptHashes ++ l.map id } :=
  foldl_push (f := fun l => ({ builder with promptHashes := l } : ManifestBuilder))
    (fun _ _ => rfl) l builder.promptHashes

end Builder

/-- What is built and signed is what the input says. -/
theorem buildSignedManifest_eq (host : Host) (input : ManifestInput) :
    buildSignedManifest host input = .ok (input.keystore host.primitives,
      input.did host.primitives, input.signed host.primitives host.now) := by
  have hsign : ∀ message, (input.keystore host.primitives).sign host.primitives
      (input.did host.primitives) message = .ok (hexEncode (hmacSha256 host.primitives
        (KeyMaterial.fromSeed host.primitives (manifestSeed input)).secret message)) := by
    intro message
    exact InMemoryKeystore.sign_eq_ok_iff.mpr ⟨_, lookup_generated host.primitives _, rfl⟩
  refine Loop.bind_ok_iff.mpr ⟨input.signed host.primitives host.now, ?_, rfl⟩
  rw [foldl_allow, foldl_ontologySlice, foldl_evalRef, foldl_promptHash]
  simp only [ManifestBuilder.new, List.nil_append, List.map_id]
  exact Loop.bind_ok_iff.mpr ⟨_, hsign _, rfl⟩

/-- Whoever makes the same key accepts what was signed with it. -/
theorem verify_signed {p : Primitives} (hlength : ∀ bytes, 12 ≤ (p.sha256 bytes).length)
    {input other : ManifestInput} (hseed : manifestSeed other = manifestSeed input) (now : ℤ) :
    (input.signed p now).verify p ((other.keystore p).verify p) = .ok () := by
  rw [AgentManifest.verify_eq_ok_iff, InMemoryKeystore.verify_eq_ok_iff]
  have hkeystore : other.keystore p = input.keystore p := by
    rw [ManifestInput.keystore, ManifestInput.keystore, hseed]
  rw [hkeystore]
  refine ⟨AgentDid.isWellFormed_fromVerifyingKey p _ (hlength _), ?_⟩
  exact InMemoryKeystore.sign_eq_ok_iff.mpr ⟨_, lookup_generated p _, rfl⟩

/-! ## The commands on a file -/

theorem mapError_eq_ok_iff {ε ε' α : Type} {f : ε → ε'} {m : Except ε α} {a : α} :
    m.mapError f = .ok a ↔ m = .ok a := by
  cases m <;> simp [Except.mapError]

theorem readManifest_ok_iff {host : Host} {usage : String} {args : List String}
    {input : ManifestInput} :
    readManifest host usage args = .ok input ↔ ∃ path rest raw, args = path :: rest ∧
      host.readToString path = .ok raw ∧ host.manifestFromStr raw = .ok input := by
  cases args with
  | nil =>
    refine ⟨fun h => ?_, ?_⟩
    · cases h
    · rintro ⟨_, _, _, h, -⟩
      cases h
  | cons path rest =>
    simp only [readManifest, Loop.bind_ok_iff, mapError_eq_ok_iff, List.cons.injEq]
    refine ⟨?_, ?_⟩
    · rintro ⟨raw, hread, hparse⟩
      exact ⟨path, rest, raw, ⟨rfl, rfl⟩, hread, hparse⟩
    · rintro ⟨_, _, raw, ⟨rfl, rfl⟩, hread, hparse⟩
      exact ⟨raw, hread, hparse⟩

/-- `sign-manifest` prints the manifest of the file it reads. -/
theorem cmdSignManifest_ok_iff {host : Host} {args : List String} {printed : Printed} :
    cmdSignManifest host args = .ok printed ↔ ∃ path rest raw input, args = path :: rest ∧
      host.readToString path = .ok raw ∧ host.manifestFromStr raw = .ok input ∧
      printed =
        ⟨[host.manifestToStringPretty (input.signed host.primitives host.now)], []⟩ := by
  simp only [cmdSignManifest, Loop.bind_ok_iff, readManifest_ok_iff, buildSignedManifest_eq,
    mapError_eq_ok_iff]
  refine ⟨?_, ?_⟩
  · rintro ⟨input, ⟨path, rest, raw, hargs, hread, hparse⟩, built, hbuilt, hprinted⟩
    cases hbuilt
    cases hprinted
    exact ⟨path, rest, raw, input, hargs, hread, hparse, rfl⟩
  · rintro ⟨path, rest, raw, input, hargs, hread, hparse, rfl⟩
    exact ⟨input, ⟨path, rest, raw, hargs, hread, hparse⟩, _, rfl, rfl⟩

/-- `verify` accepts every file it can read. -/
theorem cmdVerify_ok_iff {host : Host} {args : List String} {printed : Printed}
    (hlength : ∀ bytes, 12 ≤ (host.primitives.sha256 bytes).length) :
    cmdVerify host args = .ok printed ↔ ∃ path rest raw input, args = path :: rest ∧
      host.readToString path = .ok raw ∧ host.manifestFromStr raw = .ok input ∧
      printed =
        ⟨["ok  " ++ (input.did host.primitives).raw ++ "  " ++ input.displayName], []⟩ := by
  simp only [cmdVerify, Loop.bind_ok_iff, readManifest_ok_iff, buildSignedManifest_eq,
    mapError_eq_ok_iff]
  refine ⟨?_, ?_⟩
  · rintro ⟨input, ⟨path, rest, raw, hargs, hread, hparse⟩, built, hbuilt, _, -, hprinted⟩
    cases hbuilt
    cases hprinted
    exact ⟨path, rest, raw, input, hargs, hread, hparse, rfl⟩
  · rintro ⟨path, rest, raw, input, hargs, hread, hparse, rfl⟩
    exact ⟨input, ⟨path, rest, raw, hargs, hread, hparse⟩, _, rfl, (),
      verify_signed hlength rfl host.now, rfl⟩

/-- `revoke` prints what it is told, signed with a key of its own. -/
theorem cmdRevoke_ok (host : Host) (didStr word : String) (words : List String) :
    ∃ entry : RevocationEntry,
      cmdRevoke host (didStr :: word :: words) =
        .ok ⟨[host.revocationToStringPretty entry], []⟩ ∧
      entry.kind = .did ∧ entry.target = didStr ∧ entry.reason = " ".intercalate (word :: words) ∧
      entry.verify host.primitives ((InMemoryKeystore.generated host.primitives
        [displaySeed host "cli-revoker"]).verify host.primitives) = .ok () := by
  have hsign := fun message => InMemoryKeystore.sign_eq_ok_iff.mpr
    ⟨_, lookup_generated host.primitives (displaySeed host "cli-revoker"),
      Eq.refl (hexEncode (hmacSha256 host.primitives _ message))⟩
  refine ⟨_, Loop.bind_ok_iff.mpr ⟨_, mapError_eq_ok_iff.mpr
    (Loop.bind_ok_iff.mpr ⟨_, hsign _, rfl⟩), rfl⟩, rfl, rfl, rfl, ?_⟩
  exact (InMemoryKeystore.verify_eq_ok_iff _ _ _ _ _).mpr (hsign _)

/-- `export-sbom` prints the document of the entries in the file, in one of two formats. -/
theorem cmdExportSbom_ok_iff {host : Host} {path : String} {rest : List String}
    {printed : Printed} :
    cmdExportSbom host (path :: rest) = .ok printed ↔ ∃ raw input,
      host.readToString path = .ok raw ∧ host.sbomFromStr raw = .ok input ∧
      let sbom : AgentSbom := ⟨⟨input.did⟩, host.now, input.entries.map sbomEntry⟩
      (scanFormat "spdx" rest = "spdx" ∧ printed =
          ⟨[host.spdxToStringPretty (SbomExport.toSpdx host.primitives.rfc3339 sbom)], []⟩ ∨
        scanFormat "spdx" rest = "cyclonedx" ∧ printed =
          ⟨[host.cyclonedxToStringPretty
            (SbomExport.toCyclonedx host.primitives.rfc3339 sbom)], []⟩) := by
  have hsbom : ∀ input : SbomInput,
      input.entries.foldl (fun sbom e => sbom.push (sbomEntry e))
        (AgentSbom.new ⟨input.did⟩ host.now) =
          ⟨⟨input.did⟩, host.now, input.entries.map sbomEntry⟩ := by
    intro input
    exact foldl_push (f := fun l => (⟨⟨input.did⟩, host.now, l⟩ : AgentSbom)) (fun _ _ => rfl)
      input.entries []
  simp only [cmdExportSbom, Loop.bind_ok_iff, mapError_eq_ok_iff, hsbom]
  refine ⟨?_, ?_⟩
  · rintro ⟨raw, hread, input, hparse, hprinted⟩
    refine ⟨raw, input, hread, hparse, ?_⟩
    split at hprinted
    · next hformat =>
      cases hprinted
      exact Or.inl ⟨hformat, rfl⟩
    · next hformat =>
      cases hprinted
      exact Or.inr ⟨hformat, rfl⟩
    · cases hprinted
  · rintro ⟨raw, input, hread, hparse, ⟨hformat, rfl⟩ | ⟨hformat, rfl⟩⟩ <;>
      exact ⟨raw, hread, input, hparse, by rw [hformat]; rfl⟩

/-- **`verify` signs anew.** It accepts every file that can be read as a manifest and nothing else.
What `sign-manifest` prints is good for whoever can make its key; once it has been changed it no
longer is, and `verify` in a later process accepts it all the same, under the name that its own
display name gives. -/
theorem verify_signs_anew {host later : Host} (hp : host.primitives.Collisionless)
    (hmac : ∀ seed, (InMemoryKeystore.generated host.primitives [seed]).MacInjective
      host.primitives)
    (hcrates : later.primitives = host.primitives) :
    (∀ args, (∃ printed, dispatch later ("verify" :: args) = .ok printed) ↔
      ∃ path rest raw input, args = path :: rest ∧ later.readToString path = .ok raw ∧
        later.manifestFromStr raw = .ok input) ∧
    ∀ path rest raw input, host.readToString path = .ok raw →
      host.manifestFromStr raw = .ok input →
      let printed := input.signed host.primitives host.now
      dispatch host ("sign-manifest" :: path :: rest) =
        .ok ⟨[host.manifestToStringPretty printed], []⟩ ∧
      (∀ other : ManifestInput, manifestSeed other = manifestSeed input →
        printed.verify host.primitives ((other.keystore host.primitives).verify host.primitives) =
          .ok ()) ∧
      ∀ (changed : AgentManifest) path' rest', changed ≠ printed →
        changed.signature = printed.signature →
        later.readToString path' = .ok (host.manifestToStringPretty changed) →
        later.manifestFromStr (host.manifestToStringPretty changed) =
          .ok (ManifestInput.ofManifest changed) →
        changed.verify host.primitives
            ((input.keystore host.primitives).verify host.primitives) ≠ .ok () ∧
          dispatch later ("verify" :: path' :: rest') =
            .ok ⟨["ok  " ++ ((ManifestInput.ofManifest changed).did host.primitives).raw ++ "  " ++
              changed.displayName], []⟩ := by
  have hlength : ∀ bytes, 12 ≤ (later.primitives.sha256 bytes).length := by
    rw [hcrates]
    exact hp.digest_length
  refine ⟨fun args => ?_, fun path rest raw input hread hparse => ⟨?_, ?_, ?_⟩⟩
  · change (∃ printed, cmdVerify later args = .ok printed) ↔ _
    simp only [cmdVerify_ok_iff hlength]
    refine ⟨?_, ?_⟩
    · rintro ⟨_, path, rest, raw, input, hargs, hread, hparse, -⟩
      exact ⟨path, rest, raw, input, hargs, hread, hparse⟩
    · rintro ⟨path, rest, raw, input, hargs, hread, hparse⟩
      exact ⟨_, path, rest, raw, input, hargs, hread, hparse, rfl⟩
  · exact cmdSignManifest_ok_iff.mpr ⟨path, rest, raw, input, rfl, hread, hparse, rfl⟩
  · intro other hseed
    exact verify_signed hp.digest_length hseed host.now
  · intro changed path' rest' hchanged hsignature hfile htext
    refine ⟨?_, ?_⟩
    · exact AgentManifest.tamperEvident hp (InMemoryKeystore.sound (hmac (manifestSeed input)))
        _ _ (verify_signed hp.digest_length rfl host.now) hsignature hchanged
    · rw [← hcrates]
      exact (cmdVerify_ok_iff hlength).mpr ⟨path', rest', _, _, rfl, hfile, htext, rfl⟩

/-- The file of an agent. -/
def orderAgent : ManifestInput where
  displayName := "order-agent"
  sourceHash := "src-hash-abc"
  capabilityAllowList := ["cap-order-read"]
  ontologySlices := ["commerce"]
  evalSuiteRefs := []
  promptHashes := []
  seed := some "admin"

def orderAgentYaml : String :=
  "display_name: order-agent\nsource_hash: src-hash-abc\n" ++
  "capability_allow_list: [cap-order-read]\nontology_slices: [commerce]\nseed: admin\n"

/-- What was printed for it, with another capability. -/
def widened : AgentManifest :=
  { orderAgent.signed AdminKey.primitives 0 with
    capabilityAllowList := [⟨"cap-order-read"⟩, ⟨"cap-order-refund"⟩] }

/-- `serde_json::to_string_pretty`, for a manifest without pins and bindings whose texts need no
escapes. -/
def manifestPretty (p : Primitives) (m : AgentManifest) : String :=
  let quoted (s : String) : String := "\"" ++ s ++ "\""
  let field (name value : String) : String := "  " ++ quoted name ++ ": " ++ value
  let items (l : List String) : String :=
    if l.isEmpty then "[]"
    else "[\n" ++ ",\n".intercalate (l.map fun s => "    " ++ quoted s) ++ "\n  ]"
  let expiry := m.expiresAt.toList.map fun t => field "expires_at" (quoted (p.rfc3339 t))
  "\x7b\n" ++ ",\n".intercalate ([
    field "did" (quoted m.did.raw),
    field "display_name" (quoted m.displayName),
    field "source_hash" (quoted m.sourceHash),
    field "model_pins" "[]",
    field "prompt_hashes" (items m.promptHashes),
    field "tool_bindings" "[]",
    field "ontology_slices" (items m.ontologySlices),
    field "capability_allow_list" (items (m.capabilityAllowList.map CapabilityId.raw)),
    field "eval_suite_refs" (items m.evalSuiteRefs),
    field "issued_at" (quoted (p.rfc3339 m.issuedAt))] ++ expiry ++
    [field "signature" (quoted m.signature)]) ++ "\n\x7d"

/-- The file of the agent and the changed manifest. -/
def disk (path : String) : Except String String :=
  if path = "order-agent.yaml" then .ok orderAgentYaml
  else if path = "order-agent.json" then .ok (manifestPretty AdminKey.primitives widened)
  else .error "No such file or directory (os error 2)"

/-- `serde_yaml::from_str`, on these two. -/
def fromStr (raw : String) : Except String ManifestInput :=
  if raw = orderAgentYaml then .ok orderAgent
  else if raw = manifestPretty AdminKey.primitives widened then .ok (.ofManifest widened)
  else .error "missing field"

def clerk : Host where
  primitives := AdminKey.primitives
  now := 0
  sinceEpoch := some 0
  readToString := disk
  manifestFromStr := fromStr
  sbomFromStr _ := .error "missing field"
  manifestToStringPretty := manifestPretty AdminKey.primitives
  revocationToStringPretty _ := ""
  spdxToStringPretty _ := ""
  cyclonedxToStringPretty _ := ""

theorem manifestPretty_ne (p : Primitives) (m : AgentManifest) :
    manifestPretty p m ≠ orderAgentYaml := by
  intro h
  have hlist := String.toList_inj.mpr h
  rw [manifestPretty, String.toList_append, String.toList_append, List.append_assoc] at hlist
  have hbrace : "\x7b\n".toList <+: orderAgentYaml.toList := ⟨_, hlist⟩
  exact absurd hbrace (by decide +kernel)

theorem clerk_readToString : clerk.readToString = disk := rfl

theorem clerk_manifestFromStr : clerk.manifestFromStr = fromStr := rfl

theorem clerk_manifestToStringPretty :
    clerk.manifestToStringPretty = manifestPretty AdminKey.primitives := rfl

theorem verify_signs_anew_widened :
    widened.verify AdminKey.primitives
        ((orderAgent.keystore AdminKey.primitives).verify AdminKey.primitives) ≠ .ok () ∧
      dispatch clerk ["verify", "order-agent.json"] =
        .ok ⟨["ok  " ++ ((ManifestInput.ofManifest widened).did AdminKey.primitives).raw ++
          "  " ++ widened.displayName], []⟩ := by
  have hmac : ∀ seed, (InMemoryKeystore.generated AdminKey.primitives [seed]).MacInjective
      AdminKey.primitives := InMemoryKeystore.macInjective_generated_singleton
    (AdminKey.withDigests_sha256_injective AdminKey.nodup_digests AdminKey.length_of_mem_digests)
  have hchanged : widened ≠ orderAgent.signed AdminKey.primitives 0 := by
    intro h
    exact absurd (congrArg AgentManifest.capabilityAllowList h) (by decide)
  have hyaml : clerk.readToString "order-agent.yaml" = .ok orderAgentYaml := by
    rw [clerk_readToString, disk, if_pos rfl]
  have hjson : clerk.readToString "order-agent.json" =
      .ok (clerk.manifestToStringPretty widened) := by
    rw [clerk_readToString, disk, if_neg (by decide), if_pos rfl, clerk_manifestToStringPretty]
  have hparse : clerk.manifestFromStr orderAgentYaml = .ok orderAgent := by
    rw [clerk_manifestFromStr, fromStr, if_pos rfl]
  have hchangedParse : clerk.manifestFromStr (clerk.manifestToStringPretty widened) =
      .ok (.ofManifest widened) := by
    rw [clerk_manifestFromStr, clerk_manifestToStringPretty, fromStr,
      if_neg (manifestPretty_ne _ _), if_pos rfl]
  obtain ⟨-, hsigned⟩ := @verify_signs_anew clerk clerk AdminKey.collisionless hmac rfl
  obtain ⟨-, -, hwidened⟩ := hsigned "order-agent.yaml" [] orderAgentYaml orderAgent hyaml hparse
  exact hwidened widened "order-agent.json" [] hchanged rfl hjson hchangedParse

end IdentityCli

end Aaf
