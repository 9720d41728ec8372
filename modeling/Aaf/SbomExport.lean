import Aaf.Keystore

/-!
# SBOM exports

The SPDX and CycloneDX exporters of an `AgentSbom` (`aaf-identity`). Each entry becomes one
package and one component, whose id is its index, a dash and a slug of its name. The slug
loses the name; the index does not depend on it and can be read off the id, since the dash
behind it is no digit (`numbered_inj`).

`exports_complete`: both documents list every entry once, in order, with its name, version
and hash, under ids that are pairwise distinct.
-/

namespace Aaf

/-- Classes of SBOM entry. -/
inductive SbomEntryKind : Type where
  | model : SbomEntryKind
  | prompt : SbomEntryKind
  | tool : SbomEntryKind
  | ontology : SbomEntryKind
  | evalSuite : SbomEntryKind
  | trainingData : SbomEntryKind
  | other : SbomEntryKind
  deriving DecidableEq, Repr

/-- One line in an agent's SBOM. -/
structure SbomEntry where
  kind : SbomEntryKind
  name : String
  version : String
  contentHash : String
  locator : Option String
  deriving DecidableEq, Repr

/-- `SbomEntry::from_bytes`. -/
def SbomEntry.fromBytes (p : Primitives) (kind : SbomEntryKind) (name version : String)
    (bytes : List UInt8) : SbomEntry :=
  ⟨kind, name, version, hexEncode (p.sha256 bytes), none⟩

/-- Full agent software bill of materials. -/
structure AgentSbom where
  did : AgentDid
  generatedAt : ℤ
  entries : List SbomEntry
  deriving DecidableEq, Repr

/-- `AgentSbom::new`, at the instant `now`. -/
def AgentSbom.new (did : AgentDid) (now : ℤ) : AgentSbom := ⟨did, now, []⟩

/-- `AgentSbom::push`. -/
def AgentSbom.push (sbom : AgentSbom) (entry : SbomEntry) : AgentSbom :=
  { sbom with entries := sbom.entries ++ [entry] }

/-! ## The documents -/

/-- SPDX checksum block. -/
structure SpdxChecksum where
  algorithm : String
  checksumValue : String
  deriving DecidableEq, Repr

/-- SPDX package entry. -/
structure SpdxPackage where
  spdxId : String
  name : String
  versionInfo : String
  downloadLocation : String
  filesAnalyzed : Bool
  checksums : List SpdxChecksum
  licenseConcluded : String
  licenseDeclared : String
  copyrightText : String
  deriving DecidableEq, Repr

/-- SPDX creation-info block. -/
structure SpdxCreationInfo where
  creators : List String
  created : String
  deriving DecidableEq, Repr

/-- Minimal SPDX 2.3 document. -/
structure SpdxDocument where
  spdxVersion : String
  dataLicense : String
  spdxId : String
  name : String
  documentNamespace : String
  creationInfo : SpdxCreationInfo
  packages : List SpdxPackage
  deriving DecidableEq, Repr

/-- CycloneDX hash block. -/
structure CycloneDxHash where
  alg : String
  content : String
  deriving DecidableEq, Repr

/-- CycloneDX component block. -/
structure CycloneDxComponent where
  componentType : String
  bomRef : String
  name : String
  version : String
  hashes : List CycloneDxHash
  deriving DecidableEq, Repr

/-- CycloneDX tool block. -/
structure CycloneDxTool where
  vendor : String
  name : String
  version : String
  deriving DecidableEq, Repr

/-- CycloneDX metadata block. -/
structure CycloneDxMetadata where
  timestamp : String
  tools : List CycloneDxTool
  component : CycloneDxComponent
  deriving DecidableEq, Repr

/-- Minimal CycloneDX 1.5 document. -/
structure CycloneDxDocument where
  bomFormat : String
  specVersion : String
  version : ℕ
  serialNumber : Option String
  metadata : CycloneDxMetadata
  components : List CycloneDxComponent
  deriving DecidableEq, Repr

namespace SbomExport

/-! ## The exporters -/

/-- `spdx_type_for`. -/
def spdxTypeFor : SbomEntryKind → String
  | .model => "LIBRARY"
  | .prompt => "FILE"
  | .tool => "APPLICATION"
  | .ontology => "FILE"
  | .evalSuite => "FILE"
  | .trainingData => "FILE"
  | .other => "OTHER"

/-- `cyclonedx_type_for`. -/
def cyclonedxTypeFor : SbomEntryKind → String
  | .model => "machine-learning-model"
  | .prompt => "data"
  | .tool => "application"
  | .ontology => "data"
  | .evalSuite => "data"
  | .trainingData => "data"
  | .other => "library"

/-- A character that `slug` keeps: a letter, a digit or a dash. -/
def isIdChar (c : Char) : Bool := c.isAlphanum || c == '-'

/-- `slug`: any other character becomes a dash. -/
def slug (name : String) : String :=
  String.ofList (name.toList.map fun c => if isIdChar c then c else '-')

/-- The index and the slug that an id ends in. -/
def numbered (idx : ℕ) (name : String) : String := toString idx ++ "-" ++ slug name

/-- `spdx_package`. -/
def spdxPackage (entry : SbomEntry) (idx : ℕ) : SpdxPackage :=
  -- the type is computed and dropped
  let _ := spdxTypeFor entry.kind
  { spdxId := "SPDXRef-Package-" ++ numbered idx entry.name
    name := entry.name
    versionInfo := entry.version
    downloadLocation := entry.locator.getD "NOASSERTION"
    filesAnalyzed := false
    checksums := [⟨"SHA256", entry.contentHash⟩]
    licenseConcluded := "NOASSERTION"
    licenseDeclared := "NOASSERTION"
    copyrightText := "NOASSERTION" }

/-- `cyclonedx_component`. -/
def cyclonedxComponent (entry : SbomEntry) (idx : ℕ) : CycloneDxComponent :=
  { componentType := cyclonedxTypeFor entry.kind
    bomRef := numbered idx entry.name
    name := entry.name
    version := entry.version
    hashes := [⟨"SHA-256", entry.contentHash⟩] }

/-- `to_spdx`; `toRfc3339` is `DateTime::to_rfc3339`. -/
def toSpdx (toRfc3339 : ℤ → String) (sbom : AgentSbom) : SpdxDocument :=
  { spdxVersion := "SPDX-2.3"
    dataLicense := "CC0-1.0"
    spdxId := "SPDXRef-DOCUMENT"
    name := "aaf-agent-sbom-" ++ sbom.did.raw
    documentNamespace := "https://aaf.dev/sbom/" ++ sbom.did.raw
    creationInfo := ⟨["Tool: aaf-identity"], toRfc3339 sbom.generatedAt⟩
    packages := sbom.entries.mapIdx fun i e => spdxPackage e i }

/-- `to_cyclonedx`. -/
def toCyclonedx (toRfc3339 : ℤ → String) (sbom : AgentSbom) : CycloneDxDocument :=
  { bomFormat := "CycloneDX"
    specVersion := "1.5"
    version := 1
    serialNumber := none
    metadata :=
      { timestamp := toRfc3339 sbom.generatedAt
        tools := [⟨"aaf.dev", "aaf-identity", "0.2.0"⟩]
        component := ⟨"application", sbom.did.raw, sbom.did.raw, "1.0.0", []⟩ }
    components := sbom.entries.mapIdx fun i e => cyclonedxComponent e i }

/-! ## Ids -/

theorem isIdChar_of_mem_slug {name : String} {c : Char} (h : c ∈ (slug name).toList) :
    isIdChar c = true := by
  rw [slug, String.toList_ofList] at h
  obtain ⟨d, -, rfl⟩ := List.mem_map.mp h
  by_cases hd : isIdChar d = true
  · rw [if_pos hd]
    exact hd
  · rw [if_neg hd]
    rfl

/-- A slug is its own slug. -/
theorem slug_slug (name : String) : slug (slug name) = slug name := by
  have hkept : (slug name).toList.map (fun c => if isIdChar c then c else '-') =
      (slug name).toList.map id :=
    List.map_congr_left fun c hc => if_pos (isIdChar_of_mem_slug hc)
  rw [slug, hkept, List.map_id, String.ofList_toList]

theorem numbered_toList (n : ℕ) (name : String) :
    (numbered n name).toList = Nat.toDigits 10 n ++ '-' :: (slug name).toList := by
  rw [numbered, String.toList_append, String.toList_append]
  simp

theorem isIdChar_of_mem_numbered {n : ℕ} {name : String} {c : Char}
    (h : c ∈ (numbered n name).toList) : isIdChar c = true := by
  rw [numbered_toList, List.mem_append, List.mem_cons] at h
  rcases h with hdigit | rfl | hslug
  · have hc : c.isDigit = true := Text.isDigit_of_mem_toDigits hdigit
    rw [isIdChar, Char.isAlphanum, hc, Bool.or_true, Bool.true_or]
  · rfl
  · exact isIdChar_of_mem_slug hslug

/-- The index can be read off an id, whatever the slug behind it. -/
theorem numbered_inj {i j : ℕ} {name name' : String} (h : numbered i name = numbered j name') :
    i = j := by
  have hcut : Nat.toDigits 10 i ++ '-' :: (slug name).toList =
      Nat.toDigits 10 j ++ '-' :: (slug name').toList := by
    rw [← numbered_toList, ← numbered_toList, h]
  have hdash : ∀ n : ℕ, '-' ∉ Nat.toDigits 10 n := Text.notMem_toDigits rfl
  exact Text.toDigits_injective (Text.append_cons_inj_first (hdash i) (hdash j) hcut).1

section Enumerate

variable {α β γ : Type} {f : ℕ → α → β}

theorem map_mapIdx (g : β → γ) (l : List α) :
    (l.mapIdx f).map g = l.mapIdx fun i a => g (f i a) := by
  refine List.ext_getElem? fun i => ?_
  rw [List.getElem?_map, List.getElem?_mapIdx, List.getElem?_mapIdx, Option.map_map]
  rfl

/-- What does not depend on the positions is read off in order. -/
theorem map_mapIdx_of_eq {g : β → γ} {h : α → γ} (hg : ∀ i a, g (f i a) = h a) (l : List α) :
    (l.mapIdx f).map g = l.map h := by
  refine List.ext_getElem? fun i => ?_
  rw [map_mapIdx, List.getElem?_mapIdx, List.getElem?_map, funext (hg i)]

/-- What tells the positions apart is distinct, whatever stands at them. -/
theorem nodup_mapIdx (hf : ∀ {i j a b}, f i a = f j b → i = j) (l : List α) :
    (l.mapIdx f).Nodup := by
  rw [List.nodup_iff_pairwise_ne, List.pairwise_iff_getElem]
  intro i j hi hj hlt heq
  rw [List.getElem_mapIdx, List.getElem_mapIdx] at heq
  exact hlt.ne (hf heq)

end Enumerate

@[simp]
theorem spdxPackage_spdxId (entry : SbomEntry) (idx : ℕ) :
    (spdxPackage entry idx).spdxId = "SPDXRef-Package-" ++ numbered idx entry.name :=
  rfl

section

variable (toRfc3339 : ℤ → String) (sbom : AgentSbom)

/-- The ids of an SPDX document are its own and those of its packages. -/
theorem spdxIds_nodup : ((toSpdx toRfc3339 sbom).spdxId ::
    (toSpdx toRfc3339 sbom).packages.map SpdxPackage.spdxId).Nodup := by
  rw [toSpdx, map_mapIdx, List.nodup_cons]
  constructor
  · intro hmem
    obtain ⟨i, hi, heq⟩ := List.mem_mapIdx.mp hmem
    -- the first characters behind the common prefix differ
    have hchars := congrArg String.toList heq
    simp at hchars
  · refine nodup_mapIdx (fun {i j a b} h => ?_) _
    have hnumbered : numbered i a.name = numbered j b.name := String.append_right_inj _ |>.mp h
    exact numbered_inj hnumbered

/-- They are made of letters, digits and dashes. -/
theorem isIdChar_of_mem_spdxId {id : String} {c : Char}
    (hid : id ∈ (toSpdx toRfc3339 sbom).spdxId ::
      (toSpdx toRfc3339 sbom).packages.map SpdxPackage.spdxId)
    (hc : c ∈ id.toList) : isIdChar c = true := by
  have hfixed : "SPDXRef-DOCUMENT".toList.all isIdChar = true ∧
      "SPDXRef-Package-".toList.all isIdChar = true := by decide
  rw [toSpdx, map_mapIdx] at hid
  rcases List.mem_cons.mp hid with rfl | hid
  · exact List.all_eq_true.mp hfixed.1 c hc
  · obtain ⟨i, hi, rfl⟩ := List.mem_mapIdx.mp hid
    rw [spdxPackage_spdxId, String.toList_append] at hc
    rcases List.mem_append.mp hc with hc | hc
    · exact List.all_eq_true.mp hfixed.2 c hc
    · exact isIdChar_of_mem_numbered hc

theorem bomRefs_nodup :
    ((toCyclonedx toRfc3339 sbom).components.map CycloneDxComponent.bomRef).Nodup := by
  rw [toCyclonedx, map_mapIdx]
  exact nodup_mapIdx numbered_inj _

/-- The bom-ref of the subject is its DID, and the DID of an agent starts with no digit. -/
theorem subject_bomRef_notMem (hdid : Text.startsWith sbom.did.raw "did:aaf:" = true) :
    (toCyclonedx toRfc3339 sbom).metadata.component.bomRef ∉
      (toCyclonedx toRfc3339 sbom).components.map CycloneDxComponent.bomRef := by
  rw [toCyclonedx, map_mapIdx]
  intro hmem
  obtain ⟨i, hi, heq⟩ := List.mem_mapIdx.mp hmem
  obtain ⟨rest, hrest⟩ := Text.startsWith_iff.mp hdid
  have hchars : Nat.toDigits 10 i ++ '-' :: (slug sbom.entries[i].name).toList =
      "did:aaf:".toList ++ rest := by
    rw [← numbered_toList, hrest]
    exact congrArg String.toList heq
  have hhead : 'd' ∈ Nat.toDigits 10 i := by
    rcases hdigits : Nat.toDigits 10 i with _ | ⟨c, cs⟩
    · exact absurd hdigits Nat.toDigits_ne_nil
    · rw [hdigits] at hchars
      rw [(List.cons.inj hchars).1]
      exact List.mem_cons_self
  exact Text.notMem_toDigits rfl i hhead

/-! ## Entries -/

/-- A new entry is exported behind the others, whose packages stay as they are. -/
theorem toSpdx_push (entry : SbomEntry) :
    (toSpdx toRfc3339 (sbom.push entry)).packages =
      (toSpdx toRfc3339 sbom).packages ++ [spdxPackage entry sbom.entries.length] :=
  List.mapIdx_concat

theorem toCyclonedx_push (entry : SbomEntry) :
    (toCyclonedx toRfc3339 (sbom.push entry)).components =
      (toCyclonedx toRfc3339 sbom).components ++ [cyclonedxComponent entry sbom.entries.length] :=
  List.mapIdx_concat

/-- The hash of an entry binds the bytes it was built from. -/
theorem contentHash_fromBytes_inj {p : Primitives} (hp : Function.Injective p.sha256)
    {kind kind' : SbomEntryKind} {name name' version version' : String}
    {bytes bytes' : List UInt8}
    (h : (SbomEntry.fromBytes p kind name version bytes).contentHash =
      (SbomEntry.fromBytes p kind' name' version' bytes').contentHash) : bytes = bytes' :=
  hp (hexEncode_injective h)

/-- What the packages say of the entries. -/
theorem packages_eq : (toSpdx toRfc3339 sbom).packages.map
    (fun p => (p.name, p.versionInfo, p.checksums)) =
      sbom.entries.map fun e => (e.name, e.version, [⟨"SHA256", e.contentHash⟩]) := by
  refine map_mapIdx_of_eq ?_ _
  intro i e
  rfl

/-- What the components say of the entries. -/
theorem components_eq : (toCyclonedx toRfc3339 sbom).components.map
    (fun c => (c.name, c.version, c.hashes)) =
      sbom.entries.map fun e => (e.name, e.version, [⟨"SHA-256", e.contentHash⟩]) := by
  refine map_mapIdx_of_eq ?_ _
  intro i e
  rfl

end

/-- **Exports.** Whatever the names are, both documents have one item for each entry, in the
order of the entries, with its name, version and hash; all ids of the SPDX document are
distinct, and so are the bom-refs of the components. -/
theorem exports_complete (toRfc3339 : ℤ → String) (sbom : AgentSbom) :
    (toSpdx toRfc3339 sbom).packages.map (fun p => (p.name, p.versionInfo, p.checksums)) =
        sbom.entries.map (fun e => (e.name, e.version, [⟨"SHA256", e.contentHash⟩])) ∧
      (toCyclonedx toRfc3339 sbom).components.map (fun c => (c.name, c.version, c.hashes)) =
        sbom.entries.map (fun e => (e.name, e.version, [⟨"SHA-256", e.contentHash⟩])) ∧
      ((toSpdx toRfc3339 sbom).spdxId ::
        (toSpdx toRfc3339 sbom).packages.map SpdxPackage.spdxId).Nodup ∧
      ((toCyclonedx toRfc3339 sbom).components.map CycloneDxComponent.bomRef).Nodup :=
  ⟨packages_eq toRfc3339 sbom, components_eq toRfc3339 sbom, spdxIds_nodup toRfc3339 sbom,
    bomRefs_nodup toRfc3339 sbom⟩

/-- Names that the slug does not tell apart. -/
example : slug "cap-order.read" = slug "cap_order_read" ∧
    numbered 1 "2-x" ≠ numbered 12 "x" ∧ numbered 0 "a.b" ≠ numbered 1 "a_b" := by
  decide +kernel

end SbomExport

end Aaf
