import Mathlib.Data.List.Sort
import Mathlib.Order.Basic
import Aaf.Lines

/-!
# Importing an ontology

`aaf-server ontology import`: every schema of an OpenAPI document becomes a proposal for an entity,
and the proposals are written as YAML for somebody to review.

`import_openapi` leaves no schema out and no proposal without a field, texts apart. `render_yaml`
writes names as they are, without quotes or escapes. As long as no name has a line break in it the
reviewer can tell from the file what was proposed: `rendered_apart`.
-/

namespace Aaf

/-- A `BTreeMap<String, _>` that is only read, in the order of its keys. -/
structure OrderedMap (V : Type) where
  entries : List (String × V)
  ascending : entries.Pairwise fun a b => a.1 < b.1

namespace OrderedMap

variable {V W : Type}

def empty : OrderedMap V := ⟨[], List.Pairwise.nil⟩

/-- The map after one `insert` into an empty one. -/
def single (key : String) (value : V) : OrderedMap V :=
  ⟨[(key, value)], List.pairwise_singleton _ _⟩

/-- The map after an `insert` of what `f` makes of each entry. -/
def mapValues (f : V → W) (m : OrderedMap V) : OrderedMap W :=
  ⟨m.entries.map fun e => (e.1, f e.2), List.pairwise_map.mpr m.ascending⟩

end OrderedMap

namespace OntologyImport

/-! ## Documents and proposals -/

/-- `OpenApiProperty`. -/
structure OpenApiProperty where
  type : Option String
  format : Option String
  deriving DecidableEq, Repr

/-- `OpenApiSchema`. -/
structure OpenApiSchema where
  type : Option String
  description : String
  properties : OrderedMap OpenApiProperty
  entityId : Option String

/-- `OpenApiDoc`: the title, and the schemas when there are `components`. -/
structure OpenApiDoc where
  title : String
  components : Option (OrderedMap OpenApiSchema)

/-- One proposed entity derived from an OpenAPI schema. -/
structure EntityProposal where
  id : String
  description : String
  fields : OrderedMap String

/-- Import errors surfaced to the caller. -/
inductive ImportError : Type where
  | parse (e : String) : ImportError
  | notOpenApi : ImportError
  deriving DecidableEq, Repr

/-- What the import takes from its crates and from the tables of Unicode. -/
structure Readers where
  fromYaml : String → Except String OpenApiDoc
  fromJson : String → Except String OpenApiDoc
  isAlphanumeric : Char → Bool

/-- `slugify`; `trim_matches` takes the underscores off both ends. -/
def slugify (isAlphanumeric : Char → Bool) (s : String) : String :=
  let slug := (Text.trim s).toList.map fun c =>
    if isAlphanumeric c then Text.toAsciiLowercase c else '_'
  String.ofList ((slug.dropWhile (· == '_')).rdropWhile (· == '_'))

/-- `map_type`. -/
def mapType (prop : OpenApiProperty) : String :=
  match prop.type with
  | some "string" =>
    match prop.format with
    | some "date-time" => "timestamp"
    | _ => "string"
  | some "integer" => "integer"
  | some "number" => "float"
  | some "boolean" => "boolean"
  | some "object" | some "array" => "object"
  | _ => "object"

/-- The body of the loop of `import_openapi`. -/
def proposal (titleSlug : String) (schemaName : String) (schema : OpenApiSchema) :
    EntityProposal :=
  let id := schema.entityId.getD (titleSlug ++ "." ++ schemaName)
  let fields := schema.properties.mapValues mapType
  -- a shell for somebody to fill in, unless the schema is a plain text
  let fields := if fields.entries.isEmpty ∧ schema.type ≠ some "string" then
      OrderedMap.single "(todo)" "object"
    else fields
  { id := id, description := schema.description, fields := fields }

/-- The document in a text: YAML, or else JSON. -/
def readDoc (readers : Readers) (raw : String) : Except ImportError OpenApiDoc :=
  match readers.fromYaml raw with
  | .ok d => .ok d
  | .error _ =>
    match readers.fromJson raw with
    | .ok d => .ok d
    | .error e => .error (.parse e)

/-- The slug in front of the names of a document. -/
def titleSlug (readers : Readers) (doc : OpenApiDoc) : String :=
  if doc.title.isEmpty then "imported" else slugify readers.isAlphanumeric doc.title

/-- `import_openapi`, with the document at hand. -/
def importDoc (readers : Readers) (doc : OpenApiDoc) : Except ImportError (List EntityProposal) :=
  match doc.components with
  | none => .error .notOpenApi
  | some schemas =>
    if schemas.entries.isEmpty then .error .notOpenApi
    else
      let out := schemas.entries.map fun e => proposal (titleSlug readers doc) e.1 e.2
      .ok (out.insertionSort fun a b => a.id ≤ b.id)

/-- `import_openapi`. -/
def importOpenapi (readers : Readers) (raw : String) :
    Except ImportError (List EntityProposal) :=
  readDoc readers raw >>= importDoc readers

/-! ## Rendering -/

/-- The description on one line. -/
def descLine (p : EntityProposal) : String :=
  if p.description.isEmpty then "(imported — add a description)"
  else String.ofList (p.description.toList.map fun c => if c = '\n' then ' ' else c)

/-- What the inner loop of `render_yaml` adds for a field. -/
def renderField (field : String × String) : String :=
  "      - name: " ++ field.1 ++ "\n" ++
    ("        field_type: " ++ field.2 ++ "\n") ++ ("        required: false" ++ "\n")

/-- What the loop of `render_yaml` adds for a proposal. -/
def renderProposal (out : String) (p : EntityProposal) : String :=
  let out := out ++ ("  - id: " ++ p.id ++ "\n")
  let out := out ++ ("    version: 0.1.0" ++ "\n")
  let out := out ++ ("    description: " ++ descLine p ++ "\n")
  let out := out ++
    ("    classification: internal   # review: may need to be confidential or pii" ++ "\n")
  let out := out ++ ("    fields:" ++ "\n")
  p.fields.entries.foldl (fun out field => out ++ renderField field) out

/-- What `render_yaml` begins with. -/
def header : String :=
  "# AUTO-GENERATED by `aaf-server ontology import` — HUMAN REVIEW REQUIRED.\n" ++
  "# Classification defaults to `internal` for every entity. You MUST audit\n" ++
  "# and downgrade / upgrade per data-handling policy before merging.\n" ++
  "entities:\n"

/-- `render_yaml`. -/
def renderYaml (proposals : List EntityProposal) : String := proposals.foldl renderProposal header

/-! ## The lines of the file -/

/-- The first line of a field. -/
def nameLine (field : String × String) : String := "      - name: " ++ field.1

/-- Its other lines. -/
def typeLines (field : String × String) : List String :=
  ["        field_type: " ++ field.2, "        required: false"]

/-- The lines of the fields. -/
def fieldLines (fields : List (String × String)) : List String :=
  fields.flatMap fun field => nameLine field :: typeLines field

/-- The first line of a proposal. -/
def idLine (p : EntityProposal) : String := "  - id: " ++ p.id

/-- Its other lines. -/
def bodyLines (p : EntityProposal) : List String :=
  "    version: 0.1.0" ::
  ("    description: " ++ descLine p) ::
  "    classification: internal   # review: may need to be confidential or pii" ::
  "    fields:" :: fieldLines p.fields.entries

/-- The characters of the lines, each ended. -/
def chars (lines : List String) : List Char := Lines.text '\n' (lines.map String.toList)

@[simp]
theorem chars_nil : chars [] = [] := rfl

@[simp]
theorem chars_cons (line : String) (lines : List String) :
    chars (line :: lines) = line.toList ++ '\n' :: chars lines := by
  rw [chars, List.map_cons, Lines.text_cons, chars]

@[simp]
theorem chars_append (lines lines' : List String) :
    chars (lines ++ lines') = chars lines ++ chars lines' := by
  rw [chars, List.map_append, Lines.text_append, chars, chars]

/-- What is pushed onto a text piece by piece is behind it in the end. -/
theorem toList_foldl {α : Type} {add : String → α → String} {pushed : α → List String}
    (hadd : ∀ out a, (add out a).toList = out.toList ++ chars (pushed a)) (l : List α)
    (out : String) : (l.foldl add out).toList = out.toList ++ chars (l.flatMap pushed) := by
  induction l generalizing out with
  | nil => rw [List.foldl_nil, List.flatMap_nil, chars_nil, List.append_nil]
  | cons a l ih =>
    rw [List.foldl_cons, ih, hadd, List.flatMap_cons, chars_append, List.append_assoc]

theorem toList_newline : "\n".toList = ['\n'] := by simp

theorem toList_renderField (field : String × String) :
    (renderField field).toList = chars (nameLine field :: typeLines field) := by
  unfold renderField nameLine typeLines
  simp only [chars_cons, chars_nil, String.toList_append, toList_newline, List.append_assoc,
    List.cons_append, List.nil_append]

theorem toList_renderProposal (out : String) (p : EntityProposal) :
    (renderProposal out p).toList = out.toList ++ chars (idLine p :: bodyLines p) := by
  have hadd : ∀ (out : String) (field : String × String),
      (out ++ renderField field).toList =
        out.toList ++ chars (nameLine field :: typeLines field) := by
    intro out field
    rw [String.toList_append, toList_renderField]
  rw [renderProposal, toList_foldl hadd]
  unfold idLine bodyLines fieldLines
  simp only [chars_cons, String.toList_append, toList_newline, List.append_assoc,
    List.cons_append, List.nil_append]

/-! ## Telling proposals apart -/

/-- A text without a line break. -/
def OneLine (s : String) : Prop := '\n' ∉ s.toList

theorem oneLine_append {s s' : String} : OneLine (s ++ s') ↔ OneLine s ∧ OneLine s' := by
  simp [OneLine, String.toList_append]

/-- Lines are told apart by their characters. -/
theorem chars_injective {lines lines' : List String} (hlines : ∀ line ∈ lines, OneLine line)
    (hlines' : ∀ line ∈ lines', OneLine line) (h : chars lines = chars lines') :
    lines = lines' := by
  refine List.map_injective_iff.mpr (fun _ _ => String.toList_inj.mp) ?_
  refine Lines.text_injective ?_ ?_ h
  · exact List.forall_mem_map.mpr hlines
  · exact List.forall_mem_map.mpr hlines'

theorem oneLine_descLine (p : EntityProposal) : OneLine (descLine p) := by
  rw [descLine]
  split_ifs
  · simp [OneLine]
  · intro hmem
    rw [String.toList_ofList] at hmem
    obtain ⟨c, -, hc⟩ := List.mem_map.mp hmem
    split_ifs at hc with hnewline
    · cases hc
    · exact hnewline hc

/-- A proposal whose names have no line break. -/
structure EntityProposal.OneLiners (p : EntityProposal) : Prop where
  id : OneLine p.id
  fields : ∀ field ∈ p.fields.entries, OneLine field.1 ∧ OneLine field.2

theorem oneLine_fieldLines {fields : List (String × String)}
    (h : ∀ field ∈ fields, OneLine field.1 ∧ OneLine field.2) :
    ∀ line ∈ fieldLines fields, OneLine line := by
  intro line hline
  obtain ⟨field, hfield, hline⟩ := List.mem_flatMap.mp hline
  obtain ⟨hname, htype⟩ := h field hfield
  rcases List.mem_cons.mp hline with rfl | hline
  · unfold nameLine
    exact oneLine_append.mpr ⟨by simp [OneLine], hname⟩
  · unfold typeLines at hline
    rcases List.mem_cons.mp hline with rfl | hline
    · exact oneLine_append.mpr ⟨by simp [OneLine], htype⟩
    · rw [List.mem_singleton.mp hline]
      simp [OneLine]

theorem oneLine_block {p : EntityProposal} (h : p.OneLiners) :
    ∀ line ∈ idLine p :: bodyLines p, OneLine line := by
  have hid : OneLine (idLine p) := by
    unfold idLine
    exact oneLine_append.mpr ⟨by simp [OneLine], h.id⟩
  have hdesc : OneLine ("    description: " ++ descLine p) :=
    oneLine_append.mpr ⟨by simp [OneLine], oneLine_descLine p⟩
  have hrest := oneLine_fieldLines h.fields
  unfold bodyLines
  simp only [List.forall_mem_cons]
  exact ⟨hid, by simp [OneLine], hdesc, by simp [OneLine], by simp [OneLine], hrest⟩

/-- A line with a dash at the place. -/
def Dash (place : ℕ) (line : String) : Prop := line.toList[place]? = some '-'

/-- A field begins with the only line that has its dash. -/
theorem field_isBlock (field : String × String) :
    Lines.IsBlock (Dash 6) (nameLine field) (typeLines field) := by
  unfold nameLine typeLines
  simp [Lines.IsBlock, Dash]

/-- No line of the fields has the dash of a proposal. -/
theorem not_dash_fieldLines (fields : List (String × String)) :
    ∀ line ∈ fieldLines fields, ¬ Dash 2 line := by
  intro line hline
  obtain ⟨field, -, hline⟩ := List.mem_flatMap.mp hline
  unfold nameLine typeLines at hline
  simp only [List.mem_cons, List.not_mem_nil, or_false] at hline
  rcases hline with rfl | rfl | rfl <;> simp [Dash]

/-- A proposal begins with the only line that has its dash. -/
theorem proposal_isBlock (p : EntityProposal) :
    Lines.IsBlock (Dash 2) (idLine p) (bodyLines p) := by
  refine ⟨by unfold idLine; simp [Dash], ?_⟩
  unfold bodyLines
  simp only [List.forall_mem_cons]
  exact ⟨by simp [Dash], by simp [Dash], by simp [Dash], by simp [Dash],
    not_dash_fieldLines p.fields.entries⟩

theorem append_left_cancel {s a b : String} (h : s ++ a = s ++ b) : a = b := by
  rw [← String.toList_inj, String.toList_append, String.toList_append] at h
  exact String.toList_inj.mp (List.append_cancel_left h)

theorem fieldLines_injective : Function.Injective fieldLines := by
  intro fields fields' h
  have hblocks : ∀ (l : List (String × String)), ∀ field ∈ l,
      Lines.IsBlock (Dash 6) (nameLine field) (typeLines field) :=
    fun _ field _ => field_isBlock field
  have hshown : ∀ field field' : String × String, nameLine field = nameLine field' →
      typeLines field = typeLines field' → id field = id field' := by
    intro field field' hname htype
    unfold nameLine at hname
    unfold typeLines at htype
    exact Prod.ext (append_left_cancel hname) (append_left_cancel (List.cons.inj htype).1)
  have hmap := Lines.blocks_injective (hblocks fields) (hblocks fields')
    (fun field _ field' _ => hshown field field') h
  rwa [List.map_id, List.map_id] at hmap

/-- What the file shows of a proposal. -/
structure Shown where
  id : String
  description : String
  fields : List (String × String)
  deriving DecidableEq, Repr

def shown (p : EntityProposal) : Shown := ⟨p.id, descLine p, p.fields.entries⟩

/-- The lines of what is shown. -/
def block (seen : Shown) : List String :=
  ("  - id: " ++ seen.id) ::
  "    version: 0.1.0" ::
  ("    description: " ++ seen.description) ::
  "    classification: internal   # review: may need to be confidential or pii" ::
  "    fields:" :: fieldLines seen.fields

theorem block_shown (p : EntityProposal) : block (shown p) = idLine p :: bodyLines p := rfl

theorem shown_eq {p p' : EntityProposal} (hid : idLine p = idLine p')
    (hbody : bodyLines p = bodyLines p') : shown p = shown p' := by
  unfold idLine at hid
  unfold bodyLines at hbody
  obtain ⟨hdesc, hrest⟩ := List.cons.inj (List.cons.inj hbody).2
  have hfields := fieldLines_injective (List.cons.inj (List.cons.inj hrest).2).2
  rw [shown, shown, append_left_cancel hid, append_left_cancel hdesc, hfields]

/-- The file is the header and the blocks of the proposals. -/
theorem toList_renderYaml (proposals : List EntityProposal) : (renderYaml proposals).toList =
    header.toList ++ chars ((proposals.map shown).flatMap block) := by
  rw [renderYaml, toList_foldl toList_renderProposal, List.flatMap_map]
  rfl

/-- Two files are one exactly when they show the same. -/
theorem renderYaml_inj {ps ps' : List EntityProposal} (h : ∀ p ∈ ps, p.OneLiners)
    (h' : ∀ p ∈ ps', p.OneLiners) :
    renderYaml ps = renderYaml ps' ↔ ps.map shown = ps'.map shown := by
  rw [← String.toList_inj, toList_renderYaml, toList_renderYaml, List.append_cancel_left_eq]
  refine ⟨fun hchars => ?_, fun hshown => by rw [hshown]⟩
  have hlines : ∀ {l : List EntityProposal}, (∀ p ∈ l, p.OneLiners) →
      ∀ line ∈ (l.map shown).flatMap block, OneLine line := by
    intro l hl line hline
    obtain ⟨_, hseen, hline⟩ := List.mem_flatMap.mp hline
    obtain ⟨p, hp, rfl⟩ := List.mem_map.mp hseen
    exact oneLine_block (hl p hp) line hline
  have hsame := chars_injective (hlines h) (hlines h') hchars
  rw [List.flatMap_map, List.flatMap_map] at hsame
  exact Lines.blocks_injective (fun p _ => proposal_isBlock p) (fun p _ => proposal_isBlock p)
    (fun _ _ _ _ => shown_eq) hsame

/-! ## From a document -/

theorem toAsciiLowercase_ne_newline {c : Char} (hc : c ≠ '\n') :
    Text.toAsciiLowercase c ≠ '\n' := by
  rw [Text.toAsciiLowercase]
  split_ifs with h
  · have hall : ∀ k : Fin 26, Char.ofNat (k.val + 65 + 32) ≠ '\n' := by decide
    have hrange : 65 ≤ c.toNat ∧ c.toNat ≤ 90 := h
    have hk := hall ⟨c.toNat - 65, by omega⟩
    rwa [show (⟨c.toNat - 65, by omega⟩ : Fin 26).val + 65 + 32 = c.toNat + 32 by
      simp only; omega] at hk
  · exact hc

/-- A slug has no line break. -/
theorem oneLine_slugify {isAlphanumeric : Char → Bool} (hnewline : isAlphanumeric '\n' = false)
    (s : String) : OneLine (slugify isAlphanumeric s) := by
  intro hmem
  rw [slugify, String.toList_ofList] at hmem
  have hkept := (List.dropWhile_suffix _).subset ((List.rdropWhile_prefix _ _).subset hmem)
  obtain ⟨c, -, hc⟩ := List.mem_map.mp hkept
  split_ifs at hc with halnum
  · refine toAsciiLowercase_ne_newline (fun heq => ?_) hc
    rw [heq, hnewline] at halnum
    cases halnum
  · cases hc

/-- The types that the ontology knows. -/
def fieldTypes : List String := ["string", "timestamp", "integer", "float", "boolean", "object"]

theorem mapType_mem (prop : OpenApiProperty) : mapType prop ∈ fieldTypes := by
  rw [mapType]
  split
  · split <;> simp [fieldTypes]
  all_goals simp [fieldTypes]

theorem oneLine_of_mem_fieldTypes : ∀ t ∈ fieldTypes, OneLine t := by
  simp [fieldTypes, OneLine]

/-- A field of a proposal is a property of the schema, or the one that stands in for all. -/
theorem field_proposal {title name : String} {schema : OpenApiSchema} {field : String × String}
    (h : field ∈ (proposal title name schema).fields.entries) :
    field = ("(todo)", "object") ∨
      ∃ e ∈ schema.properties.entries, field = (e.1, mapType e.2) := by
  rw [proposal] at h
  dsimp only at h
  split_ifs at h
  · exact Or.inl (List.mem_singleton.mp h)
  · obtain ⟨e, he, rfl⟩ := List.mem_map.mp h
    exact Or.inr ⟨e, he, rfl⟩

/-- Only a plain text is proposed without a field. -/
theorem fields_proposal_eq_nil {title name : String} {schema : OpenApiSchema}
    (h : (proposal title name schema).fields.entries = []) : schema.type = some "string" := by
  rw [proposal] at h
  dsimp only at h
  split_ifs at h with hshell
  · cases h
  · by_contra htype
    exact hshell ⟨by rw [h]; rfl, htype⟩

/-- A document whose names have no line break. -/
structure OpenApiDoc.OneLiners (doc : OpenApiDoc) : Prop where
  names : ∀ schemas ∈ doc.components, ∀ e ∈ schemas.entries, OneLine e.1
  ids : ∀ schemas ∈ doc.components, ∀ e ∈ schemas.entries, ∀ id ∈ e.2.entityId, OneLine id
  properties : ∀ schemas ∈ doc.components, ∀ e ∈ schemas.entries,
    ∀ prop ∈ e.2.properties.entries, OneLine prop.1

/-- What was proposed for a document: something for each of its schemas, in the order of the ids. -/
structure Imported (readers : Readers) (doc : OpenApiDoc) (ps : List EntityProposal) : Prop where
  sorted : ps.Pairwise fun a b => a.id ≤ b.id
  complete : ∃ schemas, doc.components = some schemas ∧ schemas.entries ≠ [] ∧
    ps.Perm (schemas.entries.map fun e => proposal (titleSlug readers doc) e.1 e.2)
  typed : ∀ p ∈ ps, ∀ field ∈ p.fields.entries, field.2 ∈ fieldTypes
  shells : ∀ p ∈ ps, p.fields.entries = [] → ∃ schemas, doc.components = some schemas ∧
    ∃ e ∈ schemas.entries, p = proposal (titleSlug readers doc) e.1 e.2 ∧
      e.2.type = some "string"

variable {readers : Readers}

theorem imported {doc : OpenApiDoc} {ps : List EntityProposal}
    (h : importDoc readers doc = .ok ps) : Imported readers doc ps := by
  rw [importDoc] at h
  split at h
  · cases h
  · next schemas hschemas =>
    split_ifs at h with hempty
    cases h
    have hperm := List.perm_insertionSort (fun a b : EntityProposal => a.id ≤ b.id)
      (schemas.entries.map fun e => proposal (titleSlug readers doc) e.1 e.2)
    have hfrom : ∀ p ∈ (schemas.entries.map fun e =>
        proposal (titleSlug readers doc) e.1 e.2).insertionSort fun a b => a.id ≤ b.id,
        ∃ e ∈ schemas.entries, p = proposal (titleSlug readers doc) e.1 e.2 := by
      intro p hp
      obtain ⟨e, he, rfl⟩ := List.mem_map.mp (hperm.mem_iff.mp hp)
      exact ⟨e, he, rfl⟩
    refine ⟨?_, ⟨schemas, hschemas, by simpa using hempty, hperm⟩, ?_, ?_⟩
    · exact List.pairwise_insertionSort _ _
    · intro p hp field hfield
      obtain ⟨e, -, rfl⟩ := hfrom p hp
      rcases field_proposal hfield with rfl | ⟨prop, -, rfl⟩
      · simp [fieldTypes]
      · exact mapType_mem prop.2
    · intro p hp hnil
      obtain ⟨e, he, rfl⟩ := hfrom p hp
      exact ⟨schemas, hschemas, e, he, rfl, fields_proposal_eq_nil hnil⟩

/-- The names of a proposal come from the document. -/
theorem Imported.oneLiners (hnewline : readers.isAlphanumeric '\n' = false) {doc : OpenApiDoc}
    (hdoc : doc.OneLiners) {ps : List EntityProposal} (h : Imported readers doc ps) :
    ∀ p ∈ ps, p.OneLiners := by
  intro p hp
  obtain ⟨schemas, hschemas, -, hperm⟩ := h.complete
  obtain ⟨e, he, rfl⟩ := List.mem_map.mp (hperm.mem_iff.mp hp)
  refine ⟨?_, fun field hfield => ⟨?_, ?_⟩⟩
  · cases hid : e.2.entityId with
    | some id =>
      rw [proposal, hid]
      exact hdoc.ids schemas hschemas e he id hid
    | none =>
      have htitle : OneLine (titleSlug readers doc) := by
        rw [titleSlug]
        split_ifs
        · simp [OneLine]
        · exact oneLine_slugify hnewline doc.title
      rw [proposal, hid]
      refine oneLine_append.mpr ⟨oneLine_append.mpr ⟨htitle, by simp [OneLine]⟩, ?_⟩
      exact hdoc.names schemas hschemas e he
  · rcases field_proposal hfield with rfl | ⟨prop, hprop, rfl⟩
    · simp [OneLine]
    · exact hdoc.properties schemas hschemas e he prop hprop
  · exact oneLine_of_mem_fieldTypes _ (h.typed _ hp field hfield)

/-- **The file shows what was proposed, and all of it.** Whatever document is imported, there is one
proposal for each of its schemas, in the order of the ids, with fields of the types that the
ontology knows. When no name in two documents has a line break, their files are the same exactly
when the same is proposed for them: ids, descriptions on one line, and fields. -/
theorem rendered_apart (hnewline : readers.isAlphanumeric '\n' = false) {raw raw' : String}
    {doc doc' : OpenApiDoc} (hread : readDoc readers raw = .ok doc)
    (hread' : readDoc readers raw' = .ok doc') {ps ps' : List EntityProposal}
    (h : importOpenapi readers raw = .ok ps) (h' : importOpenapi readers raw' = .ok ps') :
    Imported readers doc ps ∧ (doc.OneLiners → doc'.OneLiners →
      (renderYaml ps = renderYaml ps' ↔ ps.map shown = ps'.map shown)) := by
  rw [importOpenapi, hread] at h
  rw [importOpenapi, hread'] at h'
  have himported : Imported readers doc ps := imported h
  have himported' : Imported readers doc' ps' := imported h'
  refine ⟨himported, fun hdoc hdoc' => ?_⟩
  exact renderYaml_inj (himported.oneLiners hnewline hdoc) (himported'.oneLiners hnewline hdoc')

/-- A schema with a description. -/
def order (description : String) : OpenApiSchema where
  type := some "object"
  description := description
  properties := .single "placed_at" ⟨some "string", some "date-time"⟩
  entityId := none

def orders (description : String) : OpenApiDoc where
  title := "Commerce API"
  components := some (.single "Order" (order description))

def ordersYaml : String :=
  "info: \x7btitle: Commerce API\x7d\n" ++
  "components:\n  schemas:\n    Order:\n      type: object\n" ++
  "      description: A customer order\n" ++
  "      properties: \x7bplaced_at: \x7btype: string, format: date-time\x7d\x7d\n"

/-- The same with quotes and a line break. -/
def brokenYaml : String :=
  "info: \x7btitle: Commerce API\x7d\n" ++
  "components:\n  schemas:\n    Order:\n      type: object\n" ++
  "      description: \"A customer\\norder\"\n" ++
  "      properties: \x7bplaced_at: \x7btype: string, format: date-time\x7d\x7d\n"

/-- `serde_yaml::from_str`, on these two. -/
def fromStr (raw : String) : Except String OpenApiDoc :=
  if raw = ordersYaml then .ok (orders "A customer order")
  else if raw = brokenYaml then .ok (orders "A customer\norder")
  else .error "invalid type"

theorem fromStr_orders : fromStr ordersYaml = .ok (orders "A customer order") := by
  rw [fromStr, if_pos rfl]

theorem fromStr_broken : fromStr brokenYaml = .ok (orders "A customer\norder") := by
  rw [fromStr, if_neg (by decide +kernel), if_pos rfl]

def clerk : Readers := ⟨fromStr, fromStr, Char.isAlphanum⟩

theorem readDoc_clerk {raw : String} {doc : OpenApiDoc} (h : fromStr raw = .ok doc) :
    readDoc clerk raw = .ok doc := by
  have hfrom : clerk.fromYaml raw = .ok doc := h
  rw [readDoc, hfrom]

theorem orders_oneLiners (description : String) : (orders description).OneLiners where
  names := by simp [orders, OrderedMap.single, OneLine]
  ids := by simp [orders, order, OrderedMap.single]
  properties := by simp [orders, order, OrderedMap.single, OneLine]

def ordersProposals (description : String) : List EntityProposal :=
  [proposal (titleSlug clerk (orders description)) "Order" (order description)]

theorem importDoc_orders (description : String) :
    importDoc clerk (orders description) = .ok (ordersProposals description) := rfl

/-- A line break in a description is shown as a blank. -/
theorem rendered_apart_orders :
    renderYaml (ordersProposals "A customer order") =
      renderYaml (ordersProposals "A customer\norder") := by
  have hread := readDoc_clerk fromStr_orders
  have hbroken := readDoc_clerk fromStr_broken
  have himport : importOpenapi clerk ordersYaml = .ok (ordersProposals "A customer order") := by
    rw [importOpenapi, hread]
    exact importDoc_orders _
  have himport' : importOpenapi clerk brokenYaml = .ok (ordersProposals "A customer\norder") := by
    rw [importOpenapi, hbroken]
    exact importDoc_orders _
  obtain ⟨-, hsame⟩ := rendered_apart rfl hread hbroken himport himport'
  refine (hsame (orders_oneLiners _) (orders_oneLiners _)).mpr ?_
  decide +kernel

end OntologyImport

end Aaf
