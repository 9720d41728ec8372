import Aaf.Contracts

/-!
# The intent compiler

`IntentCompiler::compile` (`aaf-intent`): look the text up in the semantic-hash
cache, and on a miss classify, extract, enrich, refine, validate and store.

The classifier and the extractor are arbitrary functions. What the source takes
from outside the program comes from a `Mint`: fresh identifiers and clock
readings are streams, of which the compiler consumes one position for every
envelope it builds, and SHA-256 is a function on strings.
-/

namespace Aaf

/-! ## The cache -/

/-- The text `semantic_hash` feeds to SHA-256: white space collapsed, ASCII
lower-cased. -/
def normalise (input : String) : String :=
  let lowered := input.toList.map fun c =>
    if Text.isWhitespace c then ' ' else Text.toAsciiLowercase c
  String.intercalate " " (Text.splitWhitespace (String.ofList lowered))

/-- What the compiler takes from outside: hashing, and streams of fresh
identifiers and clock readings. -/
structure Mint where
  /-- hex digest of SHA-256 -/
  sha256Hex : String → String
  intentId : ℕ → IntentId
  traceId : ℕ → TraceId
  now : ℕ → ℕ

/-- `semantic_hash`. -/
def semanticHash (mint : Mint) (input : String) : String :=
  mint.sha256Hex (normalise input)

/-- `IntentCache`: envelopes by semantic hash. -/
abbrev IntentCache : Type := HashMap String IntentEnvelope

/-- `IntentCache::get`. -/
def IntentCache.get (mint : Mint) (cache : IntentCache) (rawInput : String) :
    Option IntentEnvelope :=
  cache.lookup (semanticHash mint rawInput)

/-- `IntentCache::put`. -/
def IntentCache.put (mint : Mint) (cache : IntentCache) (rawInput : String)
    (env : IntentEnvelope) : IntentCache :=
  cache.insert (semanticHash mint rawInput) env

/-! ## Enrichment and refinement -/

/-- The constraint half of `Enricher::enrich`: an analyst's missing
`dimension` defaults to `region`. -/
def enrichConstraints (role : String) (constraints : BTreeMap String Json) :
    BTreeMap String Json :=
  if role = "analyst" ∧ "dimension" ∉ constraints then
    constraints.insert "dimension" (.str "region")
  else constraints

/-- `Enricher::enrich`. -/
def enrich (env : IntentEnvelope) : IntentEnvelope :=
  { env with
    constraints := enrichConstraints env.requester.role env.constraints
    approvalPolicy := if env.riskTier = .read then "none" else env.approvalPolicy }

/-- One question to ask the requester. -/
structure ClarificationQuestion where
  field : String
  prompt : String
  deriving DecidableEq, Repr

/-- `Refiner::questions_for`, at most two questions. -/
def questionsFor (env : IntentEnvelope) : List ClarificationQuestion :=
  let goal := if Text.isBlank env.goal then
    [⟨"goal", "What goal would you like the agent to achieve?"⟩] else []
  let domain := if Text.isBlank env.domain then
    [⟨"domain", "Which business domain does this fall under (e.g. sales, warehouse)?"⟩] else []
  let specific := match env.intentType with
    | .transactionalIntent =>
      if "target" ∈ env.constraints then [] else
        [⟨"target", "What entity should I act on?"⟩]
    | .analyticalIntent =>
      if "period_ref" ∈ env.constraints then [] else
        [⟨"period_ref", "Which time period should I analyse?"⟩]
    | _ => []
  (goal ++ domain ++ specific).take 2

/-! ## The compiler -/

/-- Errors of the intent compiler that `compile` can raise. -/
inductive IntentError : Type where
  | classificationFailed : IntentError
  | contract : ContractError → IntentError
  deriving DecidableEq, Repr

/-- Outcome of a compile. -/
inductive CompileOutcome : Type where
  | compiled : IntentEnvelope → CompileOutcome
  | needsRefinement : List ClarificationQuestion → CompileOutcome

/-- Arguments of one `compile` call. -/
structure CompileArgs where
  rawInput : String
  requester : Requester
  domain : String
  budget : BudgetContract
  deriving DecidableEq, Repr

/-- The compiler: its two plug-ins, its cache, and how far it has read into the
streams of its `Mint`. -/
structure IntentCompiler where
  classifier : String → Option IntentType
  extractor : String → BTreeMap String Json
  cache : IntentCache
  minted : ℕ

/-- The risk tier `compile` derives from the intent type. -/
def riskTierOf : IntentType → RiskTier
  | .transactionalIntent => .write
  | .analyticalIntent => .read
  | .planningIntent => .advisory
  | .delegationIntent => .delegation
  | .governanceIntent => .governance

/-- The enriched envelope `compile` builds on a cache miss, from stream
position `n`. -/
def draft (mint : Mint) (n : ℕ) (args : CompileArgs) (intentType : IntentType)
    (constraints : BTreeMap String Json) : IntentEnvelope :=
  enrich
    { intentId := mint.intentId n
      intentType := intentType
      requester := args.requester
      goal := Text.trim args.rawInput
      domain := args.domain
      constraints := constraints
      budget := args.budget
      deadline := none
      riskTier := riskTierOf intentType
      approvalPolicy := "human"
      outputContract := none
      traceId := mint.traceId n
      depth := 0
      createdAt := mint.now n
      entitiesInContext := [] }

/-- `IntentCompiler::compile`. -/
def IntentCompiler.compile (mint : Mint) (c : IntentCompiler) (args : CompileArgs) :
    Except IntentError CompileOutcome × IntentCompiler :=
  match c.cache.get mint args.rawInput with
  | some cached => (.ok (.compiled cached), c)
  | none =>
    match c.classifier args.rawInput with
    | none => (.error .classificationFailed, c)
    | some intentType =>
      let env := draft mint c.minted args intentType (c.extractor args.rawInput)
      let c := { c with minted := c.minted + 1 }
      let questions := questionsFor env
      if !questions.isEmpty && questions.any (fun q => q.field == "goal" || q.field == "domain") then
        (.ok (.needsRefinement questions), c)
      else
        match env.validate with
        | .error e => (.error (.contract e), c)
        | .ok () =>
          (.ok (.compiled env), { c with cache := c.cache.put mint args.rawInput env })

/-- The compiler after a history of calls. -/
def IntentCompiler.after (mint : Mint) (c : IntentCompiler) (history : List CompileArgs) :
    IntentCompiler :=
  history.foldl (fun c args => (c.compile mint args).2) c

/-- A new compiler, its cache empty, reading its streams from position `n`. -/
def IntentCompiler.fresh (classifier : String → Option IntentType)
    (extractor : String → BTreeMap String Json) (n : ℕ) : IntentCompiler :=
  ⟨classifier, extractor, ∅, n⟩

end Aaf
