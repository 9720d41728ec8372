import Mathlib.Data.List.Sort
import Aaf.Contracts
import Aaf.Text

/-!
# The ontology lint

`lint_directory` (`aaf-server`): the capability files of a directory, each with a finding. A
capability that declares no entity is reported, and a writer that declares none is an error, but
errors count only once nine files of ten have declarations.

`lint_verdict` says when a directory has errors, and that the order in which the file system
lists it does not matter.

What the YAML parser makes of a text is a parameter, and so is what the file system answers. The
adoption ratio is an `f32`, up to rounding.
-/

namespace Aaf

/-- `Severity`. -/
inductive Severity : Type where
  | ok : Severity
  | warn : Severity
  | error : Severity
  deriving DecidableEq, Repr

/-- `LintFinding`. -/
structure LintFinding where
  path : String
  capabilityId : String
  severity : Severity
  reason : String
  deriving DecidableEq, Repr

/-- `LintReport`. -/
structure LintReport where
  scanned : ℕ
  withDeclarations : ℕ
  adoptionRatio : F64
  strict : Bool
  findings : List LintFinding
  deriving DecidableEq, Repr

namespace LintReport

/-- `LintReport::has_errors`. -/
def hasErrors (r : LintReport) : Bool := r.findings.any fun f => decide (f.severity = .error)

/-- `LintReport::count`. -/
def count (r : LintReport) (s : Severity) : ℕ := r.findings.countP fun f => decide (f.severity = s)

end LintReport

/-- An entry of a directory: its name, empty where it is no UTF-8, whether it is a file, and what
reading it gives. -/
structure DirEntry where
  name : String
  isFile : Bool
  content : Except String String

namespace Lint

/-- `ADOPTION_STRICT_THRESHOLD`. -/
def adoptionStrictThreshold : F64 := .finite (90 / 100)

/-- `side_effect_name`. -/
def sideEffectName : SideEffect → String
  | .none => "none"
  | .read => "read"
  | .write => "write"
  | .delete => "delete"
  | .send => "send"
  | .payment => "payment"

/-- Has at least one entity declaration. -/
def hasDecl (cap : CapabilityContract) : Bool :=
  !cap.reads.isEmpty || !cap.writes.isEmpty || !cap.emits.isEmpty

/-- `classify`. -/
def classify (cap : CapabilityContract) : Severity × String :=
  if hasDecl cap then (.ok, "has entity declarations")
  else
    match cap.sideEffect with
    | .write | .delete | .send | .payment =>
      (.error, "capability declares side_effect `" ++ sideEffectName cap.sideEffect ++
        "` but `writes:` is empty; the boundary rule and composition checker cannot reason " ++
        "about it")
    | .read | .none =>
      (.warn, "capability has no entity declarations; add `reads:` to let the planner key " ++
        "memory retrieval off nouns")

variable (parse : String → Except String CapabilityContract)

/-- `lint_file`. -/
def lintFile (e : DirEntry) : LintFinding :=
  match e.content with
  | .error err => ⟨e.name, "<read-error>", .error, "could not read file: " ++ err⟩
  | .ok raw =>
    match parse raw with
    | .error err =>
      ⟨e.name, "<parse-error>", .error, "could not parse as CapabilityContract: " ++ err⟩
    | .ok cap => ⟨e.name, cap.id.raw, (classify cap).1, (classify cap).2⟩

/-- The files that are looked at. -/
def isCandidate (e : DirEntry) : Bool :=
  e.isFile && Text.startsWith e.name "capability-" &&
    (Text.endsWith e.name ".yaml" || Text.endsWith e.name ".yml")

/-- Below the threshold an error is a warning. -/
def ramp (strict : Bool) (f : LintFinding) : LintFinding :=
  if !strict ∧ f.severity = .error then { f with severity := .warn } else f

/-- `lint_directory`; the paths of a directory are sorted as their names are. -/
def lintDirectory (listing : Except String (List (Except String DirEntry))) :
    Except String LintReport := do
  let entries ← (← listing).mapM id
  let paths := (entries.filter isCandidate).insertionSort fun a b => a.name ≤ b.name
  let findings := paths.map (lintFile parse)
  let scanned := findings.length
  let withDeclarations := findings.countP fun f => decide (f.severity = .ok)
  let adoptionRatio := if scanned = 0 then 0 else .finite withDeclarations / .finite scanned
  let strict := adoptionStrictThreshold.le adoptionRatio
  return ⟨scanned, withDeclarations, adoptionRatio, strict, findings.map (ramp strict)⟩

variable {parse}

/-! ## Findings -/

/-- The file parses to a capability. -/
def Parses (parse : String → Except String CapabilityContract) (e : DirEntry)
    (cap : CapabilityContract) : Prop :=
  ∃ raw, e.content = .ok raw ∧ parse raw = .ok cap

theorem lintFile_of_parses {e : DirEntry} {cap : CapabilityContract} (h : Parses parse e cap) :
    lintFile parse e = ⟨e.name, cap.id.raw, (classify cap).1, (classify cap).2⟩ := by
  obtain ⟨raw, hcontent, hparse⟩ := h
  rw [lintFile, hcontent]
  dsimp only
  rw [hparse]

theorem severity_of_not_parses {e : DirEntry} (h : ¬ ∃ cap, Parses parse e cap) :
    (lintFile parse e).severity = .error := by
  rw [lintFile]
  cases hcontent : e.content with
  | error err => rfl
  | ok raw =>
    dsimp only
    cases hparse : parse raw with
    | error err => rfl
    | ok cap => exact absurd ⟨cap, raw, hcontent, hparse⟩ h

theorem classify_fst (cap : CapabilityContract) :
    (classify cap).1 = if hasDecl cap then .ok
      else if cap.sideEffect.requiresCompensation then .error else .warn := by
  rw [classify]
  split_ifs with hdecl heffect
  · rfl
  · cases heq : cap.sideEffect <;> first | rfl | (rw [heq] at heffect; cases heffect)
  · cases heq : cap.sideEffect <;> first | rfl | (rw [heq] at heffect; exact absurd rfl heffect)

/-- A file with declarations. -/
theorem severity_ok_iff (e : DirEntry) :
    (lintFile parse e).severity = .ok ↔ ∃ cap, Parses parse e cap ∧ hasDecl cap = true := by
  constructor
  · intro hok
    by_contra hnone
    by_cases hparses : ∃ cap, Parses parse e cap
    · obtain ⟨cap, hcap⟩ := hparses
      have hdecl : ¬ hasDecl cap = true := fun hdecl => hnone ⟨cap, hcap, hdecl⟩
      rw [lintFile_of_parses hcap, classify_fst, if_neg hdecl] at hok
      split_ifs at hok
    · rw [severity_of_not_parses hparses] at hok
      cases hok
  · rintro ⟨cap, hcap, hdecl⟩
    rw [lintFile_of_parses hcap, classify_fst, if_pos hdecl]

/-- A file that is an error in strict mode: it is no capability, or a writer that declares
nothing. -/
theorem severity_error_iff (e : DirEntry) :
    (lintFile parse e).severity = .error ↔ (¬ ∃ cap, Parses parse e cap) ∨
      ∃ cap, Parses parse e cap ∧ hasDecl cap = false ∧
        cap.sideEffect.requiresCompensation = true := by
  by_cases hparses : ∃ cap, Parses parse e cap
  · obtain ⟨cap, hcap⟩ := hparses
    have hsame : ∀ cap', Parses parse e cap' → cap' = cap := by
      rintro cap' ⟨raw', hraw', hcap'⟩
      obtain ⟨raw, hraw, hparse⟩ := hcap
      rw [hraw, Except.ok.injEq] at hraw'
      rw [← hraw', hparse, Except.ok.injEq] at hcap'
      exact hcap'.symm
    rw [lintFile_of_parses hcap, classify_fst]
    constructor
    · intro herror
      refine Or.inr ⟨cap, hcap, ?_⟩
      split_ifs at herror with hdecl heffect
      exact ⟨Bool.eq_false_of_not_eq_true hdecl, heffect⟩
    · rintro (hnot | ⟨cap', hcap', hdecl, heffect⟩)
      · exact absurd ⟨cap, hcap⟩ hnot
      · obtain rfl := hsame cap' hcap'
        rw [hdecl, heffect, if_neg Bool.false_ne_true, if_pos rfl]
  · rw [severity_of_not_parses hparses]
    exact iff_of_true rfl (Or.inl hparses)

/-! ## Reports -/

/-- The files of a directory that are looked at. -/
def candidates (entries : List DirEntry) : List DirEntry := entries.filter isCandidate

/-- How many of them have declarations. -/
def declaring (parse : String → Except String CapabilityContract) (entries : List DirEntry) : ℕ :=
  (candidates entries).countP fun e => decide ((lintFile parse e).severity = .ok)

/-- How many of them are errors in strict mode. -/
def blocking (parse : String → Except String CapabilityContract) (entries : List DirEntry) : ℕ :=
  (candidates entries).countP fun e => decide ((lintFile parse e).severity = .error)

/-- The paths, as they are gone through. -/
def sortedPaths (entries : List DirEntry) : List DirEntry :=
  (candidates entries).insertionSort fun a b => a.name ≤ b.name

theorem perm_sortedPaths (entries : List DirEntry) :
    (sortedPaths entries).Perm (candidates entries) := List.perm_insertionSort _ _

/-- The listing does not matter. -/
theorem sortedPaths_perm {entries entries' : List DirEntry} (h : entries'.Perm entries)
    (hnames : (entries.map DirEntry.name).Nodup) : sortedPaths entries' = sortedPaths entries := by
  have hfilter : (candidates entries').Perm (candidates entries) := h.filter _
  have hsorted : ∀ l : List DirEntry, (sortedPaths l).Pairwise fun a b => a.name ≤ b.name := by
    intro l
    have htotal : Std.Total fun a b : DirEntry => a.name ≤ b.name := ⟨fun a b => le_total _ _⟩
    have htrans : IsTrans DirEntry fun a b => a.name ≤ b.name := ⟨fun a b c => le_trans⟩
    exact List.pairwise_insertionSort _ _
  have hmem : ∀ {e l}, e ∈ sortedPaths l → e ∈ l := fun he =>
    List.mem_of_mem_filter ((perm_sortedPaths _).mem_iff.mp he)
  refine List.Perm.eq_of_pairwise (fun a b ha hb hab hba => ?_) (hsorted _) (hsorted _)
    ((perm_sortedPaths _).trans (hfilter.trans (perm_sortedPaths _).symm))
  exact List.inj_on_of_nodup_map hnames (h.mem_iff.mp (hmem ha)) (hmem hb) (le_antisymm hab hba)

/-- Adoption, as a count. -/
theorem strict_iff (n d : ℕ) :
    adoptionStrictThreshold.le (if n = 0 then 0 else .finite d / .finite n) = true ↔
      n ≠ 0 ∧ 9 * n ≤ 10 * d := by
  by_cases hn : n = 0
  · have hfalse : adoptionStrictThreshold.le 0 = false := by decide +kernel
    rw [if_pos hn, hfalse]
    simp [hn]
  · have hne : (n : ℚ) ≠ 0 := Nat.cast_ne_zero.mpr hn
    have hpos : (0 : ℚ) < n := Nat.cast_pos.mpr (Nat.pos_of_ne_zero hn)
    rw [if_neg hn, F64.finite_div _ hne, adoptionStrictThreshold, F64.finite_le, decide_eq_true_eq,
      le_div_iff₀ hpos]
    have hcast : (90 : ℚ) / 100 * n ≤ d ↔ (9 * n : ℚ) ≤ 10 * d := by
      constructor
      · intro h
        linarith
      · intro h
        linarith
    rw [hcast]
    refine ⟨fun h => ⟨hn, ?_⟩, fun h => ?_⟩
    · exact_mod_cast h
    · exact_mod_cast h.2

/-- The report of a directory. -/
def reportOf (parse : String → Except String CapabilityContract) (entries : List DirEntry) :
    LintReport :=
  let n := (candidates entries).length
  let d := declaring parse entries
  let ratio := if n = 0 then 0 else .finite d / .finite n
  let strict := adoptionStrictThreshold.le ratio
  ⟨n, d, ratio, strict, ((sortedPaths entries).map (lintFile parse)).map (ramp strict)⟩

theorem lintDirectory_ok (entries : List DirEntry) :
    lintDirectory parse (.ok (entries.map .ok)) = .ok (reportOf parse entries) := by
  have hread : (entries.map Except.ok).mapM (id : Except String DirEntry → _) = .ok entries := by
    induction entries with
    | nil => rfl
    | cons e entries ih =>
      rw [List.map_cons, List.mapM_cons, ih]
      rfl
  have hlength : ((sortedPaths entries).map (lintFile parse)).length =
      (candidates entries).length := by
    rw [List.length_map, (perm_sortedPaths entries).length_eq]
  have hcount : (((sortedPaths entries).map (lintFile parse)).countP
      fun f => decide (f.severity = .ok)) = declaring parse entries := by
    rw [List.countP_map]
    exact (perm_sortedPaths entries).countP_eq _
  rw [lintDirectory]
  change ((entries.map Except.ok).mapM id >>= fun entries => _) = _
  rw [hread]
  change Except.ok (LintReport.mk _ _ _ _ _) = _
  rw [reportOf]
  simp only [← hlength, ← hcount]
  rfl

/-- The findings of a severity, before and after the ramp. -/
theorem countP_ramp_error (strict : Bool) (findings : List LintFinding) :
    ((findings.map (ramp strict)).countP fun f => decide (f.severity = .error)) =
      if strict then findings.countP fun f => decide (f.severity = .error) else 0 := by
  rw [List.countP_map]
  cases strict with
  | false =>
    refine List.countP_eq_zero.mpr fun f _ => ?_
    rw [Function.comp_apply, ramp, decide_eq_true_eq]
    split_ifs with h
    · intro heq
      cases heq
    · exact fun heq => h ⟨rfl, heq⟩
  | true =>
    refine List.countP_congr fun f _ => ?_
    rw [Function.comp_apply, ramp, if_neg fun h => by simp at h]

theorem countP_ramp_ok (strict : Bool) (findings : List LintFinding) :
    ((findings.map (ramp strict)).countP fun f => decide (f.severity = .ok)) =
      findings.countP fun f => decide (f.severity = .ok) := by
  rw [List.countP_map]
  refine List.countP_congr fun f _ => ?_
  rw [Function.comp_apply, ramp]
  split_ifs with h
  · simp [h.2]
  · rfl

theorem count_error_reportOf (entries : List DirEntry) :
    (reportOf parse entries).count .error =
      if (reportOf parse entries).strict then blocking parse entries else 0 := by
  rw [LintReport.count, reportOf, countP_ramp_error, List.countP_map]
  rw [blocking, ← (perm_sortedPaths entries).countP_eq]
  rfl

theorem count_ok_reportOf (entries : List DirEntry) :
    (reportOf parse entries).count .ok = declaring parse entries := by
  rw [LintReport.count, reportOf, countP_ramp_ok, List.countP_map]
  exact (perm_sortedPaths entries).countP_eq _

/-- A file is not both. -/
theorem declaring_add_blocking_le (entries : List DirEntry) :
    declaring parse entries + blocking parse entries ≤ (candidates entries).length := by
  rw [declaring, blocking]
  induction candidates entries with
  | nil => exact le_refl _
  | cons e entries ih =>
    rw [List.countP_cons, List.countP_cons, List.length_cons]
    cases (lintFile parse e).severity <;> simp <;> omega

/-- **The verdict of the lint.** In whatever order a directory is listed, it has errors exactly
when nine files of ten have declarations and one of the rest is no capability or a writer; and at
most one file of ten is an error. -/
theorem lint_verdict (parse : String → Except String CapabilityContract)
    (entries : List DirEntry) (hnames : (entries.map DirEntry.name).Nodup) :
    ∃ report : LintReport,
      (∀ listing : List DirEntry, listing.Perm entries →
        lintDirectory parse (.ok (listing.map .ok)) = .ok report) ∧
      report.scanned = (candidates entries).length ∧
      report.count .ok = declaring parse entries ∧
      (report.hasErrors = true ↔
        9 * (candidates entries).length ≤ 10 * declaring parse entries ∧
          ∃ e ∈ candidates entries, (¬ ∃ cap, Parses parse e cap) ∨
            ∃ cap, Parses parse e cap ∧ hasDecl cap = false ∧
              cap.sideEffect.requiresCompensation = true) ∧
      10 * report.count .error ≤ (candidates entries).length := by
  refine ⟨reportOf parse entries, fun listing hperm => ?_, rfl, count_ok_reportOf entries, ?_, ?_⟩
  · rw [lintDirectory_ok]
    have hsame : reportOf parse listing = reportOf parse entries := by
      have hcandidates : (candidates listing).Perm (candidates entries) := hperm.filter _
      rw [reportOf, reportOf, sortedPaths_perm hperm hnames, hcandidates.length_eq, declaring,
        hcandidates.countP_eq]
      rfl
    rw [hsame]
  · have herrors : (reportOf parse entries).hasErrors = true ↔
        0 < (reportOf parse entries).count .error := by
      rw [LintReport.hasErrors, LintReport.count, List.countP_pos_iff, List.any_eq_true]
    have hblocking : 0 < blocking parse entries ↔ ∃ e ∈ candidates entries,
        (lintFile parse e).severity = .error := by
      rw [blocking, List.countP_pos_iff]
      simp
    simp only [← severity_error_iff]
    rw [herrors, count_error_reportOf, ← hblocking]
    have hstrict := strict_iff (candidates entries).length (declaring parse entries)
    have hsum : declaring parse entries + blocking parse entries ≤ (candidates entries).length :=
      declaring_add_blocking_le entries
    change (reportOf parse entries).strict = true ↔ _ at hstrict
    by_cases h : (reportOf parse entries).strict = true
    · rw [if_pos h]
      have hratio := (hstrict.mp h).2
      exact ⟨fun hpos => ⟨hratio, hpos⟩, fun hand => hand.2⟩
    · rw [if_neg h]
      refine iff_of_false (Nat.lt_irrefl 0) fun hand => h (hstrict.mpr ⟨?_, hand.1⟩)
      omega
  · rw [count_error_reportOf]
    have hstrict := strict_iff (candidates entries).length (declaring parse entries)
    have hsum : declaring parse entries + blocking parse entries ≤ (candidates entries).length :=
      declaring_add_blocking_le entries
    change (reportOf parse entries).strict = true ↔ _ at hstrict
    split_ifs with h
    · have hratio := (hstrict.mp h).2
      omega
    · omega

/-- A capability file and another. -/
def twoFiles : List DirEntry :=
  [⟨"capability-a.yaml", true, .ok "id: a"⟩, ⟨"notes.txt", true, .ok ""⟩]

/-- A parser that finds a field missing. -/
def missingField : String → Except String CapabilityContract := fun _ => .error "missing field"

theorem lint_verdict_twoFiles :
    ∃ report : LintReport,
      (∀ listing : List DirEntry, listing.Perm twoFiles →
        lintDirectory missingField (.ok (listing.map .ok)) = .ok report) ∧
      report.scanned = (candidates twoFiles).length ∧
      report.count .ok = declaring missingField twoFiles ∧
      (report.hasErrors = true ↔
        9 * (candidates twoFiles).length ≤ 10 * declaring missingField twoFiles ∧
          ∃ e ∈ candidates twoFiles, (¬ ∃ cap, Parses missingField e cap) ∨
            ∃ cap, Parses missingField e cap ∧ hasDecl cap = false ∧
              cap.sideEffect.requiresCompensation = true) ∧
      10 * report.count .error ≤ (candidates twoFiles).length :=
  lint_verdict missingField twoFiles (by decide)

end Lint

end Aaf
