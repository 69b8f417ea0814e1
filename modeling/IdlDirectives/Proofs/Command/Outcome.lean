import IdlDirectives.Proofs.Command.Annotate

namespace IdlDirectives

namespace Plan

variable (p : Plan) (written : Except String Unit)

theorem finish_eq :
    p.finish written =
      ⟨p.stdout, p.stderr ++ (p.failureAfter written).elim "" (·.line),
        (p.failureAfter written).isSome⟩ := by
  unfold finish
  cases p.failureAfter written with
  | none => simp
  | some e => rfl

theorem failureAfter_isSome :
    (p.failureAfter written).isSome ↔
      p.failure.isSome ∨ (p.output.isSome ∧ ∃ reason, written = .error reason) := by
  unfold failureAfter
  cases p.output with
  | none => simp
  | some output =>
    cases written with
    | ok => simp
    | error reason => simp

theorem finish_fail (e : CommandError) : (fail e).finish written = ⟨"", e.line, true⟩ := by
  simp [finish_eq, fail, failureAfter]

end Plan

theorem Report.summary?_suppress (suppressed : Bool) (r : Report) :
    (r.suppress suppressed).summary?.getD "" =
      if r.warnings ≠ [] ∧ ¬ suppressed then
        "total annotation warnings: " ++ r.warnings.length.repr ++ "\n" ++ r.log
      else "" := by
  have log : (r.suppress suppressed).log = r.log := rfl
  have own : (r.suppress suppressed).suppressed = suppressed := rfl
  rw [summary?, own, log, warnings_suppress]
  cases suppressed with
  | true => simp
  | false =>
    by_cases silent : r.warnings = []
    · simp [silent]
    · simp [silent]

namespace Command

def Loads (read : Reading) (file : String) (c : Compilation) : Prop :=
  ∃ text, read file = .ok text ∧ Compilation.parse? text = some c

inductive Configures (read : Reading) : Option String → Settings → Prop
  | standard : Configures read none .standard
  | given {file text : String} {settings : Settings} (found : read file = .ok text)
    (parsed : Settings.parse? text = some settings) : Configures read (some file) settings

/-- Why a compilation or the config file that is given with it cannot be used, and what is said then. -/
inductive Unusable (diagnosis : Diagnosis) (read : Reading) (file : String) :
    Option String → CommandError → Prop
  | unreadable {config : Option String} {reason : String} (failed : read file = .error reason) :
    Unusable diagnosis read file config (.cannotRead file reason)
  | invalid {config : Option String} {text : String} (found : read file = .ok text)
    (malformed : Compilation.parse? text = none) :
    Unusable diagnosis read file config (.invalidCompilation file (diagnosis.compilation text))
  | unreadableConfig {name reason : String} {c : Compilation} (loads : Loads read file c)
    (failed : read name = .error reason) :
    Unusable diagnosis read file (some name) (.cannotRead name reason)
  | invalidConfig {name text : String} {c : Compilation} (loads : Loads read file c)
    (found : read name = .ok text) (malformed : Settings.parse? text = none) :
    Unusable diagnosis read file (some name) (.invalidConfig name (diagnosis.config text))

variable {diagnosis : Diagnosis} {read : Reading} {file : String} {options : Options} {c : Compilation}

theorem loadCompilation_eq_ok : loadCompilation diagnosis read file = .ok c ↔ Loads read file c := by
  constructor
  · intro loaded
    unfold loadCompilation at loaded
    split at loaded
    · cases loaded
    · next text found =>
      split at loaded
      · cases loaded
      · next parsed =>
        cases loaded
        exact ⟨text, found, parsed⟩
  · intro loads
    obtain ⟨text, found, parsed⟩ := loads
    exact loadCompilation_ok found parsed

theorem loadSettings_eq_ok {settings : Settings} :
    loadSettings diagnosis read options = .ok settings ↔
      ∃ given, Configures read options.config given ∧
        settings = ⟨options.ignoreWarnings || given.ignoreWarnings⟩ := by
  unfold loadSettings
  cases options.config with
  | none =>
    constructor
    · intro loaded
      cases loaded
      exact ⟨.standard, .standard, rfl⟩
    · intro configured
      obtain ⟨given, configures, rfl⟩ := configured
      cases configures
      rfl
  | some name =>
    constructor
    · intro loaded
      simp only [bind, Except.bind] at loaded
      cases found : read name with
      | error reason => simp [found] at loaded
      | ok text =>
        cases parsed : Settings.parse? text with
        | none => simp [found, parsed] at loaded
        | some given =>
          simp only [found, parsed] at loaded
          cases loaded
          exact ⟨given, .given found parsed, rfl⟩
    · intro configured
      obtain ⟨given, configures, rfl⟩ := configured
      cases configures with
      | given found parsed =>
        simp only [bind, Except.bind, found, parsed]
        rfl

theorem unusable_of_loadCompilation {e : CommandError}
    (failed : loadCompilation diagnosis read file = .error e) (config : Option String) :
    Unusable diagnosis read file config e := by
  unfold loadCompilation at failed
  split at failed
  · next reason unread =>
    cases failed
    exact .unreadable unread
  · next text found =>
    split at failed
    · next malformed =>
      cases failed
      exact .invalid found malformed
    · cases failed

theorem unusable_of_loadSettings {e : CommandError} (loads : Loads read file c)
    (failed : loadSettings diagnosis read options = .error e) :
    Unusable diagnosis read file options.config e := by
  unfold loadSettings at failed
  generalize options.config = config at failed ⊢
  cases config with
  | none => cases failed
  | some name =>
    simp only [bind, Except.bind] at failed
    cases found : read name with
    | error reason =>
      simp only [found] at failed
      cases failed
      exact .unreadableConfig loads found
    | ok text =>
      cases parsed : Settings.parse? text with
      | none =>
        simp only [found, parsed] at failed
        cases failed
        exact .invalidConfig loads found parsed
      | some given =>
        simp only [found, parsed] at failed
        cases failed

theorem plan_of_unusable
    (missing : ¬ ∃ c given, Loads read file c ∧ Configures read options.config given)
    (output : Option String) (pretty : Bool) :
    ∃ e, Unusable diagnosis read file options.config e ∧
      plan diagnosis read (.annotate file output pretty options) = .fail e ∧
      plan diagnosis read (.check file options) = .fail e := by
  cases loaded : loadCompilation diagnosis read file with
  | error e =>
    refine ⟨e, unusable_of_loadCompilation loaded options.config, ?_, ?_⟩
    · rw [plan, planAnnotate, loaded]
      rfl
    · rw [plan, planCheck, loaded]
      rfl
  | ok c =>
    have loads := loadCompilation_eq_ok.mp loaded
    cases configured : loadSettings diagnosis read options with
    | error e =>
      refine ⟨e, unusable_of_loadSettings loads configured, ?_, ?_⟩
      · rw [plan, planAnnotate, loaded, configured]
        rfl
      · rw [plan, planCheck, loaded, configured]
        rfl
    | ok settings =>
      obtain ⟨given, configures, -⟩ := loadSettings_eq_ok.mp configured
      exact absurd ⟨c, given, loads, configures⟩ missing

theorem denial?_report (c : Compilation) (settings : Settings) :
    denial? options (c.report settings) = denial? options (c.report .standard) := by
  rw [c.report_eq_suppress settings, denial?, denial?, Report.warnings_suppress]

theorem denial?_isSome {report : Report} :
    (denial? options report).isSome ↔ options.denyWarnings ∧ report.warnings ≠ [] := by
  simp [denial?]

section

variable {given : Settings} (loads : Loads read file c)
  (configures : Configures read options.config given)

include loads configures

theorem plan_annotate (output : Option String) (pretty : Bool) :
    plan diagnosis read (.annotate file output pretty options) =
      annotating c ⟨options.ignoreWarnings || given.ignoreWarnings⟩ output pretty options := by
  have loaded : loadCompilation diagnosis read file = .ok c := loadCompilation_eq_ok.mpr loads
  have configured : loadSettings diagnosis read options = .ok _ :=
    loadSettings_eq_ok.mpr ⟨given, configures, rfl⟩
  rw [plan, planAnnotate_eq loaded configured]

theorem plan_check :
    plan diagnosis read (.check file options) =
      { stdout := (c.report ⟨options.ignoreWarnings || given.ignoreWarnings⟩).summary?.getD "" ++
          (file ++ " - " ++ (c.report .standard).modules.repr ++ " modules, " ++
            (c.report .standard).types.repr ++ " types, " ++
            (c.report .standard).functions.repr ++ " functions, " ++
            (c.report .standard).warnings.length.repr ++ " warnings\n")
        stderr := ""
        output := none
        failure := denial? options (c.report .standard) } := by
  have loaded : loadCompilation diagnosis read file = .ok c := loadCompilation_eq_ok.mpr loads
  have configured : loadSettings diagnosis read options = .ok _ :=
    loadSettings_eq_ok.mpr ⟨given, configures, rfl⟩
  rw [plan, planCheck, loaded, configured, ← denial?_report c]
  simp only [bind, Except.bind, pure, Except.pure]
  rw [c.report_eq_suppress ⟨_⟩]
  simp only [Report.warnings_suppress, Report.modules_suppress, Report.types_suppress,
    Report.functions_suppress]

end

/-- If the compilation or a config file that is given cannot be read, both commands fail with a line
about it, and nothing else is printed or written. If both can be read, what is annotated is written as
the compilation alone decides, and the options decide only whether the warnings are printed and whether
they count as a failure, each for itself. -/
theorem annotate_and_check (diagnosis : Diagnosis) (read : Reading) (file : String)
    (output : Option String) (pretty : Bool) (options : Options) (written : Except String Unit) :
    let annotate := plan diagnosis read (.annotate file output pretty options)
    let check := plan diagnosis read (.check file options)
    ((¬ ∃ c given, Loads read file c ∧ Configures read options.config given) →
      ∃ e, Unusable diagnosis read file options.config e ∧
        annotate.output = none ∧ annotate.finish written = ⟨"", e.line, true⟩ ∧
        check.output = none ∧ check.finish written = ⟨"", e.line, true⟩) ∧
    ∀ c given, Loads read file c → Configures read options.config given →
      let report := c.report .standard
      let text := c.annotated.toJson.render (if pretty then .pretty else .compact)
      let shown :=
        if report.warnings ≠ [] ∧ ¬ (options.ignoreWarnings ∨ given.ignoreWarnings) then
          "total annotation warnings: " ++ report.warnings.length.repr ++ "\n" ++ report.log
        else ""
      let counts := file ++ " - " ++ report.modules.repr ++ " modules, " ++ report.types.repr ++
        " types, " ++ report.functions.repr ++ " functions, " ++ report.warnings.length.repr ++
        " warnings\n"
      let denied := options.denyWarnings ∧ report.warnings ≠ []
      annotate.output = output.map (⟨·, text⟩) ∧
        (annotate.finish written).stdout = (if output.isSome then "" else text ++ "\n") ∧
        (annotate.finish written).stderr =
          shown ++ (annotate.failureAfter written).elim "" (·.line) ∧
        ((annotate.finish written).failed ↔
          denied ∨ (output.isSome ∧ ∃ reason, written = .error reason)) ∧
        check.output = none ∧
        (check.finish written).stdout = shown ++ counts ∧
        (check.finish written).stderr = (check.failureAfter written).elim "" (·.line) ∧
        ((check.finish written).failed ↔ denied) := by
  intro annotate check
  refine ⟨?_, ?_⟩
  · intro missing
    obtain ⟨e, unusable, annotating, checking⟩ := plan_of_unusable missing output pretty
    have fails := Plan.finish_fail written e
    refine ⟨e, unusable, ?_, ?_, ?_, ?_⟩
    · exact congrArg Plan.output annotating
    · exact (congrArg (·.finish written) annotating).trans fails
    · exact congrArg Plan.output checking
    · exact (congrArg (·.finish written) checking).trans fails
  · intro c given loads configures report text shown counts denied
    have annotates : annotate = _ := plan_annotate loads configures output pretty
    have checks : check = _ := plan_check loads configures
    have summary : (c.report ⟨options.ignoreWarnings || given.ignoreWarnings⟩).summary?.getD "" =
        shown := by
      rw [c.report_eq_suppress, Report.summary?_suppress]
      exact ite_congr (by rw [Bool.or_eq_true]) (fun _ => rfl) (fun _ => rfl)
    have outcome : (denial? options report).isSome ↔ denied := denial?_isSome
    have written_text : annotate.output = output.map (⟨·, text⟩) := by
      rw [annotates, annotating, c.compilation_pass]
    have failure : annotate.failure = denial? options report := by
      rw [annotates, annotating, ← Compilation.report, denial?_report]
    rw [Plan.finish_eq, Plan.finish_eq]
    refine ⟨written_text, ?_, ?_, ?_, ?_, ?_, ?_, ?_⟩
    · rw [annotates, annotating, c.compilation_pass]
      cases output with
      | none => rfl
      | some name => rfl
    · rw [← summary, annotates, annotating, Compilation.report]
    · rw [Plan.failureAfter_isSome, failure, outcome, written_text, Option.isSome_map]
    · rw [checks]
    · rw [← summary, checks]
    · simp only [checks, String.empty_append]
    · rw [Plan.failureAfter_isSome, checks, outcome]
      simp

def noted : Compilation where
  types := ∅
  services := ⟨[("s", [⟨⟨"M", "@colour red", [], none⟩, [], none⟩])], by decide⟩

theorem annotate_and_check_noted :
    let diagnosis : Diagnosis := ⟨fun _ => "expected value", fun _ => "expected value"⟩
    let read : Reading := fun file =>
      .ok (if file = "in.json" then noted.toJson.render .compact
        else Settings.toJson ⟨true⟩ |>.render .compact)
    let options : Options := ⟨some "config.json", false, true⟩
    (plan diagnosis read (.annotate "in.json" (some "out.json") false options)).output =
        some ⟨"out.json", noted.annotated.toJson.render .compact⟩ ∧
      ((plan diagnosis read (.check "in.json" options)).finish (.ok ())).stdout =
        "in.json - 1 modules, 0 types, 0 functions, 1 warnings\n" ∧
      ((plan diagnosis read (.check "in.json" options)).finish (.ok ())).failed = true := by
  intro diagnosis read options
  have shallow : noted.toJson.depth ≤ Json.nestingLimit := by decide
  have loads : Loads read "in.json" noted :=
    ⟨_, rfl, (Compilation.codec.readsBack.compact noted).trans (if_pos shallow)⟩
  have configures : Configures read options.config ⟨true⟩ :=
    .given rfl ((Settings.codec.readsBack.compact ⟨true⟩).trans (if_pos (by decide)))
  obtain ⟨output, _, _, _, _, stdout, _, denied⟩ :=
    (annotate_and_check diagnosis read "in.json" (some "out.json") false options (.ok ())).2 noted ⟨true⟩
      loads configures
  refine ⟨output, ?_, denied.mpr ?_⟩
  · rw [stdout]
    decide +kernel
  · decide +kernel

end Command

end IdlDirectives
