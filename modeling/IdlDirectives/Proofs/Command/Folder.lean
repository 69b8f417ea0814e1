import IdlDirectives.Command.Folder
import IdlDirectives.Proofs.Command.Outcome

namespace IdlDirectives

namespace Folder

variable {d : Folder} {place next start : Place} {name path text : String} {names route : List String}

theorem hasFolder_within :
    d.hasFolder (.within names) = true ↔
      pathName names = "" ∨ ∃ file, d.files.get? file ≠ none ∧
        (pathName names ++ "/").toList <+: file.toList := by
  simp only [hasFolder, Bool.or_eq_true, String.isEmpty_iff, List.any_eq_true, NameMap.mem_keys,
    List.isPrefixOf_iff_prefix]

theorem get?_writeText (file : String) :
    (d.writeText names text).files.get? file =
      if file = pathName names then some text.toUTF8 else d.files.get? file :=
  NameMap.get?_insert _ _ _ _

theorem found_writeText {file : String} :
    (d.writeText names text).files.get? file ≠ none ↔ file = pathName names ∨ d.files.get? file ≠ none := by
  rw [get?_writeText]
  split
  · next same => simp [same]
  · next other => simp [other]

theorem folder_of_step (stepped : d.step place name = .ok next) :
    d.hasFile place = false ∧ d.hasFolder place = true := by
  unfold step at stepped
  split at stepped
  · cases stepped
  · next empty =>
    split at stepped
    · cases stepped
    · next folder => exact ⟨by simpa using empty, by simpa using folder⟩

theorem step_eq_of_same {other : Folder} (same : other.hasFile place = d.hasFile place)
    (same' : other.hasFolder place = d.hasFolder place) : other.step place name = d.step place name := by
  rw [step, step, same, same']

theorem locate_eq_ok :
    d.locate start route = .ok place ↔
      route.foldlM d.step start = .ok place ∧ d.hasFolder place = false := by
  rw [locate, bind_eq_ok]
  constructor
  · rintro ⟨reached, followed, located⟩
    split at located
    · cases located
    · next plain =>
      cases located
      exact ⟨followed, by simpa using plain⟩
  · rintro ⟨followed, plain⟩
    exact ⟨place, followed, by rw [plain]; rfl⟩

section Written

-- Text is written where no folder is. What is a folder elsewhere stays one and gets no file in its
-- place, so every path that led somewhere before leads there still.

theorem hasFolder_writeText (folder : d.hasFolder place = true) :
    (d.writeText names text).hasFolder place = true := by
  cases place with
  | outside => exact folder
  | within inner =>
    rcases hasFolder_within.mp folder with top | ⟨file, found, below⟩
    · exact hasFolder_within.mpr (.inl top)
    · exact hasFolder_within.mpr (.inr ⟨file, found_writeText.mpr (.inr found), below⟩)

variable (target : d.hasFolder (.within names) = false)

include target

theorem hasFile_writeText (folder : d.hasFolder place = true) :
    (d.writeText names text).hasFile place = d.hasFile place := by
  cases place with
  | outside => rfl
  | within inner =>
    have apart : pathName inner ≠ pathName names := by
      intro same
      rw [hasFolder, same, ← hasFolder] at folder
      rw [target] at folder
      cases folder
    rw [hasFile, hasFile, NameMap.contains, NameMap.contains, get?_writeText, if_neg apart]

theorem not_hasFolder_writeText : (d.writeText names text).hasFolder (.within names) = false := by
  by_contra folder
  rcases hasFolder_within.mp (Bool.not_eq_false _ ▸ folder) with top | ⟨file, found, below⟩
  · rw [hasFolder_within.mpr (.inl top)] at target
    cases target
  · rcases found_writeText.mp found with rfl | found
    · have longer := below.length_le
      simp only [String.toList_append, List.length_append] at longer
      have slash : "/".toList.length = 1 := rfl
      omega
    · rw [hasFolder_within.mpr (.inr ⟨file, found, below⟩)] at target
      cases target

theorem foldlM_step_writeText (followed : route.foldlM d.step start = .ok place) :
    route.foldlM (d.writeText names text).step start = .ok place := by
  induction route generalizing start with
  | nil => exact followed
  | cons name route ih =>
    rw [List.foldlM_cons, bind_eq_ok] at followed ⊢
    obtain ⟨next, stepped, followed⟩ := followed
    have folder : d.hasFolder start = true := (folder_of_step stepped).2
    have still : (d.writeText names text).step start name = d.step start name :=
      step_eq_of_same (hasFile_writeText target folder) ((hasFolder_writeText folder).trans folder.symm)
    exact ⟨next, still.trans stepped, ih followed⟩

end Written

theorem locate_writeText (located : d.locate start route = .ok (.within names)) :
    (d.writeText names text).locate start route = .ok (.within names) := by
  obtain ⟨followed, target⟩ := locate_eq_ok.mp located
  exact locate_eq_ok.mpr ⟨foldlM_step_writeText target followed, not_hasFolder_writeText target⟩

theorem not_locate_closed (route : List String) : d.locate start (route ++ ["."]) ≠ .ok place := by
  intro located
  obtain ⟨followed, plain⟩ := locate_eq_ok.mp located
  rw [List.foldlM_append, bind_eq_ok] at followed
  obtain ⟨reached, -, last⟩ := followed
  have stepped : d.step reached "." = .ok place := by
    rw [List.foldlM_cons, bind_eq_ok] at last
    obtain ⟨next, stepped, stopped⟩ := last
    cases stopped
    exact stepped
  obtain ⟨empty, folder⟩ := folder_of_step stepped
  have stayed : reached = place := by
    rw [step, empty, folder] at stepped
    exact Except.ok.inj stepped
  rw [← stayed, folder] at plain
  cases plain

theorem destination_eq_file :
    d.destination path = .ok (.file names) ↔
      ∃ r, Route.parse path = .ok r ∧ r.closed = false ∧ d.locate r.start r.names = .ok (.within names) := by
  simp only [destination, bind_eq_ok]
  constructor
  · rintro ⟨r, parsed, place, located, goes⟩
    cases closed : r.closed with
    | true =>
      rw [Route.toWrite, closed] at located
      exact absurd located (not_locate_closed _)
    | false =>
      rw [Route.toWrite, closed] at located
      cases place with
      | outside => cases goes
      | within inner =>
        cases goes
        exact ⟨r, parsed, closed, located⟩
  · rintro ⟨r, parsed, opened, located⟩
    refine ⟨r, parsed, .within names, ?_, rfl⟩
    rw [Route.toWrite, opened]
    exact located

theorem fromUTF8?_toUTF8 (text : String) : String.fromUTF8? text.toUTF8 = some text := by
  simp only [String.fromUTF8?, String.toUTF8_eq_toByteArray, dif_pos text.isValidUTF8]
  rfl

/-- What is written to a path is read from it. -/
theorem readText_writeText (goes : d.destination path = .ok (.file names)) (text : String) :
    (d.writeText names text).readText path = .ok text := by
  obtain ⟨r, parsed, opened, located⟩ := destination_eq_file.mp goes
  have there : (d.writeText names text).files.get? (pathName names) = some text.toUTF8 := by
    rw [get?_writeText, if_pos rfl]
  have reached : (d.writeText names text).locate r.start r.toRead = .ok (.within names) := by
    rw [Route.toRead, opened]
    exact locate_writeText located
  rw [readText, parsed]
  simp only [bind, Except.bind, reached, there, fromUTF8?_toUTF8]

theorem reading_writeText (goes : d.destination path = .ok (.file names)) (text : String) :
    (d.writeText names text).reading path = .ok text := by
  rw [reading, readText_writeText goes text]
  rfl

end Folder

namespace Command

variable {diagnosis : Diagnosis} {d : Folder} {command : Command} {output : Output}

theorem planned_of_output {planned : Except CommandError Plan}
    (writes : (match planned with | .ok p => p | .error e => Plan.fail e).output = some output) :
    ∃ p, planned = .ok p ∧ p.output = some output := by
  cases planned with
  | error e => cases writes
  | ok p => exact ⟨p, rfl, writes⟩

theorem output_plan {read : Reading} (writes : (plan diagnosis read command).output = some output) :
    ∃ file pretty options, command = .annotate file (some output.file) pretty options := by
  cases command with
  | annotate file name pretty options =>
    obtain ⟨p, planned, writes⟩ := planned_of_output writes
    obtain ⟨c, -, planned⟩ := bind_eq_ok.mp planned
    obtain ⟨settings, -, made⟩ := bind_eq_ok.mp planned
    cases made
    obtain ⟨name, rfl, rfl⟩ := Option.map_eq_some_iff.mp writes
    exact ⟨file, pretty, options, rfl⟩
  | check file options =>
    obtain ⟨p, planned, writes⟩ := planned_of_output writes
    obtain ⟨c, -, planned⟩ := bind_eq_ok.mp planned
    obtain ⟨settings, -, made⟩ := bind_eq_ok.mp planned
    cases made
    cases writes
  | path file target expression ofKeys =>
    obtain ⟨p, planned, writes⟩ := planned_of_output writes
    obtain ⟨c, -, planned⟩ := bind_eq_ok.mp planned
    obtain ⟨selection, -, made⟩ := bind_eq_ok.mp planned
    cases made
    cases writes

theorem runIn_of_silent (silent : (plan diagnosis d.reading command).output = none) :
    (runIn diagnosis d command).2 = d := by
  simp only [runIn, silent]

theorem runIn_of_file {names : List String}
    (writes : (plan diagnosis d.reading command).output = some output)
    (goes : d.destination output.file = .ok (.file names)) :
    (runIn diagnosis d command).2 = d.writeText names output.text := by
  simp only [runIn, writes, goes]

theorem runIn_cases (diagnosis : Diagnosis) (d : Folder) (command : Command) :
    (runIn diagnosis d command).2 = d ∨
      ∃ output names, (plan diagnosis d.reading command).output = some output ∧
        d.destination output.file = .ok (.file names) ∧
        (runIn diagnosis d command).2 = d.writeText names output.text := by
  cases writes : (plan diagnosis d.reading command).output with
  | none => exact .inl (runIn_of_silent writes)
  | some output =>
    cases goes : d.destination output.file with
    | error e => exact .inl (by simp only [runIn, writes, goes])
    | ok there =>
      cases there with
      | device => exact .inl (by simp only [runIn, writes, goes])
      | file names => exact .inr ⟨output, names, rfl, goes, runIn_of_file writes goes⟩

theorem runIn_failed : (runIn diagnosis d command).1.failed = true ↔
    (plan diagnosis d.reading command).failure.isSome = true ∨
      ∃ output e, (plan diagnosis d.reading command).output = some output ∧
        d.destination output.file = .error e := by
  have finished (p : Plan) (written : Except String Unit) :
      (p.finish written).failed = (p.failureAfter written).isSome := by rw [Plan.finish_eq]
  cases writes : (plan diagnosis d.reading command).output with
  | none => simp [runIn, writes, finished, Plan.failureAfter]
  | some output =>
    cases goes : d.destination output.file with
    | error e => simp [runIn, writes, goes, finished, Plan.failureAfter]
    | ok there =>
      cases there with
      | file names => simp [runIn, writes, goes, finished, Plan.failureAfter]
      | device device => cases device <;> simp [runIn, writes, goes, finished, Plan.failureAfter, Plan.sendTo]

theorem runIn_of_not_annotate (other : ∀ file output pretty options,
    command ≠ .annotate file (some output) pretty options) : (runIn diagnosis d command).2 = d := by
  rcases runIn_cases diagnosis d command with same | ⟨output, names, writes, -⟩
  · exact same
  · obtain ⟨file, pretty, options, annotates⟩ := output_plan writes
    exact absurd annotates (other _ _ _ _)

/-- An annotated compilation is found where it was written and every other file as it was. If its paths
are short enough it can be loaded again. -/
theorem runIn_annotate {file out : String} {names : List String} {options : Options} {c : Compilation}
    {given : Settings} (loads : Loads d.reading file c)
    (configures : Configures d.reading options.config given)
    (goes : d.destination out = .ok (.file names)) (pretty : Bool) :
    let after := (runIn diagnosis d (.annotate file (some out) pretty options)).2
    let text := c.annotated.toJson.render (if pretty then .pretty else .compact)
    after.reading out = .ok text ∧
      (∀ other, other ≠ Folder.pathName names → after.files.get? other = d.files.get? other) ∧
      (c.annotated.types.SelectsWithin Compilation.readableSelectors →
        Loads after.reading out c.annotated) := by
  intro after text
  have output : (plan diagnosis d.reading (.annotate file (some out) pretty options)).output =
      some ⟨out, text⟩ := by
    rw [plan_annotate loads configures, annotating, c.compilation_pass]
    rfl
  have written : after = d.writeText names text := runIn_of_file output goes
  have found : after.reading out = .ok text := by
    rw [written]
    exact Folder.reading_writeText goes text
  refine ⟨found, ?_, ?_⟩
  · intro other apart
    rw [written, Folder.get?_writeText, if_neg apart]
  · intro within
    have blank : ∀ ch ∈ "".toList, Json.isSpace ch = true := by simp
    have reads := c.reads_pass .standard (blank_layout pretty) blank
    rw [c.compilation_pass, String.append_empty] at reads
    exact ⟨text, found, reads.found within⟩

end Command

end IdlDirectives
