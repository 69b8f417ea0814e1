import IdlDirectives.Proofs.Pass.Declarations
import IdlDirectives.Proofs.Report.Legible

namespace IdlDirectives

open Text

namespace Warning

def lines (w : Warning) : List String :=
  [heading ++ ": annotation '@" ++ w.flag ++ "' " ++ w.reason.message, "    in " ++ w.target.text]

structure Legible (w : Warning) : Prop where
  flag : Unbroken w.flag
  message : Unbroken w.reason.message
  target : Unbroken w.target.text

variable {w : Warning}

theorem Legible.lines (legible : w.Legible) : ∀ line ∈ w.lines, Unbroken line := by
  refine List.forall_mem_cons.mpr ⟨?_, List.forall_mem_singleton.mpr ?_⟩
  · simp only [unbroken_append, legible.flag, legible.message, and_true]
    decide
  · rw [unbroken_append]
    exact ⟨by decide, legible.target⟩

theorem text_ended (w : Warning) : w.text ++ "\n" = String.join (w.lines.map (· ++ "\n")) := by
  apply String.toList_inj.mp
  simp [text, lines, String.toList_append]

/-- What the heading starts with, the first line starts with and the second does not. -/
theorem countP_lines {mark : String} (nonempty : mark ≠ "")
    (heads : mark.toList <+: (heading ++ ": annotation '@").toList) (w : Warning) :
    w.lines.countP (fun line => mark.toList.isPrefixOf line.toList) = 1 := by
  have first : mark.toList.isPrefixOf
      (heading ++ ": annotation '@" ++ w.flag ++ "' " ++ w.reason.message).toList = true := by
    rw [List.isPrefixOf_iff_prefix, String.append_assoc, String.append_assoc, String.toList_append]
    exact heads.trans (List.prefix_append _ _)
  have second : mark.toList.isPrefixOf ("    in " ++ w.target.text).toList = false := by
    cases chars : mark.toList with
    | nil => exact absurd (String.toList_inj.mp chars) nonempty
    | cons c rest =>
      rw [chars] at heads
      have initial : c = 'A' := (List.cons_prefix_cons.mp heads).1
      rw [initial, String.toList_append]
      rfl
  simp only [lines, List.countP_cons, List.countP_nil, first, second]
  rfl

end Warning

namespace Report

variable {r : Report}

theorem log_eq (r : Report) : r.log = String.join ((r.warnings.flatMap (·.lines)).map (· ++ "\n")) := by
  unfold log
  induction r.warnings with
  | nil => rfl
  | cons w rest ih =>
    rw [List.map_cons, String.join_cons, ih, w.text_ended, List.flatMap_cons, List.map_append,
      String.join_append]

theorem lines_log (legible : ∀ w ∈ r.warnings, w.Legible) :
    Text.lines r.log.toList = (r.warnings.flatMap (·.lines)).map (·.toList) ++ [[]] := by
  rw [log_eq, lines_ended]
  intro line member
  obtain ⟨w, listed, own⟩ := List.mem_flatMap.mp member
  exact (legible w listed).lines line own

theorem countP_log (legible : ∀ w ∈ r.warnings, w.Legible) {mark : String} (nonempty : mark ≠ "")
    (heads : mark.toList <+: (Warning.heading ++ ": annotation '@").toList) :
    (Text.lines r.log.toList).countP (mark.toList.isPrefixOf ·) = r.warnings.length := by
  have last : mark.toList.isPrefixOf [] = false := by
    cases chars : mark.toList with
    | nil => exact absurd (String.toList_inj.mp chars) nonempty
    | cons c rest => rfl
  have each : List.countP ((mark.toList.isPrefixOf ·) ∘ String.toList) ∘ Warning.lines = fun _ => 1 :=
    funext (Warning.countP_lines nonempty heads)
  rw [lines_log legible, List.countP_append, List.countP_map, List.countP_flatMap, each,
    List.countP_singleton, last]
  simp

end Report

theorem Finding.ofComment_legible {rules : List Rule} (each : ∀ rule ∈ rules, rule.Legible)
    {target : Declaration} (unbroken : Unbroken target.text) (comment : String) :
    ∀ w ∈ (Finding.ofComment rules target comment).warnings, w.Legible := by
  intro w listed
  obtain ⟨warning, member, rfl⟩ := List.mem_map.mp listed
  have flags : ∀ d ∈ Directive.scan comment, Unbroken d.flag := fun d scanned => Directive.flag_unbroken scanned
  obtain ⟨flag, reason⟩ := Rule.applyAll_legible each flags ∅ warning member
  exact ⟨flag, reason.message_unbroken, unbroken⟩

namespace Compilation

variable {c : Compilation}

structure NamesUnbroken (c : Compilation) : Prop where
  modules : ∀ m ∈ c.modules, Unbroken m.name
  functions : ∀ f ∈ c.functions, Unbroken f.module ∧ Unbroken f.name
  entries : ∀ entry ∈ c.types.named, Unbroken entry.module ∧ Unbroken entry.name
  typedefs : c.types.NamesUnbroken

theorem NamesUnbroken.warnings (names : c.NamesUnbroken) (settings : Settings) :
    ∀ w ∈ (c.report settings).warnings, w.Legible := by
  rw [report, report_pass, c.types.findings_named]
  intro w listed
  rcases List.mem_append.mp listed with listed | listed
  · rcases List.mem_append.mp listed with listed | listed
    · obtain ⟨m, member, found⟩ := List.mem_flatMap.mp listed
      have target : Unbroken (Declaration.module m.name).text :=
        unbroken_append.mpr ⟨by decide, names.modules m member⟩
      exact Finding.ofComment_legible (List.forall_mem_nil _) target m.comment w found
    · obtain ⟨found, member, listed⟩ := List.mem_flatMap.mp listed
      obtain ⟨entry, declared, rfl⟩ := List.mem_map.mp member
      have target : Unbroken (Declaration.typedef entry.module entry.name).text :=
        unbroken_append.mpr ⟨by decide, qualified_unbroken (names.entries entry (List.mem_filter.mp declared).1)⟩
      exact Finding.ofComment_legible (Rule.forTypedef_legible names.typedefs) target _ w listed
  · obtain ⟨f, member, found⟩ := List.mem_flatMap.mp listed
    have target : Unbroken (Declaration.function f.module f.name).text :=
      unbroken_append.mpr ⟨by decide, qualified_unbroken (names.functions f member)⟩
    exact Finding.ofComment_legible Rule.forFunction_legible target f.comment w found

/-- If no name breaks a line, a warning takes exactly two lines of the log, whatever the comments are, and
behind the last of these lines there is nothing. So the lines that start like the heading are as many as the
warnings, and that is the number told in front of the log where it is printed. -/
theorem log_lists_warnings (names : c.NamesUnbroken) (settings : Settings) :
    let r := c.report settings
    (∀ w ∈ r.warnings, Unbroken w.flag ∧ Unbroken w.reason.message ∧ Unbroken w.target.text) ∧
      lines r.log.toList =
        (r.warnings.flatMap (fun w =>
          ["ANNOTATION WARNING: annotation '@" ++ w.flag ++ "' " ++ w.reason.message,
            "    in " ++ w.target.text])).map (·.toList) ++ [[]] ∧
      (∀ mark : String, mark ≠ "" → mark.toList <+: "ANNOTATION WARNING: annotation '@".toList →
        (lines r.log.toList).countP (mark.toList.isPrefixOf ·) = r.warnings.length) ∧
      r.summary? =
        if settings.ignoreWarnings = true ∨ r.warnings = [] then none
        else some ("total annotation warnings: " ++ r.warnings.length.repr ++ "\n" ++ r.log) := by
  intro r
  have legible : ∀ w ∈ r.warnings, w.Legible := names.warnings settings
  refine ⟨?_, ?_, ?_, ?_⟩
  · intro w listed
    exact ⟨(legible w listed).flag, (legible w listed).message, (legible w listed).target⟩
  · exact Report.lines_log legible
  · intro mark nonempty heads
    exact Report.countP_log legible nonempty heads
  · have suppressed : r.suppressed = settings.ignoreWarnings := by
      rw [show r.suppressed = (c.pass settings).report.suppressed from rfl, report_pass]
    rw [Report.summary?, suppressed]
    simp

def blankSpaced : Typedef where
  module := "M"
  name := "T"
  comment := "@searchable ws_subset a.b\x0bc(\r\n@\x85id\rkb"
  target := ⟨0⟩

def crowded : Compilation where
  types :=
    { nodes :=
        #[⟨.base (.struct [⟨"a", ⟨1⟩⟩]), none⟩, ⟨.base (.scalar .string), none⟩, ⟨.typedef blankSpaced, none⟩]
      table := ⟨[("M", ⟨[("T", ⟨2⟩)], by decide⟩)], by decide⟩ }
  services := ⟨[("s", [⟨⟨"M", "\n@odd\n@even", [], none⟩, [], none⟩])], by decide⟩

theorem log_lists_crowded :
    let r := crowded.report .standard
    crowded.NamesUnbroken ∧ r.warnings.length = 5 ∧
      (lines r.log.toList).countP ("ANNOTATION WARNING".toList.isPrefixOf ·) = 5 ∧
      r.summary? = some ("total annotation warnings: 5\n" ++ r.log) := by
  intro r
  have names : crowded.NamesUnbroken := ⟨by decide, by decide, by decide, by decide⟩
  have number : r.warnings.length = 5 := by
    rw [show r = (crowded.pass .standard).report from rfl, report_pass]
    decide +kernel
  obtain ⟨-, -, counted, summary⟩ := log_lists_warnings names .standard
  refine ⟨names, number, ?_, ?_⟩
  · rw [counted "ANNOTATION WARNING" (by decide) (by decide), number]
  · have printed : ¬ (Settings.standard.ignoreWarnings = true ∨ r.warnings = []) := by
      rw [← List.length_eq_zero_iff, number]
      decide
    rw [summary, if_neg printed, number]
    rfl

end Compilation

end IdlDirectives
