import IdlDirectives.Proofs.Directive
import IdlDirectives.Proofs.Rule.Comments
import IdlDirectives.Proofs.Text.Words

namespace IdlDirectives.Rule

open Directive (parse? scan written)

theorem keeps_unknown {rules : List Rule}
    (known : (∃ g id, rules = forTypedef g id) ∨ rules = forFunction ∨ rules = forModule) :
    ∀ rule ∈ rules, ∀ params s, (rule.apply params s).annotations.unknown = s.unknown := by
  rcases known with ⟨g, id, rfl⟩ | rfl | rfl
  · exact fun rule => forTypedef_keeps_unknown
  · intro rule member params s
    rw [List.mem_singleton.mp member]
    rfl
  · nofun

theorem unrecognized_eq_filed {rules : List Rule}
    (keep : ∀ rule ∈ rules, ∀ params s, (rule.apply params s).annotations.unknown = s.unknown)
    (ds : List Directive) (flag : String) :
    ((applyAll rules ∅ ds).1.bodies flag).map (Directive.mk flag) =
      (unrecognized rules ds).filter (·.flag = flag) := by
  have none : (∅ : AnnotationSet).bodies flag = [] := rfl
  rw [bodies_applyAll keep, none, List.nil_append, bodiesOf, List.map_map]
  conv_rhs => rw [← List.map_id ((unrecognized rules ds).filter (·.flag = flag))]
  refine List.map_congr_left (fun d member => ?_)
  obtain ⟨other, body⟩ := d
  obtain rfl : other = flag := by simpa using (List.mem_filter.mp member).2
  rfl

/-- A directive is determined by its flag and its body. Both are trimmed, the parameters are the words of
the body, and written out on a line the two are read as they were. So are all directives of a comment, and
those that were filed under a flag. -/
theorem scan_reads_back :
    (∀ before after : String, scan (before ++ "\n" ++ after) = scan before ++ scan after ∧
        scan (before ++ "\r\n" ++ after) = scan before ++ scan after) ∧
      (∀ text d, parse? text = some d →
        (d.flag ≠ "" ∧ ∀ c ∈ d.flag.toList, Text.isBlank c = false) ∧
          ((∀ c ∈ d.body.toList.head?, Text.isBlank c = false) ∧
            ∀ c ∈ d.body.toList.getLast?, Text.isBlank c = false) ∧
          Text.AreRuns d.body.toList (d.params.map String.toList) ∧
          parse? ("@" ++ d.flag ++ " " ++ d.body) = some d) ∧
      (∀ comment, scan (written (scan comment)) = scan comment) ∧
      ∀ rules, ((∃ g id, rules = forTypedef g id) ∨ rules = forFunction ∨ rules = forModule) →
        ∀ comment flag,
          scan (written (((applyComment rules comment).1.bodies flag).map (Directive.mk flag))) =
            (unrecognized rules (scan comment)).filter (·.flag = flag) := by
  refine ⟨fun before after => ⟨Directive.scan_append_line before after,
    Directive.scan_append_return before after⟩, ?_, ?_, ?_⟩
  · intro text d read
    have canonical := Directive.canonical_of_ofLine? read
    refine ⟨⟨canonical.named, canonical.solid⟩, ⟨canonical.start, canonical.stop⟩, ?_, canonical.ofLine?⟩
    have words : d.params.map String.toList = Text.words d.body.toList := by
      simp [Directive.params, Function.comp_def]
    rw [words]
    exact Text.words_areRuns d.body.toList
  · intro comment
    exact Directive.scan_written (fun d => Directive.scan_settled)
  · intro rules known comment flag
    rw [applyComment, unrecognized_eq_filed (keeps_unknown known)]
    refine Directive.scan_written (fun d member => ?_)
    have scanned : d ∈ scan comment := (List.mem_filter.mp (List.mem_filter.mp member).1).1
    exact Directive.scan_settled scanned

theorem scan_reads_back_note :
    let text := "\t @ \u00a0@note\u2003 a,  b \u0085\r"
    let comment := "Some text.\r\n" ++ text ++ "\n@optional x\n@ @note"
    parse? text = some ⟨"@note", "a,  b"⟩ ∧
      Text.AreRuns "a,  b".toList [['a', ','], ['b']] ∧
      parse? "@@note a,  b" = some ⟨"@note", "a,  b"⟩ ∧
      scan comment = [⟨"@note", "a,  b"⟩, ⟨"optional", "x"⟩, ⟨"@note", ""⟩] ∧
      scan "@@note a,  b\n@@note " =
        (unrecognized forFunction (scan comment)).filter (·.flag = "@note") := by
  intro text comment
  have read : parse? text = some ⟨"@note", "a,  b"⟩ := by decide +kernel
  obtain ⟨-, one, -, filed⟩ := scan_reads_back
  obtain ⟨-, -, runs, again⟩ := one text _ read
  have params : (Directive.mk "@note" "a,  b").params.map String.toList = [['a', ','], ['b']] := by
    decide +kernel
  have bodies : ((applyComment forFunction comment).1.bodies "@note").map (Directive.mk "@note") =
      [⟨"@note", "a,  b"⟩, ⟨"@note", ""⟩] := by
    decide +kernel
  have back := filed forFunction (.inr (.inl rfl)) comment "@note"
  rw [bodies] at back
  refine ⟨read, params ▸ runs, again, by decide +kernel, ?_⟩
  rw [← back]
  rfl

end IdlDirectives.Rule
