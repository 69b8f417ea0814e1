import IdlDirectives.Directive

namespace IdlDirectives

namespace Text

theorem trimStart_cons {c : Char} (solid : isBlank c = false) (cs : List Char) :
    trimStart (c :: cs) = c :: cs := by
  simp [trimStart, solid]

theorem trimEnd_append (before after : List Char) :
    trimEnd (before ++ after) = if trimEnd after = [] then trimEnd before else before ++ trimEnd after := by
  simp only [trimEnd, List.reverse_append, List.dropWhile_append, List.reverse_eq_nil_iff, List.isEmpty_iff]
  split
  · rfl
  · simp

theorem trimEnd_solid {cs : List Char} (solid : ∀ c ∈ cs, isBlank c = false) : trimEnd cs = cs := by
  have first : cs.reverse.dropWhile isBlank = cs.reverse := by
    cases reversed : cs.reverse with
    | nil => rfl
    | cons c rest =>
      have member : c ∈ cs := List.mem_reverse.mp (reversed ▸ List.mem_cons_self)
      simp [solid c member]
  rw [trimEnd, first, List.reverse_reverse]

theorem trimStart_eq_self {cs : List Char} (solid : ∀ c ∈ cs.head?, isBlank c = false) :
    trimStart cs = cs := by
  cases cs with
  | nil => rfl
  | cons c rest => exact trimStart_cons (solid c rfl) rest

theorem trimEnd_eq_self {cs : List Char} (solid : ∀ c ∈ cs.getLast?, isBlank c = false) :
    trimEnd cs = cs := by
  have reversed : trimStart cs.reverse = cs.reverse :=
    trimStart_eq_self (fun c last => solid c (by rwa [List.head?_reverse] at last))
  rw [trimEnd, ← trimStart, reversed, List.reverse_reverse]

theorem head?_trimStart (cs : List Char) : ∀ c ∈ (trimStart cs).head?, isBlank c = false := by
  intro c first
  have stopped := List.head?_dropWhile_not isBlank cs
  rw [← trimStart, first] at stopped
  simpa using stopped

theorem getLast?_trimEnd (cs : List Char) : ∀ c ∈ (trimEnd cs).getLast?, isBlank c = false := by
  intro c last
  rw [trimEnd, List.getLast?_reverse] at last
  exact head?_trimStart cs.reverse c last

theorem head?_trim (cs : List Char) : ∀ c ∈ (trim cs).head?, isBlank c = false := by
  intro c first
  rw [trim] at first
  cases started : trimStart cs with
  | nil =>
    rw [started] at first
    cases first
  | cons c' rest =>
    have solid := head?_trimStart cs c' (by rw [started]; rfl)
    have kept : (trimEnd ([c'] ++ rest)).head? = some c' := by
      rw [trimEnd_append]
      split
      · rw [trimEnd_solid (by simpa using solid)]
        rfl
      · rfl
    rw [started, show c' :: rest = [c'] ++ rest from rfl, kept] at first
    cases first
    exact solid

theorem trim_concat {c : Char} (gap : isBlank c = true) (cs : List Char) : trim (cs ++ [c]) = trim cs := by
  have ended (before : List Char) : trimEnd (before ++ [c]) = trimEnd before := by
    rw [trimEnd_append, if_pos (by simp [trimEnd, gap])]
  rw [trim, trim, trimStart, trimStart, List.dropWhile_append]
  split
  · next none => rw [List.isEmpty_iff.mp none, List.dropWhile_cons_of_pos gap, List.dropWhile_nil]
  · exact ended _

theorem trim_sublist (cs : List Char) : (trim cs).Sublist cs := by
  have ended (cs : List Char) : (trimEnd cs).Sublist cs := by
    have kept : (cs.reverse.dropWhile isBlank).Sublist cs.reverse := List.dropWhile_sublist isBlank
    simpa [trimEnd] using kept.reverse
  exact (ended _).trans (List.dropWhile_sublist isBlank)

theorem lines_eq_singleton {cs : List Char} (unbroken : '\n' ∉ cs) : lines cs = [cs] := by
  refine List.splitOnP_eq_singleton (fun c member => beq_eq_false_iff_ne.mpr ?_)
  rintro rfl
  exact unbroken member

theorem not_separator_of_mem {separates : Char → Bool} {cs piece : List Char}
    (member : piece ∈ cs.splitOnP separates) : ∀ c ∈ piece, separates c = false := by
  induction cs generalizing piece with
  | nil =>
    rw [List.splitOnP_nil, List.mem_singleton] at member
    simp [member]
  | cons first rest ih =>
    rw [List.splitOnP_cons_eq_if_modifyHead] at member
    split at member
    · rcases List.mem_cons.mp member with rfl | later
      · simp
      · exact ih later
    · next plain =>
      cases pieces : rest.splitOnP separates with
      | nil => exact absurd pieces (List.splitOnP_ne_nil separates rest)
      | cons head others =>
        rw [pieces] at member ih
        rcases List.mem_cons.mp member with rfl | later
        · intro c own
          rcases List.mem_cons.mp own with rfl | own
          · simpa using plain
          · exact ih List.mem_cons_self c own
        · exact ih (List.mem_cons_of_mem head later)

theorem unbroken_of_mem_lines {cs line : List Char} (member : line ∈ lines cs) : '\n' ∉ line := by
  intro broken
  have apart := not_separator_of_mem member '\n' broken
  cases apart

end Text

namespace Directive

open Text

variable {flag body : List Char}

/-- The blank before a body is trimmed away with it if the body is empty. -/
theorem exists_trim_line (solid : ∀ c ∈ flag, isBlank c = false) (start : trimStart body = body)
    (stop : trimEnd body = body) :
    ∃ tail, trim ('@' :: flag ++ ' ' :: body) = '@' :: (flag ++ tail) ∧
      tail.takeWhile (fun c => !isBlank c) = [] ∧ trim tail = body := by
  have marked : ∀ c ∈ '@' :: flag, isBlank c = false := by
    simpa [show isBlank '@' = false by decide] using solid
  have whole : trimStart ('@' :: flag ++ ' ' :: body) = '@' :: flag ++ ([' '] ++ body) :=
    trimStart_cons (by decide) _
  cases body with
  | nil =>
    refine ⟨[], ?_, rfl, rfl⟩
    rw [trim, whole, List.append_nil, trimEnd_append, if_pos (by decide), trimEnd_solid marked,
      List.append_nil]
  | cons c rest =>
    have kept : trimEnd ([' '] ++ c :: rest) = ' ' :: c :: rest := by
      rw [trimEnd_append, stop, if_neg (by simp)]
      rfl
    have skipped : trimStart (' ' :: c :: rest) = c :: rest := by
      rw [trimStart, List.dropWhile_cons_of_pos (by decide)]
      exact start
    refine ⟨' ' :: c :: rest, ?_, by simp [show isBlank ' ' = true by decide], ?_⟩
    · rw [trim, whole, trimEnd_append, kept, if_neg (by simp)]
      rfl
    · rw [trim, skipped, stop]

theorem ofLine?_line (named : flag ≠ []) (solid : ∀ c ∈ flag, isBlank c = false)
    (start : trimStart body = body) (stop : trimEnd body = body) :
    ofLine? ('@' :: flag ++ ' ' :: body) = some ⟨String.ofList flag, String.ofList body⟩ := by
  obtain ⟨tail, line, apart, trimmed⟩ := exists_trim_line solid start stop
  have first : trimStart (flag ++ tail) = flag ++ tail := by
    cases flag with
    | nil => exact absurd rfl named
    | cons c rest => exact trimStart_cons (solid c List.mem_cons_self) _
  have word : ∀ c ∈ flag, (!isBlank c) = true := fun c member => by rw [solid c member]; rfl
  have taken : (flag ++ tail).takeWhile (fun c => !isBlank c) = flag := by
    rw [List.takeWhile_append_of_pos word, apart, List.append_nil]
  have dropped : (flag ++ tail).dropWhile (fun c => !isBlank c) = tail := by
    have rest : tail.takeWhile (fun c => !isBlank c) ++ tail.dropWhile (fun c => !isBlank c) = tail :=
      List.takeWhile_append_dropWhile
    rw [apart, List.nil_append] at rest
    rw [List.dropWhile_append_of_pos word, rest]
  rw [ofLine?, line]
  simp only [first, taken, dropped, trimmed, List.isEmpty_iff, named, if_false]

theorem unbroken_line (solid : ∀ c ∈ flag, isBlank c = false) (unbroken : '\n' ∉ body) :
    '\n' ∉ '@' :: flag ++ ' ' :: body := by
  intro member
  simp only [List.cons_append, List.mem_cons, List.mem_append] at member
  rcases member with sign | own | space | own
  · cases sign
  · cases solid _ own
  · cases space
  · exact unbroken own

theorem scan_unbroken {text : String} (unbroken : '\n' ∉ text.toList) :
    scan text = (ofLine? text.toList).toList := by
  rw [scan, lines_eq_singleton unbroken, List.filterMap_cons, List.filterMap_nil]
  cases ofLine? text.toList with
  | none => rfl
  | some d => rfl

theorem scan_line (named : flag ≠ []) (solid : ∀ c ∈ flag, isBlank c = false)
    (start : trimStart body = body) (stop : trimEnd body = body) (unbroken : '\n' ∉ body) :
    scan (String.ofList ('@' :: flag ++ ' ' :: body)) = [⟨String.ofList flag, String.ofList body⟩] := by
  have still : '\n' ∉ (String.ofList ('@' :: flag ++ ' ' :: body)).toList := by
    rw [String.toList_ofList]
    exact unbroken_line solid unbroken
  rw [scan_unbroken still, String.toList_ofList, ofLine?_line named solid start stop]
  rfl

/-- What a directive is like that has been read from a line. -/
structure Canonical (d : Directive) : Prop where
  named : d.flag ≠ ""
  solid : ∀ c ∈ d.flag.toList, isBlank c = false
  start : ∀ c ∈ d.body.toList.head?, isBlank c = false
  stop : ∀ c ∈ d.body.toList.getLast?, isBlank c = false

variable {d : Directive} {text : List Char}

theorem exists_of_ofLine? (read : ofLine? text = some d) :
    ∃ rest, trim text = '@' :: rest ∧
      d.flag.toList = (trimStart rest).takeWhile (fun c => !isBlank c) ∧ d.flag.toList ≠ [] ∧
      d.body.toList = trim ((trimStart rest).dropWhile (fun c => !isBlank c)) := by
  unfold ofLine? at read
  split at read
  · next rest marked =>
    dsimp only at read
    split at read
    · cases read
    · next named =>
      cases read
      simp only [String.toList_ofList]
      exact ⟨rest, marked, rfl, by simpa using named, rfl⟩
  · cases read

theorem canonical_of_ofLine? (read : ofLine? text = some d) : d.Canonical := by
  obtain ⟨rest, -, flag, named, body⟩ := exists_of_ofLine? read
  refine ⟨fun empty => named (by rw [empty]; rfl), ?_, ?_, ?_⟩
  · intro c member
    rw [flag] at member
    simpa using List.all_eq_true.mp List.all_takeWhile c member
  · rw [body]
    exact head?_trim _
  · rw [body]
    exact getLast?_trimEnd _

theorem body_sublist (read : ofLine? text = some d) : d.body.toList.Sublist text := by
  obtain ⟨rest, marked, -, -, body⟩ := exists_of_ofLine? read
  have dropped : ((trimStart rest).dropWhile (fun c => !isBlank c)).Sublist rest :=
    (List.dropWhile_sublist _).trans (List.dropWhile_sublist isBlank)
  have inner : ('@' :: rest).Sublist text := marked ▸ trim_sublist text
  rw [body]
  exact (trim_sublist _).trans (dropped.trans ((List.sublist_cons_self '@' rest).trans inner))

theorem toList_line (d : Directive) : d.line.toList = '@' :: d.flag.toList ++ ' ' :: d.body.toList := by
  simp [line, String.toList_append]

theorem Canonical.ofLine? (canonical : d.Canonical) : ofLine? d.line.toList = some d := by
  have named : d.flag.toList ≠ [] := fun empty => canonical.named (String.toList_inj.mp empty)
  rw [toList_line, ofLine?_line named canonical.solid (trimStart_eq_self canonical.start)
    (trimEnd_eq_self canonical.stop), String.ofList_toList, String.ofList_toList]

theorem Canonical.scan_line (canonical : d.Canonical) (unbroken : '\n' ∉ d.body.toList) :
    scan d.line = [d] := by
  have still : '\n' ∉ d.line.toList := by
    rw [toList_line]
    exact unbroken_line canonical.solid unbroken
  rw [scan_unbroken still, canonical.ofLine?]
  rfl

theorem scan_settled {comment : String} (scanned : d ∈ scan comment) :
    d.Canonical ∧ '\n' ∉ d.body.toList := by
  obtain ⟨text, member, read⟩ := List.mem_filterMap.mp scanned
  refine ⟨canonical_of_ofLine? read, fun broken => ?_⟩
  exact unbroken_of_mem_lines member ((body_sublist read).subset broken)

def written (ds : List Directive) : String :=
  "\n".intercalate (ds.map line)

theorem scan_written {ds : List Directive} (settled : ∀ d ∈ ds, d.Canonical ∧ '\n' ∉ d.body.toList) :
    scan (written ds) = ds := by
  induction ds with
  | nil => rfl
  | cons d rest ih =>
    have first := settled d List.mem_cons_self
    have later := ih (fun d member => settled d (List.mem_cons_of_mem _ member))
    by_cases last : rest = []
    · subst last
      have alone : written [d] = d.line := String.intercalate_singleton
      rw [alone, first.1.scan_line first.2]
    · have before : written (d :: rest) = d.line ++ "\n" ++ written rest := by
        rw [written, List.map_cons, String.intercalate_cons_of_ne_nil (by simpa using last)]
        rfl
      rw [before, scan_append_line, first.1.scan_line first.2, later, List.singleton_append]

theorem scan_concat {c : Char} (gap : isBlank c = true) (inLine : c ≠ '\n') (cs : List Char) :
    (lines (cs ++ [c])).filterMap ofLine? = (lines cs).filterMap ofLine? := by
  by_cases broken : '\n' ∈ cs
  · obtain ⟨before, after, rfl⟩ := List.append_of_mem broken
    rw [List.append_assoc, List.cons_append, lines_append_cons, lines_append_cons, List.filterMap_append,
      List.filterMap_append, scan_concat gap inLine after]
  · have still : '\n' ∉ cs ++ [c] := by simp [broken, Ne.symm inLine]
    have same : ofLine? (cs ++ [c]) = ofLine? cs := by rw [ofLine?, trim_concat gap, ← ofLine?]
    rw [lines_eq_singleton broken, lines_eq_singleton still, List.filterMap_cons, List.filterMap_cons, same]
termination_by cs.length

/-- A carriage return before the end of a line does not count. -/
theorem scan_append_return (before after : String) :
    scan (before ++ "\r\n" ++ after) = scan before ++ scan after := by
  have cut : before ++ "\r\n" ++ after = (before ++ "\r") ++ "\n" ++ after := by
    apply String.toList_inj.mp
    simp [String.toList_append]
  have returned : scan (before ++ "\r") = scan before := by
    rw [scan, String.toList_append]
    exact scan_concat (by decide) (by decide) before.toList
  rw [cut, scan_append_line, returned]

end Directive

end IdlDirectives
