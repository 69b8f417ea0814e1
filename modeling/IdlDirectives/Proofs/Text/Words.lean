import IdlDirectives.Text.Blank

namespace IdlDirectives.Text

/-- A stretch without a blank that has the end of the text or a blank on either side. -/
structure IsRun (cs : List Char) (start stop : Nat) : Prop where
  nonempty : start < stop
  within : stop ≤ cs.length
  solid : ∀ i c, start ≤ i → i < stop → cs[i]? = some c → isBlank c = false
  before : ∀ i c, start = i + 1 → cs[i]? = some c → isBlank c = true
  after : ∀ c, cs[stop]? = some c → isBlank c = true

/-- The pieces are the runs of a text, each once and in order. -/
def AreRuns (cs : List Char) (pieces : List (List Char)) : Prop :=
  ∃ spans : List (Nat × Nat), spans.Pairwise (fun first later => first.2 < later.1) ∧
    (∀ span, span ∈ spans ↔ IsRun cs span.1 span.2) ∧
    pieces = spans.map (fun span => cs.extract span.1 span.2)

variable {before after : List Char} {blank : Char}

theorem getElem?_behind (i : Nat) :
    (before ++ blank :: after)[before.length + 1 + i]? = after[i]? := by
  rw [List.getElem?_append_right (by omega), show before.length + 1 + i - before.length = i + 1 by omega,
    List.getElem?_cons_succ]

theorem getElem?_between : (before ++ blank :: after)[before.length]? = some blank := by
  rw [List.getElem?_append_right (Nat.le_refl _), Nat.sub_self, List.getElem?_cons_zero]

theorem length_around : (before ++ blank :: after).length = before.length + 1 + after.length := by
  simp only [List.length_append, List.length_cons]
  omega

theorem isRun_front (gap : isBlank blank = true) {start stop : Nat} (left : stop ≤ before.length) :
    IsRun (before ++ blank :: after) start stop ↔ IsRun before start stop := by
  have inFront {i : Nat} (less : i < before.length) :
      (before ++ blank :: after)[i]? = before[i]? := List.getElem?_append_left less
  constructor
  · intro run
    have nonempty := run.nonempty
    refine ⟨nonempty, left, ?_, ?_, ?_⟩
    · intro i c above below there
      exact run.solid i c above below ((inFront (by omega)).trans there)
    · intro i c here there
      exact run.before i c here ((inFront (by omega)).trans there)
    · intro c there
      have less := (List.getElem?_eq_some_iff.mp there).1
      exact run.after c ((inFront less).trans there)
  · intro run
    have nonempty := run.nonempty
    refine ⟨nonempty, by rw [length_around]; omega, ?_, ?_, ?_⟩
    · intro i c above below there
      exact run.solid i c above below ((inFront (by omega)).symm.trans there)
    · intro i c here there
      exact run.before i c here ((inFront (by omega)).symm.trans there)
    · intro c there
      rcases Nat.lt_or_eq_of_le left with less | rfl
      · exact run.after c ((inFront less).symm.trans there)
      · rw [getElem?_between] at there
        cases there
        exact gap

theorem isRun_behind (gap : isBlank blank = true) {start stop : Nat} :
    IsRun (before ++ blank :: after) (before.length + 1 + start) (before.length + 1 + stop) ↔
      IsRun after start stop := by
  constructor
  · rintro ⟨nonempty, within, solid, first, last⟩
    rw [length_around] at within
    refine ⟨by omega, by omega, ?_, ?_, ?_⟩
    · intro i c above below there
      exact solid _ c (by omega) (by omega) ((getElem?_behind i).trans there)
    · intro i c here there
      exact first _ c (by omega) ((getElem?_behind i).trans there)
    · intro c there
      exact last c ((getElem?_behind stop).trans there)
  · rintro ⟨nonempty, within, solid, first, last⟩
    refine ⟨by omega, by rw [length_around]; omega, ?_, ?_, ?_⟩
    · intro i c above below there
      obtain ⟨j, rfl⟩ := Nat.exists_eq_add_of_le (show before.length + 1 ≤ i by omega)
      exact solid j c (by omega) (by omega) ((getElem?_behind j).symm.trans there)
    · intro i c here there
      rcases Nat.eq_zero_or_pos start with rfl | positive
      · obtain rfl : before.length = i := by omega
        rw [getElem?_between] at there
        cases there
        exact gap
      · obtain ⟨j, rfl⟩ := Nat.exists_eq_add_of_le (show before.length + 1 ≤ i by omega)
        exact first j c (by omega) ((getElem?_behind j).symm.trans there)
    · intro c there
      exact last c ((getElem?_behind stop).symm.trans there)

theorem isRun_append_cons (gap : isBlank blank = true) {start stop : Nat} :
    IsRun (before ++ blank :: after) start stop ↔
      IsRun before start stop ∨
        ∃ start' stop', start = before.length + 1 + start' ∧ stop = before.length + 1 + stop' ∧
          IsRun after start' stop' := by
  constructor
  · intro run
    have apart : ¬ (start ≤ before.length ∧ before.length < stop) := by
      rintro ⟨above, below⟩
      have solid := run.solid before.length blank above below getElem?_between
      rw [gap] at solid
      cases solid
    rcases Nat.lt_or_ge before.length stop with right | left
    · have start_gt : before.length + 1 ≤ start := by omega
      obtain ⟨start', rfl⟩ := Nat.exists_eq_add_of_le start_gt
      obtain ⟨stop', rfl⟩ := Nat.exists_eq_add_of_le right
      exact .inr ⟨start', stop', rfl, rfl, (isRun_behind gap).mp run⟩
    · exact .inl ((isRun_front gap left).mp run)
  · rintro (run | ⟨start', stop', rfl, rfl, run⟩)
    · exact (isRun_front gap run.within).mpr run
    · exact (isRun_behind gap).mpr run

theorem isRun_solid {cs : List Char} (solid : ∀ c ∈ cs, isBlank c = false) {start stop : Nat} :
    IsRun cs start stop ↔ cs ≠ [] ∧ start = 0 ∧ stop = cs.length := by
  have plain {i : Nat} {c : Char} (there : cs[i]? = some c) : isBlank c ≠ true := by
    rw [solid c (List.mem_of_getElem? there)]
    exact Bool.false_ne_true
  constructor
  · intro run
    have within := run.within
    have nonempty := run.nonempty
    refine ⟨List.ne_nil_of_length_pos (by omega), ?_, ?_⟩
    · cases start with
      | zero => rfl
      | succ i =>
        have there := List.getElem?_eq_getElem (show i < cs.length by omega)
        exact absurd (run.before i _ rfl there) (plain there)
    · rcases Nat.lt_or_eq_of_le within with less | same
      · have there := List.getElem?_eq_getElem less
        exact absurd (run.after _ there) (plain there)
      · exact same
  · rintro ⟨nonempty, rfl, rfl⟩
    refine ⟨List.length_pos_iff.mpr nonempty, Nat.le_refl _, ?_, nofun, ?_⟩
    · intro i c _ _ there
      exact solid c (List.mem_of_getElem? there)
    · intro c there
      rw [List.getElem?_eq_none (Nat.le_refl _)] at there
      cases there

theorem areRuns_solid {cs : List Char} (solid : ∀ c ∈ cs, isBlank c = false) : AreRuns cs (words cs) := by
  by_cases empty : cs = []
  · subst empty
    refine ⟨[], .nil, fun span => ?_, rfl⟩
    simp [isRun_solid solid]
  · refine ⟨[(0, cs.length)], List.pairwise_singleton _ _, fun span => ?_, ?_⟩
    · simp [isRun_solid solid, empty, Prod.ext_iff]
    · simp [words_eq_singleton empty solid]

theorem AreRuns.append_cons (gap : isBlank blank = true) {pieces pieces' : List (List Char)}
    (front : AreRuns before pieces) (behind : AreRuns after pieces') :
    AreRuns (before ++ blank :: after) (pieces ++ pieces') := by
  obtain ⟨spans, sorted, are, rfl⟩ := front
  obtain ⟨spans', sorted', are', rfl⟩ := behind
  let shift (span : Nat × Nat) := (before.length + 1 + span.1, before.length + 1 + span.2)
  refine ⟨spans ++ spans'.map shift, ?_, ?_, ?_⟩
  · refine List.pairwise_append.mpr ⟨sorted, ?_, ?_⟩
    · exact List.pairwise_map.mpr (sorted'.imp (fun apart => by simpa [shift] using apart))
    · intro first member later member'
      obtain ⟨span, -, rfl⟩ := List.mem_map.mp member'
      have within := ((are first).mp member).within
      dsimp only [shift]
      omega
  · intro span
    rw [isRun_append_cons gap, List.mem_append, are span, List.mem_map]
    refine or_congr_right ?_
    constructor
    · rintro ⟨span', member, rfl⟩
      exact ⟨span'.1, span'.2, rfl, rfl, (are' span').mp member⟩
    · rintro ⟨start', stop', start, stop, run⟩
      exact ⟨(start', stop'), (are' _).mpr run, Prod.ext start.symm stop.symm⟩
  · rw [List.map_append, List.map_map]
    congr 1
    · refine List.map_congr_left (fun span member => ?_)
      have run := (are span).mp member
      have within := run.within
      have nonempty := run.nonempty
      rw [List.extract_eq_take_drop, List.extract_eq_take_drop, List.drop_append_of_le_length (by omega),
        List.take_append_of_le_length (by rw [List.length_drop]; omega)]
    · refine List.map_congr_left (fun span _ => ?_)
      have dropped : (before ++ blank :: after).drop (before.length + 1 + span.1) = after.drop span.1 := by
        rw [← List.drop_drop, List.append_cons, List.drop_left' (by simp)]
      have extent : before.length + 1 + span.2 - (before.length + 1 + span.1) = span.2 - span.1 := by omega
      simp only [Function.comp, shift, List.extract_eq_take_drop, dropped, extent]

theorem words_areRuns (cs : List Char) : AreRuns cs (words cs) := by
  by_cases solid : ∀ c ∈ cs, isBlank c = false
  · exact areRuns_solid solid
  · obtain ⟨blank, member, gap⟩ : ∃ c ∈ cs, isBlank c = true := by simpa using solid
    obtain ⟨before, after, rfl⟩ := List.append_of_mem member
    rw [words_append_cons gap]
    exact (words_areRuns before).append_cons gap (words_areRuns after)
termination_by cs.length

end IdlDirectives.Text
