import IdlDirectives.NameMap

namespace IdlDirectives

variable {α β : Type}

theorem lookup_eq_none_of_before {name : String} {entries : List (String × α)}
    (before : ∀ entry ∈ entries, name < entry.1) : entries.lookup name = none := by
  rw [List.lookup_eq_none_iff]
  intro entry member
  simpa using String.ne_of_lt (before entry member)

theorem not_before_head_of_lookup {name : String} {value : α} {head : String × α}
    {rest : List (String × α)} (first : ∀ entry ∈ rest, head.1 < entry.1)
    (found : (head :: rest).lookup name = some value) : ¬ name < head.1 := by
  intro before
  have absent : (head :: rest).lookup name = none := by
    apply lookup_eq_none_of_before
    intro entry member
    rcases List.mem_cons.mp member with rfl | member
    · exact before
    · exact String.lt_trans before (first entry member)
  rw [absent] at found
  cases found

theorem entries_eq_of_lookup {entries others : List (String × α)}
    (sorted : entries.Pairwise (fun a b => a.1 < b.1))
    (sorted' : others.Pairwise (fun a b => a.1 < b.1))
    (same : ∀ name, entries.lookup name = others.lookup name) : entries = others := by
  induction entries generalizing others with
  | nil =>
    cases others with
    | nil => rfl
    | cons head rest =>
      obtain ⟨name, value⟩ := head
      have absent := same name
      simp at absent
  | cons head rest ih =>
    cases others with
    | nil =>
      obtain ⟨name, value⟩ := head
      have absent := same name
      simp at absent
    | cons head' rest' =>
      obtain ⟨name, value⟩ := head
      obtain ⟨name', value'⟩ := head'
      obtain ⟨first, later⟩ := List.pairwise_cons.mp sorted
      obtain ⟨first', later'⟩ := List.pairwise_cons.mp sorted'
      have here : ((name, value) :: rest).lookup name = some value := by simp
      have here' : ((name', value') :: rest').lookup name' = some value' := by simp
      -- the least names agree, as neither list has a name before its first
      have names : name = name' := by
        rcases Std.lt_trichotomy name name' with before | equal | after
        · exact absurd before (not_before_head_of_lookup first' (same name ▸ here))
        · exact equal
        · exact absurd after (not_before_head_of_lookup first (same name' ▸ here'))
      subst names
      have values : value = value' := by
        rw [same name, here'] at here
        exact (Option.some.inj here).symm
      subst values
      have rests : rest = rest' := by
        apply ih later later'
        intro other
        by_cases own : other = name
        · subst own
          rw [lookup_eq_none_of_before first, lookup_eq_none_of_before first']
        · have atOther := same other
          simpa only [NameMap.lookup_eq_ite, if_neg own] using atOther
      rw [rests]

namespace NameMap

theorem ext_get? {m n : NameMap α} (same : ∀ name, m.get? name = n.get? name) : m = n := by
  obtain ⟨entries, sorted⟩ := m
  obtain ⟨others, sorted'⟩ := n
  have equal : entries = others := entries_eq_of_lookup sorted sorted' same
  subst equal
  rfl

@[simp] theorem get?_empty (name : String) : (∅ : NameMap α).get? name = none := rfl

theorem eq_empty_of_isEmpty {m : NameMap α} (empty : m.isEmpty = true) : m = ∅ := by
  obtain ⟨entries, sorted⟩ := m
  obtain rfl : entries = [] := List.isEmpty_iff.mp empty
  rfl

theorem get?_foldl_alter (add : α → Option β → β) (name : String) (more : NameMap α)
    (kept : NameMap β) :
    (more.entries.foldl (fun kept entry => kept.alter entry.1 (add entry.2)) kept).get? name =
      (more.get? name).elim (kept.get? name) (fun value => some (add value (kept.get? name))) := by
  obtain ⟨entries, sorted⟩ := more
  simp only [get?.eq_def (α := α)]
  induction entries generalizing kept with
  | nil => rfl
  | cons head rest ih =>
    obtain ⟨first, later⟩ := List.pairwise_cons.mp sorted
    rw [List.foldl_cons, ih _ later, lookup_eq_ite, get?_alter]
    by_cases own : name = head.1
    · subst own
      simp only [lookup_eq_none_of_before first, if_true, Option.elim]
    · simp only [if_neg own]

theorem ofList_entries (m : NameMap α) : ofList m.entries = m := by
  apply ext_get?
  intro name
  have added := get?_foldl_alter (fun value _ => value) name m empty
  exact added.trans (by cases m.get? name <;> rfl)

theorem map_map {γ : Type} (f : α → β) (g : β → γ) (m : NameMap α) :
    (m.map f).map g = m.map (g ∘ f) := by
  simp only [map, List.map_map, Function.comp_def]

theorem get?_map (f : α → β) (m : NameMap α) (key : String) :
    (m.map f).get? key = (m.get? key).map f := by
  obtain ⟨entries, sorted⟩ := m
  simp only [map, get?]
  induction entries with
  | nil => rfl
  | cons head rest ih =>
    have others := ih (List.pairwise_cons.mp sorted).2
    rw [List.map_cons, lookup_eq_ite, lookup_eq_ite, others]
    split
    · rfl
    · rfl

theorem get?_of_mem {m : NameMap α} {entry : String × α} (member : entry ∈ m.entries) :
    m.get? entry.1 = some entry.2 := by
  obtain ⟨entries, sorted⟩ := m
  simp only [get?] at member ⊢
  induction entries with
  | nil => cases member
  | cons head rest ih =>
    obtain ⟨first, later⟩ := List.pairwise_cons.mp sorted
    rw [lookup_eq_ite]
    rcases List.mem_cons.mp member with rfl | member
    · exact if_pos rfl
    · rw [if_neg (String.ne_of_lt (first entry member)).symm]
      exact ih later member

theorem mem_of_get? {m : NameMap α} {key : String} {value : α} (found : m.get? key = some value) :
    (key, value) ∈ m.entries := by
  obtain ⟨before, after, same, -⟩ := List.lookup_eq_some_iff.mp found
  rw [same]
  exact List.mem_append_right before List.mem_cons_self

theorem mem_keys {m : NameMap α} {key : String} : key ∈ m.keys ↔ m.get? key ≠ none := by
  constructor
  · intro member
    obtain ⟨entry, listed, rfl⟩ := List.mem_map.mp member
    simp [get?_of_mem listed]
  · intro found
    refine Decidable.byContradiction (fun absent => found ?_)
    refine List.lookup_eq_none_iff.mpr (fun entry member => ?_)
    have other : key ≠ entry.1 := fun own => absent (own ▸ List.mem_map_of_mem member)
    simpa using other

def modify (m : NameMap α) (key : String) (change : α → α) : NameMap α :=
  match m.get? key with
  | none => m
  | some value => m.insert key (change value)

theorem get?_modify (m : NameMap α) (key name : String) (change : α → α) :
    (m.modify key change).get? name = if name = key then (m.get? name).map change else m.get? name := by
  unfold modify
  by_cases own : name = key
  · subst own
    cases found : m.get? name with
    | none => simp [found]
    | some value => simp [get?_insert]
  · cases m.get? key with
    | none => simp [own]
    | some value => simp [get?_insert, own]

theorem exists_alterEntries {key : String} {value : α} {entries : List (String × α)}
    (sorted : entries.Pairwise (fun a b => a.1 < b.1)) (found : entries.lookup key = some value) :
    ∃ before after, entries = before ++ (key, value) :: after ∧
      ∀ f, alterEntries key f entries = before ++ (key, f (some value)) :: after := by
  induction entries with
  | nil => cases found
  | cons head rest ih =>
    obtain ⟨first, later⟩ := List.pairwise_cons.mp sorted
    have notBefore := not_before_head_of_lookup first found
    by_cases own : key = head.1
    · subst own
      rw [lookup_eq_ite, if_pos rfl] at found
      obtain rfl := Option.some.inj found
      refine ⟨[], rest, rfl, fun f => ?_⟩
      rw [alterEntries, if_neg notBefore, if_pos rfl]
      rfl
    · rw [lookup_eq_ite, if_neg own] at found
      obtain ⟨before, after, same, altered⟩ := ih later found
      exact ⟨head :: before, after, by simp [same], fun f => by simp [alterEntries, notBefore, own, altered]⟩

theorem exists_values_modify (m : NameMap α) (key : String) :
    ∃ before after, m.values = before ++ (m.get? key).toList ++ after ∧
      ∀ change, (m.modify key change).values =
        before ++ ((m.get? key).map change).toList ++ after := by
  cases found : m.get? key with
  | none => exact ⟨m.values, [], by simp, fun change => by simp [modify, found]⟩
  | some value =>
    obtain ⟨before, after, same, altered⟩ := exists_alterEntries m.sorted found
    refine ⟨before.map Prod.snd, after.map Prod.snd, ?_, ?_⟩
    · simp [values, same]
    · intro change
      simp [modify, found, values, insert, alter, altered]

theorem values_map (f : α → β) (m : NameMap α) : (m.map f).values = m.values.map f := by
  simp only [map, values, List.map_map, Function.comp_def]

end NameMap

end IdlDirectives
