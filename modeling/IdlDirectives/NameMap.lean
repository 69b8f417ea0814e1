namespace IdlDirectives

def alterEntries {α : Type} (key : String) (f : Option α → α) :
    List (String × α) → List (String × α)
  | [] => [(key, f none)]
  | (name, value) :: rest =>
    if key < name then (key, f none) :: (name, value) :: rest
    else if key = name then (name, f (some value)) :: rest
    else (name, value) :: alterEntries key f rest

theorem mem_alterEntries {α : Type} {key : String} {f : Option α → α} {entry : String × α}
    {entries : List (String × α)} (h : entry ∈ alterEntries key f entries) :
    entry.1 = key ∨ entry ∈ entries := by
  induction entries with
  | nil => simp only [alterEntries, List.mem_singleton] at h; simp [h]
  | cons head rest ih =>
    simp only [alterEntries] at h
    split at h
    · rcases List.mem_cons.mp h with rfl | h
      · simp
      · exact .inr h
    · split at h
      · next same =>
        rcases List.mem_cons.mp h with rfl | h
        · exact .inl same.symm
        · exact .inr (List.mem_cons_of_mem _ h)
      · rcases List.mem_cons.mp h with rfl | h
        · exact .inr List.mem_cons_self
        · exact (ih h).imp_right (List.mem_cons_of_mem _)

theorem sorted_alterEntries {α : Type} (key : String) (f : Option α → α)
    {entries : List (String × α)} (sorted : entries.Pairwise (fun a b => a.1 < b.1)) :
    (alterEntries key f entries).Pairwise (fun a b => a.1 < b.1) := by
  induction entries with
  | nil => simp [alterEntries]
  | cons head rest ih =>
    obtain ⟨first, others⟩ := List.pairwise_cons.mp sorted
    simp only [alterEntries]
    split
    · next before =>
      refine List.pairwise_cons.mpr ⟨?_, sorted⟩
      intro entry member
      rcases List.mem_cons.mp member with rfl | member
      · exact before
      · exact String.lt_trans before (first entry member)
    · split
      · exact List.pairwise_cons.mpr ⟨first, others⟩
      · next notBefore different =>
        refine List.pairwise_cons.mpr ⟨?_, ih others⟩
        intro entry member
        rcases mem_alterEntries member with same | member
        · rw [same]
          rcases Std.lt_trichotomy head.1 key with h | h | h
          · exact h
          · exact absurd h.symm different
          · exact absurd h notBefore
        · exact first entry member

/-- A finite map keyed by names. Its entries are in the order of their names, so two maps with the same
look-ups are equal. -/
structure NameMap (α : Type) where
  entries : List (String × α)
  sorted : entries.Pairwise (fun a b => a.1 < b.1)
deriving DecidableEq

namespace NameMap

variable {α β : Type}

def empty : NameMap α := ⟨[], .nil⟩

instance : EmptyCollection (NameMap α) := ⟨empty⟩

instance : Inhabited (NameMap α) := ⟨empty⟩

def isEmpty (m : NameMap α) : Bool :=
  m.entries.isEmpty

def keys (m : NameMap α) : List String :=
  m.entries.map Prod.fst

def values (m : NameMap α) : List α :=
  m.entries.map Prod.snd

def get? (m : NameMap α) (key : String) : Option α :=
  m.entries.lookup key

def contains (m : NameMap α) (key : String) : Bool :=
  (m.get? key).isSome

def alter (m : NameMap α) (key : String) (f : Option α → α) : NameMap α :=
  ⟨alterEntries key f m.entries, sorted_alterEntries key f m.sorted⟩

def insert (m : NameMap α) (key : String) (value : α) : NameMap α :=
  m.alter key (fun _ => value)

def ofList (entries : List (String × α)) : NameMap α :=
  entries.foldl (fun m entry => m.insert entry.1 entry.2) empty

def map (f : α → β) (m : NameMap α) : NameMap β :=
  ⟨m.entries.map (fun entry => (entry.1, f entry.2)), by
    simpa [List.pairwise_map] using m.sorted⟩

theorem lookup_eq_ite (key name : String) (value : α) (rest : List (String × α)) :
    ((key, value) :: rest).lookup name = if name = key then some value else rest.lookup name := by
  rw [List.lookup_cons]
  by_cases same : name = key
  · rw [if_pos same, beq_iff_eq.mpr same]
  · rw [if_neg same, beq_eq_false_iff_ne.mpr same]

theorem get?_alter (m : NameMap α) (key name : String) (f : Option α → α) :
    (m.alter key f).get? name = if name = key then some (f (m.get? key)) else m.get? name := by
  obtain ⟨entries, sorted⟩ := m
  simp only [alter, get?]
  induction entries with
  | nil => simp [alterEntries, lookup_eq_ite]
  | cons head rest ih =>
    obtain ⟨first, others⟩ := List.pairwise_cons.mp sorted
    specialize ih others
    obtain ⟨headName, value⟩ := head
    have absent (before : key < headName) : ((headName, value) :: rest).lookup key = none := by
      rw [List.lookup_eq_none_iff]
      intro entry member
      rcases List.mem_cons.mp member with rfl | member
      · simpa using String.ne_of_lt before
      · simpa using String.ne_of_lt (String.lt_trans before (first entry member))
    simp only [alterEntries]
    split
    · next before => rw [lookup_eq_ite, absent before]
    · split
      · next same => subst same; simp only [lookup_eq_ite]; split <;> simp
      · next different =>
        simp only [lookup_eq_ite, ih, different, if_false]
        by_cases found : name = headName
        · subst found; simp [Ne.symm different]
        · simp [found]

theorem get?_insert (m : NameMap α) (key name : String) (value : α) :
    (m.insert key value).get? name = if name = key then some value else m.get? name :=
  get?_alter m key name _

end NameMap

end IdlDirectives
