import IdlDirectives.Proofs.Format.Compilation

namespace IdlDirectives

namespace Json

variable {α : Type}

@[simp]
theorem depth_text (value : String) : (Json.text value).depth = 0 := by
  simp [depth]

@[simp]
theorem depth_bool (value : Bool) : (Json.bool value).depth = 0 := by
  simp [depth]

theorem depth_object_le {members : List (String × Json)} {limit : Nat} :
    (Json.object members).depth ≤ limit + 1 ↔ ∀ member ∈ members, member.2.depth ≤ limit := by
  rw [depth, Nat.add_le_add_iff_right, depthOfMembers_le]

theorem depth_list_le {encode : α → Json} {xs : List α} {limit : Nat} :
    (Json.array (xs.map encode)).depth ≤ limit + 1 ↔ ∀ x ∈ xs, (encode x).depth ≤ limit := by
  rw [depth, Nat.add_le_add_iff_right, depthOfItems_le, List.forall_mem_map]

theorem depth_map_le {encode : α → Json} {m : NameMap α} {limit : Nat} :
    (ofMap encode m).depth ≤ limit + 1 ↔ ∀ x ∈ m.values, (encode x).depth ≤ limit := by
  rw [ofMap, depth_object_le, List.forall_mem_map, NameMap.values, List.forall_mem_map]

end Json

namespace Branches

theorem isSome_at?_branch {selector : String} {below others : Branches} {path : List String}
    (bound : ∀ later ∈ others.selectors, selector < later) :
    ((branch selector below others).at? path).isSome = true ↔
      (others.at? path).isSome = true ∨ ∃ rest, path = selector :: rest ∧ (below.at? rest).isSome = true := by
  cases path with
  | nil => simp [at?]
  | cons name rest =>
    by_cases same : selector = name
    · subst same
      simp [at?, child?, child?_eq_none_of_before bound]
    · simp [at?, child?, same, Ne.symm same]

theorem depth_le {t : Branches} (ordered : t.Ordered) {limit : Nat} :
    Json.depthOfMembers t.toMembers ≤ limit ↔
      ∀ path, (t.at? path).isSome = true → path.length ≤ limit := by
  induction t generalizing limit with
  | none =>
    simp only [toMembers, Json.depthOfMembers, Nat.zero_le, true_iff]
    intro path there
    cases path with
    | nil => exact Nat.zero_le _
    | cons name path => simp [at?, child?] at there
  | branch selector below others inner outer =>
    obtain ⟨bound, orderedBelow, orderedOthers⟩ := ordered
    have under : (Json.object below.toMembers).depth ≤ limit ↔
        ∀ rest, (below.at? rest).isSome = true → (selector :: rest).length ≤ limit := by
      cases limit with
      | zero => simpa [Json.depth] using ⟨[], by simp [at?]⟩
      | succ limit => simp only [Json.depth, List.length_cons, Nat.add_le_add_iff_right, inner orderedBelow]
    rw [toMembers, Json.depthOfMembers, Nat.max_le, under, outer orderedOthers]
    constructor
    · rintro ⟨within, beside⟩ path there
      rcases (isSome_at?_branch bound).mp there with elsewhere | ⟨rest, rfl, inside⟩
      · exact beside path elsewhere
      · exact within rest inside
    · intro all
      exact ⟨fun rest inside => all _ ((isSome_at?_branch bound).mpr (.inr ⟨rest, rfl, inside⟩)),
        fun path elsewhere => all path ((isSome_at?_branch bound).mpr (.inl elsewhere))⟩

end Branches

theorem Selection.depth_le {s : Selection} {limit : Nat} :
    s.toJson.depth ≤ limit + 1 ↔ ∀ path, s.Contains path → path.length ≤ limit := by
  rw [toJson, Json.depth, Nat.add_le_add_iff_right, Branches.depth_le s.ordered]
  rfl

def Searchable.Selects (s : Searchable) (path : List String) : Prop :=
  s.fields.Contains path ∨ s.keys.Contains path

theorem Searchable.depth_le {s : Searchable} {limit : Nat} :
    s.toJson.depth ≤ limit + 2 ↔ ∀ path, s.Selects path → path.length ≤ limit := by
  simp only [toJson, Json.depth_object_le, List.forall_mem_cons, Selection.depth_le, List.not_mem_nil,
    false_implies, implies_true, and_true, Selects, or_imp, forall_and]

namespace AnnotationSet

theorem texts_depth_le (limit : Nat) (texts : List String) :
    (Json.array (texts.map .text)).depth ≤ limit + 1 :=
  Json.depth_list_le.mpr (fun _ _ => by simp)

theorem depth_le {s : AnnotationSet} {limit : Nat} :
    s.toJson.depth ≤ limit + 3 ↔ ∀ x ∈ s.searchable, x.toJson.depth ≤ limit + 2 := by
  have identifier (i : Identifier) : i.toJson.depth ≤ limit + 2 := by
    simp only [Identifier.toJson, Json.depth_object_le, List.forall_mem_cons, texts_depth_le]
    simp
  have bounds (b : Bounds) : b.toJson.depth ≤ limit + 2 := by
    simp only [Bounds.toJson, Json.depth_object_le, List.forall_mem_append, Json.forall_mem_optionalMember]
    simp
  have metadata (m : NameMap String) : (metadataToJson m).depth ≤ limit + 2 := by
    simp only [metadataToJson, Json.depth_object_le, List.forall_mem_cons, Json.depth_map_le]
    simp
  have unknown (m : NameMap (List String)) :
      (Json.ofMap (fun bodies => .array (bodies.map .text)) m).depth ≤ limit + 2 :=
    Json.depth_map_le.mpr (fun bodies _ => texts_depth_le limit bodies)
  simp only [toJson, Json.depth_object_le, List.forall_mem_append, Json.forall_mem_optionalMember,
    texts_depth_le, identifier, bounds, metadata, unknown, implies_true, and_true, true_and]

theorem depth_le_of_searchable_eq_none {s : AnnotationSet} (none : s.searchable = none) :
    s.toJson.depth ≤ 3 := by
  rw [← Nat.zero_add 3, depth_le, none]
  simp

end AnnotationSet

@[simp] theorem TypeId.depth_le (limit : Nat) (id : TypeId) : id.toJson.depth ≤ limit :=
  Nat.zero_le limit

theorem Field.depth_le (limit : Nat) (f : Field) : f.toJson.depth ≤ limit + 1 := by
  simp only [toJson, Json.depth_object_le, List.forall_mem_cons]
  simp

theorem Shape.depth_le (limit : Nat) (shape : Shape) :
    ∀ member ∈ shape.toMembers, member.2.depth ≤ limit + 2 := by
  have fields (fs : List Field) : (Json.array (fs.map Field.toJson)).depth ≤ limit + 2 :=
    Json.depth_list_le.mpr (fun f _ => f.depth_le limit)
  have ids (ids : List TypeId) : (Json.array (ids.map TypeId.toJson)).depth ≤ limit + 2 :=
    Json.depth_list_le.mpr (fun id _ => by simp)
  rcases shape with (_ | fs | _ | _ | elements | _) | _
  · simp [toMembers, ScalarKind.toJson]
  · simpa [toMembers] using fields fs
  · simp [toMembers]
  · simp [toMembers]
  · simpa [toMembers] using ids elements
  · simp [toMembers]
  · simp [toMembers]

theorem Node.depth_le {n : Node} {limit : Nat} :
    n.toJson.depth ≤ limit + 4 ↔ ∀ s ∈ n.annotations, s.toJson.depth ≤ limit + 3 := by
  have kind : (Json.text n.shape.kind).depth ≤ limit + 3 := by simp
  have type : ∀ member ∈ n.shape.toMembers, member.2.depth ≤ limit + 3 := n.shape.depth_le (limit + 1)
  simp only [toJson_eq, written, Json.depth_object_le, List.forall_mem_append, List.forall_mem_cons,
    Json.forall_mem_optionalMember]
  exact ⟨fun both => both.2, fun within => ⟨⟨kind, type⟩, within⟩⟩

def TypeGraph.SelectsWithin (g : TypeGraph) (limit : Nat) : Prop :=
  ∀ node ∈ g.nodes, ∀ s ∈ node.annotations, ∀ x ∈ s.searchable, ∀ path, x.Selects path → path.length ≤ limit

theorem TypeGraph.depth_le {g : TypeGraph} {limit : Nat} :
    g.toJson.depth ≤ limit + 6 ↔ g.SelectsWithin limit := by
  have table : (Json.ofMap (Json.ofMap TypeId.toJson) g.table).depth ≤ limit + 5 :=
    Json.depth_map_le.mpr (fun types _ => Json.depth_map_le.mpr (fun id _ => by simp))
  simp only [toJson, Json.depth_object_le, List.forall_mem_cons, table, Json.depth_list_le, Node.depth_le,
    AnnotationSet.depth_le, Searchable.depth_le, List.not_mem_nil, false_implies, implies_true, and_true,
    Array.mem_toList_iff, SelectsWithin]

structure Compilation.SelectsOnNodes (c : Compilation) : Prop where
  modules : ∀ m ∈ c.modules, ∀ s ∈ m.annotations, s.searchable = none
  functions : ∀ f ∈ c.functions, ∀ s ∈ f.annotations, s.searchable = none

theorem FunctionDecl.depth_le {f : FunctionDecl} (own : ∀ s ∈ f.annotations, s.searchable = none) :
    f.toJson.depth ≤ 4 := by
  have fields (fs : List Field) : (Json.array (fs.map Field.toJson)).depth ≤ 3 :=
    Json.depth_list_le.mpr (fun f _ => f.depth_le 1)
  have annotations : ∀ s ∈ f.annotations, s.toJson.depth ≤ 3 :=
    fun s member => AnnotationSet.depth_le_of_searchable_eq_none (own s member)
  simp only [toJson, Json.depth_object_le, List.forall_mem_append, List.forall_mem_cons, fields,
    Json.forall_mem_optionalMember]
  exact ⟨by simp, annotations⟩

theorem ModuleDecl.depth_le {m : ModuleDecl} (own : ∀ s ∈ m.annotations, s.searchable = none)
    (within : ∀ f ∈ m.functions, ∀ s ∈ f.annotations, s.searchable = none) : m.toJson.depth ≤ 6 := by
  have functions : (Json.array (m.functions.map FunctionDecl.toJson)).depth ≤ 5 :=
    Json.depth_list_le.mpr (fun f member => FunctionDecl.depth_le (within f member))
  have annotations : ∀ s ∈ m.annotations, s.toJson.depth ≤ 5 := fun s member =>
    Nat.le_trans (AnnotationSet.depth_le_of_searchable_eq_none (own s member)) (by decide)
  simp only [toJson, Json.depth_object_le, List.forall_mem_append, List.forall_mem_cons, functions,
    Json.forall_mem_optionalMember]
  exact ⟨by simp, annotations⟩

theorem CompiledModule.depth_le {m : CompiledModule} (within : m.module.toJson.depth ≤ 6) :
    m.toJson.depth ≤ 7 := by
  simp only [toJson, Json.depth_object_le, List.forall_mem_append, List.forall_mem_cons, within,
    AnnotationSet.texts_depth_le, Json.forall_mem_optionalMember]
  simp

namespace Compilation

theorem services_depth_le {c : Compilation} (nodes : c.SelectsOnNodes) :
    (Json.ofMap (fun modules => .array (modules.map CompiledModule.toJson)) c.services).depth ≤ 9 := by
  refine Json.depth_map_le.mpr (fun modules service => Json.depth_list_le.mpr (fun m member => ?_))
  have here : m.module ∈ c.modules :=
    List.mem_map_of_mem (List.mem_flatten_of_mem service member)
  refine CompiledModule.depth_le (ModuleDecl.depth_le (nodes.modules _ here) (fun f own => ?_))
  exact nodes.functions f (List.mem_flatMap_of_mem here own)

/-- Seven arrays and objects are around the paths of a selection. -/
theorem depth_le {c : Compilation} (nodes : c.SelectsOnNodes) {limit : Nat} :
    c.toJson.depth ≤ limit + 10 ↔ c.types.SelectsWithin (limit + 3) := by
  have services := Nat.le_trans (services_depth_le nodes) (Nat.le_add_left 9 limit)
  simp only [toJson, Json.depth_object_le, List.forall_mem_cons, services, List.not_mem_nil,
    false_implies, implies_true, and_true]
  exact TypeGraph.depth_le

end Compilation

end IdlDirectives
