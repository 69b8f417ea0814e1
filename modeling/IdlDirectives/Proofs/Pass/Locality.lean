import IdlDirectives.Proofs.Pass.Coverage
import IdlDirectives.Proofs.Pass.Declarations
import Mathlib.Data.List.Basic

namespace IdlDirectives

/-- Where a comment stands: at a node of the graph, at a module of a service, or at a function of such a
module. -/
inductive Site where
  | type (place : Nat)
  | module (service : String) (position : Nat)
  | function (service : String) (position member : Nat)
deriving DecidableEq

def Shape.recomment (comment : String) : Shape → Shape
  | .base type => .base type
  | .typedef definition => .typedef { definition with comment }

def TypeGraph.recomment (g : TypeGraph) (comment : String) (place : Nat) : TypeGraph :=
  { g with
    nodes := g.nodes.modify place (fun node => { node with shape := node.shape.recomment comment }) }

def TypeGraph.names (g : TypeGraph) (place : Nat) : Declaration → Bool
  | .typedef module name => (g.lookup module name).any (·.number.toNat = place)
  | _ => false

def FunctionDecl.recomment (comment : String) (f : FunctionDecl) : FunctionDecl :=
  { f with comment }

namespace ModuleDecl

def recomment (comment : String) (m : ModuleDecl) : ModuleDecl :=
  { m with comment }

def recommentFunction (comment : String) (member : Nat) (m : ModuleDecl) : ModuleDecl :=
  { m with functions := m.functions.modify member (·.recomment comment) }

end ModuleDecl

namespace Compilation

def moduleAt? (c : Compilation) (service : String) (position : Nat) : Option ModuleDecl :=
  (c.services.get? service).bind (fun modules => modules[position]?.map (·.module))

def functionAt? (c : Compilation) (service : String) (position member : Nat) : Option FunctionDecl :=
  (c.moduleAt? service position).bind (·.functions[member]?)

def modifyModule (c : Compilation) (service : String) (position : Nat)
    (change : ModuleDecl → ModuleDecl) : Compilation :=
  { c with
    services := c.services.modify service (fun modules =>
      modules.modify position (fun m => { m with module := change m.module })) }

def recomment (c : Compilation) (comment : String) : Site → Compilation
  | .type place => { c with types := c.types.recomment comment place }
  | .module service position => c.modifyModule service position (·.recomment comment)
  | .function service position member =>
    c.modifyModule service position (·.recommentFunction comment member)

def annotationsAt? (c : Compilation) : Site → Option (Option AnnotationSet)
  | .type place => c.types.nodes[place]?.map (·.annotations)
  | .module service position => (c.moduleAt? service position).map (·.annotations)
  | .function service position member => (c.functionAt? service position member).map (·.annotations)

end Compilation

theorem exists_parts_modify {α : Type} (xs : List α) (place : Nat) :
    ∃ before after, xs = before ++ xs[place]?.toList ++ after ∧
      ∀ change, xs.modify place change = before ++ (xs[place]?.map change).toList ++ after := by
  induction xs generalizing place with
  | nil => exact ⟨[], [], by simp, by simp⟩
  | cons x xs ih =>
    cases place with
    | zero => exact ⟨[], xs, by simp, by simp⟩
    | succ place =>
      obtain ⟨before, after, parts, changed⟩ := ih place
      refine ⟨x :: before, after, ?_, ?_⟩
      · simpa using parts
      · intro change
        simpa using changed change

namespace TypeGraph

variable (g : TypeGraph) (comment : String) (place : Nat)

theorem getElem?_recomment (other : Nat) :
    (g.recomment comment place).nodes[other]? =
      if place = other then
        g.nodes[other]?.map (fun node => { node with shape := node.shape.recomment comment })
      else g.nodes[other]? := by
  simp [recomment, Array.getElem?_modify]

theorem alike_recomment : g.Alike (g.recomment comment place) := by
  have shapes (id : TypeId) : (g.recomment comment place).shape? id =
      if place = id.number.toNat then (g.shape? id).map (Shape.recomment comment) else g.shape? id := by
    simp only [shape?, get?, getElem?_recomment]
    split
    · simp only [Option.map_map]
      rfl
    · rfl
  refine ⟨?_, ?_, ?_⟩
  · intro id found
    rw [shapes, found]
    split
    · rfl
    · rfl
  · intro id type found
    rw [shapes, found]
    split
    · rfl
    · rfl
  · intro id definition found
    rw [shapes, found]
    split
    · exact ⟨comment, rfl⟩
    · exact ⟨definition.comment, rfl⟩

section

variable {g} {h : TypeGraph} (alike : g.Alike h)

include alike

theorem Alike.isDeclared (id : TypeId) :
    (h.shape? id).any Shape.isDeclared = (g.shape? id).any Shape.isDeclared := by
  match found : g.shape? id with
  | none => rw [alike.missing id found]
  | some (.base type) => rw [alike.base id type found]
  | some (.typedef definition) =>
    obtain ⟨comment, there⟩ := alike.typedef id definition found
    rw [there]
    rfl

theorem Alike.finding? {entry : Entry} (same : h.shape? entry.id = g.shape? entry.id) :
    h.finding? entry = g.finding? entry := by
  simp only [TypeGraph.finding?, same, alike.forTypedef]

theorem Alike.contributions {id : TypeId} (same : h.shape? id = g.shape? id) (entries : List Entry) :
    h.contributions entries id = g.contributions entries id := by
  have findings : h.findings (entries.filter (·.id = id)) = g.findings (entries.filter (·.id = id)) := by
    apply List.filterMap_congr
    intro entry member
    have own : entry.id = id := by simpa using (List.mem_filter.mp member).2
    apply alike.finding?
    rw [own, same]
  rw [TypeGraph.contributions, findings, TypeGraph.contributions]

end

theorem target_of_mem_finding? {entry : Entry} {finding : Finding}
    (found : g.finding? entry = some finding) {w : Warning} (member : w ∈ finding.warnings) :
    w.target = .typedef entry.module entry.name := by
  rw [finding?_eq] at found
  split at found
  · obtain rfl := Option.some.inj found
    obtain ⟨flagged, _, rfl⟩ := List.mem_map.mp member
    rfl
  · cases found

/-- If the comment at one place changes, so do only the warnings about the types that the table gives as
the node there. -/
theorem warnings_recomment :
    (((g.recomment comment place).findings g.named).flatMap (·.warnings)).filter
        (fun w => !g.names place w.target) =
      ((g.findings g.named).flatMap (·.warnings)).filter (fun w => !g.names place w.target) := by
  simp only [findings, List.filterMap_eq_flatMap_toList, List.flatMap_assoc, List.filter_flatMap]
  apply List.flatMap_congr
  intro entry member
  by_cases here : place = entry.id.number.toNat
  -- whatever the entry amounts to, its warnings are about a name for the place
  · have named : g.names place (.typedef entry.module entry.name) = true := by
      simp [names, lookup_of_mem_named member, here]
    have dropped (h : TypeGraph) : (h.finding? entry).toList.flatMap
        (fun finding => finding.warnings.filter (fun w => !g.names place w.target)) = [] := by
      rw [List.flatMap_eq_nil_iff]
      intro finding found
      rw [List.filter_eq_nil_iff]
      intro w member
      rw [h.target_of_mem_finding? (Option.mem_toList.mp found) member, named]
      decide
    rw [dropped, dropped]
  · have same : (g.recomment comment place).shape? entry.id = g.shape? entry.id := by
      simp only [shape?, get?, getElem?_recomment, if_neg here]
    rw [(g.alike_recomment comment place).finding? same]

end TypeGraph

namespace Compilation

structure Alike (c d : Compilation) : Prop where
  types : c.types.Alike d.types
  table : d.types.table = c.types.table
  modules : d.modules.map (·.name) = c.modules.map (·.name)
  signatures : d.functions.map (·.signature) = c.functions.map (·.signature)

section

variable {c d : Compilation} (alike : c.Alike d) (settings : Settings)

include alike

theorem Alike.named : d.types.named = c.types.named := by
  rw [TypeGraph.named, alike.table, TypeGraph.named]

theorem Alike.nodes_pass {place : Nat} (same : d.types.nodes[place]? = c.types.nodes[place]?) :
    (d.pass settings).compilation.types.nodes[place]? =
      (c.pass settings).compilation.types.nodes[place]? := by
  by_cases numbered : ∃ id : TypeId, id.number.toNat = place
  · obtain ⟨id, rfl⟩ := numbered
    have shape : d.types.shape? id = c.types.shape? id := by
      simp only [TypeGraph.shape?, TypeGraph.get?, same]
    have each (e : Compilation) : (∃ f ∈ e.functions, id ∈ c.types.reachable f.signature) ↔
        ∃ roots ∈ e.functions.map (·.signature), id ∈ c.types.reachable roots := by
      simp only [List.mem_map, exists_exists_and_eq_and]
    have signatures : (∃ f ∈ d.functions, id ∈ c.types.reachable f.signature) ↔
        ∃ f ∈ c.functions, id ∈ c.types.reachable f.signature := by
      rw [each, each, alike.signatures]
    -- of all comments, only the one of the node itself has a part in this
    have entered : d.entered id = c.entered id := by
      funext node
      simp only [entered, alike.named, alike.types.contributions shape, alike.types.reachable]
    have after := d.get?_pass settings id
    rw [alike.types.reachable, entered] at after
    simp only [signatures] at after
    rw [TypeGraph.get?, TypeGraph.get?, same] at after
    exact after.trans (c.get?_pass settings id).symm
  · have unnumbered : ∀ id : TypeId, id.number.toNat ≠ place := fun id same => numbered ⟨id, same⟩
    rw [pass_unnumbered d settings unnumbered, pass_unnumbered c settings unnumbered, same]

theorem Alike.counts :
    (d.pass settings).report.modules = (c.pass settings).report.modules ∧
      (d.pass settings).report.types = (c.pass settings).report.types ∧
      (d.pass settings).report.functions = (c.pass settings).report.functions := by
  have declared : d.types.declared = c.types.declared := by
    simp only [TypeGraph.declared, alike.named, alike.types.isDeclared]
  simp only [report_pass, TypeGraph.findings_named, List.length_map, declared]
  refine ⟨?_, trivial, ?_⟩
  · simpa using congrArg List.length alike.modules
  · simpa using congrArg List.length alike.signatures

end

section

variable (c : Compilation) (settings : Settings) (service : String) (position member : Nat)

theorem moduleAt?_pass :
    (c.pass settings).compilation.moduleAt? service position =
      (c.moduleAt? service position).map (·.settled) := by
  rw [moduleAt?, services_pass, mapModules, NameMap.get?_map, moduleAt?]
  cases c.services.get? service with
  | none => rfl
  | some modules => simp [Function.comp_def]

theorem functionAt?_pass :
    (c.pass settings).compilation.functionAt? service position member =
      (c.functionAt? service position member).map (·.annotated) := by
  rw [functionAt?, moduleAt?_pass, functionAt?]
  cases c.moduleAt? service position with
  | none => rfl
  | some m => exact List.getElem?_map

end

section

variable (c : Compilation) (service : String) (position : Nat) (change : ModuleDecl → ModuleDecl)

theorem moduleAt?_modifyModule (other : String) (index : Nat) :
    (c.modifyModule service position change).moduleAt? other index =
      if other = service ∧ index = position then (c.moduleAt? other index).map change
      else c.moduleAt? other index := by
  rw [moduleAt?, modifyModule, NameMap.get?_modify, moduleAt?]
  by_cases own : other = service
  · cases c.services.get? other with
    | none => simp
    | some modules =>
      by_cases here : index = position
      · simp [own, here, Function.comp_def]
      · simp [own, here, Ne.symm here]
  · simp [own]

theorem exists_modules_modifyModule :
    ∃ before after, c.modules = before ++ (c.moduleAt? service position).toList ++ after ∧
      ∀ change, (c.modifyModule service position change).modules =
        before ++ ((c.moduleAt? service position).map change).toList ++ after := by
  obtain ⟨before, after, same, changed⟩ := c.services.exists_values_modify service
  simp only [modules, moduleAt?, modifyModule, changed, same]
  cases c.services.get? service with
  | none => exact ⟨before.flatten.map (·.module), after.flatten.map (·.module), by simp, by simp⟩
  | some compiled =>
    obtain ⟨first, last, parts, changedParts⟩ := exists_parts_modify compiled position
    simp only [Option.map_some, Option.bind_some, changedParts]
    generalize compiled[position]? = there at parts ⊢
    rw [parts]
    refine ⟨(before.flatten ++ first).map (·.module), (last ++ after.flatten).map (·.module), ?_, ?_⟩
    · cases there with
      | none => simp
      | some m => simp
    · intro change
      cases there with
      | none => simp
      | some m => simp

theorem map_modifyModule {β : Type} {f : ModuleDecl → β} (same : ∀ m, f (change m) = f m) :
    (c.modifyModule service position change).modules.map f = c.modules.map f := by
  obtain ⟨before, after, parts, changed⟩ := c.exists_modules_modifyModule service position
  rw [changed, parts]
  cases c.moduleAt? service position with
  | none => rfl
  | some m => simp [same]

theorem flatMap_modifyModule {β : Type} {f : ModuleDecl → List β} (same : ∀ m, f (change m) = f m) :
    (c.modifyModule service position change).modules.flatMap f = c.modules.flatMap f := by
  rw [List.flatMap_def, map_modifyModule c service position change same, List.flatMap_def]

end

section

variable (c : Compilation) (comment : String)

theorem exists_functions_recomment (service : String) (position member : Nat) :
    ∃ before after,
      c.functions = before ++ (c.functionAt? service position member).toList ++ after ∧
      (c.recomment comment (.function service position member)).functions =
        before ++ ((c.functionAt? service position member).map (·.recomment comment)).toList ++
          after := by
  obtain ⟨before, after, parts, changed⟩ := c.exists_modules_modifyModule service position
  rw [functions, functions, recomment, changed, parts, functionAt?]
  cases c.moduleAt? service position with
  | none => exact ⟨before.flatMap (·.functions), after.flatMap (·.functions), by simp, by simp⟩
  | some m =>
    obtain ⟨first, last, own, changedOwn⟩ := exists_parts_modify m.functions member
    have other : (m.recommentFunction comment member).functions = _ :=
      changedOwn (·.recomment comment)
    refine ⟨before.flatMap (·.functions) ++ first, last ++ after.flatMap (·.functions), ?_, ?_⟩
    · rw [Option.bind_some]
      generalize m.functions[member]? = there at own ⊢
      simp [own]
    · simp [other]

theorem signatures_recomment (service : String) (position member : Nat) :
    (c.recomment comment (.function service position member)).functions.map (·.signature) =
      c.functions.map (·.signature) := by
  obtain ⟨before, after, parts, changed⟩ :=
    c.exists_functions_recomment comment service position member
  rw [changed, parts]
  cases c.functionAt? service position member with
  | none => rfl
  | some f => simp [FunctionDecl.recomment, FunctionDecl.signature]

theorem functions_recomment_module (service : String) (position : Nat) :
    (c.recomment comment (.module service position)).functions = c.functions :=
  c.flatMap_modifyModule service position _ (fun _ => rfl)

theorem alike_recomment (site : Site) : c.Alike (c.recomment comment site) := by
  cases site with
  | type place => exact ⟨c.types.alike_recomment comment place, rfl, rfl, rfl⟩
  | module service position =>
    refine ⟨.of_shape? (fun _ => rfl), rfl, ?_, ?_⟩
    · exact c.map_modifyModule service position _ (fun _ => rfl)
    · rw [c.functions_recomment_module comment service position]
  | function service position member =>
    refine ⟨.of_shape? (fun _ => rfl), rfl, ?_, ?_⟩
    · exact c.map_modifyModule service position _ (fun _ => rfl)
    · exact c.signatures_recomment comment service position member

end

section

variable (c : Compilation) (comment : String) {site : Site}

theorem nodes_recomment {place : Nat} (other : .type place ≠ site) :
    (c.recomment comment site).types.nodes[place]? = c.types.nodes[place]? := by
  cases site with
  | type changed =>
    have apart : changed ≠ place := fun same => other (congrArg Site.type same.symm)
    exact (c.types.getElem?_recomment comment changed place).trans (if_neg apart)
  | module _ _ => rfl
  | function _ _ _ => rfl

theorem findings_recomment {service : String} {position : Nat}
    (other : .module service position ≠ site) :
    ((c.recomment comment site).moduleAt? service position).map (·.finding) =
      (c.moduleAt? service position).map (·.finding) := by
  cases site with
  | type _ => rfl
  | module changed index =>
    rw [recomment, moduleAt?_modifyModule, if_neg]
    intro same
    obtain ⟨rfl, rfl⟩ := same
    exact other rfl
  | function changed index member =>
    rw [recomment, moduleAt?_modifyModule]
    split
    · rw [Option.map_map]
      rfl
    · rfl

theorem functionAt?_recomment {service : String} {position member : Nat}
    (other : .function service position member ≠ site) :
    (c.recomment comment site).functionAt? service position member =
      c.functionAt? service position member := by
  cases site with
  | type _ => rfl
  | module changed index =>
    rw [functionAt?, recomment, moduleAt?_modifyModule, functionAt?]
    split
    · rw [Option.bind_map]
      rfl
    · rfl
  | function changed index place =>
    rw [functionAt?, recomment, moduleAt?_modifyModule, functionAt?]
    split
    · next same =>
      obtain ⟨rfl, rfl⟩ := same
      have apart : place ≠ member := fun same => other (by rw [same])
      cases c.moduleAt? service position with
      | none => rfl
      | some m => exact List.getElem?_modify_ne _ _ apart
    · rfl

theorem annotationsAt?_recomment (settings : Settings) {other : Site} (apart : other ≠ site) :
    ((c.recomment comment site).pass settings).compilation.annotationsAt? other =
      (c.pass settings).compilation.annotationsAt? other := by
  cases other with
  | type place =>
    rw [annotationsAt?, (c.alike_recomment comment site).nodes_pass settings
      (c.nodes_recomment comment apart), annotationsAt?]
  | module service position =>
    have same := congrArg (Option.map (fun found : Finding => some found.annotations))
      (c.findings_recomment comment apart)
    simp only [annotationsAt?, moduleAt?_pass, Option.map_map] at same ⊢
    exact same
  | function service position member =>
    simp only [annotationsAt?, functionAt?_pass, c.functionAt?_recomment comment apart]

end

section

variable (c : Compilation) (settings : Settings) (comment : String)

theorem warnings_recomment_type (place : Nat) :
    ((c.recomment comment (.type place)).pass settings).report.warnings.filter
        (fun w => !c.types.names place w.target) =
      (c.pass settings).report.warnings.filter (fun w => !c.types.names place w.target) := by
  rw [report_pass, report_pass]
  simp only [List.filter_append]
  have types := c.types.warnings_recomment comment place
  exact congrArg (_ ++ · ++ _) types

theorem exists_warnings_recomment_module (service : String) (position : Nat) :
    ∃ earlier later,
      (c.pass settings).report.warnings =
        earlier ++ (c.moduleAt? service position).toList.flatMap (·.finding.warnings) ++ later ∧
      ((c.recomment comment (.module service position)).pass settings).report.warnings =
        earlier ++
          ((c.moduleAt? service position).map (·.recomment comment)).toList.flatMap
            (·.finding.warnings) ++ later := by
  obtain ⟨before, after, parts, changed⟩ := c.exists_modules_modifyModule service position
  have modules : (c.recomment comment (.module service position)).modules = _ :=
    changed (·.recomment comment)
  refine ⟨before.flatMap (·.finding.warnings),
    after.flatMap (·.finding.warnings) ++
      (c.types.findings c.types.named).flatMap (·.warnings) ++
      c.functions.flatMap (·.finding.warnings), ?_, ?_⟩
  · rw [report_pass, parts]
    simp only [List.flatMap_append, List.append_assoc]
  · rw [report_pass, modules, c.functions_recomment_module comment service position]
    simp only [List.flatMap_append, List.append_assoc]
    rfl

theorem exists_warnings_recomment_function (service : String) (position member : Nat) :
    ∃ earlier later,
      (c.pass settings).report.warnings =
        earlier ++ (c.functionAt? service position member).toList.flatMap (·.finding.warnings) ++
          later ∧
      ((c.recomment comment (.function service position member)).pass settings).report.warnings =
        earlier ++
          ((c.functionAt? service position member).map (·.recomment comment)).toList.flatMap
            (·.finding.warnings) ++ later := by
  obtain ⟨before, after, parts, changed⟩ :=
    c.exists_functions_recomment comment service position member
  have modules : (c.recomment comment (.function service position member)).modules.flatMap
      (·.finding.warnings) = c.modules.flatMap (·.finding.warnings) :=
    c.flatMap_modifyModule service position _ (fun _ => rfl)
  refine ⟨c.modules.flatMap (·.finding.warnings) ++
      (c.types.findings c.types.named).flatMap (·.warnings) ++
      before.flatMap (·.finding.warnings), after.flatMap (·.finding.warnings), ?_, ?_⟩
  · rw [report_pass, parts]
    simp only [List.flatMap_append, List.append_assoc]
  · rw [report_pass, modules, changed]
    simp only [List.flatMap_append, List.append_assoc]
    rfl

/-- If the comment at one site changes, a pass leaves every other site with the annotations that it
had and counts as many declarations. Of the warnings, only those about that comment change: for a type,
those about the names that the table has for it, and for a module or a function, those that its own
comment leads to. -/
theorem pass_recomment_local (site : Site) :
    let first := c.pass settings
    let second := (c.recomment comment site).pass settings
    (∀ other, other ≠ site →
        second.compilation.annotationsAt? other = first.compilation.annotationsAt? other) ∧
      second.report.modules = first.report.modules ∧
      second.report.types = first.report.types ∧
      second.report.functions = first.report.functions ∧
      match site with
      | .type place =>
        second.report.warnings.filter (fun w => !c.types.names place w.target) =
          first.report.warnings.filter (fun w => !c.types.names place w.target)
      | .module service position =>
        ∃ earlier later,
          first.report.warnings =
            earlier ++ (c.moduleAt? service position).toList.flatMap (·.finding.warnings) ++ later ∧
          second.report.warnings =
            earlier ++
              ((c.moduleAt? service position).map (·.recomment comment)).toList.flatMap
                (·.finding.warnings) ++ later
      | .function service position member =>
        ∃ earlier later,
          first.report.warnings =
            earlier ++ (c.functionAt? service position member).toList.flatMap (·.finding.warnings) ++
              later ∧
          second.report.warnings =
            earlier ++
              ((c.functionAt? service position member).map (·.recomment comment)).toList.flatMap
                (·.finding.warnings) ++ later := by
  intro first second
  obtain ⟨modules, types, functions⟩ := (c.alike_recomment comment site).counts settings
  refine ⟨fun other apart => c.annotationsAt?_recomment comment settings apart, modules, types,
    functions, ?_⟩
  cases site with
  | type place => exact c.warnings_recomment_type settings comment place
  | module service position =>
    exact c.exists_warnings_recomment_module settings comment service position
  | function service position member =>
    exact c.exists_warnings_recomment_function settings comment service position member

end

end Compilation

end IdlDirectives
