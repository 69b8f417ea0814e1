import IdlDirectives.Format.Compilation
import IdlDirectives.Proofs.Format.Types

namespace IdlDirectives

open Json (Codec ReadsBack)

theorem FunctionDecl.codec : Codec toJson ofJson? :=
  .record (by decide : ["module", "name", "comment", "parameters", "returns", "annotations"].Nodup)
    (fun f => by
      rw [List.map_append]
      exact (List.Sublist.refl _).append (Json.names_optionalMember ..))
    (fun f => by
      simp only [List.forall_mem_append, List.forall_mem_cons, Json.forall_mem_optionalMember]
      exact ⟨⟨.text f.module, .text f.name, .text f.comment, Field.codec.list.plain f.parameters,
        Field.codec.list.plain f.returns, by simp⟩, fun s _ => AnnotationSet.codec.plain s⟩)
    (fun f limit => .congr
      (.bind (Codec.text.required rfl) <|
        .bind (Codec.text.required rfl) <|
        .bind (Codec.text.given "" rfl) <|
        .bind (Field.codec.list.given [] rfl) <|
        .bind (Field.codec.list.given [] rfl) <|
        .bind (AnnotationSet.codec.optional rfl (Json.lookup_append_optionalMember rfl ..)) .pure)
      (by simp only [List.forall_mem_append, List.forall_mem_cons, Json.forall_mem_optionalMember,
        List.not_mem_nil, false_implies, implies_true, and_true, and_assoc]))

theorem ModuleDecl.codec : Codec toJson ofJson? :=
  .record (by decide : ["name", "comment", "components", "annotations"].Nodup)
    (fun m => by
      rw [List.map_append]
      exact (List.Sublist.refl _).append (Json.names_optionalMember ..))
    (fun m => by
      simp only [List.forall_mem_append, List.forall_mem_cons, Json.forall_mem_optionalMember]
      exact ⟨⟨.text m.name, .text m.comment, FunctionDecl.codec.list.plain m.functions, by simp⟩,
        fun s _ => AnnotationSet.codec.plain s⟩)
    (fun m limit => .congr
      (.bind (Codec.text.required rfl) <|
        .bind (Codec.text.given "" rfl) <|
        .bind (FunctionDecl.codec.list.given [] rfl) <|
        .bind (AnnotationSet.codec.optional rfl (Json.lookup_append_optionalMember rfl ..)) .pure)
      (by simp only [List.forall_mem_append, List.forall_mem_cons, Json.forall_mem_optionalMember,
        List.not_mem_nil, false_implies, implies_true, and_true, and_assoc]))

theorem CompiledModule.codec : Codec toJson ofJson? :=
  .record (by decide : ["module", "includes", "source"].Nodup)
    (fun m => by
      rw [List.map_append]
      exact (List.Sublist.refl _).append (Json.names_optionalMember ..))
    (fun m => by
      simp only [List.forall_mem_append, List.forall_mem_cons, Json.forall_mem_optionalMember]
      exact ⟨⟨ModuleDecl.codec.plain m.module, Codec.text.list.plain m.includes, by simp⟩,
        fun source _ => .text source⟩)
    (fun m limit => .congr
      (.bind (ModuleDecl.codec.required rfl) <|
        .bind (Codec.text.list.given [] rfl) <|
        .bind (Codec.text.optional rfl (Json.lookup_append_optionalMember rfl ..)) .pure)
      (by simp only [List.forall_mem_append, List.forall_mem_cons, Json.forall_mem_optionalMember,
        List.not_mem_nil, false_implies, implies_true, and_true, and_assoc]))

theorem Compilation.codec : Codec toJson ofJson? :=
  .record (by decide : ["types", "services"].Nodup)
    (fun _ => .refl _)
    (fun c => by
      simp only [List.forall_mem_cons]
      exact ⟨TypeGraph.codec.plain c.types, CompiledModule.codec.list.map.plain c.services, by simp⟩)
    (fun c limit => .congr
      (.bind (TypeGraph.codec.required rfl) <|
        .bind (CompiledModule.codec.list.map.given ∅ rfl) .pure)
      (by simp))

theorem Settings.codec : Codec toJson ofJson? :=
  .record (by decide : ["ignoreWarnings"].Nodup)
    (fun _ => .refl _)
    (fun s => by
      simp only [List.forall_mem_cons]
      exact ⟨.bool s.ignoreWarnings, by simp⟩)
    (fun s limit => .congr (.bind (Codec.bool.given false rfl) .pure) (by simp))

theorem formats_read_back :
    ReadsBack Compilation.toJson Compilation.ofJson? ∧
      ReadsBack CompiledModule.toJson CompiledModule.ofJson? ∧
      ReadsBack ModuleDecl.toJson ModuleDecl.ofJson? ∧
      ReadsBack FunctionDecl.toJson FunctionDecl.ofJson? ∧
      ReadsBack Field.toJson Field.ofJson? ∧
      ReadsBack TypeGraph.toJson TypeGraph.ofJson? ∧
      ReadsBack Node.toJson Node.ofJson? ∧
      ReadsBack AnnotationSet.toJson AnnotationSet.ofJson? ∧
      ReadsBack Selection.toJson Selection.ofJson? ∧
      ReadsBack Settings.toJson Settings.ofJson? :=
  ⟨Compilation.codec.readsBack, CompiledModule.codec.readsBack, ModuleDecl.codec.readsBack,
    FunctionDecl.codec.readsBack, Field.codec.readsBack, TypeGraph.codec.readsBack,
    Node.codec.readsBack, AnnotationSet.codec.readsBack, Selection.codec.readsBack,
    Settings.codec.readsBack⟩

end IdlDirectives
