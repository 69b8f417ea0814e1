import IdlDirectives.Format.Types
import IdlDirectives.Proofs.Format.Annotations

namespace IdlDirectives

open Json (Codec Reads membersHeldTo)

theorem TypeId.codec : Codec toJson ofJson? where
  plain id := .integer (Nat.lt_trans id.number.toNat_lt (by decide))
  reads id limit := by
    have fits : id.number.toNat < UInt32.size := id.number.toNat_lt
    have read : ofJson? (.integer (.ofNat id.number.toNat)) = some id := by
      rw [ofJson?, if_pos fits, Nat.toUInt32_eq, UInt32.ofNat_toNat]
    rw [toJson, Json.heldTo_integer, read]
    exact Reads.pure.congr (by simp [Json.depth])

theorem Field.codec : Codec toJson ofJson? :=
  .record (by decide : ["name", "type"].Nodup)
    (fun _ => .refl _)
    (fun f => by
      simp only [List.forall_mem_cons]
      exact ⟨.text f.name, TypeId.codec.plain f.type, by simp⟩)
    (fun f limit => .congr
      (.bind (Codec.text.required rfl) <|
        .bind (TypeId.codec.required rfl) .pure)
      (by simp))

theorem ScalarKind.ofPart_codec : Codec toJson ofPart? where
  plain kind := .text kind.name
  reads kind limit := by
    have read : ofPart? (.text kind.name) = some kind := by cases kind <;> rfl
    rw [toJson, Json.heldTo_text, read]
    exact Reads.pure.congr (by simp [Json.depth])

namespace Shape

theorem kindOfJson?_kind (shape : Shape) : kindOfJson? (.text shape.kind) = some shape.kind := by
  rcases shape with (_ | _ | _ | _ | _ | _) | _ <;> rfl

theorem names_nodup (shape : Shape) :
    ("kind" :: shape.toMembers.map Prod.fst ++ ["annotations"]).Nodup := by
  rcases shape with (_ | _ | _ | _ | _ | _) | _ <;> simp [toMembers]

theorem name_ne_annotations (shape : Shape) :
    ∀ member ∈ ("kind", .text shape.kind) :: shape.toMembers, member.1 ≠ "annotations" := by
  rcases shape with (_ | _ | _ | _ | _ | _) | _ <;> simp [toMembers]

theorem toMembers_plain (shape : Shape) : ∀ member ∈ shape.toMembers, member.2.Plain := by
  rcases shape with (kind | fields | element | ⟨key, value⟩ | elements | _) | definition <;>
    simp only [toMembers, List.forall_mem_cons, List.not_mem_nil, false_implies, implies_true, and_true]
  · exact ScalarKind.ofPart_codec.plain kind
  · exact Field.codec.list.plain fields
  · exact TypeId.codec.plain element
  · exact ⟨TypeId.codec.plain key, TypeId.codec.plain value⟩
  · exact TypeId.codec.list.plain elements
  · exact ⟨.text definition.module, .text definition.name, .text definition.comment,
      TypeId.codec.plain definition.target⟩

theorem reads_ofMembers? (shape : Shape) (limit : Nat) :
    Reads (ofMembers? shape.kind (membersHeldTo limit (("kind", .text shape.kind) :: shape.toMembers)))
      (∀ member ∈ shape.toMembers, member.2.depth ≤ limit) shape := by
  have parts (names : List String) : Reads
      (Json.recordOfMembers? names (membersHeldTo limit (("kind", .text shape.kind) :: shape.toMembers)))
      True (membersHeldTo limit (("kind", .text shape.kind) :: shape.toMembers)) := by
    refine .of_eq (Json.recordOfMembers?_of_nodup names ?_)
    rw [Json.names_membersHeldTo]
    exact (List.sublist_append_left _ _).nodup shape.names_nodup
  rcases shape with (kind | fields | element | ⟨key, value⟩ | elements | _) | definition <;>
    simp only [ofMembers?, Shape.kind]
  · exact .congr (.bind (parts _) (.bind (ScalarKind.ofPart_codec.required rfl) .pure)) (by simp [toMembers])
  · exact .congr (.bind (parts _) (.bind (Field.codec.list.required rfl) .pure)) (by simp [toMembers])
  · exact .congr (.bind (parts _) (.bind (TypeId.codec.required rfl) .pure)) (by simp [toMembers])
  · exact .congr (.bind (parts _) (.bind (TypeId.codec.required rfl)
      (.bind (TypeId.codec.required rfl) .pure))) (by simp [toMembers])
  · exact .congr (.bind (parts _) (.bind (TypeId.codec.list.required rfl) .pure)) (by simp [toMembers])
  · exact .congr .pure (by simp [toMembers])
  · exact .congr (.bind (parts _) (.bind (Codec.text.required rfl) <| .bind (Codec.text.required rfl) <|
      .bind (Codec.text.given "" rfl) <| .bind (TypeId.codec.required rfl) .pure)) (by simp [toMembers])

end Shape

namespace Node

theorem typeMembers_held (limit : Nat) (members : List (String × Json)) :
    typeMembers (membersHeldTo limit members) = membersHeldTo limit (typeMembers members) := by
  simp only [typeMembers, Json.membersHeldTo_eq, List.filter_map, Function.comp_def]

theorem haveReadable_held (members : List (String × Json)) (plain : ∀ member ∈ members, member.2.Plain)
    (limit : Nat) : Json.haveReadable (membersHeldTo limit members) = true ↔
      ∀ member ∈ members, member.2.depth ≤ limit := by
  simp only [Json.haveReadable_eq_all, Json.membersHeldTo_eq, List.all_map, List.all_eq_true,
    Function.comp_apply]
  exact forall₂_congr (fun member there => (plain member there).isReadable_heldTo)

def written (n : Node) : List (String × Json) :=
  ("kind", .text n.shape.kind) :: n.shape.toMembers ++
    Json.optionalMember "annotations" AnnotationSet.toJson n.annotations

theorem toJson_eq (n : Node) : n.toJson = .object n.written := rfl

theorem typeMembers_written (n : Node) :
    typeMembers n.written = ("kind", .text n.shape.kind) :: n.shape.toMembers := by
  have annotations :
      typeMembers (Json.optionalMember "annotations" AnnotationSet.toJson n.annotations) = [] := by
    cases n.annotations <;> simp [typeMembers, Json.optionalMember]
  have type : typeMembers (("kind", .text n.shape.kind) :: n.shape.toMembers) =
      ("kind", .text n.shape.kind) :: n.shape.toMembers :=
    List.filter_eq_self.mpr (by simpa using n.shape.name_ne_annotations)
  rw [written, typeMembers, List.filter_append, ← typeMembers, ← typeMembers, annotations, type,
    List.append_nil]

theorem lookup_annotations (n : Node) :
    n.written.lookup "annotations" = n.annotations.map AnnotationSet.toJson :=
  Json.lookup_append_optionalMember
    (List.lookup_eq_none_iff.mpr
      (fun member there => bne_iff_ne.mpr (n.shape.name_ne_annotations member there).symm)) ..

theorem names_written_nodup (n : Node) : (n.written.map Prod.fst).Nodup := by
  rw [written, List.map_append]
  exact ((List.Sublist.refl _).append (Json.names_optionalMember ..)).nodup n.shape.names_nodup

theorem codec : Codec toJson ofJson? where
  plain n := by
    refine .object ?_
    rw [List.forall_mem_append, List.forall_mem_cons, Json.forall_mem_optionalMember]
    exact ⟨⟨.text n.shape.kind, n.shape.toMembers_plain⟩, fun s _ => AnnotationSet.codec.plain s⟩
  reads n limit := by
    cases limit with
    | zero => exact .nothing (by simp [toJson, Json.depth])
    | succ limit =>
      have record : Json.recordOfMembers? ["kind", "annotations"] (membersHeldTo limit n.written) = _ :=
        Json.recordOfMembers?_of_nodup _ (by rw [Json.names_membersHeldTo]; exact n.names_written_nodup)
      have readable := haveReadable_held (("kind", .text n.shape.kind) :: n.shape.toMembers)
        (List.forall_mem_cons.mpr ⟨.text n.shape.kind, n.shape.toMembers_plain⟩) limit
      have kind : Json.Record.required? (membersHeldTo limit n.written) "kind" Shape.kindOfJson? =
          some n.shape.kind := by
        rw [Json.Record.required?, Json.lookup_membersHeldTo, written, List.cons_append,
          NameMap.lookup_eq_ite, if_pos rfl, Option.map_some, Json.heldTo_text]
        exact n.shape.kindOfJson?_kind
      have type := n.shape.reads_ofMembers? limit
      rw [← n.typeMembers_written, ← typeMembers_held] at readable type
      have annotations : Reads (Json.Record.optional? (membersHeldTo limit n.written) _ _) _ _ :=
        AnnotationSet.codec.optional rfl n.lookup_annotations
      rw [toJson_eq, Json.heldTo, ofJson?]
      refine .congr (.guarded (Iff.trans (by rw [Bool.not_eq_false']) readable) <|
        .bind (.of_eq record) <| .bind (.of_eq kind) <| .bind type <| .bind annotations .pure) ?_
      rw [Json.depth, Nat.add_le_add_iff_right, Json.depthOfMembers_le, typeMembers_written, written,
        List.forall_mem_append, Json.forall_mem_optionalMember, List.forall_mem_cons]
      simp only [true_and, and_true, Json.depth, Nat.zero_le, and_self_left]

end Node

theorem TypeGraph.codec : Codec toJson ofJson? :=
  .record (by decide : ["nodes", "table"].Nodup)
    (fun _ => .refl _)
    (fun g => by
      simp only [List.forall_mem_cons]
      exact ⟨Node.codec.list.plain g.nodes.toList, TypeId.codec.map.map.plain g.table, by simp⟩)
    (fun g limit => .congr
      (.bind (Node.codec.list.required rfl) <|
        .bind (TypeId.codec.map.map.given ∅ rfl) .pure)
      (by simp))

end IdlDirectives
