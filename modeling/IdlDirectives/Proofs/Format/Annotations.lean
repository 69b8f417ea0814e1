import IdlDirectives.Format.Annotations
import IdlDirectives.Proofs.Format.Codec
import IdlDirectives.Proofs.Selection.Nodes

namespace IdlDirectives

open Json (Codec Reads membersHeldTo depthOfMembers)

namespace Branches

theorem toMembers_plain (t : Branches) : ∀ member ∈ t.toMembers, member.2.Plain := by
  induction t with
  | none => simp [toMembers]
  | branch selector below others inner outer =>
    rw [toMembers, List.forall_mem_cons]
    exact ⟨.object inner, outer⟩

theorem adjust_new {selector : String} {t : Branches} (new : t.child? selector = .none)
    (f : Branches → Branches) : t.adjust selector f = t.adjust selector (fun _ => f .none) := by
  induction t with
  | none => rfl
  | branch first below others _ ih =>
    simp only [child?] at new
    split at new
    · cases new
    · next other => simp only [adjust, ih new, Ne.symm other, if_false]

end Branches

namespace Selection

/-- Reading what is written of a selection merges it into one that has none of its selectors. -/
theorem ofMembers?_toMembers {t : Branches} (ordered : t.Ordered) {s : Selection}
    (new : ∀ name ∈ t.selectors, s.branches.child? name = none) (limit : Nat) :
    Reads (ofMembers? s (membersHeldTo limit t.toMembers)) (depthOfMembers t.toMembers ≤ limit)
      (s.merge ⟨t, ordered⟩) := by
  induction t generalizing s limit with
  | none => exact Reads.pure.congr (by simp [Branches.toMembers, depthOfMembers])
  | branch selector below others inner outer =>
    obtain ⟨bound, orderedBelow, orderedOthers⟩ := ordered
    have read : Reads (ofJson? ((Json.object below.toMembers).heldTo limit))
        ((Json.object below.toMembers).depth ≤ limit) ⟨below, orderedBelow⟩ := by
      cases limit with
      | zero => exact .nothing (by simp [Json.depth])
      | succ limit =>
        -- the object of a selector is read into a selection of its own
        have members := inner orderedBelow (s := whole) (fun _ _ => rfl) limit
        rw [whole_merge] at members
        exact members.congr (by rw [Json.depth, Nat.add_le_add_iff_right])
    have merged : (s.replace selector ⟨below, orderedBelow⟩).merge ⟨others, orderedOthers⟩ =
        s.merge ⟨.branch selector below others, ⟨bound, orderedBelow, orderedOthers⟩⟩ := by
      have here : s.branches.child? selector = none := new selector List.mem_cons_self
      have alone : Branches.none.merge below = below :=
        congrArg Selection.branches (whole_merge ⟨below, orderedBelow⟩)
      simp only [merge, replace, Branches.merge, Branches.adjust_new here (·.merge below), alone]
    have rest : Reads
        (ofMembers? (s.replace selector ⟨below, orderedBelow⟩) (membersHeldTo limit others.toMembers))
        (depthOfMembers others.toMembers ≤ limit)
        ((s.replace selector ⟨below, orderedBelow⟩).merge ⟨others, orderedOthers⟩) := by
      refine outer orderedOthers (fun name later => ?_) limit
      have other : name ≠ selector := fun same => String.ne_of_lt (bound name later) same.symm
      rw [replace, Branches.child?_adjust s.ordered, if_neg other]
      exact new name (List.mem_cons_of_mem _ later)
    rw [merged] at rest
    simp only [Branches.toMembers, membersHeldTo, ofMembers?]
    exact (read.bind rest).congr (by rw [depthOfMembers, Nat.max_le])

theorem codec : Codec toJson ofJson? where
  plain s := .object s.branches.toMembers_plain
  reads s limit := by
    cases limit with
    | zero => exact .nothing (by simp [toJson, Json.depth])
    | succ limit =>
      have members := ofMembers?_toMembers s.ordered (s := whole) (fun _ _ => rfl) limit
      have same : whole.merge ⟨s.branches, s.ordered⟩ = s := whole_merge s
      rw [same] at members
      exact members.congr (by rw [toJson, Json.depth, Nat.add_le_add_iff_right])

end Selection

theorem Identifier.codec : Codec toJson ofJson? :=
  .record (by decide : ["type", "attributes"].Nodup)
    (fun _ => .refl _)
    (fun i => by
      simp only [List.forall_mem_cons]
      exact ⟨.text i.type, Codec.text.list.plain i.attributes, by simp⟩)
    (fun i limit => .congr
      (.bind (Codec.text.required rfl) <|
        .bind (Codec.text.list.given [] rfl) .pure)
      (by simp))

theorem Bounds.codec : Codec toJson ofJson? :=
  .record (by decide : ["minimum", "exclusiveMinimum", "maximum", "exclusiveMaximum"].Nodup)
    (fun b => by
      simp only [List.map_append]
      exact (((Json.names_optionalMember ..).append (Json.names_optionalMember ..)).append
        (Json.names_optionalMember ..)).append (Json.names_optionalMember ..))
    (fun b => by
      simp only [List.forall_mem_append, Json.forall_mem_optionalMember]
      exact ⟨⟨⟨fun x _ => .text x, fun x _ => .bool x⟩, fun x _ => .text x⟩, fun x _ => .bool x⟩)
    (fun b limit => .congr
      (.bind (Codec.text.optional rfl (by simp [List.lookup_append])) <|
        .bind (Codec.bool.optional rfl (by simp [List.lookup_append])) <|
        .bind (Codec.text.optional rfl (by simp [List.lookup_append])) <|
        .bind (Codec.bool.optional rfl (by simp [List.lookup_append])) .pure)
      (by simp only [List.forall_mem_append, Json.forall_mem_optionalMember, and_assoc, and_true]))

theorem Searchable.codec : Codec toJson ofJson? :=
  .record (by decide : ["fields", "keys"].Nodup)
    (fun _ => .refl _)
    (fun s => by
      simp only [List.forall_mem_cons]
      exact ⟨Selection.codec.plain s.fields, Selection.codec.plain s.keys, by simp⟩)
    (fun s limit => .congr
      (.bind (Selection.codec.given .whole rfl) <|
        .bind (Selection.codec.given .whole rfl) .pure)
      (by simp))

namespace AnnotationSet

theorem metadata_codec : Codec metadataToJson metadataOfJson? :=
  .record (by decide : ["ws"].Nodup)
    (fun _ => .refl _)
    (fun m => by
      simp only [List.forall_mem_cons]
      exact ⟨Codec.text.map.plain m, by simp⟩)
    (fun m limit => .congr (Codec.text.map.given ∅ rfl) (by simp))

theorem codec : Codec toJson ofJson? :=
  .record
    (by decide : ["optional", "deprecated", "id", "range", "searchable_ws_subset", "metadata",
      "unknown"].Nodup)
    (fun s => by
      simp only [List.map_append]
      exact ((((((Json.names_optionalMember ..).append (Json.names_optionalMember ..)).append
        (Json.names_optionalMember ..)).append (Json.names_optionalMember ..)).append
        (Json.names_optionalMember ..)).append (Json.names_optionalMember ..)).append
        (Json.names_optionalMember ..))
    (fun s => by
      simp only [List.forall_mem_append, Json.forall_mem_optionalMember]
      exact ⟨⟨⟨⟨⟨⟨fun x _ => Codec.text.list.plain x, fun x _ => Codec.text.list.plain x⟩,
        fun x _ => Identifier.codec.plain x⟩, fun x _ => Bounds.codec.plain x⟩,
        fun x _ => Searchable.codec.plain x⟩, fun x _ => metadata_codec.plain x⟩,
        fun x _ => Codec.text.list.map.plain x⟩)
    (fun s limit => .congr
      (.bind (Codec.text.list.unlessStandard List.isEmpty_iff.mp (by simp [List.lookup_append])) <|
        .bind (Codec.text.list.optional rfl (by simp [List.lookup_append])) <|
        .bind (Identifier.codec.optional rfl (by simp [List.lookup_append])) <|
        .bind (Bounds.codec.optional rfl (by simp [List.lookup_append])) <|
        .bind (Searchable.codec.optional rfl (by simp [List.lookup_append])) <|
        .bind (metadata_codec.unlessStandard NameMap.eq_empty_of_isEmpty (by simp [List.lookup_append])) <|
        .bind (Codec.text.list.map.unlessStandard NameMap.eq_empty_of_isEmpty
          (by simp [List.lookup_append])) .pure)
      (by simp only [List.forall_mem_append, Json.forall_mem_optionalMember, and_assoc, and_true]))

end AnnotationSet

end IdlDirectives
