import IdlDirectives.Json.Record
import IdlDirectives.Proofs.Json.Values
import IdlDirectives.Proofs.NameMap

namespace IdlDirectives.Json

variable {α β : Type}

/-- A reading that comes to one value under a condition, and to none otherwise. -/
structure Reads (read : Option α) (admitted : Prop) (x : α) : Prop where
  found : admitted → read = some x
  missing : ¬ admitted → read = none

namespace Reads

variable {read : Option α} {admitted admitted' : Prop} {x : α}

theorem of_eq (h : read = some x) : Reads read True x :=
  ⟨fun _ => h, fun no => absurd trivial no⟩

theorem pure : Reads (Pure.pure x) True x := of_eq rfl

theorem nothing (never : ¬ admitted) : Reads none admitted x :=
  ⟨fun yes => absurd yes never, fun _ => rfl⟩

theorem congr (h : Reads read admitted x) (same : admitted ↔ admitted') : Reads read admitted' x :=
  ⟨fun yes => h.found (same.mpr yes), fun no => h.missing (fun yes => no (same.mp yes))⟩

theorem guarded {stop : Bool} (goes : stop = false ↔ admitted') (h : Reads read admitted x) :
    Reads (if stop then none else read) (admitted' ∧ admitted) x where
  found both := by rw [goes.mpr both.1, if_neg Bool.false_ne_true, h.found both.2]
  missing no := by
    cases stop with
    | false => rw [if_neg Bool.false_ne_true, h.missing (fun yes => no ⟨goes.mp rfl, yes⟩)]
    | true => rfl

theorem map (h : Reads read admitted x) (f : α → β) : Reads (read.map f) admitted (f x) :=
  ⟨fun yes => by rw [h.found yes, Option.map_some], fun no => by rw [h.missing no, Option.map_none]⟩

theorem bind {next : α → Option β} {y : β} (h : Reads read admitted x)
    (h' : Reads (next x) admitted' y) : Reads (read.bind next) (admitted ∧ admitted') y where
  found := by
    rintro ⟨first, second⟩
    rw [h.found first, Option.bind_some, h'.found second]
  missing := by
    intro no
    by_cases first : admitted
    · rw [h.found first, Option.bind_some, h'.missing (fun second => no ⟨first, second⟩)]
    · rw [h.missing first, Option.bind_none]

end Reads

/-- Values are written plainly, and read back exactly as far as a limit on nesting admits them. -/
structure Codec (encode : α → Json) (decode : Json → Option α) : Prop where
  plain : ∀ x, (encode x).Plain
  reads : ∀ x limit, Reads (decode ((encode x).heldTo limit)) ((encode x).depth ≤ limit) x

namespace Codec

theorem text : Codec .text asText? where
  plain := .text
  reads value limit := by
    rw [heldTo_text]
    exact Reads.pure.congr (by simp [depth])

theorem bool : Codec .bool asBool? where
  plain := .bool
  reads value limit := by
    rw [heldTo_bool]
    exact Reads.pure.congr (by simp [depth])

variable {encode : α → Json} {decode : Json → Option α}

theorem mapM (codec : Codec encode decode) (limit : Nat) (xs : List α) :
    Reads ((itemsHeldTo limit (xs.map encode)).mapM decode)
      (depthOfItems (xs.map encode) ≤ limit) xs := by
  induction xs with
  | nil => exact Reads.pure.congr (by simp [depthOfItems])
  | cons x xs ih =>
    simp only [List.map_cons, itemsHeldTo, List.mapM_cons]
    refine ((codec.reads x limit).bind (ih.bind (y := x :: xs) .pure)).congr ?_
    rw [depthOfItems, Nat.max_le, and_true]

theorem list (codec : Codec encode decode) :
    Codec (fun xs => .array (xs.map encode)) (asList? decode) where
  plain xs := by
    refine .array (fun item there => ?_)
    obtain ⟨x, -, rfl⟩ := List.mem_map.mp there
    exact codec.plain x
  reads xs limit := by
    cases limit with
    | zero => exact .nothing (by simp [depth])
    | succ limit => exact (codec.mapM limit xs).congr (by simp [depth])

theorem mapM_members (codec : Codec encode decode) (limit : Nat) (entries : List (String × α)) :
    Reads
      ((membersHeldTo limit (entries.map (fun entry => (entry.1, encode entry.2)))).mapM
        (fun member => (decode member.2).map (member.1, ·)))
      (depthOfMembers (entries.map (fun entry => (entry.1, encode entry.2))) ≤ limit) entries := by
  induction entries with
  | nil => exact Reads.pure.congr (by simp [depthOfMembers])
  | cons entry entries ih =>
    simp only [List.map_cons, membersHeldTo, List.mapM_cons]
    refine (((codec.reads entry.2 limit).map (entry.1, ·)).bind
      (ih.bind (y := entry :: entries) .pure)).congr ?_
    rw [depthOfMembers, Nat.max_le, and_true]

theorem map (codec : Codec encode decode) : Codec (ofMap encode) (asMap? decode) where
  plain m := by
    refine .object (fun member there => ?_)
    obtain ⟨entry, -, rfl⟩ := List.mem_map.mp there
    exact codec.plain entry.2
  reads m limit := by
    cases limit with
    | zero => exact .nothing (by simp [ofMap, depth])
    | succ limit =>
      have entries := ((codec.mapM_members limit m.entries).map NameMap.ofList).congr
        (by simp [ofMap, depth] : _ ↔ (ofMap encode m).depth ≤ limit + 1)
      rwa [NameMap.ofList_entries] at entries

end Codec

theorem lookup_membersHeldTo (limit : Nat) (members : List (String × Json)) (name : String) :
    (membersHeldTo limit members).lookup name = (members.lookup name).map (·.heldTo limit) := by
  induction members with
  | nil => rfl
  | cons member rest ih =>
    rw [membersHeldTo, NameMap.lookup_eq_ite, NameMap.lookup_eq_ite, ih]
    split <;> rfl

theorem names_membersHeldTo (limit : Nat) (members : List (String × Json)) :
    (membersHeldTo limit members).map Prod.fst = members.map Prod.fst := by
  simp [membersHeldTo_eq, Function.comp_def]

theorem recordOfMembers?_of_nodup (names : List String) {members : List (String × Json)}
    (distinct : (members.map Prod.fst).Nodup) : recordOfMembers? names members = some members := by
  have once : ∀ name ∈ names, (members.map Prod.fst).count name ≤ 1 :=
    fun name _ => List.nodup_iff_count.mp distinct name
  exact if_pos (by simpa using once)

@[simp]
theorem lookup_optionalMember (name other : String) (encode : α → Json) (value : Option α) :
    (optionalMember name encode value).lookup other =
      if other = name then value.map encode else none := by
  cases value with
  | none => simp [optionalMember]
  | some x => simp [optionalMember, NameMap.lookup_eq_ite]

theorem lookup_append_optionalMember {members : List (String × Json)} {name : String}
    (new : members.lookup name = none) (encode : α → Json) (value : Option α) :
    (members ++ optionalMember name encode value).lookup name = value.map encode := by
  rw [List.lookup_append, new, Option.none_or, lookup_optionalMember, if_pos rfl]

theorem forall_mem_optionalMember {name : String} {encode : α → Json} {value : Option α}
    {p : String × Json → Prop} :
    (∀ member ∈ optionalMember name encode value, p member) ↔ ∀ x ∈ value, p (name, encode x) := by
  cases value <;> simp [optionalMember]

theorem names_optionalMember (name : String) (encode : α → Json) (value : Option α) :
    ((optionalMember name encode value).map Prod.fst).Sublist [name] := by
  cases value <;> simp [optionalMember]

namespace Codec

variable {encode : α → Json} {decode : Json → Option α} {limit : Nat}
  {members : List (String × Json)} {name : String}

theorem required (codec : Codec encode decode) {x : α} (here : members.lookup name = some (encode x)) :
    Reads (Record.required? (membersHeldTo limit members) name decode) ((encode x).depth ≤ limit) x := by
  rw [Record.required?, lookup_membersHeldTo, here]
  exact codec.reads x limit

theorem given (codec : Codec encode decode) {x : α} (standard : α)
    (here : members.lookup name = some (encode x)) :
    Reads (Record.withDefault? (membersHeldTo limit members) name decode standard)
      ((encode x).depth ≤ limit) x := by
  rw [Record.withDefault?, lookup_membersHeldTo, here]
  exact codec.reads x limit

theorem unlessStandard (codec : Codec encode decode) {x standard : α} {left : Bool}
    (same : left = true → x = standard)
    (here : members.lookup name = (if left then none else some x).map encode) :
    Reads (Record.withDefault? (membersHeldTo limit members) name decode standard)
      (∀ y ∈ if left then none else some x, (encode y).depth ≤ limit) x := by
  cases left with
  | false => exact (codec.given standard here).congr (by simp)
  | true =>
    rw [Record.withDefault?, lookup_membersHeldTo, here, same rfl]
    exact Reads.pure.congr (by simp)

theorem heldTo_ne_null (codec : Codec encode decode) (null : decode .null = none) (x : α) :
    (encode x).heldTo limit ≠ .null := by
  intro same
  have within : (encode x).depth ≤ limit := (codec.plain x).isReadable_heldTo.mp (by rw [same]; rfl)
  have read : decode ((encode x).heldTo limit) = some x := (codec.reads x limit).found within
  rw [same, null] at read
  cases read

theorem optional (codec : Codec encode decode) (null : decode .null = none) {value : Option α}
    (here : members.lookup name = value.map encode) :
    Reads (Record.optional? (membersHeldTo limit members) name decode)
      (∀ x ∈ value, (encode x).depth ≤ limit) value := by
  have found := lookup_membersHeldTo limit members name
  rw [here] at found
  unfold Record.optional?
  cases value with
  | none =>
    rw [found]
    exact Reads.pure.congr (by simp)
  | some x =>
    have solid : (encode x).heldTo limit ≠ .null := codec.heldTo_ne_null null x
    rw [found]
    split
    · next absent => cases absent
    · next same => exact absurd (Option.some.inj same) solid
    · next same =>
      obtain rfl := Option.some.inj same
      exact ((codec.reads x limit).map some).congr (by simp)

end Codec

theorem Codec.record {written : α → List (String × Json)} {decode : Record → Option α}
    {names : List String} (distinct : names.Nodup)
    (fields : ∀ x, ((written x).map Prod.fst).Sublist names)
    (plain : ∀ x, ∀ member ∈ written x, member.2.Plain)
    (reads : ∀ x limit, Reads (decode (membersHeldTo limit (written x)))
      (∀ member ∈ written x, member.2.depth ≤ limit) x) :
    Codec (fun x => .object (written x)) (fun v => (v.record? names).bind decode) where
  plain x := .object (plain x)
  reads x limit := by
    cases limit with
    | zero => exact .nothing (by simp [depth])
    | succ limit =>
      have found : record? names (.object (membersHeldTo limit (written x))) = some _ :=
        recordOfMembers?_of_nodup names (by rw [names_membersHeldTo]; exact (fields x).nodup distinct)
      rw [heldTo, found, Option.bind_some]
      exact (reads x limit).congr (by rw [depth, Nat.add_le_add_iff_right, depthOfMembers_le])

theorem Codec.parse?_render {encode : α → Json} {decode : Json → Option α} (codec : Codec encode decode)
    {layout : Layout} (blank : layout.Blank) (x : α) {after : String}
    (trailing : ∀ c ∈ after.toList, isSpace c = true) :
    Reads ((parse? ((encode x).render layout ++ after)).bind decode) ((encode x).depth ≤ nestingLimit) x := by
  rw [Json.parse?_render blank (codec.plain x) trailing, Option.bind_some]
  exact codec.reads x nestingLimit

/-- In both layouts values are read from their texts as they were, unless the text is nested more deeply
than is admitted. -/
structure ReadsBack (encode : α → Json) (decode : Json → Option α) : Prop where
  compact : ∀ x, (parse? ((encode x).render .compact)).bind decode =
    if (encode x).depth ≤ nestingLimit then some x else none
  pretty : ∀ x, (parse? ((encode x).render .pretty)).bind decode =
    if (encode x).depth ≤ nestingLimit then some x else none

theorem Codec.readsBack {encode : α → Json} {decode : Json → Option α} (codec : Codec encode decode) :
    ReadsBack encode decode := by
  have both {layout : Layout} (blank : layout.Blank) (x : α) :
      (parse? ((encode x).render layout)).bind decode =
        if (encode x).depth ≤ nestingLimit then some x else none := by
    have read : Reads ((parse? ((encode x).render layout ++ "")).bind decode) _ x :=
      codec.parse?_render blank x (by simp)
    rw [String.append_empty] at read
    split
    · next within => exact read.found within
    · next beyond => exact read.missing beyond
  exact ⟨both Layout.compact_blank, both Layout.pretty_blank⟩

end IdlDirectives.Json
