import RecordStore.Proofs.ObjectMaking
import RecordStore.Schema.Declaration

/-!
# Registered classes

In a schema that is declared class by class, and whose embedded fields are mapped to their own
types, every class that is registered has one primary key and objects that can be made member by
member.
-/

set_option autoImplicit false

namespace RecordStore

theorem mem_of_mapM_eq_ok {α β : Type} {f : α → Except Fault β} {as : List α} {bs : List β}
    (h : as.mapM f = .ok bs) : ∀ b ∈ bs, ∃ a ∈ as, f a = .ok b := by
  induction as generalizing bs with
  | nil =>
    cases h
    simp
  | cons a rest ih =>
    rw [List.mapM_cons] at h
    obtain ⟨b, hb, h⟩ := (bind_eq_ok_iff _ _ _).mp h
    obtain ⟨others, ho, h⟩ := (bind_eq_ok_iff _ _ _).mp h
    cases h
    refine List.forall_mem_cons.mpr ⟨⟨a, .head _, hb⟩, fun x hx => ?_⟩
    obtain ⟨y, hy, hyx⟩ := ih ho x hx
    exact ⟨y, .tail _ hy, hyx⟩

namespace Member

/-- A member whose embedded objects, at every depth, can be made part by part. -/
inductive IsRegular : Member → Prop
  | plain (t : Traits) : IsRegular (.plain t)
  | embedded {t : Traits} {parts : List Member}
      (made : t.declared.shape.IsMade t.declared.className?)
      (fits : t.declared.shape.Fits parts) (each : ∀ p ∈ parts, IsRegular p) :
      IsRegular (.embedded t parts)

/-- Whether the parts of embedded objects have names of their own, at every depth. -/
inductive IsDistinct : Member → Prop
  | plain (t : Traits) : IsDistinct (.plain t)
  | embedded {t : Traits} {parts : List Member} (names : (parts.map name).Nodup)
      (each : ∀ p ∈ parts, IsDistinct p) : IsDistinct (.embedded t parts)

theorem mem_distinct {ms : List Member} {m : Member} (h : m ∈ distinct ms) : m ∈ ms := by
  obtain ⟨e, he, rfl⟩ := List.mem_map.mp h
  obtain ⟨x, hx, rfl⟩ := List.mem_map.mp (mem_byName e he)
  exact hx

theorem nodup_distinct (ms : List Member) : ((distinct ms).map name).Nodup := by
  have names : (distinct ms).map name = (byName (ms.map fun m => (m.name, m))).map (·.1) := by
    rw [distinct, List.map_map]
    refine List.map_congr_left fun e he => ?_
    obtain ⟨m, -, rfl⟩ := List.mem_map.mp (mem_byName e he)
    rfl
  rw [names]
  exact nodup_byName _

end Member

namespace Shape

def Has (s : Shape) (ms : List Member) : Prop :=
  ∀ m ∈ ms, m.IsRegular ∧ m.name ∈ s.fields.map (·.1)

theorem Has.fits {s : Shape} {ms : List Member} (h : s.Has ms) : s.Fits (Member.distinct ms) := by
  refine ⟨Member.nodup_distinct ms, ?_⟩
  rintro rfl m hm
  have field := (h m (Member.mem_distinct hm)).2
  simp only [ofKey, List.map_cons, List.map_nil, List.mem_cons, List.not_mem_nil, or_false] at field
  rcases field with hf | hf | hf <;> rw [hf] <;> decide

end Shape

namespace Schema

/-- A schema in which the members of each class are fields of its objects and can be loaded. -/
def IsRegular (s : Schema) : Prop := ∀ c ∈ s.classes, ∀ ms, c.members = .ok ms → c.shape.Has ms

variable {s : Schema}

theorem shapeOf_key : s.shapeOf .key = .ofKey := by
  simp [shapeOf, ClassName.key]

theorem has_ofKey : Shape.ofKey.Has Member.ofKey := by
  intro m hm
  simp only [Member.ofKey, List.mem_cons, List.not_mem_nil, or_false] at hm
  rcases hm with rfl | rfl | rfl <;> exact ⟨.plain _, by decide⟩

theorem IsRegular.has_of_membersOf (hs : s.IsRegular) {c : ClassName} {ms : List Member}
    (h : s.membersOf c = .ok ms) : (s.shapeOf c).IsMade (some c) ∧ (s.shapeOf c).Has ms := by
  unfold membersOf at h
  split at h
  · rename_i name
    refine ⟨.record name _, ?_⟩
    cases found : s.class? name with
    | none =>
      rw [found] at h
      cases h
    | some cls =>
      rw [found] at h
      rw [shapeOf, found]
      exact hs cls (List.mem_of_find?_eq_some found) ms h
  · split at h
    · rename_i hk
      cases h
      rw [hk, shapeOf_key]
      exact ⟨.key, has_ofKey⟩
    · cases h

theorem class?_of_type? {name : Text} {shape : Shape} (h : s.type? name = some (.record shape)) :
    ∃ c, s.class? name = some c ∧ c.shape = shape := by
  rcases Option.or_eq_some_iff.mp h with early | ⟨-, late⟩
  · rcases Option.or_eq_some_iff.mp early with builtIn | ⟨-, choice⟩
    · have listed := List.mem_of_find?_eq_some builtIn
      simp [DeclaredType.builtIn] at listed
    · obtain ⟨c, -, hc⟩ := Option.map_eq_some_iff.mp choice
      cases hc
  · obtain ⟨c, found, hc⟩ := Option.map_eq_some_iff.mp late
    cases hc
    exact ⟨c, found, rfl⟩

theorem shape_eq_shapeOf {name : Text} {t : DeclaredType} (ht : s.type? name = some t)
    {c : ClassName} (hc : t.className? = some c) {ms : List Member} (h : s.membersOf c = .ok ms) :
    t.shape = s.shapeOf c := by
  cases t with
  | key =>
    cases hc
    exact shapeOf_key.symm
  | record shape =>
    cases hc
    obtain ⟨cls, found, rfl⟩ := class?_of_type? ht
    have named : cls.shape.name = name := by simpa using List.find?_some found
    rw [shapeOf, named, found]
    rfl
  | moment =>
    cases hc
    have other : ClassName.moment ≠ .key := by decide
    rw [membersOf, if_neg other] at h
    · cases h
    · nofun
  | _ =>
    cases hc
    all_goals simp [membersOf, ClassName.key] at h

theorem IsRegular.memberOf (hs : s.IsRegular) {f : FieldDeclaration} {name : Text}
    (ht : s.type? name = some f.type) (own : f.isEmbedded = true → f.traits.declared = f.type)
    {m : Member} (h : s.memberOf f = .ok m) : m.IsRegular ∧ m.name = f.traits.name := by
  unfold Schema.memberOf at h
  split at h
  · rename_i embedded
    obtain ⟨parts, hp, h⟩ := (bind_eq_ok_iff _ _ _).mp h
    cases h
    unfold partsOf at hp
    split at hp
    · rename_i c hc
      obtain ⟨made, has⟩ := hs.has_of_membersOf hp
      rw [← shape_eq_shapeOf ht hc hp, ← hc, ← own embedded] at made
      rw [← shape_eq_shapeOf ht hc hp, ← own embedded] at has
      exact ⟨.embedded made has.fits fun p hp => (has p (Member.mem_distinct hp)).1, rfl⟩
    · cases hp
  · cases h
    exact ⟨.plain _, rfl⟩

theorem IsRegular.declare (hs : s.IsRegular) (name : Text) {fields : List FieldDeclaration}
    (known : ∀ f ∈ fields, ∃ n, s.type? n = some f.type)
    (own : ∀ f ∈ fields, f.isEmbedded = true → f.traits.declared = f.type) :
    (s.declare name fields).IsRegular := by
  refine List.forall_mem_cons.mpr ⟨fun ms hms m hm => ?_, hs⟩
  obtain ⟨f, hf, made⟩ := mem_of_mapM_eq_ok hms m hm
  obtain ⟨n, type⟩ := known f hf
  obtain ⟨regular, same⟩ := hs.memberOf type (own f hf) made
  refine ⟨regular, ?_⟩
  rw [same, List.map_map]
  exact List.mem_map_of_mem hf

theorem typeNamed_eq_ok {name : Text} {t : DeclaredType} (h : s.typeNamed name = .ok t) :
    s.type? name = some t := by
  unfold typeNamed at h
  split at h
  · rename_i found
    cases h
    exact found
  · cases h

theorem declareNamed_eq_ok {c : NamedClass} {t : Schema} (h : s.declareNamed c = .ok t) :
    ∃ fields, c.fields.mapM s.resolve = .ok fields ∧ t = s.declare c.name fields := by
  obtain ⟨fields, resolved, h⟩ := (bind_eq_ok_iff _ _ _).mp h
  dsimp only at h
  split at h
  · cases h
  · obtain ⟨_, -, h⟩ := (bind_eq_ok_iff _ _ _).mp h
    cases h
    exact ⟨fields, resolved, rfl⟩

theorem IsRegular.declareNamed (hs : s.IsRegular) {c : NamedClass}
    (own : ∀ f ∈ c.fields, f.isEmbedded = true → f.declared = none) {t : Schema}
    (h : s.declareNamed c = .ok t) : t.IsRegular := by
  obtain ⟨fields, resolved, rfl⟩ := declareNamed_eq_ok h
  have each : ∀ x ∈ fields, ∃ n, s.type? n = some x.type ∧
      (x.isEmbedded = true → x.traits.declared = x.type) := by
    intro x hx
    obtain ⟨f, hf, made⟩ := mem_of_mapM_eq_ok resolved x hx
    obtain ⟨type, ht, made⟩ := (bind_eq_ok_iff _ _ _).mp made
    obtain ⟨declared, hd, made⟩ := (bind_eq_ok_iff _ _ _).mp made
    cases made
    refine ⟨f.type, typeNamed_eq_ok ht, fun embedded => ?_⟩
    rw [own f hf embedded] at hd
    exact Except.ok.inj (hd.symm.trans ht)
  exact hs.declare _ (fun x hx => (each x hx).imp fun _ h => h.1)
    fun x hx => (each x hx).elim fun _ h => h.2

theorem ofDeclarations_induction {P : Schema → Prop} {choices : List ChoiceType}
    {classes : List NamedClass} (start : ∀ choices, P ⟨choices, []⟩)
    (step : ∀ c ∈ classes, ∀ s t, P s → s.declareNamed c = .ok t → P t)
    (h : ofDeclarations choices classes = .ok s) : P s := by
  obtain ⟨checked, -, folded⟩ := (bind_eq_ok_iff _ _ _).mp h
  clear h
  have first : P ⟨checked, []⟩ := start checked
  generalize (⟨checked, []⟩ : Schema) = t at first folded
  induction classes generalizing t with
  | nil =>
    cases folded
    exact first
  | cons c rest ih =>
    obtain ⟨u, declared, folded⟩ := (bind_eq_ok_iff _ _ _).mp folded
    exact ih (fun d hd => step d (.tail _ hd)) u (step c (.head _) t u first declared) folded

theorem ofDeclarations_isRegular {choices : List ChoiceType} {classes : List NamedClass}
    (own : ∀ c ∈ classes, ∀ f ∈ c.fields, f.isEmbedded = true → f.declared = none)
    (h : ofDeclarations choices classes = .ok s) : s.IsRegular :=
  ofDeclarations_induction (fun _ => nofun) (fun c hc _ _ hs => hs.declareNamed (own c hc)) h

def IsDistinct (s : Schema) : Prop :=
  ∀ c ∈ s.classes, ∀ ms, c.members = .ok ms → ∀ m ∈ ms, m.IsDistinct

theorem IsDistinct.membersOf (hs : s.IsDistinct) {c : ClassName} {ms : List Member}
    (h : s.membersOf c = .ok ms) : ∀ m ∈ ms, m.IsDistinct := by
  unfold Schema.membersOf at h
  split at h
  · rename_i name
    cases found : s.class? name with
    | none =>
      rw [found] at h
      cases h
    | some cls =>
      rw [found] at h
      exact hs cls (List.mem_of_find?_eq_some found) ms h
  · split at h
    · cases h
      intro m hm
      simp only [Member.ofKey, List.mem_cons, List.not_mem_nil, or_false] at hm
      rcases hm with rfl | rfl | rfl <;> exact .plain _
    · cases h

theorem IsDistinct.memberOf (hs : s.IsDistinct) {f : FieldDeclaration} {m : Member}
    (h : s.memberOf f = .ok m) : m.IsDistinct := by
  unfold Schema.memberOf at h
  split at h
  · obtain ⟨parts, hp, h⟩ := (bind_eq_ok_iff _ _ _).mp h
    cases h
    unfold partsOf at hp
    split at hp
    · exact .embedded (Member.nodup_distinct parts) fun p hd =>
        hs.membersOf hp p (Member.mem_distinct hd)
    · cases hp
  · cases h
    exact .plain _

theorem ofDeclarations_isDistinct {choices : List ChoiceType} {classes : List NamedClass}
    (h : ofDeclarations choices classes = .ok s) : s.IsDistinct := by
  refine ofDeclarations_induction (fun _ => nofun) (fun c _ s t hs declared => ?_) h
  obtain ⟨fields, -, rfl⟩ := declareNamed_eq_ok declared
  refine List.forall_mem_cons.mpr ⟨fun ms hms m hm => ?_, hs⟩
  obtain ⟨f, -, made⟩ := mem_of_mapM_eq_ok hms m hm
  exact hs.memberOf made

end Schema

namespace ClassMapping

/-- A class whose members, and the parts of these at every depth, have names of their own. -/
structure IsDistinct (mapping : ClassMapping) : Prop where
  names : (mapping.members.map Member.name).Nodup
  nonempty : mapping.members ≠ []
  key : mapping.className = .key → mapping.shape = .ofKey
  members : ∀ m ∈ mapping.members, m.IsDistinct

/-- A class with one primary key, whose objects can be made member by member. -/
structure IsRegular (mapping : ClassMapping) : Prop where
  primary : (mapping.members.filter (·.traits.isPrimary)).length = 1
  kind : mapping.kind.isEmpty = false
  made : mapping.shape.IsMade mapping.className
  fits : mapping.shape.Fits mapping.members
  members : ∀ m ∈ mapping.members, m.IsRegular

theorem IsRegular.primary?_eq {mapping : ClassMapping} (hm : mapping.IsRegular) {m : Member}
    (h : m ∈ mapping.members) (hp : m.traits.isPrimary = true) : mapping.primary? = some m := by
  obtain ⟨pk, only⟩ := List.length_eq_one_iff.mp hm.primary
  have found : m ∈ mapping.members.filter (·.traits.isPrimary) := List.mem_filter.mpr ⟨h, hp⟩
  rw [only, List.mem_singleton] at found
  rw [primary?, ← List.head?_filter, only, found]
  rfl

end ClassMapping

theorem Registry.register_isRegular {s : Schema} (hs : s.IsRegular) {c : ClassName}
    {ms : List Member} (hm : s.membersOf c = .ok ms) (named : c.name.isEmpty = false)
    {registry after : Registry} {kind : Option Text} {mapping : ClassMapping}
    (h : registry.register c (s.shapeOf c) ms kind = .ok (mapping, after)) :
    mapping.IsRegular := by
  obtain ⟨made, has⟩ := hs.has_of_membersOf hm
  unfold register at h
  dsimp only at h
  split at h
  · rename_i one
    cases h
    refine ⟨one, ?_, made, has.fits, fun m h => (has m (Member.mem_distinct h)).1⟩
    show (if (kind.getD Text.empty).isEmpty then c.name else kind.getD Text.empty).isEmpty = false
    split
    · exact named
    · rename_i given
      exact Bool.eq_false_iff.mpr given
  · cases h

theorem Registry.register_isDistinct {s : Schema} (hs : s.IsDistinct) {c : ClassName}
    {ms : List Member} (hm : s.membersOf c = .ok ms) {registry after : Registry}
    {kind : Option Text} {mapping : ClassMapping}
    (h : registry.register c (s.shapeOf c) ms kind = .ok (mapping, after)) :
    mapping.IsDistinct := by
  unfold register at h
  dsimp only at h
  split at h
  · rename_i one
    cases h
    refine ⟨Member.nodup_distinct ms, fun none => ?_, ?_, fun m h =>
      hs.membersOf hm m (Member.mem_distinct h)⟩
    · rw [none] at one
      cases one
    · rintro rfl
      exact Schema.shapeOf_key (s := s)
  · cases h

end RecordStore
