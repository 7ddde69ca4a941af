import RecordStore.Schema
import RecordStore.Value.Stored
import RecordStore.Proofs.Attempts
import RecordStore.Proofs.RegularClasses

/-!
# Stored values

A value that its declared type takes is restored from what the store keeps of it, and what is kept
of it is null only if it is null itself.
-/

set_option autoImplicit false

namespace RecordStore

namespace DeclaredType

mutual

/-- Values that a member may hold and be given back: a member of a choice where that choice is
declared, texts where none is, and lists of such values. -/
def Takes (declared : DeclaredType) : Value → Prop
  | .null | .flag _ | .integer _ | .real _ | .bytes _ | .moment _ | .date _ | .key _ => True
  | .text _ => ∀ c, declared ≠ .choice c
  | .choice type member v =>
    ∃ c, declared = .choice c ∧ c.member? member = some (.choice type member v)
  | .collection .list items => TakesEach declared items
  | _ => False

def TakesEach (declared : DeclaredType) : List Value → Prop
  | [] => True
  | v :: vs => Takes declared v ∧ TakesEach declared vs

end

mutual

theorem restore_stored {declared : DeclaredType} {v : Value} (h : declared.Takes v) :
    ∃ s, v.stored = .ok s ∧ declared.restore s = .ok v ∧ s.isNull = v.isNull := by
  cases v with
  | null | flag | integer | real | moment | date | key => exact ⟨_, rfl, rfl, rfl⟩
  | bytes bs => exact ⟨.blob bs, rfl, rfl, rfl⟩
  | text t =>
    refine ⟨.text t, rfl, ?_, rfl⟩
    cases declared with
    | choice c => exact absurd rfl (h c)
    | _ => rfl
  | choice type member value =>
    obtain ⟨c, rfl, hc⟩ := h
    refine ⟨.text member, rfl, ?_, rfl⟩
    simp only [restore, hc]
  | collection c items =>
    cases c with
    | list =>
      obtain ⟨kept, hs, hr⟩ := restoreEach_storedEach h
      refine ⟨.list kept, ?_, ?_, rfl⟩
      · rw [Value.stored, hs]
        rfl
      · rw [Value.list, restore, hr]
        rfl
    | _ => exact h.elim
  | _ => exact h.elim

theorem restoreEach_storedEach {declared : DeclaredType} {items : List Value}
    (h : declared.TakesEach items) :
    ∃ kept, Value.storedEach items = .ok kept ∧ declared.restoreEach kept = .ok items := by
  cases items with
  | nil => exact ⟨[], rfl, rfl⟩
  | cons v vs =>
    obtain ⟨s, hs, hr, -⟩ := restore_stored h.1
    obtain ⟨kept, hkept, hrest⟩ := restoreEach_storedEach h.2
    refine ⟨s :: kept, ?_, ?_⟩
    · rw [Value.storedEach, hs, hkept]
      rfl
    · rw [restoreEach, hr, hrest]
      rfl

end

end DeclaredType
end RecordStore

/-!
## Parts of embedded objects

The parts of an embedded object are stored side by side with the other properties. When they are
loaded, an object is made of them only if one of its own parts is not null: what lies within parts
that are objects themselves does not count.
-/

namespace RecordStore

open Attempt

namespace Member

mutual

def properties : Member → List Text
  | .plain t => [(Member.plain t).property]
  | .embedded _ parts => allProperties parts

def allProperties : List Member → List Text
  | [] => []
  | m :: rest => m.properties ++ allProperties rest

end

end Member

namespace Heap

/-- Whether a part of an object, parts within parts aside, is not null. -/
def HasOwnPart (h : Heap) (x : Value) (parts : List Member) : Prop :=
  ∃ p ∈ parts, p.isEmbedded = false ∧ h.valueUnder p.name x ≠ .null

/-- Whether a member holds what it declares: a value that its type takes, or null or an instance of
its class whose parts hold what they declare. -/
inductive Carries (h : Heap) : Value → Member → Prop
  | plain {x : Value} {t : Traits} (taken : t.declared.Takes x) : Carries h x (.plain t)
  | none (t : Traits) (parts : List Member) : Carries h .null (.embedded t parts)
  | embedded {x : Value} {t : Traits} {parts : List Member}
      (belongs : h.IsInstance t.declared.shape x)
      (each : ∀ p ∈ parts, Carries h (h.valueUnder p.name x) p) : Carries h x (.embedded t parts)

/-- Whether what two heaps have for a member is equal, part by part. -/
inductive Same (h g : Heap) : Value → Value → Member → Prop
  | plain (x : Value) (t : Traits) : Same h g x x (.plain t)
  | none (t : Traits) (parts : List Member) : Same h g .null .null (.embedded t parts)
  | embedded {x y : Value} {t : Traits} {parts : List Member} (alike : g.classOf y = h.classOf x)
      (each : ∀ p ∈ parts, Same h g (h.valueUnder p.name x) (g.valueUnder p.name y) p) :
      Same h g x y (.embedded t parts)

/-- Whether each embedded object in a value, at every depth, has a part of its own. -/
inductive Shows (h : Heap) : Value → Member → Prop
  | plain (x : Value) (t : Traits) : Shows h x (.plain t)
  | none (t : Traits) (parts : List Member) : Shows h .null (.embedded t parts)
  | embedded {x : Value} {t : Traits} {parts : List Member} (own : h.HasOwnPart x parts)
      (each : ∀ p ∈ parts, Shows h (h.valueUnder p.name x) p) : Shows h x (.embedded t parts)

/-- What becomes of a value that is stored and loaded: an embedded object without a part of its own
is lost. -/
inductive Reloaded (h g : Heap) : Value → Value → Member → Prop
  | plain (x : Value) (t : Traits) : Reloaded h g x x (.plain t)
  | lost {x : Value} (t : Traits) {parts : List Member} (blank : ¬ h.HasOwnPart x parts) :
      Reloaded h g x .null (.embedded t parts)
  | embedded {x y : Value} {t : Traits} {parts : List Member} (own : h.HasOwnPart x parts)
      (alike : g.classOf y = h.classOf x)
      (each : ∀ p ∈ parts, Reloaded h g (h.valueUnder p.name x) (g.valueUnder p.name y) p) :
      Reloaded h g x y (.embedded t parts)

variable {h g : Heap} {x y : Value} {m : Member} {t : Traits} {parts : List Member}

theorem carries_null (h : Heap) (m : Member) : h.Carries .null m := by
  cases m with
  | plain t => exact .plain trivial
  | embedded t parts => exact .none t parts

theorem Carries.takes (hc : h.Carries x (.plain t)) : t.declared.Takes x := by
  cases hc with
  | plain taken => exact taken

theorem Carries.part (hc : h.Carries x (.embedded t parts)) :
    ∀ p ∈ parts, h.Carries (h.valueUnder p.name x) p := by
  cases hc with
  | none => exact fun p _ => h.carries_null p
  | embedded _ hp => exact hp

theorem not_hasOwnPart_null (h : Heap) (parts : List Member) : ¬ h.HasOwnPart .null parts := by
  rintro ⟨p, -, -, hp⟩
  exact hp (h.valueUnder_null p.name)

theorem Carries.isInstance (hc : h.Carries x (.embedded t parts)) (hx : x ≠ .null) :
    h.IsInstance t.declared.shape x := by
  cases hc with
  | none => exact absurd rfl hx
  | embedded belongs => exact belongs

theorem HasOwnPart.ne_null (own : h.HasOwnPart x parts) : x ≠ .null := by
  rintro rfl
  exact h.not_hasOwnPart_null parts own

theorem Reloaded.same_iff (hr : h.Reloaded g x y m) (hc : h.Carries x m) :
    h.Same g x y m ↔ h.Shows x m := by
  induction hr with
  | plain x t => exact ⟨fun _ => .plain x t, fun _ => .plain x t⟩
  | lost t blank =>
    constructor
    · intro same
      cases hc with
      | none => exact .none _ _
      | embedded belongs =>
        -- an instance has another class than null
        cases same with
        | none => exact .none _ _
        | embedded alike =>
          rw [belongs.classOf_eq] at alike
          split at alike <;> cases alike
    · intro shows
      cases shows with
      | none => exact .none _ _
      | embedded own => exact absurd own blank
  | embedded own alike _ ih =>
    constructor
    · intro same
      cases same with
      | none => exact absurd rfl own.ne_null
      | embedded _ same => exact .embedded own fun p hp => (ih p hp (hc.part p hp)).mp (same p hp)
    · intro shows
      cases shows with
      | none => exact absurd rfl own.ne_null
      | embedded _ shows =>
        exact .embedded alike fun p hp => (ih p hp (hc.part p hp)).mpr (shows p hp)

theorem allParts_of_each {v : Value} {ms : List Member}
    (hm : ∀ m ∈ ms, ∃ es, h.partProperties (h.valueUnder m.name v) m = .ok es ∧
      es.map (·.1) = m.properties) :
    ∃ es, h.allParts v ms = .ok es ∧ es.map (·.1) = Member.allProperties ms := by
  induction ms with
  | nil => exact ⟨[], by rw [allParts], by rw [Member.allProperties]; rfl⟩
  | cons m rest ih =>
    obtain ⟨first, hf, names⟩ := hm m (.head _)
    obtain ⟨others, ho, more⟩ := ih fun p hp => hm p (.tail _ hp)
    refine ⟨first ++ others, ?_, ?_⟩
    · rw [allParts, hf, ho]
      rfl
    · rw [List.map_append, names, more, Member.allProperties]

theorem Carries.partProperties_eq (hm : m.IsRegular) (hc : h.Carries x m) :
    ∃ es, h.partProperties x m = .ok es ∧ es.map (·.1) = m.properties := by
  induction hm generalizing x with
  | plain t =>
    obtain ⟨s, hs, -⟩ := DeclaredType.restore_stored hc.takes
    refine ⟨[((Member.plain t).property, s)], ?_, by rw [Member.properties]; rfl⟩
    rw [partProperties, hs]
    rfl
  | embedded made fits regular ih =>
    obtain ⟨es, he, names⟩ := allParts_of_each fun p hp => ih p hp (hc.part p hp)
    exact ⟨es, by rw [partProperties, he], by rw [names, Member.properties]⟩

theorem allParts_eq_ok {v : Value} {ms : List Member} {es : List (Text × Value)}
    (ha : h.allParts v ms = .ok es) :
    ∀ m ∈ ms, ∃ part, h.partProperties (h.valueUnder m.name v) m = .ok part ∧ part ⊆ es := by
  induction ms generalizing es with
  | nil => simp
  | cons m rest ih =>
    rw [allParts] at ha
    obtain ⟨first, hf, ha⟩ := (bind_eq_ok_iff _ _ _).mp ha
    obtain ⟨others, ho, ha⟩ := (bind_eq_ok_iff _ _ _).mp ha
    cases ha
    refine List.forall_mem_cons.mpr ⟨⟨first, hf, List.subset_append_left _ _⟩, fun p hp => ?_⟩
    obtain ⟨part, hpart, inside⟩ := ih ho p hp
    exact ⟨part, hpart, List.Subset.trans inside (List.subset_append_right _ _)⟩

end Heap

namespace Record

/-- Whether a record has everything that is stored for a member of a value. -/
def Stores (r : Record) (h : Heap) (x : Value) (m : Member) : Prop :=
  ∃ es, h.partProperties x m = .ok es ∧ ∀ e ∈ es, r.stored e.1 = e.2

variable {r : Record} {h : Heap} {x : Value} {t : Traits} {parts : List Member}

theorem Stores.plain (hs : r.Stores h x (.plain t)) (ht : t.declared.Takes x) :
    Workspace.plainValue r (.plain t) = .ok x ∧
      (r.stored (Member.plain t).property).isNull = x.isNull := by
  obtain ⟨s, hx, restored, blank⟩ := DeclaredType.restore_stored ht
  obtain ⟨es, he, hr⟩ := hs
  rw [Heap.partProperties, hx] at he
  cases he
  have found : r.stored (Member.plain t).property = s := hr _ (.head _)
  rw [Workspace.plainValue, found]
  exact ⟨restored, blank⟩

theorem Stores.part (hs : r.Stores h x (.embedded t parts)) :
    ∀ p ∈ parts, r.Stores h (h.valueUnder p.name x) p := by
  obtain ⟨es, he, hr⟩ := hs
  rw [Heap.partProperties] at he
  intro p hp
  obtain ⟨part, hpart, inside⟩ := Heap.allParts_eq_ok he p hp
  exact ⟨part, hpart, fun e hm => hr e (inside hm)⟩

end Record

namespace Workspace

variable {r : Record} {h : Heap} {x : Value} {m : Member} {t : Traits} {parts : List Member}

theorem isAbsent_iff (hc : h.Carries x (.embedded t parts))
    (hs : r.Stores h x (.embedded t parts)) :
    isAbsent r parts = true ↔ ¬ h.HasOwnPart x parts := by
  have stored : ∀ p ∈ parts, p.isEmbedded = false →
      (r.stored p.property).isNull = (h.valueUnder p.name x).isNull := by
    intro p hp plain
    cases p with
    | plain t => exact ((hs.part _ hp).plain (hc.part _ hp).takes).2
    | embedded t parts => cases plain
  have null (v : Value) : v.isNull = true ↔ v = .null := by cases v <;> simp [Value.isNull]
  simp only [isAbsent, List.all_eq_true, Bool.or_eq_true, Heap.HasOwnPart, not_exists, not_and,
    not_not]
  constructor
  · intro absent p hp plain
    rcases absent p hp with embedded | blank
    · rw [plain] at embedded
      cases embedded
    · rwa [stored p hp plain, null] at blank
  · intro blank p hp
    cases plain : p.isEmbedded with
    | true => exact .inl rfl
    | false => exact .inr (by rw [stored p hp plain, null]; exact blank p hp plain)

theorem makes_partValue (hm : m.IsRegular) (hc : h.Carries x m) (hs : r.Stores h x m) :
    Makes (fun g y => h.Reloaded g x y m) (partValue r m) := by
  induction hm generalizing x with
  | plain t =>
    rw [partValue, (hs.plain hc.takes).1]
    exact makes_pure fun g => .plain x t
  | @embedded t parts made fits regular ih =>
    rw [partValue]
    by_cases absent : isAbsent r parts = true
    · rw [if_pos absent]
      exact makes_pure fun g => .lost t ((isAbsent_iff hc hs).mp absent)
    · have own : h.HasOwnPart x parts := by
        by_contra blank
        exact absent ((isAbsent_iff hc hs).mpr blank)
      rw [if_neg absent]
      simp only [assignParts_eq]
      intro w
      obtain ⟨y, u, loaded, grown, hy⟩ :=
        makes_object made fits (fun p hp => ih p hp (hc.part p hp) (hs.part p hp)) w
      refine ⟨y, u, loaded, grown, fun g hg => ?_⟩
      obtain ⟨belongs, each⟩ := hy g hg
      have alike : g.classOf y = h.classOf x := by
        rw [belongs.classOf_eq, (hc.isInstance own.ne_null).classOf_eq]
      exact .embedded own alike each

end Workspace
end RecordStore
