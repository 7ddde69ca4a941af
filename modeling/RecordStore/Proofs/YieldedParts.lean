import RecordStore.Proofs.Holding
import RecordStore.Proofs.RegularClasses

/-!
# What records yield

What a record has for a member is made into a value in one way: what has been made once can be made
always, and what is made is equal, part by part, however often it is made.
-/

set_option autoImplicit false

namespace RecordStore

open Attempt

namespace Record

/-- Whether a value is what loading makes of what a record has for a member. -/
inductive Yields (r : Record) (h : Heap) : Value → Member → Prop
  | plain {x : Value} {t : Traits} (restored : Workspace.plainValue r (.plain t) = .ok x) :
      Yields r h x (.plain t)
  | absent (t : Traits) {parts : List Member} (missing : Workspace.isAbsent r parts = true) :
      Yields r h .null (.embedded t parts)
  | embedded {x : Value} {t : Traits} {parts : List Member}
      (present : Workspace.isAbsent r parts = false)
      (made : t.declared.shape.IsMade t.declared.className?) (fits : t.declared.shape.Fits parts)
      (belongs : h.IsInstance t.declared.shape x)
      (each : ∀ p ∈ parts, Yields r h (h.valueUnder p.name x) p) : Yields r h x (.embedded t parts)

end Record

namespace Heap

/-- Whether two values for a member are equal, or equal part by part. -/
inductive Alike (h : Heap) : Value → Value → Member → Prop
  | refl (x : Value) (m : Member) : Alike h x x m
  | embedded {x y : Value} {t : Traits} {parts : List Member}
      (own : h.IsInstance t.declared.shape x) (other : h.IsInstance t.declared.shape y)
      (each : ∀ p ∈ parts, Alike h (h.valueUnder p.name x) (h.valueUnder p.name y) p) :
      Alike h x y (.embedded t parts)

variable {h : Heap} {x y : Value} {m : Member} {r : Record}

theorem Alike.symm (ha : h.Alike x y m) : h.Alike y x m := by
  induction ha with
  | refl x m => exact .refl x m
  | embedded own other _ ih => exact .embedded other own ih

theorem alike_iff_yields (hx : r.Yields h x m) : h.Alike x y m ↔ r.Yields h y m := by
  constructor
  · intro ha
    induction ha with
    | refl x m => exact hx
    | embedded own other _ ih =>
      cases hx with
      | absent => exact own.elim
      | embedded present made fits _ each =>
        exact .embedded present made fits other fun p hp => ih p hp (each p hp)
  · intro hy
    induction hx generalizing y with
    | plain restored =>
      cases hy with
      | plain again =>
        cases restored.symm.trans again
        exact .refl _ _
    | absent t missing =>
      cases hy with
      | absent => exact .refl _ _
      | embedded present =>
        rw [missing] at present
        cases present
    | embedded present _ _ belongs _ ih =>
      cases hy with
      | absent _ missing =>
        rw [present] at missing
        cases missing
      | embedded _ _ _ other each => exact .embedded belongs other fun p hp => ih p hp (each p hp)

end Heap

namespace Workspace

variable {r : Record} {m : Member} {w u : Workspace} {v x : Value}

/-- Whether an attempt has come to a value in some workspace. -/
def Succeeds (a : Attempt Workspace Value) : Prop := ∃ w x u, a.on w = (.ok x, u)

theorem makes_embedded {t : Traits} {parts : List Member} (present : isAbsent r parts = false)
    (made : t.declared.shape.IsMade t.declared.className?) (fits : t.declared.shape.Fits parts)
    (each : ∀ p ∈ parts, Makes (fun g y => r.Yields g y p) (partValue r p)) :
    Makes (fun g y => r.Yields g y (.embedded t parts)) (partValue r (.embedded t parts)) := by
  rw [partValue, if_neg (Bool.eq_false_iff.mp present)]
  simp only [assignParts_eq]
  intro w
  obtain ⟨y, u, loaded, grown, hy⟩ := makes_object made fits each w
  refine ⟨y, u, loaded, grown, fun g hg => ?_⟩
  obtain ⟨belongs, held⟩ := hy g hg
  exact .embedded present made fits belongs held

theorem makes_of_yields {h : Heap} (hx : r.Yields h x m) :
    Makes (fun g y => r.Yields g y m) (partValue r m) := by
  induction hx with
  | plain restored =>
    rw [partValue, restored]
    exact makes_pure fun _ => .plain restored
  | absent t missing =>
    rw [partValue, if_pos missing]
    exact makes_pure fun _ => .absent t missing
  | embedded present made fits _ _ ih => exact makes_embedded present made fits ih

theorem lasting_shape (i : ObjectId) (s : Shape) :
    Lasting fun w => i < w.heap.size ∧ (w.heap.object i).shape = s where
  create w t h := by
    have kept := w.heap.extends_create t
    exact ⟨h.1.trans_le kept.size, by rw [kept.kept i h.1, h.2]⟩
  set w j field x h := by
    refine ⟨h.1.trans_eq (Heap.size_set _ _ _ _).symm, ?_⟩
    by_cases hj : i = j
    · subst hj
      rw [Heap.object_set_self h.1]
      exact h.2
    · rw [Heap.object_set_of_ne _ _ _ hj]
      exact h.2

theorem settable_of_assign {i : ObjectId} {field : Text}
    (h : (assign (.object i) field x).on w = (.ok (), u)) (key : (w.heap.object i).shape = .ofKey) :
    field ∉ derivedFromKey := by
  rw [assign, on_bind_of_ok (on_get w)] at h
  split at h
  · cases h
  · rename_i allowed
    simpa [Object.isKey, key] using allowed

theorem isMade_of_instantiate {c : Option ClassName} {s : Shape} (key : c = some .key → s = .ofKey)
    (h : (instantiate c s).on w = (.ok v, u)) : v = .null ∨ s.IsMade c := by
  rw [instantiate.eq_def] at h
  split at h
  · exact .inr (.record _ s)
  · cases h
    exact .inl rfl
  · split at h
    · rename_i isKey
      subst isKey
      rw [key rfl]
      exact .inr .key
    · cases h

section Each

variable {s : Shape} {ms : List Member} {value : Member → Attempt Workspace Value}
  (lasts : ∀ {P}, Lasting P → ∀ m ∈ ms, Keeps P (value m))
include lasts

theorem assignEach_eq_ok {i : ObjectId} (hi : i < w.heap.size) (hs : (w.heap.object i).shape = s)
    (h : (assignEach value (.object i) ms).on w = (.ok (), u)) :
    ∀ m ∈ ms, Succeeds (value m) ∧ (s = .ofKey → m.name ∉ derivedFromKey) := by
  induction ms generalizing w with
  | nil => nofun
  | cons m rest ih =>
    obtain ⟨x, t, made, h⟩ := (on_bind_eq_ok_iff _ _ _ _ _).mp h
    obtain ⟨_, t', assigned, h⟩ := (on_bind_eq_ok_iff _ _ _ _ _).mp h
    have shape := (lasts (lasting_shape i s) m (.head _)).after w ⟨hi, hs⟩
    rw [made] at shape
    have settable := fun key => settable_of_assign assigned (shape.2.trans key)
    obtain rfl := assign_object_on assigned
    obtain ⟨inside, kept⟩ := (lasting_shape i s).set t i m.name x shape
    refine List.forall_mem_cons.mpr ⟨⟨⟨w, x, t, made⟩, settable⟩, ?_⟩
    exact ih (fun hP p hp => lasts hP p (.tail _ hp)) inside kept h

theorem object_eq_ok {c : Option ClassName} (key : c = some .key → s = .ofKey)
    (names : (ms.map Member.name).Nodup) (some : ms ≠ [])
    (h : (do
      let v ← instantiate c s
      assignEach value v ms
      return v).on w = (.ok x, u)) :
    s.IsMade c ∧ s.Fits ms ∧ ∀ m ∈ ms, Succeeds (value m) := by
  obtain ⟨v, t, made, h⟩ := (on_bind_eq_ok_iff _ _ _ _ _).mp h
  obtain ⟨_, t', assigned, -⟩ := (on_bind_eq_ok_iff _ _ _ _ _).mp h
  rcases isMade_of_instantiate key made with rfl | isMade
  · -- null has no members
    obtain ⟨m, rest, rfl⟩ := List.exists_cons_of_ne_nil some
    obtain ⟨_, _, -, h⟩ := (on_bind_eq_ok_iff _ _ _ _ _).mp assigned
    obtain ⟨_, _, h, -⟩ := (on_bind_eq_ok_iff _ _ _ _ _).mp h
    cases h
  · rw [instantiate_on isMade] at made
    cases made
    have inside : w.heap.size < (w.heap.create s).2.size := by simp [Heap.create, Heap.size]
    have each := assignEach_eq_ok lasts (s := s) inside (by rw [Heap.object_create]) assigned
    exact ⟨isMade, ⟨names, fun isKey m hm => (each m hm).2 isKey⟩, fun m hm => (each m hm).1⟩

end Each

theorem shape_of_key {t : DeclaredType} (h : t.className? = some .key) : t.shape = .ofKey := by
  cases t with
  | key => rfl
  | _ => cases h

theorem makes_partValue_of_succeeds (hm : m.IsDistinct) (h : Succeeds (partValue r m)) :
    Makes (fun g y => r.Yields g y m) (partValue r m) := by
  induction hm with
  | plain t =>
    obtain ⟨w, x, u, made⟩ := h
    rw [partValue] at made
    obtain ⟨restored, -⟩ := (on_ofExcept_eq_ok_iff _ _ _ _).mp made
    exact makes_of_yields (h := .empty) (.plain restored)
  | @embedded t parts names _ ih =>
    by_cases absent : isAbsent r parts = true
    · exact makes_of_yields (h := .empty) (.absent t absent)
    have some : parts ≠ [] := by
      rintro rfl
      exact absent rfl
    obtain ⟨w, x, u, made⟩ := h
    rw [partValue, if_neg absent] at made
    simp only [assignParts_eq] at made
    obtain ⟨isMade, fits, each⟩ :=
      object_eq_ok (fun hP p _ => hP.keeps_partValue r p) shape_of_key names some made
    exact makes_embedded (Bool.eq_false_iff.mpr absent) isMade fits fun p hp => ih p hp (each p hp)

end Workspace
end RecordStore
