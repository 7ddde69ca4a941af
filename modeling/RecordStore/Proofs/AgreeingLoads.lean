import RecordStore.Database.Execute
import RecordStore.Proofs.AgreeingAttempts
import RecordStore.Proofs.Holding
import RecordStore.Proofs.ObjectMaking
import RecordStore.Proofs.VisibleAnswers

/-!
# Loads that agree

A veil hides some objects, and it hides what the identity map has for some keys. Where two
workspaces are alike but for what a veil hides, the records of other keys are loaded alike, and the
workspaces stay alike.
-/

set_option autoImplicit false

namespace RecordStore

open Attempt

structure Veil where
  hidden : ObjectId → Prop
  /-- Objects that stored values may lead to. -/
  visible : ObjectId → Prop
  /-- Keys whose objects are hidden. -/
  written : Key → Prop
  apart : ∀ i, visible i → ¬hidden i

/-- Whether a value is no hidden object. -/
def Veil.Shows (u : Veil) (v : Value) : Prop := ∀ i, v = .object i → ¬u.hidden i

theorem Veil.shows_of_within {u : Veil} {v : Value} (hv : v.Within u.visible) : u.Shows v := by
  rintro i rfl
  exact u.apart i hv

/-- Whether two workspaces are the same but for what a veil hides. -/
structure Workspace.AlikeUnder (u : Veil) (w w' : Workspace) : Prop where
  size : w'.heap.size = w.heap.size
  object : ∀ i, ¬u.hidden i → w'.heap.object i = w.heap.object i
  closed : ∀ i, u.visible i → ∀ e ∈ (w.heap.object i).attributes, e.2.Within u.visible
  /-- New objects are visible. -/
  beyond : ∀ i, w.heap.size ≤ i → u.visible i
  get? : ∀ k, ¬u.written k → w'.identities.get? k = w.identities.get? k
  isHollow : ∀ k, ¬u.written k → w'.identities.isHollow k = w.identities.isHollow k
  held : ∀ k, ¬u.written k → ∀ v, w.identities.get? k = some v → u.Shows v

namespace DeclaredType

def Within (visible : ObjectId → Prop) : DeclaredType → Prop
  | .choice c => ∀ m ∈ c.members, m.2.Within visible
  | _ => True

variable {visible : ObjectId → Prop} {declared : DeclaredType}

theorem within_member? {c : ChoiceType} (hc : ∀ m ∈ c.members, m.2.Within visible) {t : Text}
    {v : Value} (h : c.member? t = some v) : v.Within visible := by
  obtain ⟨w, -, h⟩ := Option.bind_eq_some_iff.mp h
  obtain ⟨first, found, h⟩ := Option.bind_eq_some_iff.mp h
  cases h
  exact hc first (List.mem_of_find?_eq_some found)

mutual

theorem Within.restore (hd : declared.Within visible) {v w : Value} (hv : v.Within visible)
    (h : declared.restore v = .ok w) : w.Within visible := by
  cases v with
  | collection c items =>
    cases c with
    | list =>
      have each : Value.WithinEach visible items := hv
      obtain ⟨restored, made, rfl⟩ := (map_eq_ok_iff _ _ _).mp h
      exact Within.restoreEach hd each made
    | _ =>
      cases h
      exact hv
  | text t =>
    cases declared with
    | choice c =>
      rw [DeclaredType.restore] at h
      split at h
      · rename_i found
        cases h
        exact within_member? hd found
      · cases h
    | _ =>
      cases h
      trivial
  | blob bs =>
    cases h
    trivial
  | _ =>
    cases h
    exact hv

theorem Within.restoreEach (hd : declared.Within visible) {vs ws : List Value}
    (hvs : Value.WithinEach visible vs) (h : declared.restoreEach vs = .ok ws) :
    Value.WithinEach visible ws := by
  cases vs with
  | nil =>
    cases h
    trivial
  | cons v vs =>
    obtain ⟨w, made, h⟩ := (bind_eq_ok_iff _ _ _).mp h
    obtain ⟨rest, others, h⟩ := (bind_eq_ok_iff _ _ _).mp h
    cases h
    exact ⟨Within.restore hd hvs.1 made, Within.restoreEach hd hvs.2 others⟩

end

end DeclaredType

namespace Member

mutual

def Within (visible : ObjectId → Prop) : Member → Prop
  | .plain t => t.declared.Within visible
  | .embedded _ parts => EachWithin visible parts

def EachWithin (visible : ObjectId → Prop) : List Member → Prop
  | [] => True
  | m :: rest => Within visible m ∧ EachWithin visible rest

end

variable {visible : ObjectId → Prop}

theorem eachWithin_iff (ms : List Member) :
    EachWithin visible ms ↔ ∀ m ∈ ms, m.Within visible := by
  induction ms with
  | nil => simp [EachWithin]
  | cons m rest ih => rw [EachWithin, List.forall_mem_cons, ih]

end Member

namespace Heap

theorem object_create_eq (h : Heap) (s : Shape) (j : ObjectId) :
    (h.create s).2.object j = if j = h.size then ⟨s, []⟩ else h.object j := by
  rcases Nat.lt_trichotomy j h.size with below | rfl | above
  · rw [if_neg (Nat.ne_of_lt below), (h.extends_create s).kept j below]
  · rw [if_pos rfl, h.object_create]
  · have outside : h.objects[j]? = none := List.getElem?_eq_none (Nat.le_of_lt above)
    have outside' : (h.create s).2.objects[j]? = none := by
      refine List.getElem?_eq_none ?_
      rw [create, List.length_append]
      exact above
    rw [if_neg (Nat.ne_of_gt above), object, object, outside, outside']

theorem object_set_eq (h : Heap) (i j : ObjectId) (field : Text) (x : Value) :
    (h.set i field x).object j =
      if j = i ∧ i < h.size then (h.object j).set field x else h.object j := by
  by_cases hj : j = i
  · subst hj
    by_cases hi : j < h.size
    · rw [if_pos ⟨rfl, hi⟩, h.object_set_self hi]
    · have outside : h.objects[j]? = none := List.getElem?_eq_none (Nat.le_of_not_lt hi)
      rw [if_neg (fun both => hi both.2), object, object, set, List.getElem?_modify_eq, outside]
      rfl
  · rw [if_neg (fun both => hj both.1), h.object_set_of_ne field x hj]

end Heap

namespace Workspace

variable {u : Veil}

theorem AlikeUnder.seesAlike {w w' : Workspace} (h : w.AlikeUnder u w') :
    w.heap.SeesAlike u.visible w'.heap :=
  ⟨h.size, fun i hi => h.object i (u.apart i hi), h.closed⟩

theorem agrees_create (s : Shape) :
    Agrees (AlikeUnder u) u.visible (create s) (create s) := by
  have created (w : Workspace) : (create s).on w =
      (.ok w.heap.size, { w with heap := (w.heap.create s).2 }) := rfl
  have grown (w : Workspace) : (w.heap.create s).2.size = w.heap.size + 1 := List.length_append
  constructor
  intro w w' h
  have new := h.beyond _ (Nat.le_refl _)
  refine .of_ok (created w) ((created w').trans (by rw [h.size])) ?_ new
  refine ⟨?_, fun i hi => ?_, fun i hi => ?_, fun i hi => ?_, h.get?, h.isHollow, h.held⟩
  · show (w'.heap.create s).2.size = (w.heap.create s).2.size
    rw [grown, grown, h.size]
  · show (w'.heap.create s).2.object i = (w.heap.create s).2.object i
    rw [Heap.object_create_eq, Heap.object_create_eq, h.size, h.object i hi]
  · show ∀ e ∈ ((w.heap.create s).2.object i).attributes, e.2.Within u.visible
    rw [Heap.object_create_eq]
    split
    · exact List.forall_mem_nil _
    · exact h.closed i hi
  · refine h.beyond i (Nat.le_of_succ_le ?_)
    show w.heap.size + 1 ≤ i
    rwa [← grown w]

theorem agrees_assign {v x : Value} (hv : u.Shows v) (hx : x.Within u.visible) (field : Text) :
    Agrees (AlikeUnder u) (fun _ => True) (assign v field x) (assign v field x) := by
  cases v with
  | object i =>
    have shown : ¬u.hidden i := hv i rfl
    refine agrees_get_bind fun w w' h => ?_
    dsimp only
    rw [h.object i shown]
    have set : Agrees (AlikeUnder u) (fun _ => True)
        (modify fun w : Workspace => { w with heap := w.heap.set i field x })
        (modify fun w : Workspace => { w with heap := w.heap.set i field x }) := by
      refine agrees_modify fun w w' h => ?_
      refine ⟨?_, fun j hj => ?_, fun j hj => ?_, fun j hj => ?_, h.get?, h.isHollow, h.held⟩
      · show (w'.heap.set i field x).size = (w.heap.set i field x).size
        rw [Heap.size_set, Heap.size_set, h.size]
      · show (w'.heap.set i field x).object j = (w.heap.set i field x).object j
        rw [Heap.object_set_eq, Heap.object_set_eq, h.size, h.object j hj]
      · show ∀ e ∈ ((w.heap.set i field x).object j).attributes, e.2.Within u.visible
        rw [Heap.object_set_eq]
        split
        · intro e he
          rcases mem_assignName he with rfl | he
          · exact hx
          · exact h.closed j hj e he
        · exact h.closed j hj
      · refine h.beyond j ?_
        rwa [← Heap.size_set w.heap i field x]
    split
    · exact agrees_bind (Q := fun _ => True) (agrees_throw _) fun _ _ => set
    · exact set
  | _ => exact agrees_throw _

theorem agrees_instantiate (className : Option ClassName) (s : Shape) :
    Agrees (AlikeUnder u) (fun v => v.Within u.visible) (instantiate className s)
      (instantiate className s) := by
  have made (t : Shape) : Agrees (AlikeUnder u) (fun v => v.Within u.visible)
      (Value.object <$> create t) (Value.object <$> create t) :=
    agrees_bind (agrees_create t) fun i hi => agrees_pure hi
  rw [instantiate.eq_def]
  split
  · exact made s
  · exact agrees_pure trivial
  · split
    · exact made _
    · exact agrees_throw _

variable {r : Record}

theorem within_stored (hr : r.Within u.visible) (property : Text) :
    (r.stored property).Within u.visible := by
  rw [Record.stored]
  cases found : lookupName property r.properties with
  | none => trivial
  | some v =>
    obtain ⟨p, hp, rfl⟩ := mem_of_lookupName_eq_some found
    exact hr p hp

mutual

theorem agrees_partValue (hr : r.Within u.visible) {m : Member} (hm : m.Within u.visible) :
    Agrees (AlikeUnder u) (fun v => v.Within u.visible) (partValue r m) (partValue r m) := by
  cases m with
  | plain t =>
    have restored (v : Value) (h : plainValue r (.plain t) = .ok v) : v.Within u.visible :=
      DeclaredType.Within.restore hm (within_stored hr _) h
    rw [partValue]
    exact agrees_ofExcept restored
  | embedded t parts =>
    rw [partValue]
    split
    · exact agrees_pure trivial
    · refine agrees_bind (agrees_instantiate _ _) fun v hv => ?_
      exact agrees_bind (agrees_assignParts hr (u.shows_of_within hv) parts hm) fun _ _ =>
        agrees_pure hv

theorem agrees_assignParts (hr : r.Within u.visible) {v : Value} (hv : u.Shows v)
    (parts : List Member) (hp : Member.EachWithin u.visible parts) :
    Agrees (AlikeUnder u) (fun _ => True) (assignParts r v parts) (assignParts r v parts) := by
  cases parts with
  | nil => exact agrees_pure trivial
  | cons m rest =>
    rw [assignParts]
    refine agrees_bind (agrees_partValue hr hp.1) fun x hx => ?_
    exact agrees_bind (agrees_assign hv hx m.name) fun _ _ => agrees_assignParts hr hv rest hp.2

end

theorem within_keyValue (m : Member) (k : Key) {visible : ObjectId → Prop} :
    (m.keyValue k).Within visible := by
  rw [Member.keyValue]
  split
  · trivial
  split
  · exact Value.within_ofOption Value.within_ofIdentity _
  split
  · exact Value.within_ofOption (f := .text) (fun _ => trivial) _
  · trivial

theorem within_parentValue (m : Member) (k : Key) {visible : ObjectId → Prop} :
    (m.parentValue k).Within visible := by
  rw [Member.parentValue]
  split
  · trivial
  · split <;> trivial

theorem agrees_giveKey (m : Member) (k : Key) :
    Agrees (AlikeUnder u) (fun v => v.Within u.visible) (Attempt.ofExcept (m.giveKey k))
      (Attempt.ofExcept (m.giveKey k)) := by
  refine agrees_ofExcept fun v given => ?_
  rw [← Member.keyValue_of_giveKey given]
  exact within_keyValue m k

theorem agrees_giveParent (m : Member) (k : Key) :
    Agrees (AlikeUnder u) (fun v => v.Within u.visible) (Attempt.ofExcept (m.giveParent k))
      (Attempt.ofExcept (m.giveParent k)) := by
  refine agrees_ofExcept fun v given => ?_
  rw [← Member.parentValue_of_giveParent given]
  exact within_parentValue m k

theorem agrees_memberValue (hr : r.Within u.visible) {m : Member} (hm : m.Within u.visible) :
    Agrees (AlikeUnder u) (fun v => v.Within u.visible) (memberValue r m) (memberValue r m) := by
  rw [memberValue]
  split
  · exact agrees_giveKey m r.key
  split
  · exact agrees_giveParent m r.key
  split
  · refine agrees_pure ?_
    split
    · exact Value.within_ofKey? _
    · trivial
  · exact agrees_partValue hr hm

theorem agrees_fill (hr : r.Within u.visible) {v : Value} (hv : u.Shows v) {ms : List Member}
    (hms : ∀ m ∈ ms, m.Within u.visible) :
    Agrees (AlikeUnder u) (fun _ => True) (fill r v ms) (fill r v ms) := by
  induction ms with
  | nil => exact agrees_pure trivial
  | cons m rest ih =>
    obtain ⟨hm, hrest⟩ := List.forall_mem_cons.mp hms
    refine agrees_bind (agrees_memberValue hr hm) fun x hx => ?_
    exact agrees_bind (agrees_assign hv hx m.name) fun _ _ => ih hrest

theorem agrees_remember {k : Key} {v : Value} (hv : u.Shows v) (hollow : Bool) :
    Agrees (AlikeUnder u) (fun _ => True) (remember k v hollow) (remember k v hollow) := by
  refine agrees_modify fun w w' h => ?_
  refine ⟨h.size, h.object, h.closed, h.beyond, fun j hj => ?_, fun j hj => ?_, fun j hj x hx => ?_⟩
  · rw [IdentityMap.get?_put, IdentityMap.get?_put, h.get? j hj]
  · rw [IdentityMap.isHollow_put, IdentityMap.isHollow_put, h.isHollow j hj]
  · rw [IdentityMap.get?_put] at hx
    split at hx
    · cases hx
      exact hv
    · exact h.held j hj x hx

variable {mapping : ClassMapping}

theorem agrees_loadFresh (hr : r.Within u.visible)
    (hm : ∀ m ∈ mapping.members, m.Within u.visible) :
    Agrees (AlikeUnder u) u.Shows (loadFresh mapping r) (loadFresh mapping r) := by
  refine agrees_bind (agrees_instantiate _ _) fun v hv => ?_
  have shown := u.shows_of_within hv
  exact agrees_bind (agrees_fill hr shown hm) fun _ _ => agrees_pure shown

theorem AlikeUnder.object?_eq {w w' : Workspace} (h : w.AlikeUnder u w') {k : Key}
    (hk : ¬u.written k) : w'.identities.object? k = w.identities.object? k := by
  rw [IdentityMap.object?, IdentityMap.object?, h.get? k hk]

theorem AlikeUnder.shows_object? {w w' : Workspace} (h : w.AlikeUnder u w') {k : Key}
    (hk : ¬u.written k) {v : Value} (found : w.identities.object? k = some v) : u.Shows v := by
  rw [IdentityMap.object?] at found
  split at found
  · cases found
  · exact h.held k hk v found

/-- Records are loaded alike if the objects of their keys are not hidden, or not asked for. -/
theorem agrees_loadWhole (hr : r.Within u.visible)
    (hm : ∀ m ∈ mapping.members, m.Within u.visible) {ignoreIdentities : Bool}
    (hk : ignoreIdentities = true ∨ ¬u.written r.key) :
    Agrees (AlikeUnder u) u.Shows (loadWhole mapping r ignoreIdentities)
      (loadWhole mapping r ignoreIdentities) := by
  cases ignoreIdentities with
  | true => exact agrees_loadFresh hr hm
  | false =>
    have hk : ¬u.written r.key := hk.resolve_left Bool.false_ne_true
    refine agrees_get_bind fun w w' h => ?_
    dsimp only
    rw [h.object?_eq hk, h.isHollow _ hk]
    split
    · refine agrees_bind (agrees_loadFresh hr hm) fun v hv => ?_
      exact agrees_bind (agrees_remember hv false) fun _ _ => agrees_pure hv
    · rename_i v found
      have hv := h.shows_object? hk found
      split
      · refine agrees_bind (agrees_fill hr hv hm) fun _ _ => ?_
        exact agrees_bind (agrees_remember hv false) fun _ _ => agrees_pure hv
      · exact agrees_pure hv

theorem agrees_assign? {v : Value} (shown : u.Shows v) {value : Member → Except Fault Value}
    (hvalue : ∀ m, Agrees (AlikeUnder u) (fun v => v.Within u.visible) (Attempt.ofExcept (value m))
      (Attempt.ofExcept (value m))) (m : Option Member) :
    Agrees (AlikeUnder u) (fun _ => True)
      (match m with
        | none => pure ()
        | some m => do assign v m.name (← Attempt.ofExcept (value m)))
      (match m with
        | none => pure ()
        | some m => do assign v m.name (← Attempt.ofExcept (value m))) := by
  cases m with
  | none => exact agrees_pure trivial
  | some m => exact agrees_bind (hvalue m) fun _ hx => agrees_assign shown hx m.name

theorem agrees_loadIdentity (hk : ¬u.written r.key) :
    Agrees (AlikeUnder u) u.Shows (loadIdentity mapping r) (loadIdentity mapping r) := by
  refine agrees_get_bind fun w w' h => ?_
  dsimp only
  rw [h.object?_eq hk]
  split
  · rename_i v found
    exact agrees_pure (h.shows_object? hk found)
  · refine agrees_bind (agrees_instantiate _ _) fun v hv => ?_
    have shown := u.shows_of_within hv
    have finished : Agrees (AlikeUnder u) u.Shows
        (remember r.key v true >>= fun _ => pure v) (remember r.key v true >>= fun _ => pure v) :=
      agrees_bind (agrees_remember shown true) fun _ _ => agrees_pure shown
    refine agrees_bind (agrees_assign? shown (agrees_giveKey · r.key) _) fun _ _ => ?_
    refine agrees_bind (agrees_assign? shown (agrees_giveParent · r.key) _) fun _ _ => ?_
    exact finished

theorem agrees_chosenValue (hr : r.Within u.visible) {m : Member} (hm : m.Within u.visible) :
    Agrees (AlikeUnder u) (fun v => v.Within u.visible) (chosenValue r m) (chosenValue r m) := by
  rw [chosenValue]
  split
  · exact agrees_giveKey m r.key
  split
  · exact agrees_giveParent m r.key
  · exact agrees_partValue hr hm

theorem agrees_chosenValues (hr : r.Within u.visible) {ms : List (Option Member)}
    (hms : ∀ m, some m ∈ ms → m.Within u.visible) :
    Agrees (AlikeUnder u) (Value.WithinEach u.visible) (chosenValues r ms) (chosenValues r ms) := by
  induction ms with
  | nil => exact agrees_pure trivial
  | cons m rest ih =>
    cases m with
    | none => exact agrees_throw _
    | some m =>
      refine agrees_bind (agrees_chosenValue hr (hms m (.head _))) fun v hv => ?_
      exact agrees_bind (ih fun x hx => hms x (.tail _ hx)) fun vs hvs => agrees_pure ⟨hv, hvs⟩

theorem agrees_loadChosen (hr : r.Within u.visible) {ms : List (Option Member)}
    (hms : ∀ m, some m ∈ ms → m.Within u.visible) :
    Agrees (AlikeUnder u) u.Shows (loadChosen r ms) (loadChosen r ms) := by
  refine agrees_bind (agrees_chosenValues hr hms) fun vs hvs => ?_
  split
  · exact agrees_pure (u.shows_of_within hvs.1)
  · exact agrees_pure (by rintro i ⟨⟩)

end Workspace

def RowForm.asksIdentities : RowForm → Bool
  | .chosen _ => false
  | .identity => true
  | .whole ignoreIdentities => !ignoreIdentities

/-- Whether the choices of the members that a reader loads hold visible objects only. -/
structure RowReader.Within (visible : ObjectId → Prop) (reader : RowReader) : Prop where
  members : ∀ m ∈ reader.mapping.members, m.Within visible
  chosen : ∀ ms, reader.form = .chosen ms → ∀ m ∈ ms, m.Within visible

theorem RowReader.agrees_load {u : Veil} {reader : RowReader} (h : reader.Within u.visible)
    {r : Record} (hr : r.Within u.visible)
    (hk : reader.form.asksIdentities = true → ¬u.written r.key) :
    Agrees (Workspace.AlikeUnder u) u.Shows (reader.load r) (reader.load r) := by
  obtain ⟨mapping, form⟩ := reader
  cases form with
  | chosen ms =>
    exact Workspace.agrees_loadChosen hr fun m hm => h.chosen ms rfl m (by simpa using hm)
  | identity => exact Workspace.agrees_loadIdentity (hk rfl)
  | whole ignoreIdentities =>
    refine Workspace.agrees_loadWhole hr h.members ?_
    cases ignoreIdentities with
    | true => exact .inl rfl
    | false => exact .inr (hk rfl)

end RecordStore
