import RecordStore.Proofs.Attempts

/-!
# Attempts that agree

Two attempts agree if they come to the same on states that are related, and leave related states.
What the first parts of two attempts give has to be known only as far as the other parts need it.
-/

set_option autoImplicit false

namespace RecordStore
namespace Attempt

variable {σ τ α β : Type} {R : σ → σ → Prop} {Q : α → Prop} {S : β → Prop}

/-- From two states two attempts lead to related states and to the same outcome, and what they give
has a property. -/
structure AgreesAt (R : σ → σ → Prop) (Q : α → Prop) (a b : Attempt σ α) (s t : σ) : Prop where
  outcome : (b.on t).1 = (a.on s).1
  state : R (a.on s).2 (b.on t).2
  gives : ∀ x, (a.on s).1 = .ok x → Q x

/-- Whether two attempts agree from all states that are related. -/
structure Agrees (R : σ → σ → Prop) (Q : α → Prop) (a b : Attempt σ α) : Prop where
  starting : ∀ s t, R s t → AgreesAt R Q a b s t

namespace AgreesAt

variable {a b : Attempt σ α} {s t : σ}

/-- Attempts that agree both fail, and with the same fault, or both give the same. -/
theorem cases (h : AgreesAt R Q a b s t) :
    ∃ s' t', R s' t' ∧
      ((∃ f, a.on s = (.error f, s') ∧ b.on t = (.error f, t')) ∨
        ∃ x, Q x ∧ a.on s = (.ok x, s') ∧ b.on t = (.ok x, t')) := by
  obtain ⟨same, state, gives⟩ := h
  rcases ha : a.on s with ⟨f | x, s'⟩ <;> rcases hb : b.on t with ⟨f' | x', t'⟩ <;>
    rw [ha, hb] at same <;> rw [ha, hb] at state <;> cases same
  · exact ⟨s', t', state, .inl ⟨f, rfl, rfl⟩⟩
  · exact ⟨s', t', state, .inr ⟨x, gives x (by rw [ha]), rfl, rfl⟩⟩

theorem of_error {f : Fault} {s' t' : σ} (ha : a.on s = (.error f, s'))
    (hb : b.on t = (.error f, t')) (state : R s' t') : AgreesAt R Q a b s t := by
  constructor
  · rw [ha, hb]
  · rwa [ha, hb]
  · intro x hx
    rw [ha] at hx
    cases hx

theorem of_ok {x : α} {s' t' : σ} (ha : a.on s = (.ok x, s')) (hb : b.on t = (.ok x, t'))
    (state : R s' t') (hx : Q x) : AgreesAt R Q a b s t := by
  constructor
  · rw [ha, hb]
  · rwa [ha, hb]
  · intro y hy
    rw [ha] at hy
    cases hy
    exact hx

theorem bind (h : AgreesAt R Q a b s t) {f g : α → Attempt σ β}
    (hf : ∀ x s' t', a.on s = (.ok x, s') → R s' t' → Q x → AgreesAt R S (f x) (g x) s' t') :
    AgreesAt R S (a >>= f) (b >>= g) s t := by
  obtain ⟨s', t', state, ⟨e, left, right⟩ | ⟨x, hx, left, right⟩⟩ := h.cases
  · exact of_error (by rw [on_bind, left]) (by rw [on_bind, right]) state
  · obtain ⟨outcome, state, gives⟩ := hf x s' t' left state hx
    rw [← on_bind_of_ok left f, ← on_bind_of_ok right g] at outcome state
    rw [← on_bind_of_ok left f] at gives
    exact ⟨outcome, state, gives⟩

theorem get_bind {f g : σ → Attempt σ β} (h : AgreesAt R S (f s) (g t) s t) :
    AgreesAt R S (get >>= f) (get >>= g) s t := by
  obtain ⟨outcome, state, gives⟩ := h
  rw [← on_bind_of_ok (on_get s) f, ← on_bind_of_ok (on_get t) g] at outcome state
  rw [← on_bind_of_ok (on_get s) f] at gives
  exact ⟨outcome, state, gives⟩

end AgreesAt

theorem agrees_pure {x : α} (h : Q x) : Agrees R Q (pure x) (pure x) :=
  ⟨fun _ _ hs => .of_ok rfl rfl hs h⟩

theorem agrees_throw (f : Fault) : Agrees R Q (throw f) (throw f) :=
  ⟨fun _ _ hs => .of_error rfl rfl hs⟩

theorem agrees_ofExcept {x : Except Fault α} (h : ∀ y, x = .ok y → Q y) :
    Agrees R Q (ofExcept x) (ofExcept x) := by
  cases x with
  | error f => exact agrees_throw f
  | ok y => exact agrees_pure (h y rfl)

theorem agrees_bind {a b : Attempt σ α} {f g : α → Attempt σ β} (h : Agrees R Q a b)
    (hf : ∀ x, Q x → Agrees R S (f x) (g x)) : Agrees R S (a >>= f) (b >>= g) :=
  ⟨fun s t hs => (h.starting s t hs).bind fun x s' t' _ hs' hx => (hf x hx).starting s' t' hs'⟩

theorem agrees_get_bind {f g : σ → Attempt σ β} (h : ∀ s t, R s t → Agrees R S (f s) (g t)) :
    Agrees R S (get >>= f) (get >>= g) :=
  ⟨fun s t hs => ((h s t hs).starting s t hs).get_bind⟩

theorem agrees_set {s' t' : σ} (h : R s' t') :
    Agrees R (fun _ => True) (set s' : Attempt σ PUnit) (set t') :=
  ⟨fun _ _ _ => .of_ok rfl rfl h trivial⟩

theorem agrees_modify {f g : σ → σ} (h : ∀ s t, R s t → R (f s) (g t)) :
    Agrees R (fun _ => True) (modify f : Attempt σ PUnit) (modify g) :=
  ⟨fun s t hs => .of_ok rfl rfl (h s t hs) trivial⟩

theorem agrees_zoom {T : τ → τ → Prop} {view : σ → τ} {update : σ → τ → σ} {a b : Attempt τ α}
    (h : Agrees T Q a b) (hview : ∀ s t, R s t → T (view s) (view t))
    (hupdate : ∀ s t x y, R s t → T x y → R (update s x) (update t y)) :
    Agrees R Q (a.zoom view update) (b.zoom view update) := by
  constructor
  intro s t hs
  obtain ⟨outcome, state, gives⟩ := h.starting _ _ (hview s t hs)
  exact ⟨outcome, hupdate s t _ _ hs state, gives⟩

theorem agrees_map {a b : Attempt σ α} (h : Agrees R Q a b) (f : α → β) :
    Agrees R (fun _ => True) (f <$> a) (f <$> b) := by
  constructor
  intro s t hs
  obtain ⟨outcome, state, -⟩ := h.starting s t hs
  constructor
  · rw [on_map, on_map, outcome]
  · rwa [on_map, on_map]
  · exact fun _ _ => trivial

theorem agrees_mapFault {a b : Attempt σ α} (h : Agrees R Q a b) (f : Fault → Fault) :
    Agrees R Q (a.mapFault f) (b.mapFault f) := by
  constructor
  intro s t hs
  obtain ⟨s', t', state, ⟨e, left, right⟩ | ⟨x, hx, left, right⟩⟩ := (h.starting s t hs).cases
  · exact .of_error (by rw [on_mapFault, left]; rfl) (by rw [on_mapFault, right]; rfl) state
  · exact .of_ok (by rw [on_mapFault, left]; rfl) (by rw [on_mapFault, right]; rfl) state hx

end Attempt
end RecordStore
