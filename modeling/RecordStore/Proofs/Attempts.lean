import RecordStore.Fault

/-!
# Outcomes of attempts

Running an attempt on a state gives an outcome and a state. The equations below run an attempt step
by step; what every step keeps of the state, the whole attempt keeps.
-/

set_option autoImplicit false

namespace RecordStore

theorem bind_eq_ok_iff {α β : Type} (x : Except Fault α) (f : α → Except Fault β) (b : β) :
    x >>= f = .ok b ↔ ∃ a, x = .ok a ∧ f a = .ok b := by
  cases x with
  | error e => simp [bind, Except.bind]
  | ok a => simp [bind, Except.bind]

theorem bind_eq_error_iff {α β : Type} (x : Except Fault α) (f : α → Except Fault β) (e : Fault) :
    x >>= f = .error e ↔ x = .error e ∨ ∃ a, x = .ok a ∧ f a = .error e := by
  cases x with
  | error e => simp [bind, Except.bind]
  | ok a => simp [bind, Except.bind]

theorem bind_error_ne_ok {α β : Type} (x : Except Fault α) (f : α → Fault) (b : β) :
    (x >>= fun a => .error (f a)) ≠ .ok b := by
  simp [bind_eq_ok_iff]

theorem bind_congr_of_ok {α β : Type} {x : Except Fault α} {f g : α → Except Fault β}
    (h : ∀ a, x = .ok a → f a = g a) : x >>= f = x >>= g := by
  cases x with
  | error e => rfl
  | ok a => exact h a rfl

theorem mapM_congr {α β : Type} {f g : α → Except Fault β} {xs : List α}
    (h : ∀ x ∈ xs, f x = g x) : xs.mapM f = xs.mapM g := by
  induction xs with
  | nil => rfl
  | cons x rest ih =>
    obtain ⟨first, others⟩ := List.forall_mem_cons.mp h
    rw [List.mapM_cons, List.mapM_cons, first, ih others]

theorem map_eq_ok_iff {α β : Type} (f : α → β) (x : Except Fault α) (b : β) :
    x.map f = .ok b ↔ ∃ a, x = .ok a ∧ f a = b := by
  cases x with
  | error e => simp [Except.map]
  | ok a => simp [Except.map]

theorem bind_isOk_iff {α β : Type} (x : Except Fault α) (f : α → Except Fault β) :
    (∃ b, x >>= f = .ok b) ↔ ∃ a, x = .ok a ∧ ∃ b, f a = .ok b := by
  simp only [bind_eq_ok_iff]
  exact ⟨fun ⟨b, a, h, hb⟩ => ⟨a, h, b, hb⟩, fun ⟨a, h, b, hb⟩ => ⟨b, a, h, hb⟩⟩

theorem mapM_isOk_iff {α β : Type} {f : α → Except Fault β} {xs : List α} :
    (∃ ys, xs.mapM f = .ok ys) ↔ ∀ x ∈ xs, ∃ y, f x = .ok y := by
  induction xs with
  | nil => simp [pure, Except.pure]
  | cons x rest ih =>
    rw [List.forall_mem_cons, ← ih]
    simp only [List.mapM_cons, bind_eq_ok_iff]
    constructor
    · rintro ⟨_, y, first, ys, others, -⟩
      exact ⟨⟨y, first⟩, ys, others⟩
    · rintro ⟨⟨y, first⟩, ys, others⟩
      exact ⟨_, y, first, ys, others, rfl⟩

theorem optionMapM_isOk_iff {α β : Type} {f : α → Except Fault β} {o : Option α} :
    (∃ y, o.mapM f = .ok y) ↔ ∀ x ∈ o, ∃ y, f x = .ok y := by
  cases o with
  | none => simp [pure, Except.pure]
  | some x => cases h : f x <;> simp [h, Functor.map, Except.map]

theorem optionMapM_eq_some {α β : Type} {f : α → Except Fault β} {o : Option α} {y : β}
    (h : o.mapM f = .ok (some y)) : ∃ x, o = some x ∧ f x = .ok y := by
  cases o with
  | none => cases h
  | some x =>
    rw [Option.mapM_some] at h
    cases made : f x with
    | error e =>
      rw [made] at h
      cases h
    | ok y' =>
      rw [made] at h
      cases h
      exact ⟨x, rfl, made⟩

theorem mapM_id_eq_ok_iff {α : Type} (xs : List (Except Fault α)) (as : List α) :
    xs.mapM id = .ok as ↔ xs = as.map .ok := by
  induction xs generalizing as with
  | nil => cases as <;> simp [pure, Except.pure]
  | cons x rest ih =>
    rw [List.mapM_cons, bind_eq_ok_iff]
    constructor
    · rintro ⟨a, first, h⟩
      obtain ⟨others, read, h⟩ := (bind_eq_ok_iff _ _ _).mp h
      cases h
      rw [List.map_cons, ← (ih others).mp read, ← first, id]
    · intro h
      cases as with
      | nil => cases h
      | cons a others =>
        obtain ⟨first, read⟩ := List.cons.inj h
        exact ⟨a, first, by rw [(ih others).mpr read]; rfl⟩

/-- Whether all that can go wrong is that a value is misused. -/
def Misuses {α : Type} (x : Except Fault α) : Prop := ∀ f, x = .error f → ∃ u, f = .misuse u

theorem misuses_ok {α : Type} (a : α) : Misuses (.ok a : Except Fault α) := nofun

theorem misuses_error {α : Type} (u : Misuse) : Misuses (.error (.misuse u) : Except Fault α) := by
  intro f h
  cases h
  exact ⟨u, rfl⟩

theorem misuses_bind {α β : Type} {x : Except Fault α} {f : α → Except Fault β} (hx : Misuses x)
    (hf : ∀ a, Misuses (f a)) : Misuses (x >>= f) := by
  intro e h
  rcases (bind_eq_error_iff x f e).mp h with h | ⟨a, -, h⟩
  · exact hx e h
  · exact hf a e h

theorem misuses_mapM {α β : Type} {f : α → Except Fault β} {xs : List α}
    (h : ∀ x ∈ xs, Misuses (f x)) : Misuses (xs.mapM f) := by
  induction xs with
  | nil => exact misuses_ok []
  | cons x rest ih =>
    obtain ⟨first, others⟩ := List.forall_mem_cons.mp h
    rw [List.mapM_cons]
    exact misuses_bind first fun _ => misuses_bind (ih others) fun _ => misuses_ok _

theorem misuses_optionMapM {α β : Type} {f : α → Except Fault β} {o : Option α}
    (h : ∀ a ∈ o, Misuses (f a)) : Misuses (o.mapM f) := by
  cases o with
  | none => exact misuses_ok none
  | some a => exact misuses_bind (h a rfl) fun _ => misuses_ok _

namespace Attempt

variable {σ τ α β : Type}

/-- The outcome of an attempt on a state, and the state it leaves. -/
def on (a : Attempt σ α) (s : σ) : Except Fault α × σ := a.run.run s

@[simp] theorem on_pure (x : α) (s : σ) : on (pure x) s = (.ok x, s) := rfl

@[simp] theorem on_throw (f : Fault) (s : σ) : on (throw f : Attempt σ α) s = (.error f, s) := rfl

@[simp] theorem on_get (s : σ) : on (get : Attempt σ σ) s = (.ok s, s) := rfl

@[simp] theorem on_set (s t : σ) : on (set t : Attempt σ PUnit) s = (.ok ⟨⟩, t) := rfl

@[simp] theorem on_modify (f : σ → σ) (s : σ) :
    on (modify f : Attempt σ PUnit) s = (.ok ⟨⟩, f s) := rfl

@[simp] theorem on_ofExcept (x : Except Fault α) (s : σ) : on (ofExcept x) s = (x, s) := by
  cases x <;> rfl

@[simp] theorem on_zoom (view : σ → τ) (update : σ → τ → σ) (a : Attempt τ α) (s : σ) :
    on (a.zoom view update) s = ((a.on (view s)).1, update s (a.on (view s)).2) := rfl

@[simp] theorem on_mapFault (f : Fault → Fault) (a : Attempt σ α) (s : σ) :
    on (a.mapFault f) s = ((a.on s).1.mapError f, (a.on s).2) := rfl

@[simp] theorem on_map (f : α → β) (a : Attempt σ α) (s : σ) :
    on (f <$> a) s = ((a.on s).1.map f, (a.on s).2) := by
  simp only [on, ExceptT.run_map, StateT.run_map]
  rcases a.run.run s with ⟨e | x, t⟩ <;> rfl

@[simp] theorem on_observing (a : Attempt σ α) (s : σ) :
    on a.observing s = (.ok (a.on s).1, (a.on s).2) := rfl

theorem on_bind (a : Attempt σ α) (f : α → Attempt σ β) (s : σ) :
    on (a >>= f) s =
      match a.on s with
      | (.ok x, t) => (f x).on t
      | (.error e, t) => (.error e, t) := by
  simp only [on, ExceptT.run_bind, StateT.run_bind]
  rcases a.run.run s with ⟨e | x, t⟩ <;> rfl

theorem on_bind_of_ok {a : Attempt σ α} {s t : σ} {x : α} (h : a.on s = (.ok x, t))
    (f : α → Attempt σ β) : on (a >>= f) s = (f x).on t := by
  rw [on_bind, h]

theorem on_bind_eq_ok_iff (a : Attempt σ α) (f : α → Attempt σ β) (s u : σ) (y : β) :
    on (a >>= f) s = (.ok y, u) ↔ ∃ x t, a.on s = (.ok x, t) ∧ (f x).on t = (.ok y, u) := by
  rw [on_bind]
  rcases a.on s with ⟨e | x, t⟩
  · simp
  · constructor
    · exact fun h => ⟨x, t, rfl, h⟩
    · rintro ⟨_, _, h, hf⟩
      cases h
      exact hf

theorem on_mapM_ofExcept (xs : List (Except Fault α)) (s : σ) :
    on (xs.mapM ofExcept) s = (xs.mapM id, s) := by
  induction xs with
  | nil => rfl
  | cons x rest ih =>
    rw [List.mapM_cons, List.mapM_cons, on_bind, on_ofExcept]
    cases x with
    | error f => rfl
    | ok a =>
      show on (rest.mapM ofExcept >>= fun as => pure (a :: as)) s =
        (rest.mapM id >>= fun as => pure (a :: as), s)
      rw [on_bind, ih]
      cases rest.mapM id <;> rfl

theorem on_ofExcept_eq_ok_iff (x : Except Fault α) (s t : σ) (a : α) :
    on (ofExcept x) s = (.ok a, t) ↔ x = .ok a ∧ s = t := by
  rw [on_ofExcept, Prod.mk.injEq]

theorem on_zoom_eq_ok_iff (view : σ → τ) (update : σ → τ → σ) (a : Attempt τ α) (s u : σ) (x : α) :
    on (a.zoom view update) s = (.ok x, u) ↔ ∃ t, a.on (view s) = (.ok x, t) ∧ u = update s t := by
  rw [on_zoom]
  rcases a.on (view s) with ⟨y, t⟩
  constructor
  · intro h
    cases h
    exact ⟨t, rfl, rfl⟩
  · rintro ⟨_, h, rfl⟩
    cases h
    rfl

theorem on_tryCatch (a : Attempt σ α) (f : Fault → Attempt σ α) (s : σ) :
    on (tryCatch a f) s =
      match a.on s with
      | (.ok x, t) => (.ok x, t)
      | (.error e, t) => (f e).on t := by
  change (ExceptT.tryCatch a f).run.run s = _
  simp only [ExceptT.tryCatch, ExceptT.run_mk, StateT.run_bind, on]
  change (a.run.run s >>= _) = _
  rcases a.run.run s with ⟨e | x, t⟩ <;> rfl

theorem on_tryCatch_of_ok {a : Attempt σ α} {s t : σ} {x : α} (h : a.on s = (.ok x, t))
    (f : Fault → Attempt σ α) : on (tryCatch a f) s = (.ok x, t) := by
  rw [on_tryCatch, h]

theorem on_tryCatch_of_error {a : Attempt σ α} {s t : σ} {e : Fault} (h : a.on s = (.error e, t))
    (f : Fault → Attempt σ α) : on (tryCatch a f) s = (f e).on t := by
  rw [on_tryCatch, h]

/-- An attempt keeps a property of the state, whatever comes of it. -/
structure Keeps (P : σ → Prop) (a : Attempt σ α) : Prop where
  after : ∀ s, P s → P (a.on s).2

variable {P : σ → Prop}

theorem Keeps.of_on {a : Attempt σ α} (h : Keeps P a) {s t : σ} {outcome : Except Fault α}
    (hs : P s) (ran : a.on s = (outcome, t)) : P t := by
  have kept := h.after s hs
  rwa [ran] at kept

theorem keeps_pure (x : α) : Keeps P (pure x : Attempt σ α) := ⟨fun _ h => h⟩

theorem keeps_throw (f : Fault) : Keeps P (throw f : Attempt σ α) := ⟨fun _ h => h⟩

theorem keeps_throw_bind (f : Fault) (g : α → Attempt σ β) : Keeps P (throw f >>= g) :=
  ⟨fun _ h => h⟩

theorem keeps_get : Keeps P (get : Attempt σ σ) := ⟨fun _ h => h⟩

theorem keeps_set {t : σ} (h : P t) : Keeps P (set t : Attempt σ PUnit) := ⟨fun _ _ => h⟩

theorem keeps_modify {f : σ → σ} (hf : ∀ s, P s → P (f s)) :
    Keeps P (modify f : Attempt σ PUnit) := ⟨hf⟩

theorem keeps_ofExcept (x : Except Fault α) : Keeps P (ofExcept x : Attempt σ α) := by
  constructor
  intro s h
  rwa [on_ofExcept]

theorem keeps_bind {a : Attempt σ α} {f : α → Attempt σ β} (ha : Keeps P a)
    (hf : ∀ x, Keeps P (f x)) : Keeps P (a >>= f) := by
  constructor
  intro s hs
  have ht := ha.after s hs
  rw [on_bind]
  rcases hr : a.on s with ⟨e | x, t⟩
  · rwa [hr] at ht
  · rw [hr] at ht
    exact (hf x).after t ht

theorem keeps_get_bind {f : σ → Attempt σ β} (hf : ∀ s, P s → Keeps P (f s)) :
    Keeps P (get >>= f) := by
  constructor
  intro s hs
  rw [on_bind_of_ok (on_get s)]
  exact (hf s hs).after s hs

theorem keeps_zoom {Q : τ → Prop} {view : σ → τ} {update : σ → τ → σ} {a : Attempt τ α}
    (ha : Keeps Q a) (hP : ∀ s, P s → Q (view s)) (hQ : ∀ s t, P s → Q t → P (update s t)) :
    Keeps P (a.zoom view update) := by
  constructor
  intro s hs
  rw [on_zoom]
  exact hQ s _ hs (ha.after _ (hP s hs))

theorem keeps_mapFault {a : Attempt σ α} (ha : Keeps P a) (f : Fault → Fault) :
    Keeps P (a.mapFault f) := ⟨ha.after⟩

end Attempt
end RecordStore
