import RecordStore.Proofs.FullRows
import RecordStore.Proofs.StatementFaults

/-!
# Faults of rows

A row can be asked for long after its statement was executed. It then fails where a value of its
record is misused, or where the window of the statement starts or stops at no position.
-/

set_option autoImplicit false

namespace RecordStore

open Attempt

namespace Attempt

variable {σ α β : Type}

/-- Whether all that an attempt can fail with is that a value is misused. -/
def Slips (a : Attempt σ α) : Prop := Blames (fun _ => True) (fun f => ∃ u, f = .misuse u) a

theorem slips_pure (x : α) : Slips (pure x : Attempt σ α) := blames_pure x

theorem slips_throw (u : Misuse) : Slips (throw (.misuse u) : Attempt σ α) := blames_throw ⟨u, rfl⟩

theorem slips_modify (f : σ → σ) : Slips (modify f : Attempt σ PUnit) := blames_modify f

theorem slips_ofExcept {x : Except Fault α} (h : Misuses x) : Slips (ofExcept x : Attempt σ α) :=
  blames_ofExcept h

theorem slips_bind {a : Attempt σ α} {f : α → Attempt σ β} (ha : Slips a) (hf : ∀ x, Slips (f x)) :
    Slips (a >>= f) :=
  blames_bind ⟨fun _ _ => trivial⟩ ha fun _ x _ _ _ => hf x

theorem slips_get_bind {f : σ → Attempt σ β} (hf : ∀ s, Slips (f s)) : Slips (get >>= f) :=
  blames_get_bind fun s _ => hf s

end Attempt

mutual

theorem DeclaredType.misuses_restore (declared : DeclaredType) (v : Value) :
    Misuses (declared.restore v) := by
  cases v with
  | collection kind items =>
    cases kind with
    | list =>
      rw [restore]
      intro f failed
      refine misuses_restoreEach declared items f ?_
      cases restored : declared.restoreEach items with
      | error g =>
        rw [restored] at failed
        exact congrArg Except.error (Except.error.inj failed)
      | ok items =>
        rw [restored] at failed
        cases failed
    | _ =>
      simp only [restore]
      exact misuses_ok _
  | text t =>
    simp only [restore]
    split
    · split
      · exact misuses_ok _
      · exact misuses_error _
    · exact misuses_ok _
  | _ =>
    simp only [restore]
    exact misuses_ok _

theorem DeclaredType.misuses_restoreEach (declared : DeclaredType) (vs : List Value) :
    Misuses (declared.restoreEach vs) := by
  cases vs with
  | nil =>
    rw [restoreEach]
    exact misuses_ok _
  | cons v rest =>
    rw [restoreEach]
    exact misuses_bind (misuses_restore declared v) fun _ =>
      misuses_bind (misuses_restoreEach declared rest) fun _ => misuses_ok _

end

theorem misuses_map {α β : Type} {x : Except Fault α} (h : Misuses x) (g : α → β) :
    Misuses (x.map g) := by
  cases x with
  | error f =>
    obtain ⟨u, rfl⟩ := h f rfl
    exact misuses_error u
  | ok a => exact misuses_ok _

theorem Key.misuses_encode (k : Key) : Misuses k.encode := by
  rw [encode_eq]
  exact misuses_map k.misuses_pathText _

theorem Member.misuses_giveKey (m : Member) (k : Key) : Misuses (m.giveKey k) := by
  rw [giveKey]
  split
  · exact misuses_bind (misuses_map k.misuses_encode _) fun _ => misuses_ok _
  · exact misuses_ok _

theorem Member.misuses_giveParent (m : Member) (k : Key) : Misuses (m.giveParent k) := by
  rw [giveParent]
  split
  · refine misuses_bind ?_ fun _ => misuses_ok _
    cases k.parent? with
    | none => exact misuses_ok _
    | some p => exact misuses_map p.misuses_encode _
  · exact misuses_ok _

namespace Workspace

theorem slips_assign (v : Value) (field : Text) (x : Value) : Slips (assign v field x) := by
  cases v with
  | object i =>
    refine slips_get_bind fun w => ?_
    split
    · exact slips_bind (slips_throw _) fun _ => slips_modify _
    · exact slips_modify _
  | _ => exact slips_throw _

theorem slips_instantiate (className : Option ClassName) (s : Shape) :
    Slips (instantiate className s) := by
  have made (s : Shape) : Slips (Value.object <$> create s) :=
    blames_of_total fun _ => ⟨_, _, rfl⟩
  unfold instantiate
  split
  · exact made s
  · exact slips_pure _
  · split
    · exact made .ofKey
    · exact slips_throw _

mutual

theorem slips_partValue (r : Record) (m : Member) : Slips (partValue r m) := by
  cases m with
  | plain t =>
    rw [partValue]
    exact slips_ofExcept (t.declared.misuses_restore _)
  | embedded t parts =>
    rw [partValue]
    split
    · exact slips_pure _
    · exact slips_bind (slips_instantiate _ _) fun v =>
        slips_bind (slips_assignParts r v parts) fun _ => slips_pure _

theorem slips_assignParts (r : Record) (v : Value) (ms : List Member) :
    Slips (assignParts r v ms) := by
  cases ms with
  | nil =>
    rw [assignParts]
    exact slips_pure _
  | cons m rest =>
    rw [assignParts]
    exact slips_bind (slips_partValue r m) fun x =>
      slips_bind (slips_assign v m.name x) fun _ => slips_assignParts r v rest

end

theorem slips_memberValue (r : Record) (m : Member) : Slips (memberValue r m) := by
  unfold memberValue
  split
  · exact slips_ofExcept (m.misuses_giveKey _)
  split
  · exact slips_ofExcept (m.misuses_giveParent _)
  split
  · exact slips_pure _
  · exact slips_partValue r m

theorem slips_fill (r : Record) (v : Value) (ms : List Member) : Slips (fill r v ms) := by
  induction ms with
  | nil => exact slips_pure _
  | cons m rest ih =>
    exact slips_bind (slips_memberValue r m) fun x =>
      slips_bind (slips_assign v m.name x) fun _ => ih

theorem slips_loadFresh (mapping : ClassMapping) (r : Record) : Slips (loadFresh mapping r) :=
  slips_bind (slips_instantiate _ _) fun v =>
    slips_bind (slips_fill r v _) fun _ => slips_pure _

theorem slips_loadWhole (mapping : ClassMapping) (r : Record) (ignoreIdentities : Bool) :
    Slips (loadWhole mapping r ignoreIdentities) := by
  cases ignoreIdentities with
  | true => exact slips_loadFresh mapping r
  | false =>
    refine slips_get_bind fun w => ?_
    dsimp only
    split
    · exact slips_bind (slips_loadFresh mapping r) fun _ =>
        slips_bind (slips_modify _) fun _ => slips_pure _
    split
    · exact slips_bind (slips_fill r _ _) fun _ =>
        slips_bind (slips_modify _) fun _ => slips_pure _
    · exact slips_pure _

theorem slips_loadIdentity (mapping : ClassMapping) (r : Record) :
    Slips (loadIdentity mapping r) := by
  refine slips_get_bind fun w => ?_
  split
  · exact slips_pure _
  · refine slips_bind (slips_instantiate _ _) fun v => slips_bind ?_ fun _ =>
      slips_bind ?_ fun _ => slips_bind (slips_modify _) fun _ => slips_pure _
    · cases mapping.primary? with
      | none => exact slips_pure _
      | some m =>
        exact slips_bind (slips_ofExcept (m.misuses_giveKey _)) fun _ => slips_assign _ _ _
    · cases mapping.parent? with
      | none => exact slips_pure _
      | some m =>
        exact slips_bind (slips_ofExcept (m.misuses_giveParent _)) fun _ => slips_assign _ _ _

theorem slips_chosenValues (r : Record) (ms : List (Option Member)) :
    Slips (chosenValues r ms) := by
  have chosen (m : Member) : Slips (chosenValue r m) := by
    unfold chosenValue
    split
    · exact slips_ofExcept (m.misuses_giveKey _)
    split
    · exact slips_ofExcept (m.misuses_giveParent _)
    · exact slips_partValue r m
  induction ms with
  | nil => exact slips_pure _
  | cons m rest ih =>
    cases m with
    | none => exact slips_throw _
    | some m => exact slips_bind (chosen m) fun _ => slips_bind ih fun _ => slips_pure _

end Workspace

theorem RowReader.slips_load (reader : RowReader) (r : Record) : Slips (reader.load r) := by
  unfold load
  split
  · refine slips_bind (Workspace.slips_chosenValues r _) fun vs => ?_
    split <;> exact slips_pure _
  · exact Workspace.slips_loadIdentity reader.mapping r
  · exact Workspace.slips_loadWhole reader.mapping r _

theorem Rows.pull_eq_error {σ α β : Type} {m : RowMaker σ α β} {r : Rows α β} {s : σ} {f : Fault}
    {p : Rows α β × σ} (h : (pull m).on (r, s) = (.error f, p)) :
    (∃ x ∈ r.pending, ∃ g t, (m.receive x).on s = (.error g, t) ∧ f = g.wrapped .reading r.query) ∨
      ∃ a t u, (m.make a).on t = (.error f, u) := by
  rw [pull_on] at h
  split at h
  · cases h
  split at h
  · cases h
  cases left : r.pending with
  | nil =>
    rw [left] at h
    cases h
  | cons x rest =>
    rw [left] at h
    dsimp only at h
    split at h
    · rename_i g t received
      cases h
      exact .inl ⟨x, .head _, g, t, received, rfl⟩
    · rename_i a t received
      split at h
      · cases h
      · rename_i g u unmade
        cases h
        exact .inr ⟨a, t, u, unmade⟩

/-- What a row of a statement fails with. -/
inductive Statement.RowFailsWith (s : Statement) : Fault → Prop
  | misused (u : Misuse) : RowFailsWith s (.misuse u)
  | window {w : Window} {f : Fault} (h : Cursor.stretch w = .error f) :
      RowFailsWith s (f.wrapped .reading s.text)

namespace Execution

variable {e : Execution} {d after : Database} {rows : Rows Record Value} {reader : RowReader}

theorem stretch_of_pending {native : NativeQuery}
    (h : (e.run native).on d = (.ok (.rows rows reader), after)) :
    rows.query = e.candidate.query ∧
      ∀ x ∈ rows.pending, ∀ f, x.outcome = .error f → Cursor.stretch e.window = .error f := by
  obtain ⟨t, c, opened, items, made⟩ := run_rows h
  rw [openRows_on] at opened
  cases opened
  refine ⟨rfl, fun x hx f failed => ?_⟩
  rcases made with rfl | rfl
  · exact Cursor.stretch_of_outcome hx failed
  · obtain ⟨r, -, rfl⟩ := List.mem_map.mp hx
    cases failed

end Execution

namespace Database

variable {d after : Database} {s : Statement} {range : Range} {parameters : Parameters}
  {now : Moment} {rows left : Rows Record Value} {reader : RowReader}

theorem blames_receive (reader : RowReader) (x : Delivery Record) :
    Blames Sound (fun f => x.outcome = .error f) (reader.maker.receive x) := by
  have read (n : Nat) : Keeps Sound (reader.maker.read n) ∧
      Blames Sound (fun f => x.outcome = .error f) (reader.maker.read n) := by
    refine ⟨keeps_onStore (Store.Sound.stable.uncounted.keeps_read n), ?_⟩
    refine blames_of_ok fun d sound => ?_
    have steady : d.store.outages.rows = none := by rw [sound.steady]
    show ∃ y t, (onStore (Store.read n)).on d = (.ok y, t)
    rw [onStore, on_zoom, Store.read_on steady n]
    exact ⟨_, _, rfl⟩
  have reads : Keeps Sound (x.read.forM reader.maker.read) ∧
      Blames Sound (fun f => x.outcome = .error f) (x.read.forM reader.maker.read) := by
    cases x.read with
    | none => exact ⟨keeps_pure _, blames_pure _⟩
    | some n => exact read n
  exact blames_bind reads.1 reads.2 fun _ _ _ _ _ => blames_ofExcept fun _ failed => failed

/-- Whatever is left of the rows of a statement, and whatever has become of the database since, a
row that is asked for does not fail for anything else. -/
theorem pull_failsWith (h : (execute s range parameters now).on d =
    (.ok (.rows rows reader), after))
    (pending : left.pending ⊆ rows.pending) (query : left.query = rows.query) {later : Database}
    (sound : later.Sound) {f : Fault} {p : Rows Record Value × Database}
    (failed : (Rows.pull reader.maker).on (left, later) = (.error f, p)) : s.RowFailsWith f := by
  obtain ⟨c, plan, native, compiles, -⟩ := Statement.CompilesTo.of_execute h
  rcases execute_eq_ok compiles h with ⟨-, -, number | nothing⟩ | ⟨w, -, ran⟩
  · cases number
  · cases nothing
  obtain ⟨asked, onlyWindow⟩ := Execution.stretch_of_pending ran
  rcases Rows.pull_eq_error failed with ⟨x, hx, g, t, received, rfl⟩ | ⟨r, t, u, unmade⟩
  · have outcome := (blames_receive reader x).fault later g t sound received
    have stretched := onlyWindow x (pending hx) g outcome
    have text : left.query = s.text :=
      query.trans (asked.trans (s.query_of_candidateIn compiles.candidateIn_eq))
    rw [text]
    exact .window stretched
  · have slips : Slips (onWorkspace (reader.load r)) := by
      unfold onWorkspace
      exact blames_zoom (reader.slips_load r) fun _ _ => trivial
    obtain ⟨m, rfl⟩ := slips.fault t f u trivial unmade
    exact .misused m

end Database
end RecordStore
