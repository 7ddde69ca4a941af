import RecordStore.Store.Basic
import RecordStore.Proofs.Attempts
import RecordStore.Proofs.SameKeys

/-!
# Runs of the store

The states that a store comes to by what is asked of it. Whatever that is, each key has at most one
record, and no request is made to fail.
-/

set_option autoImplicit false

namespace RecordStore

/-- What can be asked of a store. -/
inductive StoreAction where
  | put (r : Record) (transaction : Option Nat)
  | delete (keys : List (Option Key)) (transaction : Option Nat)
  | lookup (keys : List (Option Key)) (transaction : Option Nat)
  | scan (shown : Value → Except Fault Text) (q : Selection) (transaction : Option Nat) (w : Window)
    (keysOnly : Bool)
  | count (shown : Value → Except Fault Text) (q : Selection) (transaction : Option Nat)
    (w : Window)
  /-- Takes a delivery of a cursor. -/
  | receive (d : Delivery Record)
  | begin
  | commit (number : Nat)
  | rollback (number : Nat)
  | clear
  | takeJournal

namespace StoreAction

def perform : StoreAction → Attempt Store Unit
  | .put r transaction => do let _ ← Store.put r transaction
  | .delete keys transaction => Store.delete keys transaction
  | .lookup keys transaction => do let _ ← Store.lookup keys transaction
  | .scan shown q transaction w keysOnly => do
    let _ ← Store.scan shown q transaction w keysOnly
  | .count shown q transaction w => do let _ ← Store.count shown q transaction w
  | .receive d => do let _ ← Store.receive d
  | .begin => do let _ ← Store.begin
  | .commit number => Store.commit number
  | .rollback number => Store.rollback number
  | .clear => modify Store.clear
  | .takeJournal => do let _ ← Store.takeJournal

def onlyAsks : StoreAction → Bool
  | .lookup _ _ | .scan _ _ _ _ _ | .count _ _ _ _ | .receive _ | .takeJournal => true
  | _ => false

def step (s : Store) (a : StoreAction) : Store := (a.perform.on s).2

end StoreAction

namespace Store

/-- The stores that some settings and some actions lead to. -/
def Reachable (s : Store) : Prop :=
  ∃ settings actions, s = List.foldl StoreAction.step (start settings) actions

/-- What holds of every store that is reached. -/
structure Sound (s : Store) : Prop where
  apart : s.records.Pairwise fun a b => a.key.same b.key = false
  steady : s.outages = ⟨[], none⟩

theorem mem_insert {r x : Record} {rs : List Record} (h : x ∈ insert r rs) : x = r ∨ x ∈ rs := by
  induction rs with
  | nil => simpa [insert] using h
  | cons y rest ih =>
    rw [insert] at h
    split at h
    · rcases List.mem_cons.mp h with h | h
      · exact .inl h
      · exact .inr (.tail _ h)
    · rcases List.mem_cons.mp h with h | h
      · exact .inr (h ▸ .head _)
      · exact (ih h).imp_right (.tail _)

theorem mem_insert_self (r : Record) (rs : List Record) : r ∈ insert r rs := by
  induction rs with
  | nil => exact .head _
  | cons x rest ih =>
    rw [insert]
    split
    · exact .head _
    · exact .tail _ ih

theorem mem_insert_of_not_same {r x : Record} {rs : List Record} (h : x ∈ rs)
    (other : x.key.same r.key = false) : x ∈ insert r rs := by
  induction rs with
  | nil => cases h
  | cons y rest ih =>
    rw [insert]
    rcases List.mem_cons.mp h with rfl | h
    · rw [if_neg (by simp [other])]
      exact .head _
    · split
      · exact .tail _ h
      · exact .tail _ (ih h)

theorem put_none_on {r : Record} (h : r.key.id ≠ .unset) (s : Store) :
    (put r none).on s = (.ok r.key, s.write r) := by
  rw [put, if_neg h]
  rfl

theorem insert_apart {r : Record} {rs : List Record}
    (h : rs.Pairwise fun a b => a.key.same b.key = false) :
    (insert r rs).Pairwise fun a b => a.key.same b.key = false := by
  induction rs with
  | nil => simp [insert]
  | cons y rest ih =>
    obtain ⟨hy, hrest⟩ := List.pairwise_cons.mp h
    rw [insert]
    by_cases hs : y.key.same r.key = true
    · rw [if_pos hs]
      have hr : ∀ x ∈ rest, r.key.same x.key = false := by
        intro x hx
        rw [← Key.same_congr_left hs]
        exact hy x hx
      exact List.pairwise_cons.mpr ⟨hr, hrest⟩
    · rw [if_neg hs]
      have hr : ∀ x ∈ insert r rest, y.key.same x.key = false := by
        intro x hx
        rcases mem_insert hx with rfl | hx
        · simpa using hs
        · exact hy x hx
      exact List.pairwise_cons.mpr ⟨hr, ih hrest⟩

theorem finish_records (s : Store) (number : Nat) : (s.finish number).records = s.records := by
  unfold finish
  dsimp only
  split <;> rfl

theorem finish_outages (s : Store) (number : Nat) : (s.finish number).outages = s.outages := by
  unfold finish
  dsimp only
  split <;> rfl

namespace Sound

theorem start (settings : StorageSettings) : Sound (Store.start settings) := ⟨.nil, rfl⟩

theorem congr {s t : Store} (h : s.Sound) (hr : t.records = s.records)
    (ho : t.outages = s.outages) : t.Sound :=
  ⟨hr ▸ h.apart, ho ▸ h.steady⟩

theorem write {s : Store} (h : s.Sound) (r : Record) : (s.write r).Sound :=
  ⟨insert_apart h.apart, h.steady⟩

theorem remove {s : Store} (h : s.Sound) (k : Key) : (s.remove k).Sound :=
  ⟨h.apart.filter _, h.steady⟩

end Sound
end Store

open Attempt Store

theorem Store.keeps_active {P : Store → Prop} (number : Nat) : Keeps P (active number) := by
  apply keeps_get_bind
  intro s _
  cases s.transaction? number with
  | none => exact keeps_throw _
  | some t =>
    show Keeps P (if t.isActive = true then pure t else throw _)
    split
    · exact keeps_pure t
    · exact keeps_throw _

/-- A property of stores that is not about what was counted and noted down. -/
def Store.Uncounted (P : Store → Prop) : Prop :=
  ∀ (s : Store) (journal : List (Request × Option Text)) (tally : List (Request × Nat))
    (reads : Nat), P s → P { s with journal := journal, tally := tally, reads := reads }

namespace Store.Uncounted

variable {P : Store → Prop} (hP : Uncounted P)
include hP

theorem keeps_enter (request : Request) (transaction : Option Nat) :
    Keeps P (enter request transaction) := by
  apply keeps_get_bind
  intro s h
  dsimp only
  apply keeps_bind (keeps_set (hP s _ s.tally s.reads h))
  intro _
  split
  · exact keeps_throw _
  · exact keeps_pure _

theorem keeps_tick (request : Request) : Keeps P (modify (·.tick request)) :=
  keeps_modify fun s h => hP s s.journal _ s.reads h

theorem keeps_countRead : Keeps P (modify fun s => { s with reads := s.reads + 1 }) :=
  keeps_modify fun s h => hP s s.journal s.tally _ h

theorem keeps_fetch (keys : List (Option Key)) (found : List (Key × Record)) :
    Keeps P (fetch keys found) := by
  induction keys generalizing found with
  | nil => exact keeps_pure found
  | cons k rest ih =>
    cases k with
    | none => exact keeps_throw _
    | some k =>
      apply keeps_get_bind
      intro s _
      cases s.find? k with
      | none => exact ih found
      | some r => exact keeps_bind hP.keeps_countRead fun _ => ih _

theorem keeps_lookup (keys : List (Option Key)) (transaction : Option Nat) :
    Keeps P (lookup keys transaction) :=
  keeps_bind (hP.keeps_enter .get transaction) fun _ =>
    keeps_bind (hP.keeps_tick .get) fun _ => hP.keeps_fetch keys []

omit hP in
theorem keeps_checkTransaction (q : Selection) (transaction : Option Nat) :
    Keeps P (checkTransaction q transaction) := by
  cases transaction with
  | none => exact keeps_pure ()
  | some number =>
    apply keeps_bind (keeps_active number)
    intro _
    apply keeps_get_bind
    intro s _
    split
    · exact keeps_throw _
    · exact keeps_pure _

variable (shown : Value → Except Fault Text) (q : Selection) (transaction : Option Nat) (w : Window)

theorem keeps_scan (keysOnly : Bool) : Keeps P (scan shown q transaction w keysOnly) :=
  keeps_bind (hP.keeps_enter .scan transaction) fun _ =>
    keeps_bind (hP.keeps_tick .scan) fun _ =>
      keeps_bind (keeps_checkTransaction q transaction) fun _ =>
        keeps_bind keeps_get fun _ => keeps_ofExcept _

theorem keeps_count : Keeps P (count shown q transaction w) := by
  have checked : Keeps P (checkTransaction q transaction >>= fun _ =>
      get >>= fun s => Attempt.ofExcept (q.matching shown s.records) >>= fun rs =>
        pure rs.length) :=
    keeps_bind (keeps_checkTransaction q transaction) fun _ =>
      keeps_bind keeps_get fun _ => keeps_bind (keeps_ofExcept _) fun _ => keeps_pure _
  apply keeps_bind (hP.keeps_enter .count transaction)
  intro _
  apply keeps_bind (hP.keeps_tick .count)
  intro _
  by_cases hw : (!w.isTrivial) = true
  · simp only [if_pos hw]
    exact keeps_throw_bind _ _
  · simp only [if_neg hw]
    exact checked

theorem keeps_read (position : Nat) : Keeps P (Store.read position) := by
  apply keeps_bind hP.keeps_countRead
  intro _
  apply keeps_get_bind
  intro s _
  cases s.outages.rows with
  | none => exact keeps_pure _
  | some o =>
    dsimp only
    split
    · exact keeps_throw _
    · exact keeps_pure _

theorem keeps_receive (d : Delivery Record) : Keeps P (receive d) := by
  have read : Keeps P (d.read.forM Store.read) := by
    cases d.read with
    | none => exact keeps_pure _
    | some n => exact hP.keeps_read n
  exact keeps_bind read fun _ => keeps_ofExcept _

theorem keeps_removeAll (remove : ∀ (s : Store) (k : Key), P s → P (s.remove k))
    (keys : List (Option Key)) : Keeps P (removeAll keys) := by
  induction keys with
  | nil => exact keeps_pure ()
  | cons k rest ih =>
    cases k with
    | none => exact keeps_bind (hP.keeps_tick .delete) fun _ => keeps_throw _
    | some k => exact keeps_bind (keeps_modify fun s h => remove s k h) fun _ => ih

theorem keeps_delete (remove : ∀ (s : Store) (k : Key), P s → P (s.remove k))
    (keys : List (Option Key)) : Keeps P (delete keys none) :=
  keeps_bind (hP.keeps_enter .delete none) fun _ =>
    keeps_bind (keeps_modify fun _ h => h) fun _ => hP.keeps_removeAll remove keys

theorem keeps_drain (c : Cursor Record) : Keeps P (Store.drain c) := by
  induction c with
  | nil => exact keeps_pure _
  | cons d rest ih =>
    apply keeps_bind (hP.keeps_receive d)
    intro r
    exact keeps_bind ih fun _ => keeps_pure _

theorem keeps_takeJournal : Keeps P takeJournal := by
  apply keeps_get_bind
  intro s h
  exact keeps_bind (keeps_set (hP s [] s.tally s.reads h)) fun _ => keeps_pure _

theorem keeps_perform {a : StoreAction} (ha : a.onlyAsks = true) : Keeps P a.perform := by
  cases a with
  | lookup keys transaction =>
    exact keeps_bind (hP.keeps_lookup keys transaction) fun _ => keeps_pure _
  | scan shown q transaction w keysOnly =>
    exact keeps_bind (hP.keeps_scan shown q transaction w keysOnly) fun _ => keeps_pure _
  | count shown q transaction w =>
    exact keeps_bind (hP.keeps_count shown q transaction w) fun _ => keeps_pure _
  | receive d => exact keeps_bind (hP.keeps_receive d) fun _ => keeps_pure _
  | takeJournal => exact keeps_bind hP.keeps_takeJournal fun _ => keeps_pure _
  | _ => cases ha

end Store.Uncounted

/-- A property of stores that is kept by each of the changes that puts and deletes are made of. -/
structure Store.Edited (P : Store → Prop) : Prop where
  uncounted : Uncounted P
  write : ∀ (s : Store) (r : Record), P s → P (s.write r)
  remove : ∀ (s : Store) (k : Key), P s → P (s.remove k)
  number : ∀ (s : Store) (numbers : List (Text × Nat)), P s → P { s with numbers := numbers }
  gather : ∀ (s : Store) (number : Nat) (f : Transaction → Transaction),
    (∀ t, (f t).number = t.number ∧ (f t).isActive = t.isActive) → P s →
      P (s.updateTransaction number f)

/-- A property of stores that is kept by each of the changes that requests are made of. -/
structure Store.Stable (P : Store → Prop) : Prop extends Store.Edited P where
  opened : ∀ s : Store, P s → s.current = none →
    P { s with
      transactions := s.transactions ++ [⟨s.transactions.length + 1, true, [], []⟩]
      current := some (s.transactions.length + 1) }
  finish : ∀ (s : Store) (number : Nat), P s → P (s.finish number)
  clear : ∀ s : Store, P s → P s.clear

namespace Store.Edited

variable {P : Store → Prop} (hP : Edited P)
include hP

theorem keeps_apply (puts : List Record) (deletes : List (Option Key)) :
    Keeps P (apply puts deletes) := by
  have written (s : Store) (h : P s) : P (puts.foldl Store.write s) := by
    induction puts generalizing s with
    | nil => exact h
    | cons r rest ih => exact ih (s.write r) (hP.write s r h)
  exact keeps_bind (keeps_modify written) fun _ =>
    hP.uncounted.keeps_removeAll hP.remove deletes

theorem keeps_allocate (kind : Text) : Keeps P (allocate kind) := by
  apply keeps_get_bind
  intro s h
  exact keeps_bind (keeps_set (hP.number s _ h)) fun _ => keeps_pure _

theorem keeps_write (r : Record) (transaction : Option Nat) :
    Keeps P (match transaction with
      | none => apply [r] [] >>= fun _ => pure r.key
      | some number => active number >>= fun _ =>
        modify (·.updateTransaction number (fun t => { t with puts := insertPut r t.puts })) >>=
          fun _ => pure r.key) := by
  cases transaction with
  | none => exact keeps_bind (hP.keeps_apply [r] []) fun _ => keeps_pure _
  | some number =>
    exact keeps_bind (keeps_active number) fun _ =>
      keeps_bind (keeps_modify fun s h => hP.gather s number _ (fun _ => ⟨rfl, rfl⟩) h) fun _ =>
        keeps_pure _

theorem keeps_put (r : Record) (transaction : Option Nat) : Keeps P (put r transaction) := by
  unfold put
  by_cases hi : r.key.id = .unset
  · simp only [if_pos hi, pure_bind]
    exact keeps_bind (hP.keeps_allocate _) fun _ => hP.keeps_write _ transaction
  · simp only [if_neg hi, pure_bind]
    exact hP.keeps_write r transaction

theorem keeps_delete (keys : List (Option Key)) (transaction : Option Nat) :
    Keeps P (delete keys transaction) := by
  cases transaction with
  | none => exact hP.uncounted.keeps_delete hP.remove keys
  | some number =>
    apply keeps_bind (hP.uncounted.keeps_enter .delete (some number))
    intro _
    exact keeps_bind (keeps_active number) fun _ =>
      keeps_modify fun s h => hP.gather s number _ (fun _ => ⟨rfl, rfl⟩) h

theorem inTransaction (transaction : Option Nat) :
    Edited fun s => P s ∧ s.current = transaction where
  uncounted s journal tally reads h := ⟨hP.uncounted s journal tally reads h.1, h.2⟩
  write s r h := ⟨hP.write s r h.1, h.2⟩
  remove s k h := ⟨hP.remove s k h.1, h.2⟩
  number s numbers h := ⟨hP.number s numbers h.1, h.2⟩
  gather s number f hf h := ⟨hP.gather s number f hf h.1, h.2⟩

end Store.Edited

/-- A property of stores in one transaction, or in none, that is kept by deleting there. -/
structure Store.Deletes (P : Store → Prop) (transaction : Option Nat) : Prop where
  uncounted : Uncounted P
  current : ∀ s, P s → s.current = transaction
  delete : ∀ keys, Keeps P (delete keys transaction)

/-- A property of stores in one transaction, or in none, that is kept by putting and deleting
there. -/
structure Store.Writes (P : Store → Prop) (transaction : Option Nat) : Prop
    extends Store.Deletes P transaction where
  allocate : ∀ kind, Keeps P (allocate kind)
  put : ∀ r, Keeps P (put r transaction)

theorem Store.Edited.writes {P : Store → Prop} (hP : Edited P) (transaction : Option Nat) :
    Writes (fun s => P s ∧ s.current = transaction) transaction where
  uncounted := (hP.inTransaction transaction).uncounted
  current _ h := h.2
  delete keys := (hP.inTransaction transaction).keeps_delete keys transaction
  allocate := (hP.inTransaction transaction).keeps_allocate
  put r := (hP.inTransaction transaction).keeps_put r transaction

namespace Store.Stable

variable {P : Store → Prop} (hP : Stable P)
include hP

theorem keeps_begin : Keeps P Store.begin := by
  apply keeps_get_bind
  intro s h
  by_cases hc : s.current.isSome = true
  · simp only [if_pos hc]
    exact keeps_throw_bind _ _
  · simp only [if_neg hc]
    have idle : s.current = none := Option.not_isSome_iff_eq_none.mp hc
    exact keeps_bind (keeps_set (hP.opened s h idle)) fun _ => keeps_pure _

theorem keeps_commit (number : Nat) : Keeps P (commit number) :=
  keeps_bind (keeps_active number) fun _ =>
    keeps_bind (keeps_modify fun _ h => hP.finish _ number h) fun _ => hP.keeps_apply _ _

theorem keeps_rollback (number : Nat) : Keeps P (rollback number) := by
  apply keeps_get_bind
  intro s _
  cases s.transaction? number with
  | none => exact keeps_pure _
  | some t =>
    dsimp only
    split
    · exact keeps_modify fun _ h => hP.finish _ number h
    · exact keeps_pure _

/-- Every action keeps the property. -/
theorem step {s : Store} (h : P s) (a : StoreAction) : P (a.step s) := by
  suffices hk : Keeps P a.perform from hk.after s h
  cases a with
  | put r transaction => exact keeps_bind (hP.keeps_put r transaction) fun _ => keeps_pure _
  | delete keys transaction => exact hP.keeps_delete keys transaction
  | begin => exact keeps_bind hP.keeps_begin fun _ => keeps_pure _
  | commit number => exact hP.keeps_commit number
  | rollback number => exact hP.keeps_rollback number
  | clear => exact keeps_modify fun s h => hP.clear s h
  | _ => exact hP.uncounted.keeps_perform rfl

theorem run {s : Store} (h : P s) (actions : List StoreAction) :
    P (actions.foldl StoreAction.step s) := by
  induction actions generalizing s with
  | nil => exact h
  | cons a rest ih => exact ih (hP.step h a)

end Store.Stable

theorem Store.Sound.stable : Stable Sound where
  uncounted _ _ _ _ h := h.congr rfl rfl
  write _ r h := h.write r
  remove _ k h := h.remove k
  number _ _ h := h.congr rfl rfl
  gather _ _ _ _ h := h.congr rfl rfl
  opened _ h _ := h.congr rfl rfl
  finish s number h := h.congr (s.finish_records number) (s.finish_outages number)
  clear _ h := ⟨.nil, h.steady⟩

theorem Store.Reachable.sound {s : Store} (h : s.Reachable) : s.Sound := by
  obtain ⟨settings, actions, rfl⟩ := h
  exact Store.Sound.stable.run (Store.Sound.start settings) actions

end RecordStore
