import RecordStore.Proofs.BufferedPuts
import RecordStore.Proofs.TouchedRecords

/-!
# Transactions in turn

A store goes through its transactions one after the other: the one that goes on is the current one,
and only without one can the next begin. One that has ended takes nothing more.
-/

set_option autoImplicit false

namespace RecordStore

open Attempt

namespace Store

def begun (s : Store) : List Nat := s.transactions.map (·.number)

theorem begun_updateTransaction (s : Store) (n : Nat) {f : Transaction → Transaction}
    (hf : ∀ t, (f t).number = t.number) : (s.updateTransaction n f).begun = s.begun := by
  rw [begun, updateTransaction, List.map_map]
  refine List.map_congr_left fun t _ => ?_
  show (if t.number = n then f t else t).number = t.number
  split
  · exact hf t
  · rfl

theorem Numbered.fresh {s : Store} (h : s.Numbered) : s.transactions.length + 1 ∉ s.begun := by
  intro taken
  obtain ⟨t, ht, same⟩ := List.mem_map.mp taken
  have below := h t ht
  omega

theorem finish_eq (s : Store) (n : Nat) :
    s.finish n =
      { s.updateTransaction n (fun t => { t with isActive := false }) with
        current := if s.current = some n then none else s.current } := by
  by_cases last : s.current = some n
  · rw [if_pos last]
    exact if_pos last
  · rw [if_neg last]
    exact if_neg last

/-- Whether the transactions of a store have come one after the other. Each has a number of its own,
and the one that goes on, if there is one, is the current one. -/
structure InTurn (s : Store) : Prop where
  sound : s.Sound
  numbered : s.Numbered
  distinct : s.begun.Nodup
  going_iff : ∀ t ∈ s.transactions, t.isActive = true ↔ s.current = some t.number
  current_begun : ∀ n, s.current = some n → n ∈ s.begun

namespace InTurn

theorem opened {s : Store} (h : s.InTurn) (idle : s.current = none) :
    InTurn { s with
      transactions := s.transactions ++ [⟨s.transactions.length + 1, true, [], []⟩]
      current := some (s.transactions.length + 1) } := by
  have fresh := h.numbered.fresh
  refine ⟨h.sound.congr rfl rfl, Numbered.stable.opened s h.numbered idle, ?_, fun t ht => ?_, ?_⟩
  · rw [begun, List.map_append, List.map_singleton]
    refine List.nodup_append.mpr ⟨h.distinct, List.nodup_singleton _, fun a ha b hb same => ?_⟩
    obtain rfl := List.mem_singleton.mp hb
    subst same
    exact fresh ha
  · rcases List.mem_append.mp ht with ht | ht
    · -- what was begun before has ended, since there was no current transaction
      have ended : t.isActive = false := by
        refine Bool.eq_false_iff.mpr fun going => ?_
        cases idle.symm.trans ((h.going_iff t ht).mp going)
      have other : s.transactions.length + 1 ≠ t.number := fun same =>
        fresh (same ▸ List.mem_map_of_mem ht)
      simp [ended, other]
    · rw [List.mem_singleton.mp ht]
      simp
  · rintro n ⟨⟩
    rw [begun, List.map_append]
    exact List.mem_append_right _ (List.mem_singleton_self _)

theorem finish {s : Store} (h : s.InTurn) (n : Nat) : (s.finish n).InTurn := by
  have same := s.begun_updateTransaction n (f := fun t => { t with isActive := false })
    fun _ => rfl
  rw [finish_eq]
  refine ⟨h.sound.congr rfl rfl, h.numbered.update n fun _ => rfl, same ▸ h.distinct,
    fun t ht => ?_, fun m current => ?_⟩
  · obtain ⟨x, hx, rfl⟩ := List.mem_map.mp ht
    have going := h.going_iff x hx
    by_cases ended : x.number = n
    · rw [if_pos ended]
      by_cases last : s.current = some n
      · simp [last]
      · simp [last, ended]
    · rw [if_neg ended, going]
      by_cases last : s.current = some n
      · have other : n ≠ x.number := fun same => ended same.symm
        simp [last, other]
      · simp [last]
  · have still : s.current = some m := by
      by_cases last : s.current = some n
      · simp [last] at current
      · simpa [last] using current
    exact same ▸ h.current_begun m still

theorem stable : Stable InTurn where
  uncounted _ _ _ _ h := ⟨h.sound.congr rfl rfl, h.numbered, h.distinct, h.going_iff,
    h.current_begun⟩
  write _ r h := ⟨h.sound.write r, h.numbered, h.distinct, h.going_iff, h.current_begun⟩
  remove _ k h := ⟨h.sound.remove k, h.numbered, h.distinct, h.going_iff, h.current_begun⟩
  number _ _ h := ⟨h.sound.congr rfl rfl, h.numbered, h.distinct, h.going_iff, h.current_begun⟩
  clear _ h := ⟨⟨.nil, h.sound.steady⟩, h.numbered, h.distinct, h.going_iff, h.current_begun⟩
  gather s n f hf h := by
    have same := s.begun_updateTransaction n fun t => (hf t).1
    refine ⟨h.sound.congr rfl rfl, h.numbered.update n fun t => (hf t).1, same ▸ h.distinct,
      fun t ht => ?_, fun m current => same ▸ h.current_begun m current⟩
    obtain ⟨x, hx, rfl⟩ := List.mem_map.mp ht
    have going := h.going_iff x hx
    split
    · rwa [(hf x).1, (hf x).2]
    · exact going
  opened _ h idle := h.opened idle
  finish _ n h := h.finish n

theorem start (settings : StorageSettings) : (Store.start settings).InTurn :=
  ⟨.start settings, List.forall_mem_nil _, .nil, List.forall_mem_nil _, nofun⟩

variable {s : Store} (h : s.InTurn)
include h

theorem transaction?_of_mem {t : Transaction} (ht : t ∈ s.transactions) :
    s.transaction? t.number = some t := by
  have known : (s.transaction? t.number).isSome = true :=
    List.find?_isSome.mpr ⟨t, ht, decide_eq_true rfl⟩
  obtain ⟨x, found⟩ := Option.isSome_iff_exists.mp known
  have same : x.number = t.number := number_eq_of_transaction? found
  rw [found, List.inj_on_of_nodup_map h.distinct (List.mem_of_find?_eq_some found) ht same]

theorem going_of_current {n : Nat} (current : s.current = some n) :
    ∃ t, s.transaction? n = some t ∧ t.isActive = true := by
  obtain ⟨t, ht, rfl⟩ := List.mem_map.mp (h.current_begun n current)
  exact ⟨t, h.transaction?_of_mem ht, (h.going_iff t ht).mpr current⟩

theorem current_ne_of_ended {t : Transaction} (ht : t ∈ s.transactions)
    (ended : t.isActive = false) : s.current ≠ some t.number := by
  intro current
  rw [(h.going_iff t ht).mpr current] at ended
  cases ended

theorem ended_of_other {n : Nat} {t : Transaction} (found : s.transaction? n = some t)
    (other : s.current ≠ some n) : t.isActive = false := by
  have going := h.going_iff t (List.mem_of_find?_eq_some found)
  rw [number_eq_of_transaction? found] at going
  exact Bool.eq_false_iff.mpr fun active => other (going.mp active)

theorem active_on_other {n : Nat} (other : s.current ≠ some n) :
    (active n).on s = (.error (.refused (.endedTransaction n)), s) := by
  rw [active, on_bind_of_ok (on_get s)]
  cases found : s.transaction? n with
  | none => rfl
  | some t =>
    dsimp only
    rw [h.ended_of_other found other]
    rfl

theorem rollback_on_other {n : Nat} (other : s.current ≠ some n) :
    (rollback n).on s = (.ok (), s) := by
  rw [rollback, on_bind_of_ok (on_get s)]
  cases found : s.transaction? n with
  | none => rfl
  | some t =>
    dsimp only
    rw [h.ended_of_other found other]
    rfl

theorem commit_on_other {n : Nat} (other : s.current ≠ some n) :
    (commit n).on s = (.error (.refused (.endedTransaction n)), s) := by
  rw [commit, on_bind, h.active_on_other other]

theorem put_on_other {n : Nat} (other : s.current ≠ some n) (r : Record) :
    ∃ t, (put r (some n)).on s = (.error (.refused (.endedTransaction n)), t) ∧ t.IsLike s := by
  have refused (r : Record) {t : Store} (ht : t.InTurn) (same : t.current = s.current) :
      ((active n >>= fun _ =>
        modify (·.updateTransaction n fun t => { t with puts := insertPut r t.puts }) >>=
          fun _ => pure r.key : Attempt Store Key)).on t =
        (.error (.refused (.endedTransaction n)), t) := by
    rw [on_bind, ht.active_on_other (same ▸ other)]
  rw [put]
  by_cases hi : r.key.id = .unset
  · let numbers := assignName r.key.kind ((lookupName r.key.kind s.numbers).getD 0 + 1) s.numbers
    have numbered : ({ s with numbers := numbers } : Store).InTurn :=
      InTurn.stable.number s numbers h
    rw [if_pos hi]
    exact ⟨{ s with numbers := numbers }, refused _ numbered rfl, rfl, rfl, rfl⟩
  · rw [if_neg hi]
    exact ⟨s, refused r h rfl, .refl s⟩

theorem deleteIn_on_other {n : Nat} (other : s.current ≠ some n) (keys : List (Option Key)) :
    (deleteIn n keys).on s = (.error (.refused (.endedTransaction n)), s) := by
  rw [deleteIn, on_bind, h.active_on_other other]

omit h in
theorem begin_on_going (going : s.current ≠ none) :
    begin.on s = (.error (.refused .nestedTransaction), s) := by
  rw [begin, on_bind_of_ok (on_get s), if_pos (Option.isSome_iff_ne_none.mpr going)]
  rfl

theorem begin_iff :
    ((∃ n t, begin.on s = (.ok n, t)) ↔ s.current = none) ∧
      ∀ n t, begin.on s = (.ok n, t) → t.records = s.records ∧ t.current = some n ∧
        n ∉ s.begun := by
  by_cases idle : s.current = none
  · obtain ⟨t, begun, buffers⟩ := begin_on h.numbered idle
    refine ⟨⟨fun _ => idle, fun _ => ⟨_, t, begun⟩⟩, fun n u same => ?_⟩
    cases begun.symm.trans same
    exact ⟨buffers.records, buffers.current, h.numbered.fresh⟩
  · have refused := begin_on_going idle
    refine ⟨⟨?_, fun none => absurd none idle⟩, ?_⟩
    · rintro ⟨n, t, begun⟩
      cases refused.symm.trans begun
    · intro n t begun
      cases refused.symm.trans begun

end InTurn

def putIn (number : Nat) (r : Record) : Attempt Store Unit := do
  let _ ← active number
  modify (·.updateTransaction number (fun t => { t with puts := insertPut r t.puts }))

end Store

open Store

/-- What can be asked of a transaction that was begun. -/
inductive HandleAction where
  | put (r : Record)
  | delete (keys : List (Option Key))
  /-- Puts by way of the store, which gives a number to a record without one. -/
  | putByStore (r : Record)
  | deleteByStore (keys : List (Option Key))
  | commit
  | rollback

namespace HandleAction

def perform (number : Nat) : HandleAction → Attempt Store Unit
  | .put r => putIn number r
  | .delete keys => deleteIn number keys
  | .putByStore r => do let _ ← Store.put r (some number)
  | .deleteByStore keys => Store.delete keys (some number)
  | .commit => Store.commit number
  | .rollback => Store.rollback number

variable {s : Store} {n : Nat}

/-- What comes of an action on a transaction that has ended. -/
def whenEnded (number : Nat) : HandleAction → Except Fault Unit
  | .rollback => .ok ()
  | _ => .error (.refused (.endedTransaction number))

theorem perform_on_other (h : s.InTurn) (other : s.current ≠ some n) (a : HandleAction) :
    ((a.perform n).on s).1 = a.whenEnded n ∧ ((a.perform n).on s).2.IsLike s := by
  cases a with
  | put r =>
    rw [perform, putIn, on_bind, h.active_on_other other]
    exact ⟨rfl, .refl s⟩
  | delete keys =>
    rw [perform, h.deleteIn_on_other other]
    exact ⟨rfl, .refl s⟩
  | putByStore r =>
    obtain ⟨t, refused, like⟩ := h.put_on_other other r
    rw [perform, on_bind, refused]
    exact ⟨rfl, like⟩
  | deleteByStore keys =>
    have noted : (s.noted .delete (some n)).InTurn :=
      InTurn.stable.uncounted s _ s.tally s.reads h
    rw [perform, Store.delete, on_bind_of_ok (enter_on (h.sound.isUp .delete) (some n)),
      noted.deleteIn_on_other other]
    exact ⟨rfl, rfl, rfl, rfl⟩
  | commit =>
    rw [perform, h.commit_on_other other]
    exact ⟨rfl, .refl s⟩
  | rollback =>
    rw [perform, h.rollback_on_other other]
    exact ⟨rfl, .refl s⟩

theorem keeps_perform {P : Store → Prop} (hP : Store.Stable P) (number : Nat) (a : HandleAction) :
    Keeps P (a.perform number) := by
  cases a with
  | put r =>
    exact keeps_bind (keeps_active number) fun _ =>
      keeps_modify fun s h => hP.gather s number _ (fun _ => ⟨rfl, rfl⟩) h
  | delete keys =>
    exact keeps_bind (keeps_active number) fun _ =>
      keeps_modify fun s h => hP.gather s number _ (fun _ => ⟨rfl, rfl⟩) h
  | putByStore r => exact keeps_bind (hP.keeps_put r (some number)) fun _ => keeps_pure _
  | deleteByStore keys => exact hP.keeps_delete keys (some number)
  | commit => exact hP.keeps_commit number
  | rollback => exact hP.keeps_rollback number

end HandleAction
end RecordStore
