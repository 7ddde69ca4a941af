import Mathlib.Data.List.Basic
import RecordStore.Proofs.StoreDeletion
import RecordStore.Proofs.StoreRuns

/-!
# Commits

Writes can be carried out at once, or gathered in a transaction that is then committed. A
transaction does not keep the order of its writes: at its end it removes whatever was removed in
it. So a commit leaves what the same writes leave without a transaction, less the records that were
stored under a key after it had been removed.
-/

set_option autoImplicit false

namespace RecordStore

open Attempt

inductive Write where
  | put (r : Record)
  | delete (keys : List Key)

namespace Write

def perform (transaction : Option Nat) : Write → Attempt Store Unit
  | .put r => do let _ ← Store.put r transaction
  | .delete keys => Store.delete (keys.map some) transaction

def performAll (transaction : Option Nat) : List Write → Attempt Store Unit
  | [] => pure ()
  | w :: rest => do
    w.perform transaction
    performAll transaction rest

def IsComplete : Write → Prop
  | .put r => r.key.id ≠ .unset
  | .delete _ => True

def deleted : Write → List Key
  | .put _ => []
  | .delete keys => keys

def removes (w : Write) (k : Key) : Bool := w.deleted.any (·.same k)

/-- Whether a key that is stored after it was removed is removed once more. -/
def StayRemoved (ws : List Write) : Prop :=
  ∀ before r after, ws = before ++ .put r :: after →
    before.any (·.removes r.key) = true → after.any (·.removes r.key) = true

def onRecords (rs : List Record) : Write → List Record
  | .put r => Store.insert r rs
  | .delete keys => rs.filter fun r => keys.all fun k => !r.key.same k

end Write

namespace Store

def insertAll (rs added : List Record) : List Record := added.foldl (fun rs r => insert r rs) rs

theorem exists_insert_iff (r : Record) (rs : List Record) (k : Key) :
    (∃ x ∈ insert r rs, x.key.same k = true) ↔
      r.key.same k = true ∨ ∃ x ∈ rs, x.key.same k = true := by
  induction rs with
  | nil => simp [insert]
  | cons y rest ih =>
    by_cases hs : y.key.same r.key = true
    · have hk := Key.same_congr_left hs k
      by_cases h : r.key.same k = true <;> simp [insert, hs, hk, h]
    · rw [insert, if_neg hs]
      simp only [List.exists_mem_cons_iff, ih]
      exact or_left_comm

theorem insert_insert_of_same {r x : Record} (h : x.key.same r.key = true) (rs : List Record) :
    insert r (insert x rs) = insert r rs := by
  induction rs with
  | nil => simp [insert, h]
  | cons y rest ih =>
    have hy := Key.same_congr_right h y.key
    by_cases hx : y.key.same x.key = true
    · simp [insert, hx, h, ← hy]
    · simp [insert, hx, ← hy, ih]

theorem insert_comm {r x : Record} {rs : List Record} (hr : ∃ y ∈ rs, y.key.same r.key = true)
    (hx : x.key.same r.key = false) : insert r (insert x rs) = insert x (insert r rs) := by
  obtain ⟨y, hy, hyr⟩ := hr
  have apart (z : Record) (hz : z.key.same r.key = true) : z.key.same x.key = false := by
    rw [Key.same_congr_left hz, Key.same_comm, hx]
  induction rs with
  | nil => cases hy
  | cons z rest ih =>
    by_cases hzr : z.key.same r.key = true
    · simp [insert, hzr, apart z hzr, apart r (Key.same_self _)]
    · by_cases hzx : z.key.same x.key = true
      · simp [insert, hzr, hzx, hx]
      · have later : y ∈ rest := by
          rcases List.mem_cons.mp hy with rfl | hy
          · contradiction
          · exact hy
        simp [insert, hzr, hzx, ih later]

theorem insert_insertAll {r : Record} {rs added : List Record}
    (hr : ∃ y ∈ rs, y.key.same r.key = true) (ha : ∀ x ∈ added, x.key.same r.key = false) :
    insert r (insertAll rs added) = insertAll (insert r rs) added := by
  induction added generalizing rs with
  | nil => rfl
  | cons x rest ih =>
    obtain ⟨hx, hrest⟩ := List.forall_mem_cons.mp ha
    show insert r (insertAll (insert x rs) rest) = insertAll (insert x (insert r rs)) rest
    rw [ih ((exists_insert_iff x rs r.key).mpr (.inr hr)) hrest, insert_comm hr hx]

/-- Storing gathered records and then one more is storing them with this one gathered, too. -/
theorem insertAll_insert {r : Record} {added : List Record}
    (ha : added.Pairwise fun a b => a.key.same b.key = false) (rs : List Record) :
    insertAll rs (insert r added) = insert r (insertAll rs added) := by
  induction added generalizing rs with
  | nil => rfl
  | cons x rest ih =>
    obtain ⟨hx, hrest⟩ := List.pairwise_cons.mp ha
    by_cases hs : x.key.same r.key = true
    · have others : ∀ z ∈ rest, z.key.same r.key = false := by
        intro z hz
        rw [← Key.same_congr_right hs, Key.same_comm, hx z hz]
      have stored := (exists_insert_iff x rs r.key).mpr (.inl hs)
      rw [insert, if_pos hs]
      show insertAll (insert r rs) rest = insert r (insertAll (insert x rs) rest)
      rw [insert_insertAll stored others, insert_insert_of_same hs]
    · rw [insert, if_neg hs]
      exact ih hrest (insert x rs)

section Filtering

def IsOfKeys (p : Key → Bool) : Prop := ∀ a b : Key, a.same b = true → p a = p b

variable {p : Key → Bool}

theorem filter_insert (hp : IsOfKeys p) (r : Record) (rs : List Record) :
    (insert r rs).filter (p ·.key) =
      if p r.key then insert r (rs.filter (p ·.key)) else rs.filter (p ·.key) := by
  induction rs with
  | nil => by_cases h : p r.key = true <;> simp [insert, h]
  | cons x rest ih =>
    by_cases hs : x.key.same r.key = true
    · have hx := hp _ _ hs
      by_cases h : p r.key = true <;> simp [insert, hs, hx, h]
    · by_cases hx : p x.key = true <;> by_cases h : p r.key = true <;>
        simp [insert, hs, hx, h, ih]

theorem filter_insertAll (hp : IsOfKeys p) (rs added : List Record) :
    (insertAll rs added).filter (p ·.key) =
      insertAll (rs.filter (p ·.key)) (added.filter (p ·.key)) := by
  induction added generalizing rs with
  | nil => rfl
  | cons r rest ih =>
    show (insertAll (insert r rs) rest).filter _ = _
    rw [ih, filter_insert hp]
    by_cases h : p r.key = true <;> simp [h, insertAll]

end Filtering
end Store

namespace Write

open Store

variable {p : Key → Bool}

theorem onRecords_apart {rs : List Record}
    (h : rs.Pairwise fun a b => a.key.same b.key = false) (w : Write) :
    (onRecords rs w).Pairwise fun a b => a.key.same b.key = false := by
  cases w with
  | put r => exact insert_apart h
  | delete keys => exact h.filter _

theorem removes_isOfKeys (ws : List Write) : IsOfKeys fun k => !ws.any (·.removes k) := by
  intro a b h
  have congr (k : Key) : k.same a = k.same b := Key.same_congr_right h k
  simp only [removes, congr]

theorem filter_delete {keys : List Key} (hk : ∀ k, (delete keys).removes k = true → p k = false)
    (rs : List Record) :
    (onRecords rs (.delete keys)).filter (p ·.key) = rs.filter (p ·.key) := by
  rw [onRecords, List.filter_filter]
  apply List.filter_congr
  intro r _
  cases hr : p r.key with
  | false => rfl
  | true =>
    have spared : (delete keys).removes r.key = false := by
      by_contra h
      rw [hk _ (by simpa using h)] at hr
      cases hr
    simpa [removes, deleted, Key.same_comm r.key] using spared

theorem filter_onRecords_congr (hp : IsOfKeys p) {rs rs' : List Record}
    (h : rs.filter (p ·.key) = rs'.filter (p ·.key)) (w : Write) :
    (onRecords rs w).filter (p ·.key) = (onRecords rs' w).filter (p ·.key) := by
  cases w with
  | put r => simp only [onRecords, filter_insert hp, h]
  | delete keys =>
    simp only [onRecords]
    rw [List.filter_comm, h, List.filter_comm]

theorem filter_foldl_congr (hp : IsOfKeys p) (ws : List Write) {rs rs' : List Record}
    (h : rs.filter (p ·.key) = rs'.filter (p ·.key)) :
    (ws.foldl onRecords rs).filter (p ·.key) = (ws.foldl onRecords rs').filter (p ·.key) := by
  induction ws generalizing rs rs' with
  | nil => exact h
  | cons w rest ih => exact ih (filter_onRecords_congr hp h w)

theorem filter_gathered (hp : IsOfKeys p) {ws : List Write}
    (hw : ∀ w ∈ ws, ∀ k, w.removes k = true → p k = false) {gathered : List Record}
    (hg : gathered.Pairwise fun a b => a.key.same b.key = false) (rs : List Record) :
    (insertAll rs (ws.foldl onRecords gathered)).filter (p ·.key) =
      (ws.foldl onRecords (insertAll rs gathered)).filter (p ·.key) := by
  induction ws generalizing gathered with
  | nil => rfl
  | cons w rest ih =>
    obtain ⟨hfirst, hrest⟩ := List.forall_mem_cons.mp hw
    rw [List.foldl_cons, List.foldl_cons, ih hrest (onRecords_apart hg w)]
    apply filter_foldl_congr hp
    cases w with
    | put r => rw [onRecords, onRecords, insertAll_insert hg]
    | delete keys =>
      rw [filter_delete hfirst, filter_insertAll hp, filter_delete hfirst, filter_insertAll hp]

theorem exists_foldl_onRecords {ws : List Write} {k : Key}
    (hw : ws.any (·.removes k) = false) {rs : List Record} (h : ∃ x ∈ rs, x.key.same k = true) :
    ∃ x ∈ ws.foldl onRecords rs, x.key.same k = true := by
  induction ws generalizing rs with
  | nil => exact h
  | cons w rest ih =>
    rw [List.any_cons, Bool.or_eq_false_iff] at hw
    apply ih hw.2
    cases w with
    | put r => exact (exists_insert_iff r rs k).mpr (.inr h)
    | delete keys =>
      obtain ⟨x, hx, hk⟩ := h
      refine ⟨x, List.mem_filter.mpr ⟨hx, ?_⟩, hk⟩
      have spared := hw.1
      simp only [removes, deleted, List.any_eq_false] at spared
      simpa [Key.same_congr_left hk, Key.same_comm k] using spared

/-- A record that is there after some writes was there before, or one of them stored it; it was not
removed behind that. -/
theorem mem_foldl_onRecords {ws : List Write} {rs : List Record} {x : Record}
    (h : x ∈ ws.foldl onRecords rs) :
    (x ∈ rs ∧ ws.any (·.removes x.key) = false) ∨
      ∃ before after, ws = before ++ .put x :: after ∧ after.any (·.removes x.key) = false := by
  induction ws generalizing rs with
  | nil => exact .inl ⟨h, rfl⟩
  | cons w rest ih =>
    rcases ih h with ⟨hx, spared⟩ | ⟨before, after, rfl, spared⟩
    · cases w with
      | put r =>
        rcases mem_insert hx with rfl | hx
        · exact .inr ⟨[], rest, rfl, spared⟩
        · exact .inl ⟨hx, spared⟩
      | delete keys =>
        obtain ⟨hm, hk⟩ := List.mem_filter.mp hx
        have kept : (delete keys).removes x.key = false := by
          simpa [removes, deleted, Key.same_comm x.key] using hk
        exact .inl ⟨hm, by rw [List.any_cons, kept, spared]; rfl⟩
    · exact .inr ⟨w :: before, after, rfl, spared⟩

theorem stayRemoved_iff (ws : List Write) (rs : List Record) :
    StayRemoved ws ↔
      ∀ x ∈ ws.foldl onRecords rs, ws.any (·.removes x.key) = false := by
  constructor
  · intro h x hx
    rcases mem_foldl_onRecords hx with ⟨-, spared⟩ | ⟨before, after, rfl, spared⟩
    · exact spared
    · have earlier : before.any (·.removes x.key) = false := by
        by_contra hb
        rw [h before x after rfl (by simpa using hb)] at spared
        cases spared
      rw [List.any_append, List.any_cons, earlier, spared]
      rfl
  · rintro h before r after rfl hb
    by_contra ha
    have stored := (exists_insert_iff r (before.foldl onRecords rs) r.key).mpr
      (.inl (Key.same_self _))
    obtain ⟨x, hx, hk⟩ := exists_foldl_onRecords (by simpa using ha) stored
    rw [List.foldl_append, List.foldl_cons] at h
    have spared := h x hx
    have congr (k : Key) : k.same x.key = k.same r.key := Key.same_congr_right hk k
    simp only [removes, congr, List.any_append, Bool.or_eq_false_iff] at spared hb
    rw [spared.1] at hb
    cases hb

end Write

namespace Store

/-- Whether a transaction goes on and has gathered these records to store and keys to remove. -/
def Gathers (s : Store) (n : Nat) (gathered : List Record) (deleted : List Key) : Prop :=
  ∃ puts, s.transaction? n = some ⟨n, true, puts, deleted.map some⟩ ∧ puts.map (·.2) = gathered ∧
    ∀ p ∈ puts, p.1.same p.2.key = true

theorem insertPut_spec (r : Record) {puts : List (Key × Record)}
    (h : ∀ p ∈ puts, p.1.same p.2.key = true) :
    (insertPut r puts).map (·.2) = insert r (puts.map (·.2)) ∧
      ∀ p ∈ insertPut r puts, p.1.same p.2.key = true := by
  induction puts with
  | nil => simp [insertPut, insert]
  | cons p rest ih =>
    obtain ⟨hp, hrest⟩ := List.forall_mem_cons.mp h
    have hr := Key.same_congr_left hp r.key
    obtain ⟨records, keyed⟩ := ih hrest
    by_cases hs : p.1.same r.key = true
    · rw [insertPut, if_pos hs]
      exact ⟨by simp [insert, ← hr, hs], List.forall_mem_cons.mpr ⟨hs, hrest⟩⟩
    · rw [insertPut, if_neg hs]
      exact ⟨by simp [insert, ← hr, hs, records], List.forall_mem_cons.mpr ⟨hp, keyed⟩⟩

theorem erasePuts_spec (keys : List Key) {puts : List (Key × Record)}
    (h : ∀ p ∈ puts, p.1.same p.2.key = true) :
    (keys.map some).foldl (fun puts k => erasePut k puts) puts =
      puts.filter fun p => keys.all fun k => !p.2.key.same k := by
  induction keys generalizing puts with
  | nil => exact (List.filter_eq_self.mpr fun _ _ => rfl).symm
  | cons k rest ih =>
    have erased : erasePut (some k) puts = puts.filter fun p => !p.2.key.same k := by
      apply List.filter_congr
      intro p hp
      rw [Key.same_congr_left (h p hp)]
    rw [List.map_cons, List.foldl_cons, erased, ih fun p hp => h p (List.mem_of_mem_filter hp),
      List.filter_filter]
    simp only [List.all_cons, Bool.and_comm]

theorem foldl_write_spec (s : Store) (rs : List Record) :
    (rs.foldl write s).records = insertAll s.records rs := by
  induction rs generalizing s with
  | nil => rfl
  | cons r rest ih => exact ih (s.write r)

end Store

namespace Write

open Store

variable {s : Store} {n : Nat}

theorem perform_none_on (hs : s.outages = ⟨[], none⟩) {w : Write} (hw : w.IsComplete) :
    ∃ t, (w.perform none).on s = (.ok (), t) ∧ t.records = onRecords s.records w ∧
      t.outages = ⟨[], none⟩ := by
  cases w with
  | put r =>
    refine ⟨s.write r, ?_, rfl, hs⟩
    rw [perform, on_bind_of_ok (put_none_on hw s), on_pure]
  | delete keys =>
    have up : s.IsUp .delete := by simp [IsUp, hs]
    exact ⟨_, delete_on up keys, foldl_remove_records _ keys,
      ((foldl_remove_outages _ keys).1).trans hs⟩

theorem performAll_none_on (hs : s.outages = ⟨[], none⟩) {ws : List Write}
    (hw : ∀ w ∈ ws, w.IsComplete) :
    ∃ t, (performAll none ws).on s = (.ok (), t) ∧ t.records = ws.foldl onRecords s.records := by
  induction ws generalizing s with
  | nil => exact ⟨s, rfl, rfl⟩
  | cons w rest ih =>
    obtain ⟨hfirst, hrest⟩ := List.forall_mem_cons.mp hw
    obtain ⟨t, first, records, ht⟩ := perform_none_on hs hfirst
    obtain ⟨u, run, hu⟩ := ih ht hrest
    refine ⟨u, ?_, by rw [hu, records, List.foldl_cons]⟩
    rw [performAll, on_bind_of_ok first, run]

theorem perform_some_on (hs : s.outages = ⟨[], none⟩) {gathered : List Record} {keys : List Key}
    (hg : s.Gathers n gathered keys) {w : Write} (hw : w.IsComplete) :
    ∃ t, (w.perform (some n)).on s = (.ok (), t) ∧
      t.Gathers n (onRecords gathered w) (keys ++ w.deleted) ∧ t.records = s.records ∧
      t.outages = ⟨[], none⟩ := by
  obtain ⟨puts, ht, rfl, keyed⟩ := hg
  cases w with
  | put r =>
    obtain ⟨records, keyed'⟩ := insertPut_spec r keyed
    let gathering (t : Transaction) : Transaction := { t with puts := insertPut r t.puts }
    refine ⟨s.updateTransaction n gathering, ?_, ⟨insertPut r puts, ?_, records, keyed'⟩, rfl, hs⟩
    · have unnumbered : r.key.id ≠ .unset := hw
      simp only [perform, Store.put, if_neg unnumbered, pure_bind, on_bind, active_on ht, on_modify,
        on_pure]
      rfl
    · rw [transaction?_update gathering fun _ => rfl, ht]
      simp [gathering, deleted]
  | delete removed =>
    have up : s.IsUp .delete := by simp [IsUp, hs]
    have noted : (s.noted .delete (some n)).transaction? n = some ⟨n, true, puts, keys.map some⟩ :=
      ht
    let gathering (t : Transaction) : Transaction :=
      { t with
        puts := (removed.map some).foldl (fun puts k => erasePut k puts) t.puts
        deletes := t.deletes ++ removed.map some }
    refine ⟨(s.noted .delete (some n)).updateTransaction n gathering, ?_,
      ⟨puts.filter fun p => removed.all fun k => !p.2.key.same k, ?_, ?_, ?_⟩, rfl, hs⟩
    · simp only [perform, Store.delete, on_bind, enter_on up, deleteIn, active_on noted, on_modify]
      rfl
    · rw [transaction?_update gathering fun _ => rfl, noted]
      simp [gathering, erasePuts_spec removed keyed, deleted]
    · simp only [onRecords, List.filter_map, Function.comp_def]
    · exact fun p hp => keyed p (List.mem_of_mem_filter hp)

theorem performAll_some_on (hs : s.outages = ⟨[], none⟩) {gathered : List Record}
    {keys : List Key} (hg : s.Gathers n gathered keys) {ws : List Write}
    (hw : ∀ w ∈ ws, w.IsComplete) :
    ∃ t, (performAll (some n) ws).on s = (.ok (), t) ∧
      t.Gathers n (ws.foldl onRecords gathered) (keys ++ ws.flatMap deleted) ∧
      t.records = s.records := by
  induction ws generalizing s gathered keys with
  | nil => exact ⟨s, rfl, by simpa using hg, rfl⟩
  | cons w rest ih =>
    obtain ⟨hfirst, hrest⟩ := List.forall_mem_cons.mp hw
    obtain ⟨t, first, gathers, records, ht⟩ := perform_some_on hs hg hfirst
    obtain ⟨u, run, hu, kept⟩ := ih ht gathers hrest
    refine ⟨u, ?_, ?_, kept.trans records⟩
    · rw [performAll, on_bind_of_ok first, run]
    · rwa [List.foldl_cons, List.flatMap_cons, ← List.append_assoc]

end Write

namespace Store

open Write

variable {s : Store} {n : Nat}

theorem commit_on {gathered : List Record} {keys : List Key} (hg : s.Gathers n gathered keys) :
    ∃ t, (commit n).on s = (.ok (), t) ∧
      t.records =
        (insertAll s.records gathered).filter fun r => keys.all fun k => !r.key.same k := by
  obtain ⟨puts, ht, rfl, -⟩ := hg
  let written := (puts.map (·.2)).foldl write (s.finish n)
  refine ⟨keys.foldl remove written, ?_, ?_⟩
  · rw [commit, on_bind_of_ok (active_on ht rfl), on_bind_of_ok (on_modify _ s), apply,
      on_bind_of_ok (on_modify _ _)]
    exact removeAll_on written keys
  · rw [foldl_remove_records, foldl_write_spec, finish_records]

/-- A transaction that is committed leaves the records that its writes leave when they are carried
out one by one, less those with a key that was removed in it. So both leave the same if and only if
every key that was stored after it was removed is removed once more. -/
theorem commit_records (hs : s.outages = ⟨[], none⟩)
    (ht : s.transaction? n = some ⟨n, true, [], []⟩)
    {ws : List Write} (hw : ∀ w ∈ ws, w.IsComplete) :
    ∃ committed direct,
      (do performAll (some n) ws; commit n).on s = (.ok (), committed) ∧
      (performAll none ws).on s = (.ok (), direct) ∧
      committed.records = direct.records.filter (fun r => !ws.any (·.removes r.key)) ∧
      (committed.records = direct.records ↔ StayRemoved ws) := by
  obtain ⟨direct, carried, hdirect⟩ := performAll_none_on hs hw
  have empty : s.Gathers n [] [] := ⟨[], ht, rfl, by simp⟩
  obtain ⟨t, run, gathers, records⟩ := performAll_some_on hs empty hw
  obtain ⟨committed, ended, hcommitted⟩ := commit_on gathers
  have spares (r : Record) : (([] ++ ws.flatMap deleted).all fun k => !r.key.same k) =
      !ws.any (·.removes r.key) := by
    simp only [List.nil_append, List.all_flatMap, List.not_any_eq_all_not, removes,
      Key.same_comm r.key]
  have agree : committed.records =
      direct.records.filter fun r => !ws.any (·.removes r.key) := by
    simp only [spares] at hcommitted
    rw [hcommitted, hdirect, records]
    have removed : ∀ w ∈ ws, ∀ k, w.removes k = true → (!ws.any (·.removes k)) = false := by
      intro w hm k hk
      simpa using ⟨w, hm, hk⟩
    exact filter_gathered (removes_isOfKeys ws) removed .nil s.records
  refine ⟨committed, direct, ?_, carried, agree, ?_⟩
  · rw [on_bind_of_ok run, ended]
  · rw [agree, List.filter_eq_self, stayRemoved_iff ws s.records, hdirect]
    simp only [Bool.not_eq_true']

def opened : Store :=
  List.foldl StoreAction.step (start ⟨.text "memory", .flag true⟩)
    [.put ⟨.root "Author" (.number 1), [("name", .text "Ann")]⟩ none, .begin]

def replacement : List Write :=
  [.delete [.root "Author" (.number 1)],
    .put ⟨.root "Author" (.number 1), [("name", .text "Eve")]⟩]

/-- A record that is removed and stored again in one transaction is lost. -/
theorem commit_records_replacement :
    ∃ committed direct,
      (do performAll (some 1) replacement; commit 1).on opened = (.ok (), committed) ∧
      (performAll none replacement).on opened = (.ok (), direct) ∧
      committed.records ≠ direct.records := by
  have begun : opened.transaction? 1 = some ⟨1, true, [], []⟩ := rfl
  have complete : ∀ w ∈ replacement, w.IsComplete := by
    simp [replacement, Write.IsComplete, Key.id]
  obtain ⟨committed, direct, ended, carried, -, same⟩ := commit_records rfl begun complete
  refine ⟨committed, direct, ended, carried, fun h => ?_⟩
  have removed_again := same.mp h [.delete [.root "Author" (.number 1)]] _ [] rfl (by decide)
  cases removed_again

end Store
end RecordStore
