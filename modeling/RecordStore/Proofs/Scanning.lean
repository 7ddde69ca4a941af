import RecordStore.Store.Basic
import RecordStore.Proofs.SameKeys
import RecordStore.Proofs.SortPermutation

/-!
# Scanning a store

The answer of a selection holds the selected records, whatever order they come in. A scan gives the
answer out while the store is up, as long as nothing keeps the values from being compared and the
query from being written.
-/

set_option autoImplicit false

namespace RecordStore

theorem sortByStanding_perm {α : Type} (direction : Direction) (standing : α → Standing)
    (items : List α) : (sortByStanding direction standing items).Perm items := by
  simp only [sortByStanding]
  split
  · exact List.mergeSort_perm items _
  · split
    · exact Sorting.sort_perm _ items
    · exact (List.reverse_perm _).trans ((Sorting.sort_perm _ _).trans (List.reverse_perm _))

namespace Selection

variable (shown : Value → Except Fault Text) (q : Selection)

theorem arrange_perm (rs : List Record) : (q.arrange shown rs).Perm rs := by
  simp only [arrange]
  generalize q.arrangement = clauses
  induction clauses with
  | nil => exact List.mergeSort_perm rs _
  | cons c rest ih => exact (sortByStanding_perm _ _ _).trans ih

theorem answer_perm (rs : List Record) : (q.answer shown rs).Perm (rs.filter (q.selects shown)) :=
  q.arrange_perm shown _

theorem mem_answer_iff (rs : List Record) (r : Record) :
    r ∈ q.answer shown rs ↔ r ∈ rs ∧ q.selects shown r = true := by
  rw [(q.answer_perm shown rs).mem_iff, List.mem_filter]

theorem covers_iff (r : Record) :
    q.covers r = true ↔
      r.kind = q.kind ∧ ∀ k, q.ancestor = some k → k.isAncestorOf r.key = true := by
  cases h : q.ancestor <;> simp [covers, h]

theorem selects_iff (r : Record) :
    q.selects shown r = true ↔
      r.kind = q.kind ∧ (∀ k, q.ancestor = some k → k.isAncestorOf r.key = true) ∧
        (∀ c ∈ q.conditions, r.meets shown c = true) ∧
        ∀ c ∈ q.arrangement, r.has c.property = true := by
  simp [selects, covers_iff, and_assoc]

end Selection

namespace Cursor

variable {α : Type}

theorem getElem?_ofReads (items : List α) (n : Nat) :
    (ofReads items)[n]? = items[n]?.map fun a => ⟨.ok a, some n⟩ := by
  simp [ofReads, List.getElem?_map, List.getElem?_zipIdx, Function.comp_def]

theorem ofReads_inj {xs ys : List α} (h : ofReads xs = ofReads ys) : xs = ys := by
  refine List.ext_getElem? fun n => ?_
  have read : (ofReads xs)[n]? = (ofReads ys)[n]? := by rw [h]
  rw [getElem?_ofReads, getElem?_ofReads] at read
  cases hx : xs[n]? <;> cases hy : ys[n]? <;> simp [hx, hy] at read ⊢
  exact read

theorem outcome_of_mem_ofReads {items : List α} {x : Delivery α} (h : x ∈ ofReads items) :
    ∃ a ∈ items, x.outcome = .ok a := by
  obtain ⟨⟨a, n⟩, hp, rfl⟩ := List.mem_map.mp h
  exact ⟨a, List.fst_mem_of_mem_zipIdx hp, rfl⟩

/-- Whether a cursor has an item to give out. -/
def Gives (c : Cursor α) (a : α) : Prop := ∃ d ∈ c, d.outcome = .ok a

theorem gives_ofReads (items : List α) (a : α) : (ofReads items).Gives a ↔ a ∈ items := by
  constructor
  · rintro ⟨d, hd, ho⟩
    obtain ⟨b, hb, hdb⟩ := outcome_of_mem_ofReads hd
    obtain rfl : a = b := Except.ok.inj (ho.symm.trans hdb)
    exact hb
  · intro h
    obtain ⟨n, hn⟩ := List.mem_iff_getElem?.mp h
    have item : (ofReads items)[n]? = some ⟨.ok a, some n⟩ := by
      rw [getElem?_ofReads, hn]
      rfl
    exact ⟨_, List.mem_of_getElem? item, rfl⟩

theorem ofWindow_all (items : List α) : ofWindow .all items = ofReads items := rfl

end Cursor

namespace NativeQuery

/-- Whether the keys and operands of a query can be written. -/
def CanWrite (shown : Value → Except Fault Text) : NativeQuery → Prop
  | .selection q =>
    (∀ c ∈ q.conditions, ∃ t, shown c.value = .ok t) ∧ ∀ k ∈ q.ancestor, k.IsShort
  | .lookup _ keys => ∀ key ∈ keys, ∀ k ∈ key, k.IsShort

theorem selection_text_isOk_iff (shown : Value → Except Fault Text) (q : Selection) :
    (∃ t, q.text shown = .ok t) ↔ CanWrite shown (.selection q) := by
  have condition (c : Condition) : (∃ t, c.text shown = .ok t) ↔ ∃ t, shown c.value = .ok t := by
    simp [Condition.text, bind_isOk_iff, pure, Except.pure]
  simp only [CanWrite, ← condition, ← Key.pathText_isOk_iff, ← mapM_isOk_iff,
    ← optionMapM_isOk_iff, Selection.text, bind_isOk_iff]
  constructor
  · rintro ⟨ts, h, t, h', -⟩
    exact ⟨⟨ts, h⟩, t, h'⟩
  · rintro ⟨⟨ts, h⟩, t, h'⟩
    exact ⟨ts, h, t, h', _, rfl⟩

theorem text_isOk_iff (shown : Value → Except Fault Text) (native : NativeQuery) :
    (∃ t, native.text shown = .ok t) ↔ native.CanWrite shown := by
  cases native with
  | selection q => exact selection_text_isOk_iff shown q
  | lookup kind keys =>
    have key (k : Option Key) : (∃ t, keyText k = .ok t) ↔ ∀ key ∈ k, key.IsShort := by
      cases k <;> simp [keyText, Key.text_isOk_iff]
    simp only [CanWrite, ← key, ← mapM_isOk_iff, text, bind_isOk_iff]
    constructor
    · rintro ⟨ts, h, -⟩
      exact ⟨ts, h⟩
    · rintro ⟨ts, h⟩
      exact ⟨ts, h, _, rfl⟩

end NativeQuery

def Window.CanWrite (w : Window) : Prop :=
  (∃ t, w.start.text = .ok t) ∧ ∀ b ∈ w.limit, ∃ t, b.text = .ok t

theorem Window.canWrite_all : Window.all.CanWrite := ⟨⟨_, rfl⟩, nofun⟩

theorem Bound.text_isOk_of_position? {b : Bound} {n : Int} (h : b.position? = some n)
    (short : n.natAbs ≤ 2 * Cursor.farthest.natAbs) : ∃ t, b.text = .ok t := by
  cases b with
  | integer m =>
    obtain rfl := Option.some.inj h
    refine ⟨_, (Text.numeral_eq_ok_iff _ _).mpr ⟨Nat.lt_of_le_of_lt short ?_, rfl⟩⟩
    calc 2 * Cursor.farthest.natAbs < 10 ^ 20 := by decide
      _ < 10 ^ Numeral.maxDigits := Nat.pow_lt_pow_right (by decide) (by decide)
  | flag b => exact ⟨_, rfl⟩
  | real | decimal | other => cases h

theorem Bound.position?_of_add {a b c : Bound} (h : a.add b = .ok c) {n : Int}
    (hn : c.position? = some n) :
    ∃ i j, a.position? = some i ∧ b.position? = some j ∧ i + j = n := by
  rw [add, combine] at h
  split at h
  · rename_i i j hi hj
    cases h
    exact ⟨i, j, hi, hj, Option.some.inj hn⟩
  split at h
  · obtain ⟨x, -, h⟩ := (bind_eq_ok_iff _ _ _).mp h
    obtain ⟨y, -, h⟩ := (bind_eq_ok_iff _ _ _).mp h
    cases hd : x.add y with
    | error e =>
      rw [hd] at h
      cases h
    | ok d =>
      rw [hd] at h
      cases h
      cases hn
  · obtain ⟨x, -, h⟩ := (bind_eq_ok_iff _ _ _).mp h
    obtain ⟨y, -, h⟩ := (bind_eq_ok_iff _ _ _).mp h
    cases h
    cases hn

theorem Window.canWrite_of_stretch {w : Window} {p : Nat × Option Nat}
    (h : Cursor.stretch w = .ok p) : w.CanWrite := by
  have near {b : Bound} (hb : ¬(!b.position?.any Cursor.isPosition) = true) :
      ∃ n, b.position? = some n ∧ 0 ≤ n ∧ n ≤ Cursor.farthest := by
    rw [Bool.not_eq_true', Bool.not_eq_false, Option.any_eq_true] at hb
    obtain ⟨n, hn, hp⟩ := hb
    exact ⟨n, hn, by simpa [Cursor.isPosition] using hp⟩
  obtain ⟨stop, hstop, h⟩ := (bind_eq_ok_iff _ _ _).mp h
  dsimp only at h
  split at h
  · cases h
  split at h
  · cases h
  rename_i places
  rw [Bool.or_eq_true, not_or] at places
  obtain ⟨i, hi, low, high⟩ := near places.1
  refine ⟨Bound.text_isOk_of_position? hi (by omega), fun b hb => ?_⟩
  rw [Window.stop, hb, Option.mapM_some] at hstop
  cases hsum : w.start.add b with
  | error f =>
    rw [hsum] at hstop
    cases hstop
  | ok c =>
    rw [hsum] at hstop
    obtain rfl : some c = stop := Except.ok.inj hstop
    have place : ¬(!c.position?.any Cursor.isPosition) = true := by
      simpa using places.2
    obtain ⟨n, hn, low', high'⟩ := near place
    obtain ⟨i', j, hi', hj, sum⟩ := Bound.position?_of_add hsum hn
    cases hi.symm.trans hi'
    exact Bound.text_isOk_of_position? hj (by omega)

theorem Selection.problem?_keysOnly (shown : Value → Except Fault Text) (q : Selection)
    (keysOnly : Bool) (rs : List Record) :
    { q with keysOnly := keysOnly }.problem? shown rs = q.problem? shown rs := by
  have sorted (rs : List Record) (clauses : List SortClause) :
      sortProblem? shown { q with keysOnly := keysOnly } rs clauses =
        sortProblem? shown q rs clauses := by
    induction clauses with
    | nil => rfl
    | cons c rest ih =>
      rw [sortProblem?, sortProblem?, ih]
      rfl
  rw [problem?, problem?, sorted]
  rfl

theorem Selection.matching_eq_ok_iff {shown : Value → Except Fault Text} {q : Selection}
    {rs found : List Record} :
    q.matching shown rs = .ok found ↔ q.problem? shown rs = none ∧ q.answer shown rs = found := by
  rw [matching]
  cases q.problem? shown rs <;> simp

namespace Store

def IsUp (s : Store) (request : Request) : Prop := ∀ o ∈ s.outages.requests, o.1 ≠ request

/-- Whether a scan in a transaction is not refused. -/
def Admits (s : Store) (q : Selection) (transaction : Option Nat) : Prop :=
  ∀ n, transaction = some n →
    (∃ t, s.transaction? n = some t ∧ t.isActive = true) ∧
      (q.ancestor.isNone && s.requiresAncestor) = false

def noted (s : Store) (request : Request) (transaction : Option Nat) : Store :=
  { s with
    journal := s.journal ++ [(request, (transaction.bind s.transaction?).map (·.text))] }

theorem enter_on {s : Store} {request : Request} (h : s.IsUp request)
    (transaction : Option Nat) :
    (enter request transaction).on s = (.ok (), s.noted request transaction) := by
  have hf : s.outages.requests.find? (fun o => o.1 = request) = none := by
    rw [List.find?_eq_none]
    intro o ho
    simpa using h o ho
  simp only [enter, Attempt.on_bind, Attempt.on_get, Attempt.on_set, hf]
  rfl

theorem enter_eq_ok {s t : Store} {request : Request} {transaction : Option Nat}
    (h : (enter request transaction).on s = (.ok (), t)) : t = s.noted request transaction := by
  obtain ⟨_, _, hget, h⟩ := (Attempt.on_bind_eq_ok_iff _ _ _ _ _).mp h
  cases hget
  obtain ⟨_, _, hset, h⟩ := (Attempt.on_bind_eq_ok_iff _ _ _ _ _).mp h
  cases hset
  split at h
  · cases h
  · cases h
    rfl

theorem admits_none (s : Store) (q : Selection) : s.Admits q none := by
  intro n h
  cases h

theorem number_eq_of_transaction? {s : Store} {n : Nat} {t : Transaction}
    (h : s.transaction? n = some t) : t.number = n := by simpa using List.find?_some h

theorem transaction?_updateTransaction {f : Transaction → Transaction}
    (hf : ∀ t, (f t).number = t.number) (s : Store) (m n : Nat) :
    (s.updateTransaction m f).transaction? n =
      (s.transaction? n).map fun t => if t.number = m then f t else t := by
  have number (t : Transaction) :
      (if t.number = m then f t else t).number = t.number := by
    split
    · exact hf t
    · rfl
  simp only [transaction?, updateTransaction, List.find?_map, Function.comp_def, number]

theorem transaction?_update (f : Transaction → Transaction) (hf : ∀ t, (f t).number = t.number)
    (s : Store) (n : Nat) :
    (s.updateTransaction n f).transaction? n = (s.transaction? n).map f := by
  rw [transaction?_updateTransaction hf]
  cases h : s.transaction? n with
  | none => rfl
  | some t => simp [number_eq_of_transaction? h]

theorem active_on {s : Store} {n : Nat} {t : Transaction} (h : s.transaction? n = some t)
    (ht : t.isActive = true) : (active n).on s = (.ok t, s) := by
  simp only [active, Attempt.on_bind, Attempt.on_get, h, ht, if_true, Attempt.on_pure]

theorem active_eq_ok {s t : Store} {n : Nat} {going : Transaction}
    (h : (active n).on s = (.ok going, t)) : s = t ∧ s.transaction? n = some going := by
  rw [active, Attempt.on_bind_of_ok (Attempt.on_get s)] at h
  cases hf : s.transaction? n with
  | none =>
    rw [hf] at h
    cases h
  | some found =>
    rw [hf] at h
    dsimp only at h
    split at h
    · cases h
      exact ⟨rfl, rfl⟩
    · cases h

theorem checkTransaction_on {s : Store} {q : Selection} {transaction : Option Nat}
    (h : s.Admits q transaction) : (checkTransaction q transaction).on s = (.ok (), s) := by
  cases transaction with
  | none => rfl
  | some n =>
    obtain ⟨⟨t, ht, ha⟩, hq⟩ := h n rfl
    simp only [checkTransaction, active, Attempt.on_bind, Attempt.on_get, ht, ha, if_true,
      Attempt.on_pure, hq]
    rfl

def given (shown : Value → Except Fault Text) (q : Selection) (keysOnly : Bool) (rs : List Record) :
    List Record :=
  if keysOnly || q.keysOnly then (q.answer shown rs).map Record.bare else q.answer shown rs

theorem given_map_key (shown : Value → Except Fault Text) (q : Selection) (keysOnly : Bool)
    (rs : List Record) :
    (given shown q keysOnly rs).map Record.key = (q.answer shown rs).map Record.key := by
  rw [given]
  split
  · rw [List.map_map]
    rfl
  · rfl

theorem note_eq_ok_iff (shown : Value → Except Fault Text) (q : Selection) (w : Window) :
    note shown q w = .ok () ↔ NativeQuery.CanWrite shown (.selection q) ∧ w.CanWrite := by
  rw [Window.CanWrite, ← NativeQuery.selection_text_isOk_iff, ← optionMapM_isOk_iff]
  simp [note, bind_eq_ok_iff, pure, Except.pure]

/-- Whether records can be selected from and the scan can be noted down. -/
structure CanScan (shown : Value → Except Fault Text) (q : Selection) (w : Window)
    (rs : List Record) : Prop where
  compared : q.problem? shown rs = none
  noted : note shown q w = .ok ()

theorem CanScan.canWrite {shown : Value → Except Fault Text} {q : Selection} {w : Window}
    {rs : List Record} (h : CanScan shown q w rs) : NativeQuery.CanWrite shown (.selection q) :=
  ((note_eq_ok_iff shown q w).mp h.noted).1

theorem canScan_of_stretch {shown : Value → Except Fault Text} {q : Selection} {w : Window}
    {rs : List Record} (written : NativeQuery.CanWrite shown (.selection q))
    (compared : q.problem? shown rs = none) {p : Nat × Option Nat} (hp : Cursor.stretch w = .ok p) :
    CanScan shown q w rs :=
  ⟨compared, (note_eq_ok_iff shown q w).mpr ⟨written, Window.canWrite_of_stretch hp⟩⟩

theorem CanScan.withKeysOnly {shown : Value → Except Fault Text} {q : Selection} {w : Window}
    {rs : List Record} (h : CanScan shown q w rs) (keysOnly : Bool) :
    CanScan shown { q with keysOnly := keysOnly } w rs :=
  ⟨(q.problem?_keysOnly shown keysOnly rs).trans h.compared, h.noted⟩

theorem scanned_eq_ok_iff {shown : Value → Except Fault Text} {q : Selection} {w : Window}
    {keysOnly : Bool} {rs : List Record} {c : Cursor Record} :
    scanned shown q w keysOnly rs = .ok c ↔
      CanScan shown q w rs ∧ c = Cursor.ofWindow w (given shown q keysOnly rs) := by
  simp only [scanned, bind_eq_ok_iff, Selection.matching_eq_ok_iff]
  constructor
  · rintro ⟨_, ⟨hp, rfl⟩, ⟨⟩, hn, h⟩
    cases h
    exact ⟨⟨hp, hn⟩, rfl⟩
  · rintro ⟨⟨hp, hn⟩, rfl⟩
    exact ⟨_, ⟨hp, rfl⟩, (), hn, rfl⟩

theorem CanScan.scanned {shown : Value → Except Fault Text} {q : Selection} {w : Window}
    {rs : List Record} (h : CanScan shown q w rs) (keysOnly : Bool) :
    Store.scanned shown q w keysOnly rs = .ok (Cursor.ofWindow w (given shown q keysOnly rs)) :=
  scanned_eq_ok_iff.mpr ⟨h, rfl⟩

theorem scan_on {s : Store} {q : Selection} {transaction : Option Nat} (hu : s.IsUp .scan)
    (ht : s.Admits q transaction) (shown : Value → Except Fault Text) (w : Window)
    (keysOnly : Bool) :
    (scan shown q transaction w keysOnly).on s =
      (scanned shown q w keysOnly s.records, (s.noted .scan transaction).tick .scan) := by
  have hc : Admits ((s.noted .scan transaction).tick .scan) q transaction := ht
  simp only [scan, Attempt.on_bind, enter_on hu, Attempt.on_modify, checkTransaction_on hc,
    Attempt.on_get, Attempt.on_ofExcept]
  rfl

theorem scan_on_of_canScan {s : Store} {q : Selection} {transaction : Option Nat}
    (hu : s.IsUp .scan)
    (ht : s.Admits q transaction) {shown : Value → Except Fault Text} {w : Window}
    (h : CanScan shown q w s.records) (keysOnly : Bool) :
    (scan shown q transaction w keysOnly).on s =
      (.ok (Cursor.ofWindow w (given shown q keysOnly s.records)),
        (s.noted .scan transaction).tick .scan) := by
  rw [scan_on hu ht, h.scanned]

end Store
end RecordStore
