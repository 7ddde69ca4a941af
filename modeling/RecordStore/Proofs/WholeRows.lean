import RecordStore.Proofs.Executing
import RecordStore.Proofs.Holding

/-!
# Rows of whole objects

Whatever other rows are made of, the row of a record whose key has an object is that object.
-/

set_option autoImplicit false

namespace RecordStore

open Attempt

/-- Whether a result that is asked for row after row gives out a value as the row of a key. -/
def Result.Gives (d : Database) (k : Key) (v : Value) : Result → Prop
  | .rows given reader => ∃ n, ∃ x ∈ (Rows.pulled reader.maker n (given, d)).1.pending.head?,
      (∃ r, x.outcome = .ok r ∧ r.key = k) ∧
      ((Rows.pull reader.maker).on (Rows.pulled reader.maker n (given, d))).2.1.ready =
        (Rows.pulled reader.maker n (given, d)).1.ready ++ [v]
  | _ => False

theorem Connections.isCancelled_issue (c : Connections) (i : Nat) :
    (c.issue i).2.isCancelled c.cancelled.length = false := by
  simp [issue, newToken, isCancelled]

theorem RowReader.runs_holding {reader : RowReader} {k : Key} {v : Value}
    (loads : ∀ r, Keeps (fun w : Workspace => w.Holds k v) (reader.load r)) (token : Nat) :
    reader.maker.Runs
      (fun d => d.Sound ∧ d.connections.isCancelled token = false ∧ d.workspace.Holds k v)
      (some token) where
  reads n d := by
    rintro ⟨hd, ht, hk⟩
    have rows : d.store.outages.rows = none := by rw [hd.steady]
    refine ⟨{ d with store := { d.store with reads := d.store.reads + 1 } }, ?_, ?_⟩
    · show (Database.onStore (Store.read n)).on d = _
      rw [Database.onStore, on_zoom, Store.read_on rows]
    · exact ⟨hd.congr rfl rfl, ht, hk⟩
  makes r := by
    constructor
    rintro d ⟨hd, ht, hk⟩
    exact ⟨hd, ht, (loads r).after d.workspace hk⟩
  valid d t := by
    rintro ⟨-, ht, -⟩ h
    obtain rfl := Option.some.inj h
    exact ht

theorem runs_whole (mapping : ClassMapping) (k : Key) (v : Value) (token : Nat) :
    (RowReader.maker ⟨mapping, .whole false⟩).Runs
      (fun d => d.Sound ∧ d.connections.isCancelled token = false ∧ d.workspace.Holds k v)
      (some token) :=
  RowReader.runs_holding (fun r => Workspace.keeps_holds_loadWhole k v mapping r false) token

/-- Asked for row after row, a result gives out the object of a key if it has the key's record. -/
theorem Result.gives_iff {d : Database} {k : Key} {v : Value} {token : Nat} (hd : d.Sound)
    (ht : d.connections.isCancelled token = false) (hk : d.workspace.Holds k v)
    (mapping : ClassMapping) (query : Option Text) (records : List Record) :
    (Result.rows (Rows.start (Cursor.ofReads records) (some token) query)
      ⟨mapping, .whole false⟩).Gives d k v ↔ ∃ r ∈ records, r.key = k := by
  constructor
  · rintro ⟨n, x, hx, ⟨r, hr, hkey⟩, -⟩
    have pending := Rows.pending_pulled_subset _ n _ (List.mem_of_mem_head? hx)
    obtain ⟨a, ha, hxa⟩ := Cursor.outcome_of_mem_ofReads pending
    obtain rfl : r = a := Except.ok.inj (hr.symm.trans hxa)
    exact ⟨r, ha, hkey⟩
  · rintro ⟨r, hr, rfl⟩
    obtain ⟨n, hn⟩ := List.mem_iff_getElem?.mp hr
    let start : Rows Record Value := Rows.start (Cursor.ofReads records) (some token) query
    have runs := runs_whole mapping r.key v token
    have outcomes : ∀ x ∈ start.pending, ∃ a, x.outcome = .ok a := fun x hx => by
      obtain ⟨a, -, ha⟩ := Cursor.outcome_of_mem_ofReads hx
      exact ⟨a, ha⟩
    have item : (Cursor.ofReads records)[n]? = some ⟨.ok r, some n⟩ := by
      rw [Cursor.getElem?_ofReads, hn]
      rfl
    obtain ⟨hlt, -⟩ := List.getElem?_eq_some_iff.mp item
    obtain ⟨pending, kept, isOpen, hs⟩ :=
      runs.pulled_spec (r := start) rfl ⟨rfl, rfl⟩ outcomes (Nat.le_of_lt hlt) ⟨hd, ht, hk⟩
    have next : (Rows.pulled (RowReader.maker ⟨mapping, .whole false⟩) n (start, d)).1.pending =
        ⟨.ok r, some n⟩ :: (Cursor.ofReads records).drop (n + 1) := by
      rw [pending, List.drop_eq_getElem?_toList_append]
      show (Cursor.ofReads records)[n]?.toList ++ _ = _
      rw [item]
      rfl
    obtain ⟨t, ⟨-, -, holds⟩, pulled⟩ := runs.pull_cons kept isOpen next hs
    have loaded : (Database.onWorkspace (Workspace.loadWhole mapping r false)).on t =
        (.ok v, t) := by
      rw [Database.onWorkspace, on_zoom, Workspace.loadWhole_on_of_holds holds]
    refine ⟨n, ⟨.ok r, some n⟩, ?_, ⟨r, rfl, rfl⟩, ?_⟩
    · rw [next]
      rfl
    · have made : ((RowReader.maker ⟨mapping, .whole false⟩).make r).on t = (.ok v, t) := loaded
      rw [pulled, made]

namespace Database

variable {d : Database} {s : Statement} {parameters : Parameters} {now : Moment} {c : Candidate}
  {q : Selection} {k : Key} {v : Value}

theorem execute_gives_iff (hd : d.Sound) (hn : d.store.current = none)
    (hc : s.CompilesTo d parameters now c ⟨.whole, []⟩ (.selection q)) (hq : q.keysOnly = false)
    (hs : c.statement.isDelete = false)
    (hi : c.statement.flag "ignore_cache" d.settings.query.ignoreCache = false)
    (hk : d.workspace.Holds k v) :
    (∃ result last, (execute s ⟨none, none⟩ parameters now).on d = (.ok result, last) ∧
      result.Gives last k v) ↔
      Store.CanScan d.shown q .all d.store.records ∧
        ∃ r ∈ d.store.records, q.selects d.shown r = true ∧ r.key = k := by
  have unbounded : (⟨none, none⟩ : Range).isEmpty = .ok false := rfl
  have executed := execute_select_on (w := .all) (p := (0, none)) hd hn hc hs (by simp) unbounded
    rfl rfl
  have reader : (⟨c, ⟨.whole, []⟩, .all⟩ : Execution).reader d.settings.query =
      ⟨c.mapping, .whole false⟩ := by
    rw [← hi]
    rfl
  have answer : Cursor.stretchOf (0, none) (Store.given d.shown q false d.store.records) =
      q.answer d.shown d.store.records := by
    rw [Store.given, hq]
    rfl
  rw [reader, answer] at executed
  let last := (d.compiled (.selection q)).scanned
  have sound : last.Sound := hd.congr rfl rfl
  have valid : last.connections.isCancelled d.connections.cancelled.length = false :=
    d.connections.isCancelled_issue d.scope
  have gives := Result.gives_iff sound valid hk c.mapping c.query (q.answer d.shown d.store.records)
  constructor
  · rintro ⟨result, _, hrun, hgives⟩
    have scannable := canScan_of_execute hd hn hc (by simp) unbounded rfl rfl hrun
    rw [executed scannable] at hrun
    cases hrun
    obtain ⟨r, hr, hrk⟩ := gives.mp hgives
    obtain ⟨hm, selected⟩ := (q.mem_answer_iff d.shown _ r).mp hr
    exact ⟨scannable, r, hm, selected, hrk⟩
  · rintro ⟨scannable, r, hm, selected, hrk⟩
    have hr := (q.mem_answer_iff d.shown _ r).mpr ⟨hm, selected⟩
    exact ⟨_, _, executed scannable, gives.mpr ⟨r, hr, hrk⟩⟩

end Database
end RecordStore
