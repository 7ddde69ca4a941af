import RecordStore.Proofs.Executing
import RecordStore.Proofs.LookingUp

/-!
# Touched records

What an execution returns, counts or removes. A selection touches records of the kind of its
candidate class. A look-up touches the records of its keys, whatever their kind is.
-/

set_option autoImplicit false

namespace RecordStore

open Attempt

namespace Cursor

variable {α : Type}

theorem mem_of_gives_ofWindow {w : Window} {items : List α} {a : α}
    (h : (ofWindow w items).Gives a) : a ∈ items := by
  cases hw : stretch w with
  | error f =>
    rw [ofWindow, hw] at h
    obtain ⟨x, hx, ho⟩ := h
    rw [List.mem_singleton.mp hx] at ho
    cases ho
  | ok p =>
    rw [ofWindow_of_stretch hw, gives_ofReads] at h
    exact (stretchOf_sublist p items).subset h

theorem gives_ofList (items : List α) (a : α) : (ofList items).Gives a ↔ a ∈ items := by
  constructor
  · rintro ⟨x, hx, ho⟩
    obtain ⟨b, hb, rfl⟩ := List.mem_map.mp hx
    cases ho
    exact hb
  · intro h
    exact ⟨_, List.mem_map_of_mem h, rfl⟩

end Cursor

namespace Store

theorem IsLike.refl (s : Store) : s.IsLike s := ⟨rfl, rfl, rfl⟩

theorem IsLike.trans {s t u : Store} (h : u.IsLike t) (h' : t.IsLike s) : u.IsLike s :=
  ⟨h.records.trans h'.records, h.transactions.trans h'.transactions, h.current.trans h'.current⟩

theorem checkTransaction_eq_ok {s t : Store} {q : Selection} {transaction : Option Nat}
    (h : (checkTransaction q transaction).on s = (.ok (), t)) : s = t := by
  cases transaction with
  | none =>
    cases h
    rfl
  | some n =>
    obtain ⟨_, _, hactive, h⟩ := (on_bind_eq_ok_iff _ _ _ _ _).mp h
    obtain ⟨rfl, -⟩ := active_eq_ok hactive
    rw [on_bind_of_ok (on_get s)] at h
    split at h
    · cases h
    · cases h
      rfl

theorem scan_spec {s t : Store} {shown : Value → Except Fault Text} {q : Selection}
    {transaction : Option Nat} {w : Window} {keysOnly : Bool} {c : Cursor Record}
    (h : (scan shown q transaction w keysOnly).on s = (.ok c, t)) :
    t.IsLike s ∧ c = Cursor.ofWindow w (given shown q keysOnly s.records) := by
  obtain ⟨_, _, entered, h⟩ := (on_bind_eq_ok_iff _ _ _ _ _).mp h
  obtain rfl := enter_eq_ok entered
  rw [on_bind_of_ok (on_modify _ _)] at h
  obtain ⟨_, _, checked, h⟩ := (on_bind_eq_ok_iff _ _ _ _ _).mp h
  obtain rfl := checkTransaction_eq_ok checked
  rw [on_bind_of_ok (on_get _)] at h
  obtain ⟨scanned, rfl⟩ := (on_ofExcept_eq_ok_iff _ _ _ _).mp h
  exact ⟨⟨rfl, rfl, rfl⟩, (scanned_eq_ok_iff.mp scanned).2⟩

theorem count_spec {s t : Store} {shown : Value → Except Fault Text} {q : Selection}
    {transaction : Option Nat}
    {w : Window} {n : Nat} (h : (count shown q transaction w).on s = (.ok n, t)) :
    t.IsLike s ∧ n = (q.answer shown s.records).length := by
  obtain ⟨_, _, entered, h⟩ := (on_bind_eq_ok_iff _ _ _ _ _).mp h
  obtain rfl := enter_eq_ok entered
  rw [on_bind_of_ok (on_modify _ _)] at h
  split at h
  · cases h
  · obtain ⟨_, _, checked, h⟩ := (on_bind_eq_ok_iff _ _ _ _ _).mp h
    obtain rfl := checkTransaction_eq_ok checked
    rw [on_bind_of_ok (on_get _)] at h
    obtain ⟨selected, _, matched, h⟩ := (on_bind_eq_ok_iff _ _ _ _ _).mp h
    obtain ⟨found, rfl⟩ := (on_ofExcept_eq_ok_iff _ _ _ _).mp matched
    cases h
    rw [← (Selection.matching_eq_ok_iff.mp found).2]
    exact ⟨⟨rfl, rfl, rfl⟩, rfl⟩

theorem receive_spec {s t : Store} {x : Delivery Record} {r : Record}
    (h : (receive x).on s = (.ok r, t)) : t.IsLike s ∧ x.outcome = .ok r := by
  obtain ⟨_, u, hread, h⟩ := (on_bind_eq_ok_iff _ _ _ _ _).mp h
  obtain ⟨ho, rfl⟩ := (on_ofExcept_eq_ok_iff _ _ _ _).mp h
  refine ⟨?_, ho⟩
  cases hn : x.read with
  | none =>
    rw [hn] at hread
    cases hread
    exact .refl s
  | some n =>
    rw [hn] at hread
    obtain ⟨-, rfl⟩ := (read_eq_ok_iff s u n).mp hread
    exact ⟨rfl, rfl, rfl⟩

theorem drain_spec {s t : Store} {c : Cursor Record} {rs : List Record}
    (h : (drain c).on s = (.ok rs, t)) : t.IsLike s ∧ ∀ r ∈ rs, c.Gives r := by
  induction c generalizing s rs with
  | nil =>
    cases h
    exact ⟨.refl _, by simp⟩
  | cons x rest ih =>
    obtain ⟨r, u, received, h⟩ := (on_bind_eq_ok_iff _ _ _ _ _).mp h
    obtain ⟨rs, v, drained, h⟩ := (on_bind_eq_ok_iff _ _ _ _ _).mp h
    cases h
    obtain ⟨like, ho⟩ := receive_spec received
    obtain ⟨like', gives⟩ := ih drained
    refine ⟨like'.trans like, List.forall_mem_cons.mpr ⟨⟨x, .head _, ho⟩, fun a ha => ?_⟩⟩
    obtain ⟨y, hy, hya⟩ := gives a ha
    exact ⟨y, .tail _ hy, hya⟩

theorem exists_answer_of_given {shown : Value → Except Fault Text} {q : Selection} {keysOnly : Bool}
    {rs : List Record} {r : Record} (h : r ∈ given shown q keysOnly rs) :
    ∃ x ∈ q.answer shown rs, x.key = r.key := by
  have hk := List.mem_map_of_mem (f := Record.key) h
  rw [given_map_key] at hk
  exact List.mem_map.mp hk

theorem collect_spec {s t : Store} {shown : Value → Except Fault Text} {q : Selection}
    {transaction : Option Nat} {w : Window} {keys : List (Option Key)}
    (h : (do
      let c ← scan shown { q with keysOnly := true } transaction w false
      let rs ← drain c
      return rs.map (fun r => some r.key) : Attempt Store (List (Option Key))).on s =
        (.ok keys, t)) :
    t.IsLike s ∧ ∃ rs : List Record, keys = rs.map (fun r => some r.key) ∧
      ∀ r ∈ rs, ∃ x ∈ q.answer shown s.records, x.key = r.key := by
  obtain ⟨c, u, scanned, h⟩ := (on_bind_eq_ok_iff _ _ _ _ _).mp h
  obtain ⟨rs, v, drained, h⟩ := (on_bind_eq_ok_iff _ _ _ _ _).mp h
  cases h
  obtain ⟨scanning, rfl⟩ := scan_spec scanned
  obtain ⟨draining, gives⟩ := drain_spec drained
  exact ⟨draining.trans scanning, rs, rfl, fun r hr =>
    exists_answer_of_given (q := { q with keysOnly := true })
      (Cursor.mem_of_gives_ofWindow (gives r hr))⟩

end Store

def NativeQuery.AsksFor (k : Key) : NativeQuery → Prop
  | .selection _ => False
  | .lookup _ keys => ∃ j, some j ∈ keys ∧ j.same k = true

def Result.Returns (r : Record) : Result → Prop
  | .rows made _ => made.pending.Gives r
  | _ => False

/-- Whether an execution returned, counted or removed a record. -/
def Touches (before after : Database) (result : Result) (counted : List Record) (r : Record) :
    Prop :=
  result.Returns r ∨ r ∈ counted ∨ before.store.Loses after.store r

namespace Execution

variable {e : Execution} {d after : Database} {result : Result}

theorem delete_spec {keys : List (Option Key)} {transaction : Option Nat}
    (h : (e.delete keys transaction).on d = (.ok result, after)) :
    (Store.delete keys transaction).on d.store = (.ok (), after.store) ∧
      result = .number keys.length := by
  obtain ⟨_, _, requested, h⟩ := (on_bind_eq_ok_iff _ _ _ _ _).mp h
  obtain ⟨t, deleted, rfl⟩ := (e.request_eq_ok_iff _ _ _ _).mp requested
  obtain ⟨_, _, evicted, h⟩ := (on_bind_eq_ok_iff _ _ _ _ _).mp h
  obtain ⟨w, -, rfl⟩ := (on_zoom_eq_ok_iff _ _ _ _ _ _).mp evicted
  cases h
  exact ⟨deleted, rfl⟩

theorem scan_touches (hd : d.Sound) {q : Selection} (h : (e.scan q).on d = (.ok result, after)) :
    ∃ counted : List Record, (∀ n, result = .number n → n = counted.length) ∧
      ∀ r, Touches d after result counted r →
        ∃ x ∈ q.answer d.shown d.store.records, x.key = r.key := by
  rw [scan, on_bind_of_ok (on_get d)] at h
  dsimp only at h
  split at h
  · -- the answer is counted
    obtain ⟨n, _, requested, h⟩ := (on_bind_eq_ok_iff _ _ _ _ _).mp h
    obtain ⟨t, counts, rfl⟩ := (e.request_eq_ok_iff _ _ _ _).mp requested
    cases h
    obtain ⟨like, rfl⟩ := Store.count_spec counts
    refine ⟨q.answer d.shown d.store.records, fun n hn => (Result.number.inj hn).symm, ?_⟩
    rintro r (returned | counted | lost)
    · cases returned
    · exact ⟨r, counted, rfl⟩
    · exact absurd lost (like.not_loses r)
  split at h
  · -- the answer is removed
    obtain ⟨keys, _, requested, h⟩ := (on_bind_eq_ok_iff _ _ _ _ _).mp h
    obtain ⟨t, collected, rfl⟩ := (e.request_eq_ok_iff _ _ _ _).mp requested
    obtain ⟨deleted, rfl⟩ := delete_spec h
    obtain ⟨like, rs, rfl, selected⟩ := Store.collect_spec collected
    refine ⟨rs, fun n hn => by simpa using (Result.number.inj hn).symm, ?_⟩
    rintro r (returned | counted | lost)
    · cases returned
    · exact selected r counted
    · rw [← like.loses_iff] at lost
      rw [← like.current] at deleted
      obtain ⟨hr, k, hk, hs⟩ := (Store.delete_loses_iff deleted r).mp lost
      obtain ⟨x, hx, rfl⟩ : ∃ x ∈ rs, x.key = k := by simpa using hk
      obtain ⟨y, hy, hyx⟩ := selected x hx
      have stored := ((q.mem_answer_iff d.shown _ y).mp hy).1
      rw [← hyx] at hs
      rw [like.records] at hr
      exact ⟨y, hy, congrArg Record.key (Store.eq_of_same hd.apart stored hr hs)⟩
  · -- the answer is returned
    obtain ⟨c, _, requested, h⟩ := (on_bind_eq_ok_iff _ _ _ _ _).mp h
    obtain ⟨t, scanned, rfl⟩ := (e.request_eq_ok_iff _ _ _ _).mp requested
    rw [openRows_on] at h
    cases h
    obtain ⟨like, rfl⟩ := Store.scan_spec scanned
    refine ⟨[], by rintro n ⟨⟩, ?_⟩
    rintro r (returned | counted | lost)
    · exact Store.exists_answer_of_given (Cursor.mem_of_gives_ofWindow returned)
    · cases counted
    · exact absurd lost (like.not_loses r)

theorem mem_of_cut {w : Window} {items rs : List Record} (h : cut w items = .ok rs) {r : Record}
    (hr : r ∈ rs) : r ∈ items := by
  rw [cut] at h
  split at h
  · cases h
    exact hr
  · obtain ⟨stop, -, h⟩ := (bind_eq_ok_iff _ _ _).mp h
    obtain ⟨positions, -, h⟩ := (bind_eq_ok_iff _ _ _).mp h
    cases h
    obtain ⟨n, -, hn⟩ := List.mem_filterMap.mp hr
    exact List.mem_of_getElem? hn

theorem mem_found_iff (hd : d.Sound) (kind : Text) (keys : List (Option Key)) (r : Record) :
    r ∈ keys.filterMap (·.bind d.store.find?) ↔
      r ∈ d.store.records ∧ (NativeQuery.lookup kind keys).AsksFor r.key := by
  rw [List.mem_filterMap]
  constructor
  · rintro ⟨k, hk, hr⟩
    obtain ⟨j, rfl, hj⟩ := Option.bind_eq_some_iff.mp hr
    obtain ⟨stored, same⟩ := Store.find?_eq_some hj
    exact ⟨stored, j, hk, by rwa [Key.same_comm]⟩
  · rintro ⟨hr, k, hk, hs⟩
    exact ⟨some k, hk, Store.find?_of_mem hd.apart hr (by rwa [Key.same_comm])⟩

theorem lookup_deletes (hd : d.Sound) (kind : Text) {keys : List (Option Key)}
    (hs : e.statement.isDelete = true) (h : (e.lookup keys).on d = (.ok result, after)) :
    (∃ n, result = .number n) ∧ ∀ r, d.store.Loses after.store r ↔
      r ∈ d.store.records ∧ (NativeQuery.lookup kind keys).AsksFor r.key := by
  rw [lookup, on_bind_of_ok (on_get d)] at h
  simp only [hs, if_true] at h
  split at h
  · -- only keys that are found are removed
    obtain ⟨found, _, requested, h⟩ := (on_bind_eq_ok_iff _ _ _ _ _).mp h
    obtain ⟨t, looked, rfl⟩ := (e.request_eq_ok_iff _ _ _ _).mp requested
    obtain ⟨deleted, rfl⟩ := delete_spec h
    obtain ⟨like, known⟩ := Store.lookup_spec looked
    rw [← like.current] at deleted
    refine ⟨⟨_, rfl⟩, fun r => ?_⟩
    rw [← like.loses_iff, Store.delete_loses_iff deleted, like.records]
    refine and_congr_right fun hr => ⟨?_, ?_⟩
    · rintro ⟨k, hk, hs⟩
      exact ⟨k, List.mem_of_mem_filter hk, hs⟩
    · rintro ⟨k, hk, hs⟩
      have stored : d.store.find? k = some r :=
        Store.find?_of_mem hd.apart hr (by rwa [Key.same_comm])
      have isFound : isFound found (some k) = true := by
        rw [(known _ hk).2, Option.bind_some, stored]
        rfl
      exact ⟨k, List.mem_filter.mpr ⟨hk, isFound⟩, hs⟩
  · obtain ⟨deleted, rfl⟩ := delete_spec h
    exact ⟨⟨_, rfl⟩, Store.delete_loses_iff deleted⟩

theorem lookup_selects {keys : List (Option Key)}
    (hs : e.statement.isDelete = false) (h : (e.lookup keys).on d = (.ok result, after)) :
    after.store.IsLike d.store ∧ ∃ rs, cut e.window (keys.filterMap (·.bind d.store.find?)) =
      .ok rs ∧
      (result = .number rs.length ∨
        ∃ token query reader, result = .rows (Rows.start (Cursor.ofList rs) token query)
          reader) := by
  rw [lookup, on_bind_of_ok (on_get d)] at h
  simp only [hs, Bool.false_eq_true, if_false] at h
  obtain ⟨found, _, requested, h⟩ := (on_bind_eq_ok_iff _ _ _ _ _).mp h
  obtain ⟨t, looked, rfl⟩ := (e.request_eq_ok_iff _ _ _ _).mp requested
  obtain ⟨like, known⟩ := Store.lookup_spec looked
  obtain ⟨rs, _, made, h⟩ := (on_bind_eq_ok_iff _ _ _ _ _).mp h
  obtain ⟨hcut, rfl⟩ := (on_ofExcept_eq_ok_iff _ _ _ _).mp made
  have items : keys.filterMap (recordOf? found) = keys.filterMap (·.bind d.store.find?) :=
    List.filterMap_congr fun k hk => (known k hk).1
  rw [items] at hcut
  split at h
  · cases h
    exact ⟨like, rs, hcut, .inl rfl⟩
  · rw [openRows_on] at h
    cases h
    exact ⟨like, rs, hcut, .inr ⟨_, _, _, rfl⟩⟩

theorem lookup_touches (hd : d.Sound) (kind : Text) {keys : List (Option Key)}
    (h : (e.lookup keys).on d = (.ok result, after)) :
    ∃ counted : List Record,
      (e.statement.isDelete = false → ∀ n, result = .number n → n = counted.length) ∧
      (∀ r, Touches d after result counted r →
        r ∈ d.store.records ∧ (NativeQuery.lookup kind keys).AsksFor r.key) ∧
      (e.window = .all → ∀ r ∈ d.store.records, (NativeQuery.lookup kind keys).AsksFor r.key →
        Touches d after result counted r) := by
  cases hs : e.statement.isDelete with
  | true =>
    obtain ⟨⟨n, rfl⟩, lost⟩ := lookup_deletes hd kind hs h
    refine ⟨[], by simp, ?_, fun _ r hr hk => .inr (.inr ((lost r).mpr ⟨hr, hk⟩))⟩
    rintro r (returned | counted | gone)
    · cases returned
    · cases counted
    · exact (lost r).mp gone
  | false =>
    obtain ⟨like, rs, hcut, hresult⟩ := lookup_selects hs h
    have found (r : Record) (hr : r ∈ rs) := (mem_found_iff hd kind keys r).mp (mem_of_cut hcut hr)
    have all (hw : e.window = .all) (r : Record) (hr : r ∈ d.store.records)
        (hk : (NativeQuery.lookup kind keys).AsksFor r.key) : r ∈ rs := by
      rw [hw] at hcut
      rw [← Except.ok.inj hcut]
      exact (mem_found_iff hd kind keys r).mpr ⟨hr, hk⟩
    rcases hresult with rfl | ⟨token, query, reader, rfl⟩
    · refine ⟨rs, by simp, ?_, fun hw r hr hk => .inr (.inl (all hw r hr hk))⟩
      rintro r (returned | counted | gone)
      · cases returned
      · exact found r counted
      · exact absurd gone (like.not_loses r)
    · refine ⟨[], by simp, ?_, fun hw r hr hk =>
        .inl ((Cursor.gives_ofList rs r).mpr (all hw r hr hk))⟩
      rintro r (returned | counted | gone)
      · exact found r ((Cursor.gives_ofList rs r).mp returned)
      · cases counted
      · exact absurd gone (like.not_loses r)

end Execution

namespace Candidate

theorem compile_kind {c : Candidate} {b : Bindings} {plan : ResultPlan} {q : Selection}
    (h : c.compile b plan = .ok (.selection q)) : q.kind = c.mapping.kind := by
  obtain ⟨filtered, hf, h⟩ := (bind_eq_ok_iff _ _ _).mp h
  obtain ⟨ordered, ho, h⟩ := (bind_eq_ok_iff _ _ _).mp h
  have frozen : ordered.freeze (plan.form = .keysOnly || c.statement.isDelete) = .selection q :=
    Except.ok.inj h
  have kept : ordered.kind = c.mapping.kind :=
    (compileOrdering_frame ho).1.trans (compileFilter_frame hf).1
  rw [Draft.freeze] at frozen
  split at frozen
  · cases frozen
  · cases frozen
    exact kept

end Candidate

namespace Database

variable {d after : Database} {s : Statement} {parameters : Parameters} {now : Moment}
  {c : Candidate} {plan : ResultPlan} {native : NativeQuery} {range : Range} {result : Result}

theorem execute_eq_ok (hc : s.CompilesTo d parameters now c plan native)
    (hx : (execute s range parameters now).on d = (.ok result, after)) :
    (range.isEmpty = .ok true ∧ after = d.compiled native ∧
      (result = .number 0 ∨ result = .nothing)) ∨
    ∃ w, range.window d.settings.query.largest c.query = .ok w ∧
      ((⟨c, plan, w⟩ : Execution).run native).on (d.compiled native) = (.ok result, after) := by
  rw [execute_on_written hc (written_of_execute hc hx), carryOut] at hx
  obtain ⟨empty, _, tested, hx⟩ := (on_bind_eq_ok_iff _ _ _ _ _).mp hx
  obtain ⟨he, rfl⟩ := (on_ofExcept_eq_ok_iff _ _ _ _).mp tested
  cases empty with
  | true =>
    cases hx
    refine .inl ⟨he, rfl, ?_⟩
    split
    · exact .inl rfl
    · exact .inr rfl
  | false =>
    obtain ⟨w, _, made, hx⟩ := (on_bind_eq_ok_iff _ _ _ _ _).mp hx
    obtain ⟨hw, rfl⟩ := (on_ofExcept_eq_ok_iff _ _ _ _).mp made
    split at hx
    · cases hx
    · exact .inr ⟨w, hw, hx⟩

/-- What an execution touches is of the kind of its class or was asked for by its key; whatever is
asked for by its key is touched, unless a range leaves it out. -/
theorem execute_touches (hd : d.Reachable) (hc : s.CompilesTo d parameters now c plan native)
    (hx : (execute s range parameters now).on d = (.ok result, after)) :
    ∃ counted : List Record,
      (∀ n, result = .number n → (s.kind = .delete → ∃ q, native = .selection q) →
        n = counted.length) ∧
      (∀ r, Touches d after result counted r →
        (∃ x ∈ d.store.records, x.key = r.key) ∧
          (r.kind = c.mapping.kind ∨ native.AsksFor r.key)) ∧
      (range = ⟨none, none⟩ → ∀ r ∈ d.store.records, native.AsksFor r.key →
        Touches d after result counted r) := by
  rcases execute_eq_ok hc hx with ⟨he, rfl, hresult⟩ | ⟨w, hw, ran⟩
  · have like : (d.compiled native).store.IsLike d.store := .refl _
    refine ⟨[], ?_, ?_, ?_⟩
    · rintro n rfl -
      simpa using hresult
    · rintro r (returned | counted | lost)
      · rcases hresult with rfl | rfl <;> cases returned
      · cases counted
      · exact absurd lost (like.not_loses r)
    · rintro rfl
      cases he
  have sound : (d.compiled native).Sound := hd.sound.congr rfl rfl
  cases native with
  | selection q =>
    obtain ⟨counted, number, touched⟩ := Execution.scan_touches sound ran
    refine ⟨counted, fun n hn _ => number n hn, fun r hr => ?_, fun _ r _ asked => asked.elim⟩
    obtain ⟨x, hx, hxr⟩ := touched r hr
    obtain ⟨stored, selected⟩ := (q.mem_answer_iff _ _ x).mp hx
    have kind := ((q.selects_iff _ x).mp selected).1
    refine ⟨⟨x, stored, hxr⟩, .inl ?_⟩
    rw [Record.kind, ← hxr]
    exact kind.trans (Candidate.compile_kind hc.compile_eq)
  | lookup kind keys =>
    obtain ⟨counted, number, touched, all⟩ := Execution.lookup_touches sound kind ran
    refine ⟨counted, fun n hn selects => ?_, fun r hr => ?_, fun hr => ?_⟩
    · refine number ?_ n hn
      have unlike : s.kind ≠ .delete := fun hk => by
        obtain ⟨q, hq⟩ := selects hk
        cases hq
      simp [Execution.statement, Statement.isDelete, hc.statement_kind, unlike]
    · obtain ⟨stored, asked⟩ := touched r hr
      exact ⟨⟨r, stored, rfl⟩, .inr asked⟩
    · subst hr
      cases hw
      exact all rfl

def bookshelf : Database :=
  List.foldl DatabaseAction.step (start .default)
    [.register (.record "Author") ⟨"Author", [("id", false), ("name", false)]⟩
        [.plain ⟨"id", .integer, true, false, none, none, false, false⟩,
          .plain ⟨"name", .text, false, false, none, none, false, false⟩] none,
      .store (.put ⟨.root "Book" (.number 4), [("title", .text "Dune")]⟩ none)]

def deleteAuthors : Statement where
  candidate := some (.record "Author")
  filter := .compare .equal (.field ["id"]) (.parameter (some "ids") none)
  ordering := []
  results := []
  sources := []
  grouping := []
  having := .absent
  aliasName := none
  kind := .delete
  text := none
  extensions := []

/-- The parameters that bind the identities to the key of a book. -/
def bookKeys : Parameters := [(.name "ids", .collection .list [.key (.root "Book" (.number 4))])]

/-- Authors are deleted by the key of a book, and the book is gone. -/
theorem execute_touches_book :
    ∃ after,
      (execute deleteAuthors ⟨none, none⟩ bookKeys ⟨⟨2024, 1, 1⟩, 12, 0, 0, 0, false, none⟩).on
        bookshelf =
        (.ok (.number 1), after) ∧
      ∃ counted r, Touches bookshelf after (.number 1) counted r ∧ r.kind ≠ "Author" := by
  have compiled : deleteAuthors.CompilesTo bookshelf bookKeys
      ⟨⟨2024, 1, 1⟩, 12, 0, 0, 0, false, none⟩ _ _
      (.lookup "Author" [some (.root "Book" (.number 4))]) := ⟨rfl, rfl, rfl⟩
  obtain ⟨after, ran⟩ : ∃ after,
      (execute deleteAuthors ⟨none, none⟩ bookKeys ⟨⟨2024, 1, 1⟩, 12, 0, 0, 0, false, none⟩).on
        bookshelf =
        (.ok (.number 1), after) := ⟨_, rfl⟩
  have reached : bookshelf.Reachable := ⟨_, _, rfl⟩
  obtain ⟨counted, -, -, touched⟩ := execute_touches reached compiled ran
  have asked : (NativeQuery.lookup "Author" [some (.root "Book" (.number 4))]).AsksFor
      (.root "Book" (.number 4)) := ⟨_, .head _, rfl⟩
  exact ⟨after, ran, counted, _, touched rfl _ (.head _) asked, by decide⟩

end Database
end RecordStore
