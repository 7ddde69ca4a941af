import RecordStore.Proofs.Executing

/-!
# Deleting what a statement selects

A deletion that scans removes the records that the selection written alike gives out, and nothing
else.
-/

set_option autoImplicit false

namespace RecordStore

namespace Database

variable {d : Database}

theorem IsWithout.shown_eq {after : Database} {keys : List Key} (h : after.IsWithout d keys) :
    after.shown = d.shown := by
  funext v
  show after.workspace.heap.shown v = d.workspace.heap.shown v
  rw [h.heap]

theorem IsWithout.answer_eq_nil {after : Database} {q : Selection} {keys : List Key}
    (h : after.IsWithout d keys)
    (hk : ∀ r ∈ q.answer d.shown d.store.records, r.key ∈ keys) :
    q.answer after.shown after.store.records = [] := by
  rw [h.shown_eq, List.eq_nil_iff_forall_not_mem]
  intro r hr
  obtain ⟨hm, hs⟩ := (q.mem_answer_iff d.shown _ r).mp hr
  rw [h.records, List.mem_filter] at hm
  have hin := hk r ((q.mem_answer_iff d.shown _ r).mpr ⟨hm.1, hs⟩)
  have hout := List.all_eq_true.mp hm.2 r.key hin
  simp at hout

theorem mem_records_iff_of_isWithout {after : Database} {streamed : List Record}
    (h : after.IsWithout d (streamed.map Record.key)) (r : Record) :
    r ∈ after.store.records ↔
      r ∈ d.store.records ∧ ∀ x ∈ streamed, x.key.same r.key = false := by
  rw [h.records, List.mem_filter]
  simp [Key.same_comm r.key]

section Windows

variable {s : Statement} {parameters : Parameters} {now : Moment} {c : Candidate}
  {plan : ResultPlan} {q : Selection} {range : Range} {w : Window} {p : Nat × Option Nat}

theorem execute_select_streams (hd : d.Sound) (hn : d.store.current = none)
    (hc : s.CompilesTo d parameters now c plan (.selection q))
    (hs : c.statement.isDelete = false) (hf : plan.form ≠ .count) (he : range.isEmpty = .ok false)
    (hw : range.window d.settings.query.largest c.query = .ok w) (hp : Cursor.stretch w = .ok p)
    (h : Store.CanScan d.shown q w d.store.records) :
    ∃ result after, (execute s range parameters now).on d = (.ok result, after) ∧
      result.Streams (Cursor.stretchOf p (Store.given d.shown q false d.store.records)) :=
  ⟨_, _, execute_select_on hd hn hc hs hf he hw hp h, _, _, rfl⟩

theorem execute_delete_without (hd : d.Sound) (hn : d.store.current = none)
    (hc : s.CompilesTo d parameters now c plan (.selection q))
    (hs : c.statement.isDelete = true) (hf : plan.form ≠ .count) (he : range.isEmpty = .ok false)
    (hw : range.window d.settings.query.largest c.query = .ok w) (hp : Cursor.stretch w = .ok p)
    (h : Store.CanScan d.shown q w d.store.records) {keys : List Key}
    (hk : keys = (Cursor.stretchOf p (q.answer d.shown d.store.records)).map Record.key) :
    ∃ after, (execute s range parameters now).on d = (.ok (.number keys.length), after) ∧
      after.IsWithout d keys := by
  let e : Execution := ⟨c, plan, w⟩
  have ran := execute_on_window hc h.canWrite he hw hf
  obtain ⟨after, hscan, h⟩ := e.scan_delete_on (d := d.compiled (.selection q)) q hd hn hs hf hp
    (h.withKeysOnly true) hk
  exact ⟨after, ran.trans hscan,
    ⟨h.records, h.outages, h.current, h.heap, h.identities, h.registry, h.settings⟩⟩

/-- The selection gives out records with some of the keys of the answer, all of them if there is no
range, and the deletion leaves the database without these keys. -/
theorem execute_both (hd : d.Sound) (hn : d.store.current = none)
    (hc : s.CompilesTo d parameters now c plan (.selection q))
    (hs : c.statement.isDelete = true) (hf : plan.form ≠ .count)
    (hr : range.Accepted d.settings.query.largest c.query)
    (written : NativeQuery.CanWrite d.shown (.selection q))
    (compared : range.isEmpty = .ok true ∨ q.problem? d.shown d.store.records = none) :
    ∃ streamed : List Record,
      (streamed.map Record.key).Sublist ((q.answer d.shown d.store.records).map Record.key) ∧
      (range = ⟨none, none⟩ →
        streamed.map Record.key = (q.answer d.shown d.store.records).map Record.key) ∧
      (∃ result after, (execute s.asSelect range parameters now).on d = (.ok result, after) ∧
        result.Streams streamed) ∧
      ∃ after, (execute s range parameters now).on d = (.ok (.number streamed.length), after) ∧
        after.IsWithout d (streamed.map Record.key) := by
  rcases hr with he | ⟨he, w, hw, p, hp⟩
  · -- nothing is asked of the store
    have counted : (⟨c, plan, .all⟩ : Execution).wantsNumber = true := by
      simp [Execution.wantsNumber, Execution.statement, hs]
    have uncounted : (⟨c.asSelect, plan, .all⟩ : Execution).wantsNumber = false := by
      rw [Execution.wantsNumber, decide_eq_false hf, Bool.false_or]
      rfl
    have selected := execute_on_empty hc.asSelect written he
    have deleted := execute_on_empty hc written he
    rw [if_pos counted] at deleted
    rw [uncounted] at selected
    have unchanged : d.store.records = d.store.records.filter fun _ => true :=
      (List.filter_eq_self.mpr fun _ _ => rfl).symm
    refine ⟨[], List.nil_sublist _, ?_, ⟨_, _, selected, rfl⟩, _, deleted, ?_⟩
    · rintro rfl
      cases he
    · exact ⟨unchanged, rfl, hn, rfl, rfl, rfl, rfl⟩
  · let form : Selection := { q with keysOnly := plan.form = .keysOnly }
    let streamed := Cursor.stretchOf p (Store.given d.shown form false d.store.records)
    have keys : streamed.map Record.key =
        (Cursor.stretchOf p (q.answer d.shown d.store.records)).map Record.key := by
      rw [← Cursor.stretchOf_map, ← Cursor.stretchOf_map, Store.given_map_key]
      rfl
    have h : Store.CanScan d.shown q w d.store.records :=
      Store.canScan_of_stretch written (compared.resolve_left (by simp [he])) hp
    have selected := execute_select_streams hd hn hc.asSelect rfl hf he hw hp (h.withKeysOnly _)
    obtain ⟨after, deleted, without⟩ := execute_delete_without hd hn hc hs hf he hw hp h keys
    rw [List.length_map] at deleted
    refine ⟨streamed, ?_, ?_, selected, after, deleted, without⟩
    · rw [keys]
      exact (Cursor.stretchOf_sublist p _).map _
    · rintro rfl
      cases hw
      cases hp
      exact keys

end Windows

theorem IsWithout.problem?_eq_none {after : Database} {q : Selection} {keys : List Key}
    (h : after.IsWithout d keys) (hk : ∀ r ∈ q.answer d.shown d.store.records, r.key ∈ keys)
    (compared : q.problem? d.shown d.store.records = none) :
    q.problem? after.shown after.store.records = none := by
  have tried := (Option.or_eq_none_iff.mp compared).1
  rw [List.findSome?_eq_none_iff] at tried
  have left : ∀ r ∈ after.store.records, q.trialProblem? after.shown r = none := by
    intro r hr
    rw [h.shown_eq]
    rw [h.records] at hr
    exact tried r (List.mem_of_mem_filter hr)
  have selected : after.store.records.filter (q.selects after.shown) = [] :=
    List.nil_perm.mp ((h.answer_eq_nil hk) ▸ q.answer_perm after.shown _)
  rw [Selection.problem?, List.findSome?_eq_none_iff.mpr left, selected]
  exact Selection.sortProblem?_eq_none after.shown (List.forall_mem_nil _) fun c hc => hc

/-- A deletion that cannot be answered fails like the selection written alike, and removes
nothing. -/
theorem execute_both_fail (hd : d.Sound) (hn : d.store.current = none) {s : Statement}
    {parameters : Parameters} {now : Moment} {c : Candidate} {plan : ResultPlan} {q : Selection}
    (hc : s.CompilesTo d parameters now c plan (.selection q)) (hf : plan.form ≠ .count)
    {range : Range} (hr : range.Accepted d.settings.query.largest c.query)
    (failing : NativeQuery.CanWrite d.shown (.selection q) →
      range.isEmpty = .ok false ∧ q.problem? d.shown d.store.records ≠ none) :
    ∃ f, ((execute s.asSelect range parameters now).on d).1 = .error f ∧
      ∃ after, (execute s range parameters now).on d = (.error f, after) ∧
        after.store.records = d.store.records ∧ after.workspace = d.workspace := by
  by_cases written : NativeQuery.CanWrite d.shown (.selection q)
  · obtain ⟨he, incomparable⟩ := failing written
    obtain ⟨g, problem⟩ := Option.ne_none_iff_exists'.mp incomparable
    obtain ⟨w, hw, p, hp⟩ : ∃ w, range.window d.settings.query.largest c.query = .ok w ∧
        ∃ p, Cursor.stretch w = .ok p := by
      rcases hr with hr | ⟨-, w, hw, p, hp⟩
      · rw [he] at hr
        cases hr
      · exact ⟨w, hw, p, hp⟩
    have selected := execute_on_window hc.asSelect written he hw hf
    have deleted := execute_on_window hc written he hw hf
    have keys : ({ q with keysOnly := plan.form = .keysOnly } : Selection).problem? d.shown
        d.store.records = some g := (q.problem?_keysOnly d.shown _ _).trans problem
    refine ⟨g.wrapped .executing c.query, ?_, _, deleted.trans
      (Execution.scan_on_of_problem (e := ⟨c, plan, w⟩) (d := d.compiled _) hd hn hf problem),
      rfl, rfl⟩
    rw [selected]
    exact congrArg Prod.fst (Execution.scan_on_of_problem (e := ⟨c.asSelect, plan, w⟩)
      (d := d.compiled _) hd hn hf keys)
  · obtain ⟨f, shown, selected⟩ := execute_on_unwritten hc.asSelect written range
    obtain ⟨g, shown', deleted⟩ := execute_on_unwritten hc written range
    obtain rfl : f = g := Except.error.inj (shown.symm.trans shown')
    exact ⟨f, by rw [selected], _, deleted, rfl, rfl⟩

/-- A deletion that scans returns the number of the records that the selection written alike gives
out in the same state. It removes these records and no others, and their objects are forgotten. If
there was no range, nothing is left to select. Where the query cannot be written or a comparison
cannot be made, both fail alike, and nothing is removed. -/
theorem execute_delete (hd : d.Reachable) (hn : d.store.current = none) {s : Statement}
    (hk : s.kind = .delete) {parameters : Parameters} {now : Moment} {c : Candidate}
    {plan : ResultPlan} {q : Selection} (hc : s.CompilesTo d parameters now c plan (.selection q))
    (hcount : ∀ x ∈ s.results, c.isCountCall x = false) {range : Range}
    (hr : range.Accepted d.settings.query.largest c.query) :
    (NativeQuery.CanWrite d.shown (.selection q) →
      range.isEmpty = .ok true ∨ q.problem? d.shown d.store.records = none →
      ∃ streamed,
        (∃ result after, (execute s.asSelect range parameters now).on d = (.ok result, after) ∧
          result.Streams streamed) ∧
        ∃ after,
          (execute s range parameters now).on d = (.ok (.number streamed.length), after) ∧
          after.store.records.Sublist d.store.records ∧
          (∀ r, r ∈ after.store.records ↔
            r ∈ d.store.records ∧ ∀ x ∈ streamed, x.key.same r.key = false) ∧
          (streamed.Pairwise fun a b => a.key.same b.key = false) ∧
          (∀ x ∈ streamed, ∃ r ∈ d.store.records, r.key = x.key) ∧
          (∀ x ∈ streamed, after.workspace.identities.contains x.key = false) ∧
          (range = ⟨none, none⟩ → ∃ result last,
            (execute s.asSelect range parameters now).on after = (.ok result, last) ∧
              result.Streams [])) ∧
    ((NativeQuery.CanWrite d.shown (.selection q) →
        range.isEmpty = .ok false ∧ q.problem? d.shown d.store.records ≠ none) →
      ∃ f, ((execute s.asSelect range parameters now).on d).1 = .error f ∧
        ∃ after, (execute s range parameters now).on d = (.error f, after) ∧
          after.store.records = d.store.records ∧ after.workspace = d.workspace) := by
  have hs : c.statement.isDelete = true := by
    simp [Statement.isDelete, hc.statement_kind, hk]
  have hf : plan.form ≠ .count := hc.form_ne_count hcount
  have sound := hd.sound
  refine ⟨fun written compared => ?_, execute_both_fail sound hn hc hf hr⟩
  obtain ⟨streamed, hsub, hall, selected, after, deleted, without⟩ :=
    execute_both sound hn hc hs hf hr written compared
  -- the records of an answer have different keys
  have apart : ((q.answer d.shown d.store.records).map Record.key).Pairwise
      fun a b => a.same b = false := by
    rw [List.pairwise_map]
    refine ((q.answer_perm d.shown _).pairwise_iff fun {a b} h => ?_).mpr (sound.apart.filter _)
    rw [Key.same_comm]
    exact h
  refine ⟨streamed, selected, after, deleted, ?_, mem_records_iff_of_isWithout without,
    List.pairwise_map.mp (apart.sublist hsub), fun x hx => ?_, fun x hx => ?_, fun hnone => ?_⟩
  · rw [without.records]
    exact List.filter_sublist
  · obtain ⟨r, hr, hrx⟩ := List.mem_map.mp (hsub.subset (List.mem_map_of_mem hx))
    exact ⟨r, ((q.mem_answer_iff d.shown _ r).mp hr).1, hrx⟩
  · rw [without.identities]
    exact IdentityMap.contains_foldl_evict _ _ (List.mem_map_of_mem hx)
  · subst hnone
    have keys : ∀ r ∈ q.answer d.shown d.store.records, r.key ∈ streamed.map Record.key := by
      intro r hr
      rw [hall rfl]
      exact List.mem_map_of_mem hr
    -- without a range all that is selected was removed, so nothing is selected now
    have left := without.answer_eq_nil keys
    have again := hc.asSelect.congr without.registry without.settings without.heap
    have afterSound : after.Sound :=
      (Database.Sound.keeps_execute s ⟨none, none⟩ parameters now).of_on sound deleted
    have none_empty : (⟨none, none⟩ : Range).isEmpty = .ok false := rfl
    have answered : Store.CanScan after.shown q .all after.store.records := by
      refine Store.canScan_of_stretch (p := (0, none)) ?_ ?_ rfl
      · rwa [without.shown_eq]
      · exact without.problem?_eq_none keys (compared.resolve_left nofun)
    obtain ⟨result, last, hlast, hstreams⟩ :=
      execute_select_streams (w := .all) (p := (0, none)) afterSound without.current again rfl hf
        none_empty rfl rfl (answered.withKeysOnly _)
    have none : Store.given after.shown { q with keysOnly := plan.form = .keysOnly } false
        after.store.records = [] := by
      have keys := Store.given_map_key after.shown { q with keysOnly := plan.form = .keysOnly }
        false after.store.records
      exact List.map_eq_nil_iff.mp (keys.trans (List.map_eq_nil_iff.mpr left))
    rw [none] at hstreams
    exact ⟨result, last, hlast, hstreams⟩

def tasks : Database :=
  List.foldl DatabaseAction.step (start .default)
    [.register (.record "Task") ⟨"Task", [("id", false), ("done", false)]⟩
        [.plain ⟨"id", .integer, true, false, none, none, false, false⟩,
          .plain ⟨"done", .flag, false, false, none, none, false, false⟩] none,
      .store (.put ⟨.root "Task" (.number 1), [("done", .flag true)]⟩ none),
      .store (.put ⟨.root "Task" (.number 2), [("done", .flag false)]⟩ none),
      .store (.put ⟨.root "Task" (.number 3), [("done", .flag true)]⟩ none)]

def deleteDone : Statement where
  candidate := some (.record "Task")
  filter := .compare .equal (.field ["done"]) (.literal (.flag true))
  ordering := []
  results := []
  sources := []
  grouping := []
  having := .absent
  aliasName := none
  kind := .delete
  text := none
  extensions := []

def doneTasks : Selection := ⟨"Task", [⟨"done", .equal, .flag true⟩], [], none, true⟩

/-- The two tasks that are done are removed, and the other one is left. -/
theorem execute_delete_done :
    ∃ after,
      (execute deleteDone ⟨none, none⟩ [] ⟨⟨2024, 1, 1⟩, 12, 0, 0, 0, false, none⟩).on tasks =
        (.ok (.number 2), after) ∧
      after.store.records = [⟨.root "Task" (.number 2), [("done", .flag false)]⟩] := by
  have compiled : deleteDone.CompilesTo tasks [] ⟨⟨2024, 1, 1⟩, 12, 0, 0, 0, false, none⟩ _ _
      (.selection doneTasks) := ⟨rfl, rfl, rfl⟩
  have accepted : Range.Accepted ⟨none, none⟩ tasks.settings.query.largest none :=
    Range.accepted_whole none none (by decide : 2147483647 ≤ Cursor.farthest) none
  have written : NativeQuery.CanWrite tasks.shown (.selection doneTasks) :=
    ⟨List.forall_mem_singleton.mpr ⟨_, rfl⟩, nofun⟩
  obtain ⟨streamed, ⟨result, _, selected, streams⟩, after, deleted, kept, left, -⟩ :=
    (execute_delete (d := tasks) ⟨_, _, rfl⟩ rfl rfl compiled (by simp [deleteDone]) accepted).1
      written (.inr rfl)
  -- the selection gives out the tasks that are done
  have answered : Store.CanScan tasks.shown doneTasks .all tasks.store.records :=
    Store.canScan_of_stretch (p := (0, none)) written rfl rfl
  have run : (execute deleteDone.asSelect ⟨none, none⟩ []
      ⟨⟨2024, 1, 1⟩, 12, 0, 0, 0, false, none⟩).on tasks = _ :=
    execute_select_on (w := .all) (p := (0, none)) (Reachable.sound ⟨_, _, rfl⟩) rfl
      compiled.asSelect rfl nofun rfl rfl rfl (answered.withKeysOnly false)
  obtain rfl := Except.ok.inj (Prod.mk.inj (selected.symm.trans run)).1
  obtain ⟨_, _, rows⟩ := streams
  have answer : doneTasks.answer tasks.shown tasks.store.records = streamed :=
    Cursor.ofReads_inj (congrArg Rows.pending rows)
  have found : streamed.Perm [⟨.root "Task" (.number 1), [("done", .flag true)]⟩,
      ⟨.root "Task" (.number 3), [("done", .flag true)]⟩] := by
    rw [← answer]
    exact doneTasks.answer_perm tasks.shown tasks.store.records
  have two : streamed.length = 2 := found.length_eq
  rw [two] at deleted
  refine ⟨after, deleted, ?_⟩
  have only (r : Record) : r ∈ after.store.records ↔
      r ∈ [(⟨.root "Task" (.number 2), [("done", .flag false)]⟩ : Record)] := by
    rw [left]
    constructor
    · rintro ⟨hr, apart⟩
      have apart (x : Record) hx : x.key.same r.key = false := apart x (found.mem_iff.mpr hx)
      rcases List.mem_cons.mp hr with rfl | hr
      · cases apart _ (.head _)
      rcases List.mem_cons.mp hr with rfl | hr
      · exact .head _
      obtain rfl := List.mem_singleton.mp hr
      cases apart _ (.tail _ (.head _))
    · intro hr
      obtain rfl := List.mem_singleton.mp hr
      refine ⟨.tail _ (.head _), fun x hx => ?_⟩
      rcases List.mem_cons.mp (found.mem_iff.mp hx) with rfl | hx
      · rfl
      · obtain rfl := List.mem_singleton.mp hx
        rfl
  have nodup : tasks.store.records.Nodup :=
    (show (tasks.store.records.map Record.key).Nodup by decide +kernel).of_map
  exact List.perm_singleton.mp
    ((List.perm_ext_iff_of_nodup (nodup.sublist kept) (List.nodup_singleton _)).mpr only)

end Database
end RecordStore
