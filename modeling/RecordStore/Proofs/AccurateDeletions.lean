import RecordStore.Proofs.DeletionResults
import RecordStore.Proofs.RangedDeletions

/-!
# Accurate deletions

A deletion by keys can look its keys up first. It removes the same records then, and differs in the
number that it returns: the number of the records it removed, and not that of the keys it was given.
-/

set_option autoImplicit false

namespace RecordStore

open Attempt

namespace FilterStep

theorem isLookup_of_apply {d d' : Draft} {s : FilterStep} (h : s.apply d = .ok d') :
    d.isLookup = false := by
  cases s with
  | condition c => exact ((apply_condition d d' c).mp h).1
  | ancestor k => exact ((apply_ancestor d d' k).mp h).1
  | lookup comparator keys =>
    obtain ⟨blank, -⟩ := (apply_lookup d d' comparator keys).mp h
    simp [Draft.isLookup, blank.keys]

end FilterStep

namespace FilterSteps

theorem eq_nil_of_isLookup {steps : FilterSteps} {d d' : Draft} (h : run steps d = .ok d')
    (hd : d.isLookup = true) : steps = [] := by
  cases steps with
  | nil => rfl
  | cons step rest =>
    rw [run_cons] at h
    obtain ⟨_, applied, -⟩ := (bind_eq_ok_iff _ _ _).mp h
    obtain ⟨s, -, applied⟩ := (bind_eq_ok_iff _ _ _).mp applied
    rw [FilterStep.isLookup_of_apply applied] at hd
    cases hd

theorem not_isLookup_of_run {steps : FilterSteps} {d d' : Draft} (h : run steps d = .ok d')
    (hd : d.isLookup = false) (asked : ¬d.IsBlank) : d'.isLookup = false := by
  induction steps generalizing d with
  | nil =>
    cases h
    exact hd
  | cons step rest ih =>
    rw [run_cons] at h
    obtain ⟨next, applied, h⟩ := (bind_eq_ok_iff _ _ _).mp h
    obtain ⟨s, -, applied⟩ := (bind_eq_ok_iff _ _ _).mp applied
    cases s with
    | condition c =>
      obtain ⟨-, rfl⟩ := (FilterStep.apply_condition _ _ _).mp applied
      exact ih h hd fun blank => by simpa using blank.conditions
    | ancestor k =>
      obtain ⟨-, -, rfl⟩ := (FilterStep.apply_ancestor _ _ _).mp applied
      exact ih h hd fun blank => by cases blank.ancestor
    | lookup comparator keys =>
      exact absurd ((FilterStep.apply_lookup _ _ _ _).mp applied).1 asked

theorem eq_lookup_of_run {steps : FilterSteps} {d d' : Draft} {keys : List (Option Key)}
    (h : run steps d = .ok d') (blank : d.IsBlank) (found : d'.keys = some keys) :
    ∃ asked, steps = [.ok (.lookup .equal (asked.map .ok))] ∧ keys = Draft.distinctKeys asked := by
  have lookup : d'.isLookup = true := by rw [Draft.isLookup, found]; rfl
  cases steps with
  | nil =>
    cases h
    rw [blank.keys] at found
    cases found
  | cons step rest =>
    rw [run_cons] at h
    obtain ⟨next, applied, h⟩ := (bind_eq_ok_iff _ _ _).mp h
    obtain ⟨s, rfl, applied⟩ := (bind_eq_ok_iff _ _ _).mp applied
    cases s with
    | condition c =>
      obtain ⟨unlike, rfl⟩ := (FilterStep.apply_condition _ _ _).mp applied
      rw [not_isLookup_of_run h unlike fun blank => by simpa using blank.conditions] at lookup
      cases lookup
    | ancestor k =>
      obtain ⟨unlike, -, rfl⟩ := (FilterStep.apply_ancestor _ _ _).mp applied
      rw [not_isLookup_of_run h unlike fun blank => by cases blank.ancestor] at lookup
      cases lookup
    | lookup comparator keys =>
      obtain ⟨-, rfl, asked, read, rfl⟩ := (FilterStep.apply_lookup _ _ _ _).mp applied
      obtain rfl := eq_nil_of_isLookup h rfl
      cases h
      exact ⟨asked, by rw [(mapM_id_eq_ok_iff _ _).mp read], (Option.some.inj found).symm⟩

def asking (keys : List Key) : FilterSteps :=
  [.ok (.lookup .equal (keys.map fun k => .ok (some k)))]

theorem asking_injective : Function.Injective asking := by
  intro ks ls same
  have keys : Function.Injective fun k : Key => (Except.ok (some k) : Except Fault (Option Key)) :=
    fun _ _ same => Option.some.inj (Except.ok.inj same)
  refine List.map_injective_iff.mpr keys ?_
  simpa only [asking, List.cons.injEq, Except.ok.injEq, FilterStep.lookup.injEq, true_and,
    and_true] using same

end FilterSteps

namespace Draft

/-- Of keys without a missing one, the distinct ones are some of them, stand for all of them and
differ from each other. -/
theorem distinctKeys_some (asked : List Key) :
    ∃ distinct : List Key, distinctKeys (asked.map some) = distinct.map some ∧ distinct ⊆ asked ∧
      (∀ k ∈ asked, ∃ j ∈ distinct, j.same k = true) ∧
      distinct.Pairwise fun j k => j.same k = false := by
  obtain ⟨within, covers, apart⟩ :=
    eraseDupsBy_spec (fun j k : Key => sameKey? (some j) (some k)) asked
  refine ⟨_, distinctKeys_map some asked, within, fun k hk => ?_, apart.imp fun differ => ?_⟩
  · obtain ⟨j, hj, rfl | same⟩ := covers k hk
    · exact ⟨k, hj, Key.same_self k⟩
    · exact ⟨j, hj, by rwa [Key.same_comm]⟩
  · rw [Key.same_comm]
    exact differ

theorem none_mem_distinctKeys {keys : List (Option Key)} (h : none ∈ keys) :
    none ∈ distinctKeys keys := by
  have distinct := distinctKeys_map id keys
  rw [List.map_id, List.map_id] at distinct
  rw [distinct]
  obtain ⟨k, hk, rfl | same⟩ := (eraseDupsBy_spec _ keys).2.1 none h
  · exact hk
  · cases k with
    | none => exact hk
    | some k => cases same

end Draft

namespace Candidate

variable {c : Candidate} {b : Bindings} {plan : ResultPlan} {kind : Text} {keys : List (Option Key)}

theorem exists_asked (h : c.compile b plan = .ok (.lookup kind keys)) :
    ∃ asked, steps c b c.statement.filter = [.ok (.lookup .equal (asked.map .ok))] ∧
      keys = Draft.distinctKeys asked := by
  obtain ⟨filtered, hf, h⟩ := (bind_eq_ok_iff _ _ _).mp h
  obtain ⟨ordered, ho, h⟩ := (bind_eq_ok_iff _ _ _).mp h
  have frozen : ordered.freeze (plan.form = .keysOnly || c.statement.isDelete) =
      .lookup kind keys :=
    Except.ok.inj h
  have run := ((compileFilter_eq_ok_iff_run c b c.start filtered).mp hf).1
  refine FilterSteps.eq_lookup_of_run run (Draft.start_isBlank _ _) ?_
  rw [← (compileOrdering_frame ho).2.2]
  rw [Draft.freeze] at frozen
  split at frozen
  · rename_i ks found
    cases frozen
    exact found
  · cases frozen

def extended (c : Candidate) (extensions : List (Text × Setting)) : Candidate :=
  { c with statement := { c.statement with extensions := extensions } }

variable (c) (extensions : List (Text × Setting))

theorem plan_extended : (c.extended extensions).plan = c.plan := by
  have alike : Alike (c.extended extensions) c := ⟨rfl, rfl, rfl⟩
  simp only [Candidate.plan, readResults_alike alike]
  rfl

theorem compile_extended (b : Bindings) (plan : ResultPlan) :
    (c.extended extensions).compile b plan = c.compile b plan :=
  have alike : Alike (c.extended extensions) c := ⟨rfl, rfl, rfl⟩
  compile_alike alike rfl rfl b rfl

end Candidate

namespace Statement

def extended (s : Statement) (extensions : List (Text × Setting)) : Statement :=
  { s with extensions := extensions }

theorem withAlias_extended (s : Statement) (extensions : List (Text × Setting))
    (settings : QuerySettings) :
    (s.extended extensions).withAlias settings = (s.withAlias settings).extended extensions := by
  rcases s with ⟨_, _, _, _, _, _, _, _ | name, _, _, _⟩
  · rfl
  · by_cases hn : name.isEmpty = true
    · simp only [extended, withAlias, if_pos hn]
    · simp only [extended, withAlias, if_neg hn]

end Statement

namespace Database

/-- The database with another default for whether keys are looked up before they are deleted. -/
def lookingUp (d : Database) (fallback : Setting) : Database :=
  { d with settings :=
    { d.settings with query := { d.settings.query with accurateDelete := fallback } } }

end Database

theorem Statement.CompilesTo.extended {s : Statement} {d : Database} {parameters : Parameters}
    {now : Moment} {c : Candidate} {plan : ResultPlan} {native : NativeQuery}
    (h : s.CompilesTo d parameters now c plan native) (extensions : List (Text × Setting))
    (fallback : Setting) :
    (s.extended extensions).CompilesTo (d.lookingUp fallback) parameters now (c.extended extensions)
      plan native where
  candidateIn_eq := by
    obtain ⟨known, name, m, hc, hm, rfl⟩ := (candidateIn_eq_ok_iff s d c).mp h.candidateIn_eq
    refine (candidateIn_eq_ok_iff _ (d.lookingUp fallback) _).mpr ⟨known, name, m, hc, hm, ?_⟩
    rw [withAlias_extended]
    rfl
  plan_eq := (c.plan_extended extensions).trans h.plan_eq
  compile_eq := (c.compile_extended extensions _ plan).trans h.compile_eq

theorem IdentityMap.contains_congr (m : IdentityMap) {j k : Key} (h : j.same k = true) :
    m.contains j = m.contains k := by
  simp only [contains, Key.same_congr_right h]

namespace Execution

variable {e : Execution} {d : Database} {keys : List Key}

/-- The keys that a deletion tells the store to delete. -/
def deletedKeys (e : Execution) (d : Database) (keys : List Key) : List Key :=
  if e.statement.flag "slow_but_more_accurate_delete" d.settings.query.accurateDelete then
    keys.filter fun k => (d.store.find? k).isSome
  else keys

theorem exists_deletedKeys (hd : d.Sound) {r : Record} (hr : r ∈ d.store.records) {k : Key}
    (hk : k ∈ keys) (same : r.key.same k = true) :
    ∃ j ∈ e.deletedKeys d keys, r.key.same j = true := by
  refine ⟨k, ?_, same⟩
  rw [deletedKeys]
  split
  · have found : d.store.find? k = some r := Store.find?_of_mem hd.apart hr same
    exact List.mem_filter.mpr ⟨hk, by rw [found]; rfl⟩
  · exact hk

theorem filter_deletedKeys (hd : d.Sound) :
    (d.store.records.filter fun r => (e.deletedKeys d keys).all fun k => !r.key.same k) =
      d.store.records.filter fun r => keys.all fun k => !r.key.same k := by
  refine List.filter_congr fun r hr => ?_
  rw [Bool.eq_iff_iff, List.all_eq_true, List.all_eq_true]
  constructor
  · intro spared k hk
    by_contra same
    obtain ⟨j, hj, asked⟩ := exists_deletedKeys (e := e) hd hr hk (by simpa using same)
    have other := spared j hj
    rw [asked] at other
    cases other
  · intro spared k hk
    refine spared k ?_
    rw [deletedKeys] at hk
    split at hk
    · exact (List.mem_filter.mp hk).1
    · exact hk

theorem lookup_deletedKeys (hd : d.Sound) (hn : d.store.current = none)
    (deletes : e.statement.isDelete = true) :
    ∃ after, (e.lookup (keys.map some)).on d =
        (.ok (.number (e.deletedKeys d keys).length), after) ∧
      after.store.records = (d.store.records.filter fun r => keys.all fun k => !r.key.same k) ∧
      after.workspace.identities =
        (e.deletedKeys d keys).foldl IdentityMap.evict d.workspace.identities := by
  rw [← filter_deletedKeys (e := e) hd, lookup, on_bind_of_ok (on_get d)]
  simp only [deletes, if_true, hn]
  split
  · rename_i accurate
    obtain ⟨found, t, looked⟩ :=
      Store.lookup_on_some (hd.isUp .get) (show none ∉ keys.map some by simp) none
    obtain ⟨like, known⟩ := Store.lookup_spec looked
    have kept : (keys.map some).filter (isFound found) = (e.deletedKeys d keys).map some := by
      rw [deletedKeys, if_pos accurate, List.filter_map]
      refine congrArg _ (List.filter_congr fun k hk => ?_)
      exact (known _ (List.mem_map_of_mem hk)).2
    have sound : ({ d with store := t } : Database).Sound :=
      (Store.Sound.stable.uncounted.keeps_lookup (keys.map some) none).of_on hd looked
    rw [on_bind_of_ok (e.request_on looked), kept]
    refine ⟨_, e.delete_on (sound.isUp .delete) _, ?_, rfl⟩
    rw [Store.foldl_remove_records]
    exact congrArg _ like.records
  · rename_i blind
    have all : e.deletedKeys d keys = keys := if_neg blind
    rw [all]
    exact ⟨_, e.delete_on (hd.isUp .delete) keys, Store.foldl_remove_records _ _, rfl⟩

theorem length_found (hd : d.Sound) (apart : keys.Pairwise fun j k => j.same k = false) :
    (keys.filter fun k => (d.store.find? k).isSome).length =
      (d.store.records.filter fun r => keys.any fun k => r.key.same k).length := by
  have distinct {rs : List Record} (h : rs.Pairwise fun a b => a.key.same b.key = false) :
      rs.Nodup := h.imp fun {a b} differ => by
    rintro rfl
    rw [Key.same_self] at differ
    cases differ
  have found : (keys.filterMap d.store.find?).Pairwise fun a b => a.key.same b.key = false := by
    rw [List.pairwise_filterMap]
    refine apart.imp fun {j k} differ a ha b hb => ?_
    rw [Key.same_congr_left (Store.find?_eq_some ha).2,
      Key.same_congr_right (Store.find?_eq_some hb).2]
    exact differ
  have perm : (keys.filterMap d.store.find?).Perm
      (d.store.records.filter fun r => keys.any fun k => r.key.same k) := by
    rw [List.perm_ext_iff_of_nodup (distinct found) (distinct (hd.apart.filter _))]
    intro r
    rw [List.mem_filterMap, List.mem_filter, List.any_eq_true]
    constructor
    · rintro ⟨k, hk, hr⟩
      obtain ⟨stored, same⟩ := Store.find?_eq_some hr
      exact ⟨stored, k, hk, same⟩
    · rintro ⟨stored, k, hk, same⟩
      exact ⟨k, hk, Store.find?_of_mem hd.apart stored same⟩
  rw [← perm.length_eq, List.length_filterMap_eq_countP, List.countP_eq_length_filter]

/-- A deletion that looks its keys up counts their records, and one that does not counts the
keys. -/
theorem length_deletedKeys (hd : d.Sound) (apart : keys.Pairwise fun j k => j.same k = false) :
    (e.deletedKeys d keys).length =
      if e.statement.flag "slow_but_more_accurate_delete" d.settings.query.accurateDelete then
        (d.store.records.filter fun r => keys.any fun k => r.key.same k).length
      else keys.length := by
  rw [deletedKeys]
  split
  · exact length_found hd apart
  · rfl

end Execution

theorem Record.any_same_eq {distinct asked : List Key} (within : distinct ⊆ asked)
    (covers : ∀ k ∈ asked, ∃ j ∈ distinct, j.same k = true) (r : Record) :
    (distinct.any fun k => r.key.same k) = asked.any fun k => r.key.same k := by
  rw [Bool.eq_iff_iff, List.any_eq_true, List.any_eq_true]
  constructor
  · rintro ⟨k, hk, same⟩
    exact ⟨k, within hk, same⟩
  · rintro ⟨k, hk, same⟩
    obtain ⟨j, hj, alike⟩ := covers k hk
    exact ⟨j, hj, by rwa [Key.same_congr_right alike]⟩

namespace Database

variable {d : Database} {s : Statement} {parameters : Parameters} {now : Moment} {c : Candidate}
  {plan : ResultPlan} {kind : Text} {keys : List (Option Key)} {range : Range} {w : Window}

/-- Whether keys are looked up before they are deleted changes nothing but the number that a
deletion returns. It removes the records whose keys are asked for, once or several times, and
forgets their objects. If the keys are looked up it returns the number of these records, and else
the number of the different keys. With a key that cannot be written it fails instead, and nothing
is removed. -/
theorem execute_delete_accurately (hd : d.Reachable) (hn : d.store.current = none)
    (hk : s.kind = .delete) (hc : s.CompilesTo d parameters now c plan (.lookup kind keys))
    (present : none ∉ keys) (he : range.isEmpty = .ok false)
    (hw : range.window d.settings.query.largest c.query = .ok w)
    (hf : (plan.form = .count && !w.isTrivial) = false) :
    ∃ asked distinct : List Key,
      Candidate.steps c (d.bindings parameters now) c.statement.filter = .asking asked ∧
      keys = distinct.map some ∧ distinct ⊆ asked ∧ (∀ k ∈ asked, ∃ j ∈ distinct, j.same k = true) ∧
      (distinct.Pairwise fun j k => j.same k = false) ∧
      ∀ (extensions : List (Text × Setting)) (fallback : Setting),
        let removed := d.store.records.filter fun r => asked.any fun k => r.key.same k
        let accurate := (s.extended extensions).flag "slow_but_more_accurate_delete" fallback
        let run := (execute (s.extended extensions) range parameters now).on (d.lookingUp fallback)
        ((∀ k ∈ asked, k.IsShort) →
          run.1 = .ok (.number (if accurate then removed.length else distinct.length)) ∧
          run.2.store.records =
            (d.store.records.filter fun r => !asked.any fun k => r.key.same k) ∧
          ∀ r ∈ removed, run.2.workspace.identities.contains r.key = false) ∧
        ((∃ k ∈ asked, ¬k.IsShort) →
          (∃ f, run.1 = .error f) ∧ run.2.store = d.store ∧ run.2.workspace = d.workspace) := by
  obtain ⟨requested, steps, rfl⟩ := Candidate.exists_asked hc.compile_eq
  obtain ⟨asked, rfl⟩ : ∃ asked : List Key, requested = asked.map some := by
    rcases Execution.split_at_missing requested with found | ⟨before, rest, rfl⟩
    · exact found
    · exact absurd (Draft.none_mem_distinctKeys (by simp)) present
  -- each key that is asked for is the same as one of the distinct keys
  obtain ⟨distinct, made, within, covers, apart⟩ := Draft.distinctKeys_some asked
  rw [made] at hc
  rw [List.map_map] at steps
  refine ⟨asked, distinct, steps, made, within, covers, apart, fun extensions fallback => ?_⟩
  intro removed accurate run
  have compiled := hc.extended extensions fallback
  have writes : (NativeQuery.lookup kind (distinct.map some)).CanWrite
      (d.lookingUp fallback).shown ↔ ∀ k ∈ asked, k.IsShort := by
    simp only [NativeQuery.CanWrite, List.forall_mem_map, Option.mem_some_iff, forall_eq']
    refine ⟨fun h k hk => ?_, fun h k hk => h k (within hk)⟩
    obtain ⟨j, hj, same⟩ := covers k hk
    exact (Key.isShort_congr same).mp (h j hj)
  constructor
  · intro short
    have same := Record.any_same_eq within covers
    let e : Execution := ⟨c.extended extensions, plan, w⟩
    let before := (d.lookingUp fallback).compiled (.lookup kind (distinct.map some))
    have sound : before.Sound := hd.sound
    have deletes : e.statement.isDelete = true := hc.isDelete hk
    obtain ⟨after, looked, records, identities⟩ :=
      @Execution.lookup_deletedKeys e before distinct sound hn deletes
    have executed : run = _ := (execute_on_written compiled (writes.mpr short) range).trans
      (carryOut_on_window he hw hf)
    have number : (e.deletedKeys before distinct).length =
        if accurate then removed.length else distinct.length := by
      have counted := Execution.length_deletedKeys (e := e) sound apart
      simp only [same] at counted
      exact counted
    rw [number] at looked
    rw [executed.trans looked]
    refine ⟨rfl, ?_, fun r hr => ?_⟩
    · rw [records]
      refine List.filter_congr fun r _ => ?_
      rw [← same r, List.not_any_eq_all_not]
    · obtain ⟨stored, found⟩ := List.mem_filter.mp hr
      rw [← same r] at found
      obtain ⟨k, hk, found⟩ := List.any_eq_true.mp found
      obtain ⟨j, hj, found⟩ := Execution.exists_deletedKeys (e := e) sound stored hk found
      rw [identities, IdentityMap.contains_congr _ found]
      exact IdentityMap.contains_foldl_evict _ _ hj
  · rintro ⟨k, hk, long⟩
    obtain ⟨f, -, failed⟩ := execute_on_unwritten compiled (fun h => long (writes.mp h k hk)) range
    rw [show run = _ from failed]
    exact ⟨⟨f, rfl⟩, rfl, rfl⟩

/-- One of three authors is deleted, with a missing one and asked for twice. -/
theorem execute_delete_accurately_authors :
    let ids : Parameters := [(.name "ids", .collection .list [.integer 1, .integer 9, .integer 1])]
    let deleted (accurate : Bool) :=
      (execute (removeAuthors.extended [("slow_but_more_accurate_delete", .flag accurate)])
        ⟨none, none⟩ ids noon).on (authors 1000)
    (deleted true).1 = .ok (.number 1) ∧ (deleted false).1 = .ok (.number 2) ∧
      (deleted true).2.store.records = (deleted false).2.store.records ∧
      (deleted true).2.store.records.length = 2 := by
  intro ids deleted
  have compiled : removeAuthors.CompilesTo (authors 1000) ids noon _ _
      (.lookup "Author" [some (.root "Author" (.number 1)), some (.root "Author" (.number 9))]) :=
    ⟨rfl, rfl, rfl⟩
  obtain ⟨asked, distinct, steps, keys, -, -, -, runs⟩ :=
    @execute_delete_accurately (authors 1000) removeAuthors ids noon _ _ _ _ ⟨none, none⟩ _
      ⟨_, _, rfl⟩ rfl rfl compiled (by simp) rfl rfl rfl
  let first : Key := .root "Author" (.number 1)
  let missing : Key := .root "Author" (.number 9)
  obtain rfl : distinct = [first, missing] :=
    List.map_injective_iff.mpr (Option.some_injective _) keys.symm
  obtain rfl : [first, missing, first] = asked := FilterSteps.asking_injective steps
  have short (n : Nat) (small : n ≤ 9) : (Key.root "Author" (.number n)).IsShort :=
    Nat.lt_of_le_of_lt small (by decide +kernel)
  have short : ∀ k ∈ [first, missing, first], k.IsShort := by
    simp only [List.forall_mem_cons]
    exact ⟨short 1 (by decide), short 9 (by decide), short 1 (by decide), nofun⟩
  obtain ⟨looked, records, -⟩ :=
    (runs [("slow_but_more_accurate_delete", .flag true)] (.flag false)).1 short
  obtain ⟨blind, records', -⟩ :=
    (runs [("slow_but_more_accurate_delete", .flag false)] (.flag false)).1 short
  have records : (deleted true).2.store.records = _ := records
  have records' : (deleted false).2.store.records = _ := records'
  rw [records, records']
  exact ⟨looked, blind, rfl, rfl⟩

end Database

end RecordStore
