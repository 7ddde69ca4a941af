import RecordStore.Proofs.DeletionResults
import RecordStore.Proofs.KeyQueries
import RecordStore.Proofs.TouchedRecords

/-!
# Deletions in a range

A selection that looks keys up gives out the part of its records that lies in the range. A deletion
that is written alike removes the records of all of its keys, unless no row can lie in the range.
-/

set_option autoImplicit false

namespace RecordStore

open Attempt Cursor

namespace Range

theorem isSome_of_mapM_eq_ok {α β : Type} {f : α → Except Fault β} {a : Option α} {b : Option β}
    (h : a.mapM f = .ok b) : b.isSome = a.isSome := by
  cases a with
  | none =>
    cases h
    rfl
  | some a =>
    obtain ⟨b, -, h⟩ := (bind_eq_ok_iff _ _ _).mp h
    cases h
    rfl

theorem isTrivial_of_window {first stop : Option Nat} {largest : Bound} {query : Option Text}
    {w : Window} (h : (whole first stop).window largest query = .ok w) :
    w.isTrivial = (first.getD 0 = 0 && stop.isNone) := by
  obtain ⟨below, tested, h⟩ := (bind_eq_ok_iff _ _ _).mp h
  cases (isNegative_whole first).symm.trans tested
  obtain ⟨below, tested, h⟩ := (bind_eq_ok_iff _ _ _).mp h
  cases (isNegative_whole stop).symm.trans tested
  obtain ⟨offset, started, h⟩ := (bind_eq_ok_iff _ _ _).mp h
  obtain ⟨limit, stopped, h⟩ := (bind_eq_ok_iff _ _ _).mp h
  cases h
  have limited : limit.isNone = stop.isNone := by
    rw [← Option.not_isSome, isSome_of_mapM_eq_ok stopped, Option.not_isSome]
    cases stop <;> rfl
  have moved : offset.isNone = decide (first.getD 0 = 0) := by
    rw [← Option.not_isSome, isSome_of_mapM_eq_ok started, Option.not_isSome]
    cases first with
    | none => rfl
    | some n =>
      have zero : (Bound.integer n).isZero = decide (n = 0) := by
        rw [Bound.isZero_integer]
        exact decide_eq_decide.mpr (by omega)
      by_cases h : n = 0
      · subst h
        rfl
      · simp [whole, Option.filter, zero, h]
  simp only [Window.isTrivial, limited, moved]

theorem hasNone_min {first stop : Option Nat} (h : hasNone first stop = true) (m : Nat) :
    hasNone (some (min (first.getD 0) m)) (stop.map (min · m)) = true := by
  cases stop with
  | none => cases h
  | some n =>
    have below : n ≤ first.getD 0 := of_decide_eq_true h
    exact decide_eq_true (by simp only [Option.getD_some]; omega)

end Range

namespace Candidate

theorem compile_asSelect_lookup {c : Candidate} {b : Bindings} {plan : ResultPlan} {kind : Text}
    {keys : List (Option Key)} (h : c.compile b plan = .ok (.lookup kind keys)) :
    c.asSelect.compile b plan = .ok (.lookup kind keys) := by
  obtain ⟨filtered, hf, h⟩ := (bind_eq_ok_iff _ _ _).mp h
  obtain ⟨ordered, ho, h⟩ := (bind_eq_ok_iff _ _ _).mp h
  have filtered' : c.asSelect.compileFilter b c.asSelect.start = .ok filtered :=
    (c.compileFilter_asSelect b c.start).trans hf
  have ordered' : c.asSelect.compileOrdering filtered = .ok ordered := ho
  refine (bind_eq_ok_iff _ _ _).mpr ⟨_, filtered', (bind_eq_ok_iff _ _ _).mpr ⟨_, ordered', ?_⟩⟩
  have frozen : ordered.freeze (plan.form = .keysOnly || c.statement.isDelete) =
      .lookup kind keys :=
    Except.ok.inj h
  rw [Draft.freeze] at frozen
  split at frozen
  · rename_i ks found
    rw [← frozen]
    show Except.ok (ordered.freeze _) = _
    rw [Draft.freeze, found]
  · cases frozen

end Candidate

namespace Statement

variable {s : Statement} {d : Database} {parameters : Parameters} {now : Moment} {c : Candidate}
  {plan : ResultPlan} {kind : Text} {keys : List (Option Key)}

theorem CompilesTo.listing (h : s.CompilesTo d parameters now c plan (.lookup kind keys))
    (hk : s.kind = .delete) :
    s.listing.CompilesTo d parameters now (c.selecting []) ⟨.whole, []⟩ (.lookup kind keys) where
  candidateIn_eq := candidateIn_asSelect (h.resultless hk).candidateIn_eq
  plan_eq := (Candidate.plan_asSelect _).trans (h.resultless hk).plan_eq
  compile_eq := Candidate.compile_asSelect_lookup (h.resultless hk).compile_eq

end Statement

namespace Execution

variable {e : Execution} {d : Database}

theorem lookup_delete_on (hd : d.Sound) (hn : d.store.current = none)
    (deletes : e.statement.isDelete = true) {keys : List (Option Key)} (present : none ∉ keys) :
    ∃ n after, (e.lookup keys).on d = (.ok (.number n), after) := by
  have removes (d' : Database) (sound : d'.Sound) (ks : List Key) :
      ∃ after, (e.delete (ks.map some) none).on d' = (.ok (.number ks.length), after) :=
    ⟨_, e.delete_on (sound.isUp .delete) ks⟩
  rw [lookup, on_bind_of_ok (on_get d)]
  simp only [deletes, if_true, hn]
  split
  · obtain ⟨found, t, looked⟩ := Store.lookup_on_some (hd.isUp .get) present none
    obtain ⟨ks, known⟩ := exists_filter_isFound found keys
    have sound : ({ d with store := t } : Database).Sound :=
      (Store.Sound.stable.uncounted.keeps_lookup keys none).of_on hd looked
    rw [on_bind_of_ok (e.request_on looked), known]
    exact ⟨_, removes _ sound ks⟩
  · rcases split_at_missing keys with ⟨ks, rfl⟩ | ⟨before, rest, rfl⟩
    · exact ⟨_, removes d hd ks⟩
    · exact absurd (List.mem_append_right _ List.mem_cons_self) present

end Execution

namespace Database

variable {d : Database} {s : Statement} {parameters : Parameters} {now : Moment} {c : Candidate}
  {plan : ResultPlan} {kind : Text} {keys : List (Option Key)} {m : Nat}

theorem execute_unwritten_in_range (hk : s.kind = .delete)
    (hc : s.CompilesTo d parameters now c plan (.lookup kind keys))
    (unwritten : ¬(NativeQuery.lookup kind keys).CanWrite d.shown) (range : Range) :
    ∃ f, (execute s range parameters now).on d = (.error f, d.compiled (.lookup kind keys)) ∧
      ∀ range', (execute s.listing range' parameters now).on d =
        (.error f, d.compiled (.lookup kind keys)) := by
  obtain ⟨f, text, deleted⟩ := execute_on_unwritten hc unwritten range
  refine ⟨f, deleted, fun range' => ?_⟩
  obtain ⟨g, text', listed⟩ := execute_on_unwritten (hc.listing hk) unwritten range'
  obtain rfl : f = g := Except.error.inj (text.symm.trans text')
  exact listed

theorem execute_listing_yields (hd : d.Sound)
    (hc : s.CompilesTo d parameters now c plan (.lookup kind keys))
    (written : (NativeQuery.lookup kind keys).CanWrite d.shown) (hk : s.kind = .delete)
    (present : none ∉ keys) (hm : d.settings.query.largest = .integer m) (first stop : Option Nat) :
    ∃ result after, (execute s.listing (.whole first stop) parameters now).on d =
      (.ok result, after) ∧
      result.Yields after.store
        ((⟨c.selecting [], ⟨.whole, []⟩, .all⟩ : Execution).reader d.settings.query)
        (stretchOf (min (first.getD 0) m, stop.map (min · m))
          (keys.filterMap (·.bind d.store.find?))) := by
  have compiled := hc.listing hk
  have empty := Range.isEmpty_whole first stop
  cases none : Range.hasNone first stop with
  | true =>
    rw [none] at empty
    exact ⟨_, _, execute_on_empty compiled written empty,
      stretchOf_of_hasNone (Range.hasNone_min none m) _⟩
  | false =>
    rw [none] at empty
    obtain ⟨w, windowed, starts, stops⟩ := Range.window_whole first stop m c.query
    rw [← hm] at windowed
    have sound : (d.compiled (.lookup kind keys)).Sound := hd
    rw [execute_on_window compiled written empty windowed nofun]
    exact Execution.lookup_yields (e := ⟨c.selecting [], ⟨.whole, []⟩, w⟩) sound rfl nofun present
      (Execution.cut_integer starts stops _)

theorem execute_deletes_lookup (hd : d.Sound) (hn : d.store.current = none)
    (hc : s.CompilesTo d parameters now c plan (.lookup kind keys))
    (written : (NativeQuery.lookup kind keys).CanWrite d.shown) (hk : s.kind = .delete)
    (present : none ∉ keys) (hm : d.settings.query.largest = .integer m) (first stop : Option Nat)
    (counts : plan.form = .count → Range.hasNone first stop = true ∨ first.getD 0 = 0 ∧ stop =
      none) :
    ∃ n after, (execute s (.whole first stop) parameters now).on d = (.ok (.number n), after) ∧
      ∀ r, d.store.Loses after.store r ↔
        Range.hasNone first stop = false ∧ r ∈ keys.filterMap (·.bind d.store.find?) := by
  have deletes := hc.isDelete hk
  have empty := Range.isEmpty_whole first stop
  cases none : Range.hasNone first stop with
  | true =>
    rw [none] at empty
    have number : (⟨c, plan, .all⟩ : Execution).wantsNumber = true := by
      simp [Execution.wantsNumber, Execution.statement, deletes]
    have ran := execute_on_empty hc written empty
    rw [if_pos number] at ran
    refine ⟨_, _, ran, fun r => ?_⟩
    have like : (d.compiled (.lookup kind keys)).store.IsLike d.store := .refl _
    simp [like.not_loses]
  | false =>
    rw [none] at empty
    obtain ⟨w, windowed, -, -⟩ := Range.window_whole first stop m c.query
    rw [← hm] at windowed
    have allowed : (plan.form = .count && !w.isTrivial) = false := by
      rw [Range.isTrivial_of_window windowed]
      by_cases count : plan.form = .count
      · obtain ⟨zero, rfl⟩ := (counts count).resolve_left (by simp [none])
        simp [zero]
      · simp [count]
    have sound : (d.compiled (.lookup kind keys)).Sound := hd
    have ran := (execute_on_written hc written _).trans (carryOut_on_window empty windowed allowed)
    obtain ⟨n, after, looked⟩ :=
      Execution.lookup_delete_on (e := ⟨c, plan, w⟩) sound hn deletes present
    have lost := (Execution.lookup_deletes (e := ⟨c, plan, w⟩) sound kind deletes looked).2
    refine ⟨n, after, ran.trans looked, fun r => ?_⟩
    rw [eq_self, true_and, Execution.mem_found_iff hd kind keys r]
    exact lost r

theorem execute_on_windowedCount (hc : s.CompilesTo d parameters now c plan (.lookup kind keys))
    (written : (NativeQuery.lookup kind keys).CanWrite d.shown)
    (hm : d.settings.query.largest = .integer m) {first stop : Option Nat}
    (counts : plan.form = .count) (some : Range.hasNone first stop = false)
    (bounded : ¬ (first.getD 0 = 0 ∧ stop = none)) :
    (execute s (.whole first stop) parameters now).on d =
      (.error (.unsupportedFeature .windowedCount c.query), d.compiled (.lookup kind keys)) := by
  have empty := Range.isEmpty_whole first stop
  rw [some] at empty
  obtain ⟨w, windowed, -, -⟩ := Range.window_whole first stop m c.query
  rw [← hm] at windowed
  have cuts : (plan.form = .count && !w.isTrivial) = true := by
    rw [Range.isTrivial_of_window windowed]
    cases stop with
    | none => simpa [counts] using bounded
    | some n => simp [counts]
  rw [execute_on_written hc written, carryOut, empty, on_bind_of_ok (on_ofExcept _ _),
    if_neg (by simp), windowed, on_bind_of_ok (on_ofExcept _ _), if_pos cuts]
  rfl

/-- In a range, a deletion that looks keys up loses the records that the listing of the same keys
gives out without the range, unless no row can lie in it. So it loses what the listing gives out in
the range only where the range leaves nothing out. If the number of rows is asked for in a range,
the deletion is refused. Where the keys cannot be written, both fail alike and nothing is lost. -/
theorem execute_delete_in_range (hd : d.Reachable) (hn : d.store.current = none)
    (hk : s.kind = .delete) (hc : s.CompilesTo d parameters now c plan (.lookup kind keys))
    (present : none ∉ keys) (hm : d.settings.query.largest = .integer m)
    (first stop : Option Nat) :
    let deleted := (execute s (.whole first stop) parameters now).on d
    let listed (first stop : Option Nat) :=
      (execute s.listing (.whole first stop) parameters now).on d
    let refused := plan.form = .count ∧ Range.hasNone first stop = false ∧
      ¬ (first.getD 0 = 0 ∧ stop = none)
    let all := keys.filterMap (·.bind d.store.find?)
    let returned := stretchOf (min (first.getD 0) m, stop.map (min · m)) all
    let written := (NativeQuery.lookup kind keys).CanWrite d.shown
    (¬written → ∃ f, deleted.1 = .error f ∧ (∀ r, ¬ d.store.Loses deleted.2.store r) ∧
      ∀ first stop, (listed first stop).1 = .error f) ∧
    (written → ∃ reader,
      (∃ result, (listed none none).1 = .ok result ∧
        result.Yields (listed none none).2.store reader all) ∧
      (∃ result, (listed first stop).1 = .ok result ∧
        result.Yields (listed first stop).2.store reader returned) ∧
      (refused → deleted.1 = .error (.unsupportedFeature .windowedCount c.query) ∧
        ∀ r, ¬ d.store.Loses deleted.2.store r) ∧
      (¬ refused → (∃ n, deleted.1 = .ok (.number n)) ∧
        (∀ r, d.store.Loses deleted.2.store r ↔ Range.hasNone first stop = false ∧ r ∈ all) ∧
        ((∀ r, d.store.Loses deleted.2.store r ↔ r ∈ returned) ↔
          Range.hasNone first stop = true ∨ ∀ r ∈ all, r ∈ returned))) := by
  intro deleted listed refused all returned written
  constructor
  · intro unwritten
    obtain ⟨f, failed, others⟩ := execute_unwritten_in_range hk hc unwritten (.whole first stop)
    have failed : deleted = _ := failed
    have like : (d.compiled (.lookup kind keys)).store.IsLike d.store := .refl _
    rw [failed]
    exact ⟨f, rfl, like.not_loses, fun first stop => congrArg Prod.fst (others _)⟩
  intro written
  have yields := execute_listing_yields hd.sound hc written hk present hm
  refine ⟨(⟨c.selecting [], ⟨.whole, []⟩, .all⟩ : Execution).reader d.settings.query, ?_, ?_, ?_,
    ?_⟩
  · obtain ⟨result, after, ran, whole⟩ := yields none none
    have ran : listed none none = (.ok result, after) := ran
    rw [Option.getD_none, Nat.zero_min] at whole
    rw [ran]
    exact ⟨result, rfl, whole⟩
  · obtain ⟨result, after, ran, within⟩ := yields first stop
    have ran : listed first stop = (.ok result, after) := ran
    rw [ran]
    exact ⟨result, rfl, within⟩
  · rintro ⟨counts, some, bounded⟩
    have ran : deleted = _ := execute_on_windowedCount hc written hm counts some bounded
    have like : (d.compiled (.lookup kind keys)).store.IsLike d.store := .refl _
    rw [ran]
    exact ⟨rfl, like.not_loses⟩
  · intro allowed
    have counts (count : plan.form = .count) :
        Range.hasNone first stop = true ∨ first.getD 0 = 0 ∧ stop = none := by
      by_contra other
      obtain ⟨some, bounded⟩ := not_or.mp other
      exact allowed ⟨count, by simpa using some, bounded⟩
    obtain ⟨n, after, ran, lost⟩ :=
      execute_deletes_lookup hd.sound hn hc written hk present hm first stop counts
    have ran : deleted = (.ok (.number n), after) := ran
    rw [ran]
    refine ⟨⟨n, rfl⟩, lost, ?_⟩
    -- an empty range deletes nothing, and any other one deletes all, whatever it returns
    cases none : Range.hasNone first stop with
    | true =>
      have nothing : returned = [] := stretchOf_of_hasNone (Range.hasNone_min none m) all
      simp [lost, none, nothing]
    | false =>
      have part : ∀ r ∈ returned, r ∈ all := (stretchOf_sublist _ all).subset
      simp only [lost, none, true_and, Bool.false_eq_true, false_or]
      exact ⟨fun same r => (same r).mp, fun whole r => ⟨whole r, part r⟩⟩

/-- Two of three authors are deleted as the first of them is asked for: both are gone. -/
theorem execute_delete_in_range_authors :
    let ids : Parameters := [(.name "ids", .collection .list [.integer 1, .integer 2])]
    let deleted := (execute removeAuthors (.whole none (some 1)) ids noon).on (authors 1000)
    let listed := (execute removeAuthors.listing (.whole none (some 1)) ids noon).on (authors 1000)
    ∃ result reader returned, listed.1 = .ok result ∧
      result.Yields listed.2.store reader returned ∧ returned.length = 1 ∧
      ∃ r, (authors 1000).store.Loses deleted.2.store r ∧ r ∉ returned := by
  intro ids deleted listed
  have compiled : removeAuthors.CompilesTo (authors 1000) ids noon _ _
      (.lookup "Author" [some (.root "Author" (.number 1)), some (.root "Author" (.number 2))]) :=
    ⟨rfl, rfl, rfl⟩
  obtain ⟨-, ranged⟩ := execute_delete_in_range (d := authors 1000) (m := 1000) ⟨_, _, rfl⟩ rfl rfl
    compiled (by simp) rfl none (some 1)
  obtain ⟨reader, -, ⟨result, given, yields⟩, -, other⟩ :=
    ranged ((NativeQuery.text_isOk_iff _ _).mp ⟨_, rfl⟩)
  obtain ⟨-, lost, -⟩ := other fun refused => by cases refused.1
  let ann : Record := ⟨.root "Author" (.number 1), [("name", .text "Ann")]⟩
  let bob : Record := ⟨.root "Author" (.number 2), [("name", .text "Bob")]⟩
  have gone : (authors 1000).store.Loses deleted.2.store bob :=
    (lost bob).mpr ⟨rfl, show bob ∈ [ann, bob] from .tail _ (.head _)⟩
  refine ⟨result, reader, [ann], given, yields, rfl, bob, gone, fun first => ?_⟩
  have other : bob.key ≠ ann.key := by decide
  exact other (congrArg Record.key (List.mem_singleton.mp first))

end Database
end RecordStore
