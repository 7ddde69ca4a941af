import RecordStore.Proofs.Arrangement
import RecordStore.Proofs.Scanning
import RecordStore.Proofs.StoreRuns

/-!
# Results of scans

A scan of a store that was reached by any requests finds the selected records, each once, in the
one order that the sort clauses and the keys make.
-/

set_option autoImplicit false

namespace RecordStore

namespace Store

theorem Sound.isUp {s : Store} (h : s.Sound) (request : Request) : s.IsUp request := by
  intro o ho
  rw [h.steady] at ho
  cases ho

end Store

namespace Selection

variable (shown : Value → Except Fault Text) (q : Selection)

/-- Whether the items of what is sorted by have a place in the order. -/
def IsDecided (rs : List Record) : Prop :=
  ∀ r ∈ rs, ∀ c ∈ q.arrangement, ∀ v ∈ r.value? c.property,
    ∀ item ∈ Record.itemsOf v, item.IsPlain shown

def CanTry (rs : List Record) : Prop :=
  ∀ c ∈ q.conditions, c.value.IsComparable shown ∧ ∀ r ∈ rs, ∀ v ∈ r.value? c.property,
    ∀ item ∈ Record.itemsOf v, item.IsComparable shown

def CanSort (rs : List Record) : Prop :=
  ∀ r ∈ rs, ∀ c ∈ q.arrangement, ∀ v ∈ r.value? c.property,
    ∀ item ∈ Record.itemsOf v, item.IsComparable shown

variable {q} {rs : List Record}

theorem selected_standing_spec (hn : q.IsDecided shown rs) {r : Record} (hr : r ∈ q.answer shown rs)
    {c : SortClause} (hc : c ∈ q.arrangement) :
    (r.standing shown c).IsPlain ∧ r.CountsByBest shown c := by
  obtain ⟨hm, hs⟩ := (q.mem_answer_iff shown rs r).mp hr
  have hh := ((q.selects_iff shown r).mp hs).2.2.2 c hc
  exact Record.standing_spec shown hh (hn r hm c hc)

theorem isPlainFor_of_mem_answer (hn : q.IsDecided shown rs) {r : Record}
    (hr : r ∈ q.answer shown rs) :
    r.IsPlainFor shown q.arrangement :=
  fun _ hc => (selected_standing_spec shown hn hr hc).1

theorem answer_pairwise (hd : Record.AreDistinct rs) (hn : q.IsDecided shown rs) :
    (q.answer shown rs).Pairwise fun a b => Record.compareBy shown q.arrangement a b = .lt := by
  refine q.arrange_pairwise shown ⟨hd.apart.filter _, fun r hr => ?_⟩ fun r hr => ?_
  · exact hd.complete r (List.mem_of_mem_filter hr)
  · exact isPlainFor_of_mem_answer shown hn ((q.answer_perm shown rs).mem_iff.mpr hr)

/-- The order in which records were stored does not show in an answer. -/
theorem answer_eq_of_perm {rs' : List Record} (hp : rs'.Perm rs) (hd : Record.AreDistinct rs)
    (hd' : Record.AreDistinct rs') (hn : q.IsDecided shown rs) :
    q.answer shown rs' = q.answer shown rs := by
  have hn' : q.IsDecided shown rs' := fun r hr => hn r (hp.mem_iff.mp hr)
  refine List.Perm.eq_of_pairwise (fun a b _ _ hab hba => ?_) (answer_pairwise shown hd' hn')
    (answer_pairwise shown hd hn) ?_
  · rw [Record.compareBy_swap, hba] at hab
    cases hab
  · exact (q.answer_perm shown rs').trans
      ((hp.filter _).trans (q.answer_perm shown rs).symm)

theorem canSort_of_isDecided (hn : q.IsDecided shown rs) : q.CanSort shown rs :=
  fun r hr c hc v hv item hi => Value.isComparable_of_isPlain (hn r hr c hc v hv item hi)

theorem firstFault_eq_none {α : Type} {fault? : α → Option Fault} (isLast : α → Bool)
    {items : List α} (h : ∀ a ∈ items, fault? a = none) : firstFault fault? isLast items =
      none := by
  induction items with
  | nil => rfl
  | cons a rest ih =>
    obtain ⟨first, others⟩ := List.forall_mem_cons.mp h
    rw [firstFault, first, ih others]
    split <;> rfl

theorem trialProblem?_eq_none (h : q.CanTry shown rs) {r : Record} (hr : r ∈ rs) :
    q.trialProblem? shown r = none := by
  have met : ∀ c ∈ q.conditions, r.problem? shown c = none := by
    intro c hc
    obtain ⟨operand, items⟩ := h c hc
    have operand := Standing.isComparable_ofValue operand
    rw [Record.problem?]
    cases hv : r.value? c.property with
    | none => rfl
    | some v =>
      have item : ∀ item ∈ Record.itemsOf v, c.problem? shown item = none := by
        intro item hi
        have comparable := Standing.isComparable_ofValue (items r hr v hv item hi)
        simp [Condition.problem?, Standing.fault?_eq_none comparable,
          Standing.clash?_eq_none comparable operand]
      simp only [Standing.fault?_eq_none operand, Option.none_or]
      exact firstFault_eq_none _ item
  rw [trialProblem?]
  split
  · exact firstFault_eq_none _ met
  · rfl

theorem comparable_standings (h : q.CanSort shown rs) {r : Record} (hr : r ∈ rs) {c : SortClause}
    (hc : c ∈ q.arrangement) : ∀ s ∈ r.standings shown c.property, s.IsComparable := by
  intro s hs
  rw [Record.standings] at hs
  cases hv : r.value? c.property with
  | none =>
    rw [hv] at hs
    cases hs
  | some v =>
    rw [hv] at hs
    obtain ⟨item, hi, rfl⟩ := List.mem_map.mp hs
    exact Standing.isComparable_ofValue (h r hr c hc v hv item hi)

theorem sortProblem?_eq_none (h : q.CanSort shown rs) {clauses : List SortClause}
    (hc : ∀ c ∈ clauses, c ∈ q.arrangement) : q.sortProblem? shown rs clauses = none := by
  induction clauses with
  | nil => rfl
  | cons c rest ih =>
    obtain ⟨hc, hrest⟩ := List.forall_mem_cons.mp hc
    have sorted {r : Record} (hr : r ∈ { q with arrangement := rest }.arrange shown rs) : r ∈ rs :=
      (arrange_perm shown _ rs).mem_iff.mp hr
    have standing : ∀ r ∈ rs, (r.standing shown c).IsComparable ∧
        r.standingProblem? shown c = none := by
      intro r hr
      have comparable := comparable_standings shown h hr hc
      rw [Record.standing, Record.standingProblem?]
      cases hs : r.standings shown c.property with
      | nil => exact ⟨trivial, rfl⟩
      | cons s others =>
        rw [hs] at comparable
        obtain ⟨first, others⟩ := List.forall_mem_cons.mp comparable
        refine ⟨Standing.isComparable_extreme c.direction first others, ?_⟩
        simp only [Standing.extremeClash?_eq_none c.direction first others, Option.or_none]
        exact List.findSome?_eq_none_iff.mpr fun t ht => Standing.fault?_eq_none (comparable t ht)
    rw [sortProblem?, ih hrest, List.findSome?_eq_none_iff.mpr fun r hr =>
      (standing r (sorted hr)).2,
      Standing.clashAmong?_eq_none (List.forall_mem_map.mpr fun r hr => (standing r (sorted hr)).1)]
    rfl

theorem problem?_eq_none (tried : q.CanTry shown rs) (sorted : q.CanSort shown rs) :
    q.problem? shown rs = none := by
  have found : q.CanSort shown (rs.filter (q.selects shown)) :=
    fun r hr => sorted r (List.mem_of_mem_filter hr)
  rw [problem?, List.findSome?_eq_none_iff.mpr fun r hr => trialProblem?_eq_none shown tried hr,
    sortProblem?_eq_none shown found fun c hc => hc]
  rfl

theorem problem?_eq_none_of_perm {rs' : List Record} (hp : rs'.Perm rs)
    (sorted : q.CanSort shown rs) (h : q.problem? shown rs = none) :
    q.problem? shown rs' = none := by
  have tried := (Option.or_eq_none_iff.mp h).1
  rw [List.findSome?_eq_none_iff] at tried
  have found : q.CanSort shown (rs'.filter (q.selects shown)) :=
    fun r hr => sorted r (hp.mem_iff.mp (List.mem_of_mem_filter hr))
  rw [problem?, List.findSome?_eq_none_iff.mpr fun r hr => tried r (hp.mem_iff.mp hr),
    sortProblem?_eq_none shown found fun c hc => hc]
  rfl

end Selection

namespace Store

theorem Reachable.areDistinct {s : Store} (h : s.Reachable)
    (hk : ∀ r ∈ s.records, r.key.IsComplete) : Record.AreDistinct s.records :=
  ⟨h.sound.apart, hk⟩

theorem canScan_of_comparable {shown : Value → Except Fault Text} {q : Selection}
    {rs : List Record} (written : NativeQuery.CanWrite shown (.selection q))
    (tried : q.CanTry shown rs) (sorted : q.CanSort shown rs) : CanScan shown q .all rs :=
  ⟨Selection.problem?_eq_none shown tried sorted,
    (note_eq_ok_iff shown q .all).mpr ⟨written, Window.canWrite_all⟩⟩

/-- A scan without a window is answered just if the comparisons can be made and the query can be
written. It gives out the records of the kind that lie below the ancestor, meet the conditions and
have what is sorted by, each once. Where what is sorted by has a place in the order, the sort
clauses order them, the first counting most, and then their keys do, and what was stored first does
not matter. -/
theorem scan_exact {s : Store} (hs : s.Reachable) (hk : ∀ r ∈ s.records, r.key.IsComplete)
    (q : Selection) (shown : Value → Except Fault Text) (keysOnly : Bool)
    {transaction : Option Nat} (ht : s.Admits q transaction) :
    (NativeQuery.CanWrite shown (.selection q) → q.CanTry shown s.records →
      q.CanSort shown s.records → CanScan shown q .all s.records) ∧
    (¬CanScan shown q .all s.records →
      ∃ f after, (scan shown q transaction .all keysOnly).on s = (.error f, after)) ∧
    (CanScan shown q .all s.records →
      ∃ found after,
        (scan shown q transaction .all keysOnly).on s =
          (.ok (Cursor.ofReads (if keysOnly || q.keysOnly then found.map Record.bare else found)),
            after) ∧
        found.Nodup ∧
        (∀ r, r ∈ found ↔ r ∈ s.records ∧ r.kind = q.kind ∧
          (∀ k, q.ancestor = some k → k.isAncestorOf r.key = true) ∧
          (∀ c ∈ q.conditions, r.meets shown c = true) ∧
          ∀ c ∈ q.arrangement, ∃ v, r.value? c.property = some v ∧ Record.itemsOf v ≠ []) ∧
        (q.IsDecided shown s.records →
          found.Pairwise (fun a b => Record.compareBy? shown q.arrangement a b = some .lt) ∧
          (∀ r ∈ found, ∀ c ∈ q.arrangement, r.CountsByBest shown c ∧
            ∀ r' ∈ found, ((r.standing shown c).compare? (r'.standing shown c)).isSome = true) ∧
          ∀ t : Store, t.Reachable → t.records.Perm s.records → t.Admits q transaction →
            ((scan shown q transaction .all keysOnly).on t).1 =
              ((scan shown q transaction .all keysOnly).on s).1)) := by
  have hd := hs.areDistinct hk
  have up := hs.sound.isUp .scan
  refine ⟨canScan_of_comparable, fun failing => ?_, fun h => ?_⟩
  · cases outcome : scanned shown q .all keysOnly s.records with
    | ok c => exact absurd (scanned_eq_ok_iff.mp outcome).1 failing
    | error f => exact ⟨f, _, by rw [scan_on up ht, outcome]⟩
  refine ⟨q.answer shown s.records, _, scan_on_of_canScan up ht h keysOnly,
    (q.answer_perm shown _).nodup_iff.mpr (hd.nodup.filter _), fun r => ?_, fun hn => ?_⟩
  · rw [q.mem_answer_iff, q.selects_iff]
    simp only [Record.has_iff]
  -- what is left to be shown is about items that have a place in the order
  have sorted := Selection.answer_pairwise shown hd hn
  refine ⟨?_, fun r hr c hc => ?_, fun t hts hp htt => ?_⟩
  · refine sorted.imp_of_mem fun {a b} ha hb hab => ?_
    rw [Record.compareBy?_eq shown (Selection.isPlainFor_of_mem_answer shown hn ha)
      (Selection.isPlainFor_of_mem_answer shown hn hb), hab]
  · obtain ⟨plain, best⟩ := Selection.selected_standing_spec shown hn hr hc
    refine ⟨best, fun r' hr' => ?_⟩
    rw [Standing.compare?_eq plain (Selection.selected_standing_spec shown hn hr' hc).1]
    rfl
  · have hdt := hts.areDistinct fun r hr => hk r (hp.mem_iff.mp hr)
    have other : CanScan shown q .all t.records :=
      ⟨Selection.problem?_eq_none_of_perm shown hp (Selection.canSort_of_isDecided shown hn)
        h.compared, h.noted⟩
    rw [scan_on_of_canScan (hts.sound.isUp .scan) htt other, scan_on_of_canScan up ht h, given,
      given, Selection.answer_eq_of_perm shown hp hd hdt hn]

def ranks : List Record :=
  [⟨.root "Book" (.number 2), [("rank", .list [.integer 3, .integer 1])]⟩,
    ⟨.root "Book" (.number 1), [("rank", .integer 3)]⟩,
    ⟨.root "Book" (.number 5), [("rank", .integer 1)]⟩,
    ⟨.root "Book" (.number 6), []⟩]

def shelf : Store :=
  List.foldl StoreAction.step (start ⟨.text "memory", .flag true⟩) (ranks.map (.put · none))

def ranked : Selection :=
  ⟨"Book", [⟨"rank", .greater, .integer 1⟩], [⟨"rank", .descending⟩], none, false⟩

/-- Both books that are found have the same greatest rank, so their keys order them. -/
theorem scan_exact_shelf :
    ∃ after, (scan (fun _ => .ok Text.empty) ranked none .all false).on shelf =
      (.ok (Cursor.ofReads [⟨.root "Book" (.number 1), [("rank", .integer 3)]⟩,
        ⟨.root "Book" (.number 2), [("rank", .list [.integer 3, .integer 1])]⟩]), after) := by
  have records : shelf.records = ranks := rfl
  have complete : ∀ r ∈ shelf.records, ∀ s ∈ r.key.path, s.2 ≠ .unset := by decide +kernel
  obtain ⟨answered, -, finds⟩ := scan_exact (s := shelf) ⟨_, _, rfl⟩ complete ranked
    (fun _ => .ok Text.empty) false (admits_none _ _)
  have items : shelf.records.flatMap (fun r => (r.value? "rank").toList.flatMap Record.itemsOf) =
      [3, 1, 3, 1].map Value.integer := rfl
  have integer : ∀ r ∈ shelf.records, ∀ v ∈ r.value? "rank", ∀ item ∈ Record.itemsOf v,
      ∃ n, Value.integer n = item := by
    intro r hr v hv item hi
    have ranked : item ∈ [3, 1, 3, 1].map Value.integer := by
      rw [← items]
      exact List.mem_flatMap.mpr ⟨r, hr, List.mem_flatMap.mpr ⟨v, Option.mem_toList.mpr hv, hi⟩⟩
    obtain ⟨n, -, h⟩ := List.mem_map.mp ranked
    exact ⟨n, h⟩
  have comparable : ranked.CanTry (fun _ => .ok Text.empty) shelf.records := by
    intro c hc
    obtain rfl := List.mem_singleton.mp hc
    refine ⟨trivial, fun r hr v hv item hi => ?_⟩
    obtain ⟨n, rfl⟩ := integer r hr v hv item hi
    trivial
  have decided : ranked.IsDecided (fun _ => .ok Text.empty) shelf.records := by
    intro r hr c hc v hv item hi
    obtain rfl := List.mem_singleton.mp hc
    obtain ⟨n, rfl⟩ := integer r hr v hv item hi
    trivial
  have written : NativeQuery.CanWrite (fun _ => .ok Text.empty) (.selection ranked) :=
    ⟨fun _ _ => ⟨_, rfl⟩, nofun⟩
  obtain ⟨found, after, run, nodup, members, ordered⟩ :=
    finds (answered written comparable (Selection.canSort_of_isDecided _ decided))
  obtain ⟨sorted, -⟩ := ordered decided
  have selected : ranks.filter (ranked.selects fun _ => .ok Text.empty) = ranks.take 2 := rfl
  have perm : found.Perm (ranks.take 2) := by
    refine (List.perm_ext_iff_of_nodup nodup (by simp [ranks])).mpr fun r => ?_
    rw [members, records, ← selected, List.mem_filter, Selection.selects_iff]
    simp only [Record.has_iff]
  have apart : ∀ a ∈ ranks.take 2, ∀ b ∈ ranks.take 2,
      Record.compareBy? (fun _ => .ok Text.empty) ranked.arrangement a b = some .lt →
        Record.compareBy? (fun _ => .ok Text.empty) ranked.arrangement b a ≠ some .lt := by
    decide +kernel
  have found_eq : found = (ranks.take 2).reverse := by
    refine List.Perm.eq_of_pairwise (fun a b ha hb hab hba => ?_) sorted ?_
      (perm.trans (List.reverse_perm _).symm)
    · exact absurd hba (apart a (perm.subset ha) b (List.mem_reverse.mp hb) hab)
    · decide +kernel
  rw [run, found_eq]
  exact ⟨after, rfl⟩

end Store
end RecordStore
