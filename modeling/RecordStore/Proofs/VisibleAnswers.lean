import RecordStore.Proofs.Scanning
import RecordStore.Proofs.SortedImages
import RecordStore.Proofs.VisibleObjects

/-!
# Answers over visible objects

A selection has the same answer over heaps in which the stored values and those that it compares
with are seen alike.
-/

set_option autoImplicit false

namespace RecordStore

variable {visible : ObjectId → Prop} {h h' : Heap}

def Record.Within (visible : ObjectId → Prop) (r : Record) : Prop :=
  ∀ p ∈ r.properties, p.2.Within visible

theorem Standing.ofValue_eq (s : h.SeesAlike visible h') {v : Value} (hv : v.Within visible) :
    ofValue h'.shown v = ofValue h.shown v := by
  cases v <;> simp only [ofValue, s.shown_eq hv]

theorem Value.Within.isMetBy_eq {c : Condition} (hc : c.value.Within visible)
    (s : h.SeesAlike visible h') {item : Value} (hitem : item.Within visible) :
    c.isMetBy h'.shown item = c.isMetBy h.shown item := by
  rw [Condition.isMetBy, Condition.isMetBy, Standing.ofValue_eq s hitem, Standing.ofValue_eq s hc]

theorem Value.Within.problem?_eq {c : Condition} (hc : c.value.Within visible)
    (s : h.SeesAlike visible h') {item : Value} (hitem : item.Within visible) :
    c.problem? h'.shown item = c.problem? h.shown item := by
  rw [Condition.problem?, Condition.problem?, Standing.ofValue_eq s hitem, Standing.ofValue_eq s hc]

theorem findSome?_congr {α β : Type} {f g : α → Option β} {items : List α}
    (h : ∀ a ∈ items, f a = g a) : items.findSome? f = items.findSome? g := by
  induction items with
  | nil => rfl
  | cons a rest ih =>
    obtain ⟨first, others⟩ := List.forall_mem_cons.mp h
    rw [List.findSome?_cons, List.findSome?_cons, first, ih others]

theorem firstFault_congr {α : Type} {fault? fault?' : α → Option Fault} {isLast isLast' : α → Bool}
    {items : List α} (hf : ∀ a ∈ items, fault?' a = fault? a)
    (hl : ∀ a ∈ items, isLast' a = isLast a) :
    firstFault fault?' isLast' items = firstFault fault? isLast items := by
  induction items with
  | nil => rfl
  | cons a rest ih =>
    obtain ⟨first, others⟩ := List.forall_mem_cons.mp hf
    obtain ⟨last, rest'⟩ := List.forall_mem_cons.mp hl
    rw [firstFault, firstFault, first, last, ih others rest']

namespace Record

variable {r : Record}

theorem Within.value? (hr : r.Within visible) {property : Text} {v : Value}
    (found : r.value? property = some v) : v.Within visible := by
  rw [Record.value?] at found
  split at found
  · cases found
    trivial
  · obtain ⟨p, hp, rfl⟩ := mem_of_lookupName_eq_some found
    exact hr p hp

theorem within_itemsOf {v : Value} (hv : v.Within visible) :
    ∀ item ∈ itemsOf v, item.Within visible := by
  rw [itemsOf.eq_def]
  split
  · exact (Value.withinEach_iff _).mp hv
  · exact (Value.withinEach_iff _).mp hv
  · exact List.forall_mem_singleton.mpr hv

theorem Within.meets_eq (hr : r.Within visible) (s : h.SeesAlike visible h') {c : Condition}
    (hc : c.value.Within visible) : r.meets h'.shown c = r.meets h.shown c := by
  rw [meets, meets]
  cases found : r.value? c.property with
  | none => rfl
  | some v =>
    have items := within_itemsOf (hr.value? found)
    dsimp only
    rw [Bool.eq_iff_iff, List.any_eq_true, List.any_eq_true]
    refine exists_congr fun item => and_congr_right fun hitem => ?_
    rw [hc.isMetBy_eq s (items item hitem)]

theorem Within.problem?_eq (hr : r.Within visible) (s : h.SeesAlike visible h') {c : Condition}
    (hc : c.value.Within visible) : r.problem? h'.shown c = r.problem? h.shown c := by
  rw [problem?, problem?, Standing.ofValue_eq s hc]
  cases found : r.value? c.property with
  | none => rfl
  | some v =>
    have items := within_itemsOf (hr.value? found)
    dsimp only
    rw [firstFault_congr (fun item hi => hc.problem?_eq s (items item hi))
      fun item hi => hc.isMetBy_eq s (items item hi)]

theorem Within.standings_eq (hr : r.Within visible) (s : h.SeesAlike visible h') (property : Text) :
    r.standings h'.shown property = r.standings h.shown property := by
  rw [standings, standings]
  cases found : r.value? property with
  | none => rfl
  | some v =>
    have seen := within_itemsOf (hr.value? found)
    exact List.map_congr_left fun item hitem => Standing.ofValue_eq s (seen item hitem)

theorem Within.standing_eq (hr : r.Within visible) (s : h.SeesAlike visible h') (c : SortClause) :
    r.standing h'.shown c = r.standing h.shown c := by
  rw [standing, standing, hr.standings_eq s]

theorem Within.standingProblem?_eq (hr : r.Within visible) (s : h.SeesAlike visible h')
    (c : SortClause) : r.standingProblem? h'.shown c = r.standingProblem? h.shown c := by
  rw [standingProblem?, standingProblem?, hr.standings_eq s]

end Record

namespace Selection

variable {q : Selection} {rs : List Record}

theorem arrange_eq (s : h.SeesAlike visible h') (hrs : ∀ r ∈ rs, r.Within visible) :
    q.arrange h'.shown rs = q.arrange h.shown rs := by
  have base : ∀ r ∈ rs.mergeSort fun a b => !b.key.precedes a.key, r.Within visible :=
    fun r hr => hrs r (List.mem_mergeSort.mp hr)
  rw [arrange, arrange]
  generalize rs.mergeSort (fun a b => !b.key.precedes a.key) = sorted at base
  generalize q.arrangement = clauses
  let sort (shown : Value → Except Fault Text) (c : SortClause) (rs : List Record) : List Record :=
    sortByStanding c.direction (Record.standing shown c) rs
  -- sorting by a clause permutes the records, so that these stay within what is visible
  have kept : ∀ r ∈ clauses.foldr (sort h.shown) sorted, r.Within visible := by
    induction clauses with
    | nil => exact base
    | cons c rest ih => exact fun r hr => ih r ((sortByStanding_perm _ _ _).mem_iff.mp hr)
  show clauses.foldr (sort h'.shown) sorted = clauses.foldr (sort h.shown) sorted
  induction clauses with
  | nil => rw [List.foldr_nil, List.foldr_nil]
  | cons c rest ih =>
    have within : ∀ r ∈ rest.foldr (sort h.shown) sorted, r.Within visible := fun r hr =>
      kept r ((sortByStanding_perm _ _ _).mem_iff.mpr hr)
    rw [List.foldr_cons, List.foldr_cons, ih within]
    exact sortByStanding_congr (fun r hr => (within r hr).standing_eq s c) c.direction

theorem filter_selects_eq (s : h.SeesAlike visible h') (hrs : ∀ r ∈ rs, r.Within visible)
    (hq : ∀ c ∈ q.conditions, c.value.Within visible) :
    rs.filter (q.selects h'.shown) = rs.filter (q.selects h.shown) := by
  refine List.filter_congr fun r hr => ?_
  have meets : q.conditions.all (r.meets h'.shown) = q.conditions.all (r.meets h.shown) := by
    rw [Bool.eq_iff_iff, List.all_eq_true, List.all_eq_true]
    exact forall₂_congr fun c hc => by rw [(hrs r hr).meets_eq s (hq c hc)]
  rw [selects, selects, meets]

theorem answer_eq (s : h.SeesAlike visible h') (hrs : ∀ r ∈ rs, r.Within visible)
    (hq : ∀ c ∈ q.conditions, c.value.Within visible) :
    q.answer h'.shown rs = q.answer h.shown rs := by
  rw [answer, answer, filter_selects_eq s hrs hq]
  exact arrange_eq s fun r hr => hrs r (List.mem_filter.mp hr).1

theorem sortProblem?_eq (s : h.SeesAlike visible h') (hrs : ∀ r ∈ rs, r.Within visible)
    (clauses : List SortClause) :
    q.sortProblem? h'.shown rs clauses = q.sortProblem? h.shown rs clauses := by
  induction clauses with
  | nil => rfl
  | cons c rest ih =>
    rw [sortProblem?, sortProblem?, ih, arrange_eq s hrs]
    have sorted : ∀ r ∈ { q with arrangement := rest }.arrange h.shown rs, r.Within visible :=
      fun r hr => hrs r ((arrange_perm _ _ rs).mem_iff.mp hr)
    generalize { q with arrangement := rest }.arrange h.shown rs = sorted at *
    rw [findSome?_congr fun r hr => (sorted r hr).standingProblem?_eq s c,
      List.map_congr_left fun r hr => (sorted r hr).standing_eq s c]

theorem matching_eq (s : h.SeesAlike visible h') (hrs : ∀ r ∈ rs, r.Within visible)
    (hq : ∀ c ∈ q.conditions, c.value.Within visible) :
    q.matching h'.shown rs = q.matching h.shown rs := by
  have tried : rs.findSome? (q.trialProblem? h'.shown) =
      rs.findSome? (q.trialProblem? h.shown) := by
    refine findSome?_congr fun r hr => ?_
    rw [trialProblem?, trialProblem?]
    split
    · exact firstFault_congr (fun c hc => (hrs r hr).problem?_eq s (hq c hc))
        fun c hc => congrArg not ((hrs r hr).meets_eq s (hq c hc))
    · rfl
  rw [matching, matching, problem?, problem?, tried, filter_selects_eq s hrs hq,
    sortProblem?_eq s fun r hr => hrs r (List.mem_filter.mp hr).1, answer_eq s hrs hq]

theorem text_eq (s : h.SeesAlike visible h') (hq : ∀ c ∈ q.conditions, c.value.Within visible) :
    q.text h'.shown = q.text h.shown := by
  have each : q.conditions.mapM (Condition.text h'.shown) =
      q.conditions.mapM (Condition.text h.shown) := by
    refine mapM_congr fun c hc => ?_
    rw [Condition.text, Condition.text, s.shown_eq (hq c hc)]
  rw [text, text, each]

theorem scanned_eq (s : h.SeesAlike visible h') (hrs : ∀ r ∈ rs, r.Within visible)
    (hq : ∀ c ∈ q.conditions, c.value.Within visible) (w : Window) (keysOnly : Bool) :
    Store.scanned h'.shown q w keysOnly rs = Store.scanned h.shown q w keysOnly rs := by
  rw [Store.scanned, Store.scanned, matching_eq s hrs hq, Store.note, Store.note, text_eq s hq]

end Selection
end RecordStore
