import RecordStore.Proofs.CompiledPaths
import RecordStore.Proofs.KeyQueries
import RecordStore.Proofs.NearestDoubles
import RecordStore.Proofs.OrderValues

/-!
# Values that are compared as they are stored

An object is stored with what the store makes of its values, and a filter compares with what the
store makes of the value that is asked for. Both come to the same, so an object is found under each
value it was stored with, among all records of its class that have a value of the same standing. An
object that is stored under a key of another kind is not a record of its class.
-/

set_option autoImplicit false

namespace RecordStore

open Attempt

namespace Value

/-- Whether a value is neither a collection nor a number that is not a number. -/
def isComparable : Value → Bool
  | .real x => !x.isNaN
  | .decimal d => !d.isNaN
  | .collection _ _ => false
  | _ => true

theorem stored_of_isComparable {v : Value} (h : v.isComparable = true) :
    ∃ w, v.stored = .ok w ∧ Record.itemsOf w = [w] ∧ ∀ x, w = .real x → x.isNaN = false := by
  cases v with
  | collection c items => cases h
  | real x =>
    have number : x.isNaN = false := by simpa [isComparable] using h
    exact ⟨_, rfl, rfl, by rintro y ⟨⟩; exact number⟩
  | decimal d =>
    have finite : d.isNaN = false := by simpa [isComparable] using h
    obtain ⟨x, nearest, number⟩ := Decimal.toDouble_of_number finite
    refine ⟨.real x, ?_, rfl, by rintro y ⟨⟩; exact number⟩
    rw [stored, nearest]
  | _ => exact ⟨_, rfl, rfl, nofun⟩

/-- Whether two values have the same order value. -/
def RanksWith (h : Heap) (v w : Value) : Prop := orderHolds h h.shown .equal v w = .ok true

def HasOrderValue (h : Heap) (v : Value) : Prop := (Standing.ofValue h.shown v).fault? = none

end Value

namespace Standing

theorem holds_equal_of_fault {s t : Standing} (h : s.fault? ≠ none ∨ t.fault? ≠ none) :
    s.holds .equal t = false := by
  rcases s with _ | _ | _ | _ | _ | _ | _ | ⟨_ | _⟩ <;>
    rcases t with _ | _ | _ | _ | _ | _ | _ | ⟨_ | _⟩ <;> first | rfl | simp [fault?] at h

theorem holds_equal_self {s : Standing} (number : ∀ q, s = .number q → q.IsPlain)
    (stands : s.fault? = none) : s.holds .equal s = true := by
  have level {s : Standing} (plain : s.IsPlain) : s.holds .equal s = true := by
    rw [holds_eq plain plain, @Std.ReflCmp.compare_self _ order]
    rfl
  rcases s with _ | _ | q | _ | _ | _ | m | ⟨_ | _⟩
  case number => exact level (number q rfl)
  case time =>
    show m.same m = true
    rw [Moment.same, Moment.order?, Moment.sharesZone, Moment.isSettled, Moment.offset,
      Moment.refolded]
    rcases m.zone with _ | _ | _ <;> simp [Zone.offset, Zone.refolded]
  case other.error => cases stands
  all_goals exact level trivial

end Standing

namespace Value

variable {h : Heap} {v w : Value}

theorem hasOrderValue_of_shown {t : Text} (ht : h.shown v = .ok t) : v.HasOrderValue h := by
  have readable : (Standing.other (h.shown v)).fault? = none := by
    rw [ht]
    rfl
  cases v <;> first | rfl | exact readable

theorem ranksWith_iff (property : Text) :
    v.RanksWith h w ↔ Condition.isMetBy h.shown ⟨property, .equal, w⟩ v = true := by
  have compared := Condition.orderHolds_eq h h.shown ⟨property, .equal, w⟩ v
  have unmet (stands : ¬(HasOrderValue h v ∧ HasOrderValue h w)) :
      Condition.isMetBy h.shown ⟨property, .equal, w⟩ v = false := by
    have apart : v.isOneNaN w = false := by
      rw [Bool.eq_false_iff, ne_eq, isOneNaN_iff]
      rintro ⟨p, q, rfl, rfl, -⟩
      exact stands ⟨rfl, rfl⟩
    rw [Condition.isMetBy, apart, if_neg Bool.false_ne_true]
    exact Standing.holds_equal_of_fault (not_and_or.mp stands)
  rw [RanksWith, show orderHolds h h.shown .equal v w = _ from compared]
  by_cases stands : HasOrderValue h v ∧ HasOrderValue h w
  · obtain ⟨hv, hw⟩ := stands
    rw [HasOrderValue] at hv hw
    simp [Condition.problem?, hv, hw]
  · rw [unmet stands]
    constructor
    · intro found
      split at found <;> cases found
    · intro unmet
      cases unmet

theorem ranksWith_self (number : ∀ x, w = .real x → x.isNaN = false) (stands : HasOrderValue h w) :
    w.RanksWith h w := by
  rw [ranksWith_iff Text.empty, Condition.isMetBy]
  split
  · rfl
  · refine Standing.holds_equal_self (fun q hq => ?_) stands
    cases w with
    | integer n =>
      cases hq
      trivial
    | real x =>
      cases hq
      exact Double.isPlain_quantity (number x rfl)
    | _ => cases hq

end Value

namespace Record

def RanksWith (h : Heap) (r : Record) (property : Text) (w : Value) : Prop :=
  ∃ x, lookupName property r.properties = some x ∧ ∃ item ∈ itemsOf x, item.RanksWith h w

theorem meets_equal_iff {h : Heap} {r : Record} {property : Text}
    (unreserved : property ≠ keyProperty) (w : Value) :
    r.meets h.shown ⟨property, .equal, w⟩ = true ↔ r.RanksWith h property w := by
  rw [meets, value?, if_neg unreserved]
  dsimp only
  cases found : lookupName property r.properties with
  | none => simp [RanksWith, found]
  | some x => simp [RanksWith, found, Value.ranksWith_iff property]

end Record

def Selection.byValue (kind property : Text) (w : Value) : Selection :=
  ⟨kind, [⟨property, .equal, w⟩], [], none, false⟩

namespace Store

variable {s : Store} {shown : Value → Except Fault Text} {kind property : Text} {w : Value}

theorem mem_given_byValue (r : Record) :
    r ∈ given shown (.byValue kind property w) false s.records ↔
      r ∈ s.records ∧ r.kind = kind ∧ r.meets shown ⟨property, .equal, w⟩ = true := by
  show r ∈ (Selection.byValue kind property w).answer shown s.records ↔ _
  rw [Selection.mem_answer_iff, Selection.selects_iff]
  simp [Selection.byValue]

theorem canScan_byValue {h : Heap} (unreserved : property ≠ keyProperty)
    (written : ∃ t, h.shown w = .ok t)
    (stand : ∀ r ∈ s.records, r.kind = kind → ∀ x, lookupName property r.properties = some x →
      ∀ item ∈ Record.itemsOf x, item.HasOrderValue h) :
    CanScan h.shown (.byValue kind property w) .all s.records := by
  obtain ⟨t, ht⟩ := written
  have operand : (Standing.ofValue h.shown w).fault? = none := Value.hasOrderValue_of_shown ht
  refine canScan_of_stretch (p := (0, none)) ⟨List.forall_mem_singleton.mpr ⟨t, ht⟩, nofun⟩ ?_ rfl
  refine Option.or_eq_none_iff.mpr ⟨List.findSome?_eq_none_iff.mpr fun r hr => ?_, rfl⟩
  rw [Selection.trialProblem?]
  split
  · rename_i covered
    have of_kind : r.kind = kind := of_decide_eq_true (Bool.and_eq_true_iff.mp covered).1
    refine Selection.firstFault_eq_none _ (List.forall_mem_singleton.mpr ?_)
    rw [Record.problem?, Record.value?, if_neg unreserved]
    dsimp only
    cases found : lookupName property r.properties with
    | none => rfl
    | some x =>
      have items : ∀ item ∈ Record.itemsOf x,
          Condition.problem? h.shown ⟨property, .equal, w⟩ item = none := by
        intro item hi
        have stands : (Standing.ofValue h.shown item).fault? = none :=
          stand r hr of_kind x found item hi
        simp [Condition.problem?, stands]
      simp only [operand, Option.none_or]
      exact Selection.firstFault_eq_none _ items
  · rfl

theorem given_byValue_apart (hs : s.Sound) :
    (given shown (.byValue kind property w) false s.records).Pairwise
      fun a b => a.key.same b.key = false := by
  have perm := (Selection.byValue kind property w).answer_perm shown s.records
  refine (perm.pairwise_iff fun {a b} apart => ?_).mpr (hs.apart.filter _)
  rwa [Key.same_comm]

end Store

/-- A member that is found under a name and whose values are properties of records. -/
structure ClassMapping.IsProperty (mapping : ClassMapping) (name : Text) (m : Member) : Prop where
  found : Member.find? name mapping.members = some m
  stored : Heap.isStored m = true
  plain : m.isEmbedded = false

section

variable {mapping : ClassMapping} {m : Member} {v w : Value}

theorem Candidate.compile_value {c : Candidate} {b : Bindings} {className : ClassName}
    {name : Text} {right : Expr} {aliasName text : Option Text} {extensions : List (Text × Setting)}
    (hs : c.statement = .comparing className name right aliasName text extensions)
    (hm : c.mapping.IsProperty name m) (value : operandValue c b right = .ok v)
    (comparable : v.isComparable = true)
    (untaken : m.traits.declared.isKey = true → ∀ t, v ≠ .text t) (converted : v.stored = .ok w) :
    c.compile b ⟨.whole, []⟩ = .ok (.selection (.byValue c.mapping.kind m.property w)) := by
  obtain ⟨⟨secondary, unparented⟩, unrelated⟩ :
      (m.traits.isPrimary = false ∧ m.traits.isParent = false) ∧ m.traits.related = none := by
    simpa [Heap.isStored] using hm.stored
  have condition : c.conditionValue m v = .ok w := by
    cases v with
    | collection => cases comparable
    | text t =>
      cases declared : m.traits.declared.isKey with
      | true => exact absurd rfl (untaken declared t)
      | false =>
        rw [conditionValue, declared]
        exact converted
    | _ => exact converted
  have step : comparisonStep c b [name] .equal right =
      .ok (.condition ⟨m.property, .equal, w⟩) :=
    comparisonStep_property (member_of_find? hm.found) unrelated unparented secondary rfl
      (by decide) value condition
  rw [compile_comparing hs, step]
  rfl

theorem Comparison.answer_value (q : Comparison) {d : Database} (hd : d.Sound)
    (mapped : d.registry.get? q.className = some mapping) (hm : mapping.IsProperty q.member m)
    (comparable : v.isComparable = true)
    (untaken : m.traits.declared.isKey = true → ∀ t, v ≠ .text t) (converted : v.stored = .ok w)
    (now : Moment) :
    let scan : Selection := .byValue mapping.kind m.property w
    (Store.CanScan d.shown scan .all d.store.records →
      ∃ result last, q.answer d now v = (.ok result, last) ∧
        result.Yields last.store (q.reader d mapping)
          (Store.given d.shown scan false d.store.records)) ∧
    (d.store.current = none → ¬Store.CanScan d.shown scan .all d.store.records →
      ∃ f last, q.answer d now v = (.error f, last)) := by
  intro scan
  obtain ⟨e, rfl, out⟩ := q.exists_isCarriedOutBy mapped now v
  obtain ⟨a, statement⟩ := out.statement_eq
  have value := q.operand.operandValue_expr e.candidate d v now
  have compiled := Candidate.compile_value statement hm value comparable untaken converted
  have sound : (d.compiled (.selection scan)).Sound := hd
  refine ⟨fun scannable => ?_, fun idle failing => ?_⟩
  · obtain ⟨result, last, scanned, yields⟩ :=
      e.scan_yields sound out.selects out.form_ne_count out.window_eq (q := scan) rfl scannable
    refine ⟨result, last, (out.compiled _ compiled scannable.canWrite).trans scanned, ?_⟩
    rw [← out.reader_eq]
    exact yields
  · by_cases written : NativeQuery.CanWrite d.shown (.selection scan)
    · cases problem : scan.problem? d.shown d.store.records with
      | none => exact absurd (Store.canScan_of_stretch written problem rfl) failing
      | some f =>
        exact ⟨_, _, (out.compiled _ compiled written).trans
          (Execution.scan_on_of_problem sound idle out.form_ne_count problem)⟩
    · obtain ⟨f, failed⟩ := out.unwritten _ compiled written
      exact ⟨f, _, failed⟩

end

namespace Database

variable {d after : Database} {i : ObjectId} {mapping : ClassMapping} {m : Member} {k : Key}
  {name : Text}

theorem put_stores (idle : d.store.current = none)
    (mapped : d.mappingOfValue (.object i) = .ok mapping)
    (distinct : (Member.allProperties mapping.stored).Nodup) (hm : mapping.IsProperty name m)
    (hput : (put (.object i)).on d = (.ok k, after)) :
    ∃ w r, (d.heap.valueUnder name (.object i)).stored = .ok w ∧ r ∈ after.store.records ∧
      r.key = k ∧ lookupName m.property r.properties = some w := by
  obtain ⟨found, x, s, t, required, made, written, -, -, left⟩ := put_spec idle hput
  obtain rfl : mapping = found := Except.ok.inj (mapped.symm.trans required)
  have leads : mapping.memberAt [name] none = .ok (some m) := by
    rw [ClassMapping.memberAt, hm.found]
    rfl
  have writes : mapping.Writes [name] := ⟨name, [], m, rfl, hm.found, hm.stored⟩
  obtain ⟨w, converted, property⟩ :=
    (recordOf_properties distinct made).2 _ _ _ leads hm.plain writes
  obtain ⟨-, stored, -⟩ := Store.put_spec written
  refine ⟨w, ⟨k, x.properties⟩, converted, ?_, rfl, property⟩
  rw [left]
  exact stored

/-- After an object was put, a query for the value of one of its members gives out the records of
its class that have a value with the order value of the stored one, each of them once. The record of
the object has the stored value, and is given out if the object's key is of the kind of its class.
The query comes to something just if the scan for the stored value can be made. -/
theorem put_compared (reached : d.Reachable) (idle : d.store.current = none)
    (mapped : d.mappingOfValue (.object i) = .ok mapping)
    (distinct : (Member.allProperties mapping.stored).Nodup) (q : Comparison)
    (of_class : q.className = d.heap.classOf (.object i)) (hm : mapping.IsProperty q.member m)
    (unreserved : m.property ≠ keyProperty)
    (comparable : (d.heap.valueUnder q.member (.object i)).isComparable = true)
    (untaken : m.traits.declared.isKey = true →
      ∀ t, d.heap.valueUnder q.member (.object i) ≠ .text t)
    (hput : (put (.object i)).on d = (.ok k, after)) (now : Moment) :
    let v := d.heap.valueUnder q.member (.object i)
    ∃ w r, v.stored = .ok w ∧ r ∈ after.store.records ∧ r.key = k ∧
      lookupName m.property r.properties = some w ∧
      let scannable := Store.CanScan after.shown (.byValue mapping.kind m.property w) .all
        after.store.records
      ((∃ t, after.shown w = .ok t) →
        (∀ x ∈ after.store.records, x.kind = mapping.kind →
          ∀ y, lookupName m.property x.properties = some y →
            ∀ item ∈ Record.itemsOf y, item.HasOrderValue after.heap) → scannable) ∧
      (scannable → ∃ result last rs, q.answer after now v = (.ok result, last) ∧
        result.Yields last.store (q.reader after mapping) rs ∧
        rs.Pairwise (fun a b => a.key.same b.key = false) ∧
        (∀ x, x ∈ rs ↔ x ∈ after.store.records ∧ x.kind = mapping.kind ∧
          x.RanksWith after.heap m.property w) ∧
        (r ∈ rs ↔ k.kind = mapping.kind)) ∧
      (¬scannable → ∃ f last, q.answer after now v = (.error f, last)) := by
  intro v
  have sound : after.Sound := reached.sound.of_put hput
  obtain ⟨-, -, -, -, -, -, -, done, -⟩ := put_spec idle hput
  have known : after.registry.get? q.className = some mapping := by
    rw [of_class, done.registry]
    exact Registry.get?_of_require mapped
  obtain ⟨w, converted, items, number⟩ := Value.stored_of_isComparable comparable
  -- the query compares with the very value that was stored
  obtain ⟨x, r, same, hr, key, property⟩ := put_stores idle mapped distinct hm hput
  obtain rfl : w = x := Except.ok.inj (converted.symm.trans same)
  obtain ⟨answered, failed⟩ := q.answer_value sound known hm comparable untaken converted now
  refine ⟨w, r, converted, hr, key, property, Store.canScan_byValue (h := after.heap) unreserved,
    fun scannable => ?_, failed (done.current.trans idle)⟩
  obtain ⟨result, last, answered, yields⟩ := answered scannable
  have given (y : Record) :
      y ∈ Store.given after.shown (.byValue mapping.kind m.property w) false after.store.records ↔
        y ∈ after.store.records ∧ y.kind = mapping.kind ∧ y.RanksWith after.heap m.property w := by
    rw [Store.mem_given_byValue, ← Record.meets_equal_iff unreserved]
    rfl
  refine ⟨result, last, _, answered, yields, Store.given_byValue_apart sound, given, ?_⟩
  rw [given, Record.kind, key]
  refine ⟨fun h => h.2.1, fun h => ⟨hr, h, w, property, w, ?_, ?_⟩⟩
  · rw [items]
    exact List.mem_singleton_self w
  · obtain ⟨t, ht⟩ := scannable.canWrite.1 _ (.head _)
    exact Value.ranksWith_self number (Value.hasOrderValue_of_shown ht)

def tagId : Member := .plain ⟨"id", .key, true, false, none, none, false, false⟩

def tagCaption (column : Option Text) : Member :=
  .plain ⟨"caption", .text, false, false, column, none, false, false⟩

def tagBeside (column : Option Text) (id : Key) (others : List Record) : Database :=
  List.foldl DatabaseAction.step (start .default)
    ([.register (.record "Tag") ⟨"Tag", [("id", false), ("caption", false)]⟩
        [tagId, tagCaption column] none,
      .arrange ⟨⟨[⟨⟨"Tag", [("id", false), ("caption", false)]⟩,
        [("id", .key id), ("caption", .text "x")]⟩]⟩, .empty⟩] ++
      others.map fun r => .store (.put r none))

def tagByCaption : Comparison := ⟨.record "Tag", "caption", .literal, none, none, []⟩

def captioned (id : Key) (property : Text) (caption : Value) : Record := ⟨id, [(property, caption)]⟩

def GivesTags (d : Database) (k : Key) (stored given : List Record) : Prop :=
  ∃ after result last reader, (put (.object 0)).on d = (.ok k, after) ∧
    after.store.records = stored ∧ tagByCaption.answer after noon (.text "x") = (.ok result, last) ∧
      result.Yields last.store reader given

/-- A tag with the caption x is found beside one with the captions y and x. -/
theorem put_compared_listed :
    let id : Key := .root "Tag" (.number 1)
    let own := captioned id "caption" (.text "x")
    let other := captioned (.root "Tag" (.number 2)) "caption" (.list [.text "y", .text "x"])
    ∃ rs, GivesTags (tagBeside none id [other]) id [other, own] rs ∧ own ∈ rs ∧ other ∈ rs := by
  intro id own other
  obtain ⟨after, hput, records⟩ : ∃ after,
      (put (.object 0)).on (tagBeside none id [other]) = (.ok id, after) ∧
        after.store.records = [other, own] := ⟨_, rfl, rfl⟩
  obtain ⟨w, r, converted, -, -, -, made, gives, -⟩ :=
    put_compared (d := tagBeside none id [other]) (m := tagCaption none) ⟨_, _, rfl⟩ rfl rfl
      (by decide) tagByCaption rfl ⟨rfl, rfl, rfl⟩ (by decide) rfl nofun hput noon
  cases converted
  rw [records] at made gives
  have texts : ∀ x ∈ [other, own], ∀ y, lookupName "caption" x.properties = some y →
      ∀ item ∈ Record.itemsOf y, ∃ t, item = .text t := by
    rintro x (_ | ⟨_, _ | ⟨_, ⟨⟩⟩⟩) y ⟨⟩
    · exact List.forall_mem_cons.mpr ⟨⟨_, rfl⟩, List.forall_mem_singleton.mpr ⟨_, rfl⟩⟩
    · exact List.forall_mem_singleton.mpr ⟨_, rfl⟩
  have scannable := made ⟨_, rfl⟩ fun x hx _ y found item hi => by
    obtain ⟨t, rfl⟩ := texts x hx y found item hi
    rfl
  obtain ⟨result, last, rs, answered, yields, -, given, -⟩ := gives scannable
  have level : (Value.text "x").RanksWith after.heap (.text "x") := Value.ranksWith_self nofun rfl
  refine ⟨rs, ⟨after, result, last, _, hput, records, answered, yields⟩, (given _).mpr ?_,
    (given _).mpr ?_⟩
  · exact ⟨.tail _ (.head _), rfl, _, rfl, .text "x", .head _, level⟩
  · exact ⟨.head _, rfl, _, rfl, .text "x", .tail _ (.head _), level⟩

theorem exists_givesTags (column : Option Text) (id : Key) (others : List Record)
    {stored : List Record}
    (hput : ∃ after, (put (.object 0)).on (tagBeside column id others) = (.ok k, after) ∧
      after.store.records = stored ∧ after.registry.get? (.record "Tag") = some mapping ∧
      (Selection.byValue mapping.kind (tagCaption column).property (.text "x")).problem? after.shown
        after.store.records = none)
    (hm : mapping.IsProperty "caption" (tagCaption column)) :
    ∃ shown rs, GivesTags (tagBeside column id others) k stored rs ∧
      ∀ r, r ∈ rs ↔ r ∈ stored ∧ r.kind = mapping.kind ∧
        r.meets shown ⟨(tagCaption column).property, .equal, .text "x"⟩ = true := by
  obtain ⟨after, hput, rfl, mapped, compared⟩ := hput
  have reached : (tagBeside column id others).Reachable := ⟨_, _, rfl⟩
  obtain ⟨gives, -⟩ := tagByCaption.answer_value (v := .text "x") (reached.sound.of_put hput) mapped
      hm
    rfl nofun rfl noon
  obtain ⟨result, last, answered, yields⟩ := gives
    (Store.canScan_of_stretch (p := (0, none)) ⟨List.forall_mem_singleton.mpr ⟨_, rfl⟩, nofun⟩
      compared
      rfl)
  exact ⟨after.shown, _, ⟨after, result, last, _, hput, rfl, answered, yields⟩,
    Store.mem_given_byValue⟩

/-- A caption that is kept under the name reserved for keys is not found, because keys are compared
instead. The caption of a tag that is put under a key of another kind is not found either. A tuple
counts by its items, as a list does, and not by itself. -/
theorem put_compared_apart :
    let id : Key := .root "Tag" (.number 1)
    let foreign : Key := .root "Label" (.number 1)
    let other := captioned (.root "Tag" (.number 2)) "caption" (.collection .tuple [.text "x"])
    GivesTags (tagBeside (some keyProperty) id []) id [captioned id keyProperty (.text "x")] [] ∧
      GivesTags (tagBeside none foreign []) foreign [captioned foreign "caption" (.text "x")] [] ∧
      ∃ rs, GivesTags (tagBeside none id [other]) id
          [other, captioned id "caption" (.text "x")] rs ∧ other ∈ rs ∧
        ∀ h, ¬(Value.collection .tuple [.text "x"]).RanksWith h (.text "x") := by
  intro id foreign other
  refine ⟨?reserved, ?foreign, ?tuple⟩
  case reserved =>
    obtain ⟨shown, rs, gives, mem⟩ :=
      exists_givesTags (some keyProperty) id [] ⟨_, rfl, rfl, rfl, rfl⟩ ⟨rfl, rfl, rfl⟩
    obtain rfl : rs = [] := by
      refine List.eq_nil_iff_forall_not_mem.mpr fun r hr => ?_
      obtain ⟨hr, -, met⟩ := (mem r).mp hr
      obtain rfl := List.mem_singleton.mp hr
      cases met
    exact gives
  case foreign =>
    obtain ⟨shown, rs, gives, mem⟩ :=
      exists_givesTags none foreign [] ⟨_, rfl, rfl, rfl, rfl⟩ ⟨rfl, rfl, rfl⟩
    obtain rfl : rs = [] := by
      refine List.eq_nil_iff_forall_not_mem.mpr fun r hr => ?_
      obtain ⟨hr, kind, -⟩ := (mem r).mp hr
      obtain rfl := List.mem_singleton.mp hr
      exact absurd kind (by decide)
    exact gives
  case tuple =>
    obtain ⟨shown, rs, gives, mem⟩ :=
      exists_givesTags none id [other] ⟨_, rfl, rfl, rfl, rfl⟩ ⟨rfl, rfl, rfl⟩
    refine ⟨rs, gives, (mem other).mpr ⟨.head _, rfl, rfl⟩, fun h same => ?_⟩
    have above (s : Except Fault Text) : (Standing.other s).compare? (.text "x") = some .gt :=
      Standing.compare?_of_tier_ne (by decide : (7 : Nat) ≠ 3)
    rw [Value.ranksWith_iff Text.empty] at same
    simp [Condition.isMetBy, Value.isOneNaN, Standing.holds, Standing.ofValue, above,
      Comparator.holds] at same

end Database

end RecordStore
