import RecordStore.Proofs.Counting
import RecordStore.Proofs.LookingUp
import RecordStore.Proofs.RelatedQueries

/-!
# Queries by key

A primary key that is compared with a single value is a condition of a scan, and one that is
compared with a collection is a look-up. What the look-up gives out is what the scans for the single
values give out, one after the other, where values of a key that came up before are passed over.
-/

set_option autoImplicit false

namespace RecordStore

open Attempt

namespace Draft

theorem sameKey?_comm (j k : Option Key) : sameKey? j k = sameKey? k j := by
  cases j <;> cases k <;> simp [sameKey?, Key.same_comm]

theorem distinctKeys_map {α : Type} (key : α → Option Key) (as : List α) :
    distinctKeys (as.map key) =
      (as.eraseDupsBy fun a b => sameKey? (key a) (key b)).map key := by
  suffices gathered : ∀ met : List α,
      (as.map key).foldl (fun met k => if met.any (sameKey? · k) then met else met ++ [k])
          (met.reverse.map key) =
        (List.eraseDupsBy.loop (fun a b => sameKey? (key a) (key b)) as met).map key from
    gathered []
  induction as with
  | nil => exact fun met => rfl
  | cons a rest ih =>
    intro met
    have known : (met.reverse.map key).any (sameKey? · (key a)) =
        met.any fun b => sameKey? (key a) (key b) := by
      simp only [List.any_map, List.any_reverse, Function.comp_def, sameKey?_comm _ (key a)]
    rw [List.map_cons, List.foldl_cons, List.eraseDupsBy.loop, known]
    cases met.any fun b => sameKey? (key a) (key b) with
    | true => exact ih met
    | false =>
      have added := ih (a :: met)
      rw [List.reverse_cons, List.map_append] at added
      exact added

end Draft

theorem eraseDupsBy_spec {α : Type} (same : α → α → Bool) (as : List α) :
    as.eraseDupsBy same ⊆ as ∧ (∀ a ∈ as, ∃ b ∈ as.eraseDupsBy same, a = b ∨ same a b = true) ∧
      (as.eraseDupsBy same).Pairwise fun a b => same b a = false := by
  suffices gathered : ∀ met : List α, met.Pairwise (fun a b => same a b = false) →
      met ⊆ List.eraseDupsBy.loop same as met ∧
        List.eraseDupsBy.loop same as met ⊆ met ++ as ∧
        (∀ a ∈ as, ∃ b ∈ List.eraseDupsBy.loop same as met, a = b ∨ same a b = true) ∧
        (List.eraseDupsBy.loop same as met).Pairwise fun a b => same b a = false from
    (gathered [] .nil).2
  induction as with
  | nil =>
    intro met apart
    exact ⟨by simp [List.eraseDupsBy.loop], by simp [List.eraseDupsBy.loop],
      List.forall_mem_nil _, List.pairwise_reverse.mpr apart⟩
  | cons a rest ih =>
    intro met apart
    rw [List.eraseDupsBy.loop]
    cases known : met.any (same a) with
    | true =>
      obtain ⟨keeps, within, covers, pairwise⟩ := ih met apart
      obtain ⟨b, hb, hab⟩ := List.any_eq_true.mp known
      refine ⟨keeps, fun x hx => ?_, List.forall_mem_cons.mpr ⟨⟨b, keeps hb, .inr hab⟩, covers⟩,
        pairwise⟩
      have kept := within hx
      grind
    | false =>
      have new : (a :: met).Pairwise fun a b => same a b = false :=
        List.pairwise_cons.mpr ⟨fun b hb => by simpa using List.any_eq_false.mp known b hb, apart⟩
      obtain ⟨keeps, within, covers, pairwise⟩ := ih (a :: met) new
      obtain ⟨first, others⟩ := List.cons_subset.mp keeps
      refine ⟨others, fun x hx => ?_, List.forall_mem_cons.mpr ⟨⟨a, first, .inl rfl⟩, covers⟩,
        pairwise⟩
      have kept := within hx
      grind

def Selection.byKey (kind : Text) (k : Key) : Selection :=
  ⟨kind, [⟨keyProperty, .equal, .key k⟩], [], none, false⟩

namespace Store

theorem filter_same {rs : List Record} (apart : rs.Pairwise fun a b => a.key.same b.key = false)
    (k : Key) :
    rs.filter (fun r => r.key.same k) = (rs.find? fun r => r.key.same k).toList := by
  induction rs with
  | nil => rfl
  | cons x rest ih =>
    obtain ⟨hx, apart⟩ := List.pairwise_cons.mp apart
    by_cases found : x.key.same k = true
    · have others : rest.filter (fun r => r.key.same k) = [] := by
        refine List.filter_eq_nil_iff.mpr fun r hr same => ?_
        have other := hx r hr
        rw [Key.same_congr_right same, found] at other
        cases other
      simp [found, others]
    · simp [found, ih apart]

theorem meets_byKey (shown : Value → Except Fault Text) (r : Record) (k : Key) :
    r.meets shown ⟨keyProperty, .equal, .key k⟩ = decide (r.key.order k = .eq) := by
  have asked : r.meets shown ⟨keyProperty, .equal, .key k⟩ =
      Comparator.equal.holds (some (Key.orderRank r.key.rank k.rank)) := by
    simp [Record.meets, Record.value?, Record.itemsOf, Condition.isMetBy, Value.isOneNaN,
      Standing.ofValue, Standing.holds, Standing.compare?]
  rw [asked, Key.order]
  cases Key.orderRank r.key.rank k.rank <;> rfl

theorem given_byKey {s : Store} (hs : s.Sound) (shown : Value → Except Fault Text) {kind : Text}
    {k : Key} (hkind : k.kind = kind)
    (alone : ∀ r ∈ s.records, r.key.order k = .eq → r.key.same k = true) :
    given shown (.byKey kind k) false s.records = (s.find? k).toList := by
  have selected : s.records.filter ((Selection.byKey kind k).selects shown) =
      s.records.filter fun r => r.key.same k := by
    refine List.filter_congr fun r hr => ?_
    have counts (same : r.key.same k = true) : r.key.order k = .eq := Key.order_eq_of_same same
    have within (same : r.key.same k = true) : r.kind = kind :=
      (Key.kind_eq_of_same same).trans hkind
    have met : r.key.order k = .eq ↔ r.key.same k = true := ⟨alone r hr, counts⟩
    rw [Bool.eq_iff_iff, Selection.selects_iff]
    simpa [Selection.byKey, meets_byKey, met] using within
  have perm := (Selection.byKey kind k).answer_perm shown s.records
  rw [selected, filter_same hs.apart] at perm
  show (Selection.byKey kind k).answer shown s.records =
    (s.records.find? fun r => r.key.same k).toList
  cases found : s.records.find? fun r => r.key.same k with
  | none =>
    rw [found] at perm
    exact perm.eq_nil
  | some r =>
    rw [found] at perm
    exact List.perm_singleton.mp perm

theorem canScan_byKey (d : Database) (kind : Text) {k : Key} (short : k.IsShort)
    (rs : List Record) : CanScan d.shown (.byKey kind k) .all rs := by
  refine canScan_of_comparable ⟨?_, nofun⟩ (List.forall_mem_singleton.mpr ⟨trivial, ?_⟩)
    fun _ _ => List.forall_mem_nil _
  · exact List.forall_mem_singleton.mpr (k.text_isOk_iff.mpr short)
  · intro r _ v hv
    obtain rfl : Value.key r.key = v := Option.some.inj hv
    exact List.forall_mem_singleton.mpr trivial

theorem canWrite_byKey_iff (d : Database) (kind : Text) (k : Key) :
    NativeQuery.CanWrite d.shown (.selection (.byKey kind k)) ↔ k.IsShort :=
  ⟨fun h => k.text_isOk_iff.mp (h.1 _ (.head _)),
    fun short => (canScan_byKey d kind short []).canWrite⟩

theorem fetch_on_some (keys : List (Option Key)) (present : none ∉ keys) (s : Store)
    (found : List (Key × Record)) : ∃ out t, (fetch keys found).on s = (.ok out, t) := by
  induction keys generalizing s found with
  | nil => exact ⟨found, s, rfl⟩
  | cons k rest ih =>
    obtain ⟨first, others⟩ := List.ne_and_not_mem_of_not_mem_cons present
    cases k with
    | none => exact absurd rfl first
    | some k =>
      rw [fetch, on_bind_of_ok (on_get s)]
      cases s.find? k with
      | none => exact ih others s found
      | some r =>
        dsimp only
        rw [on_bind_of_ok (on_modify _ s)]
        exact ih others _ _

theorem lookup_on_some {s : Store} (up : s.IsUp .get) {keys : List (Option Key)}
    (present : none ∉ keys) (transaction : Option Nat) :
    ∃ out t, (lookup keys transaction).on s = (.ok out, t) := by
  rw [lookup, on_bind_of_ok (enter_on up transaction), on_bind_of_ok (on_modify _ _)]
  exact fetch_on_some keys present _ []

end Store

namespace Execution

variable {e : Execution} {d : Database}

theorem scan_yields (hd : d.Sound) (selects : e.statement.isDelete = false)
    (form : e.plan.form ≠ .count) (whole : e.window = .all) {q : Selection}
    (free : q.ancestor = none) (h : Store.CanScan d.shown q .all d.store.records) :
    ∃ result after, (e.scan q).on d = (.ok result, after) ∧
      result.Yields after.store (e.reader d.settings.query)
        (Store.given d.shown q false d.store.records) := by
  have outside : e.transactionFor q d = none := by
    simp [transactionFor, free]
  have scanned := request_on e (d := d)
    (Store.scan_on_of_canScan (hd.isUp .scan) (Store.admits_none d.store q) h false)
  have rows : d.store.outages.rows = none := by
    rw [hd.steady]
  rw [scan_select_on_eq selects form, outside, whole, on_bind_of_ok scanned, openRows_on]
  refine ⟨_, _, rfl, rfl, _, _, _, rfl, _,
    (Store.drain_ofReads_eq_ok_iff _ _ _ _).mpr ⟨rfl, rfl, ?_⟩⟩
  intro o ho
  cases rows.symm.trans ho

theorem lookup_yields (hd : d.Sound) (selects : e.statement.isDelete = false)
    (form : e.plan.form ≠ .count) {keys : List (Option Key)} (present : none ∉ keys)
    {rs : List Record} (within : cut e.window (keys.filterMap (·.bind d.store.find?)) = .ok rs) :
    ∃ result after, (e.lookup keys).on d = (.ok result, after) ∧
      result.Yields after.store (e.reader d.settings.query) rs := by
  obtain ⟨found, t, looked⟩ := Store.lookup_on_some (hd.isUp .get) present d.store.current
  have records : keys.filterMap (recordOf? found) = keys.filterMap (·.bind d.store.find?) :=
    List.filterMap_congr fun k hk => ((Store.lookup_spec looked).2 k hk).1
  have kept (d' : Database) :
      (Attempt.ofExcept (cut e.window (keys.filterMap (recordOf? found)))).on d' =
        (.ok rs, d') := by
    rw [on_ofExcept, records, within]
  rw [lookup_select_on_eq selects form, on_bind_of_ok (request_on e looked),
    on_bind_of_ok (kept _), openRows_on]
  exact ⟨_, _, rfl, rfl, _, _, _, rfl, _, Store.drain_ofList _ _⟩

end Execution

namespace Value

/-- Whether a value is a complete key of a kind or is taken for one. A text may be a token of such a
key, or none. -/
def Identifies (kind : Text) : Value → Prop
  | .key k => k.kind = kind ∧ k.IsComplete
  | .integer _ => True
  | .text t => ∀ k, Key.ofToken t = .ok k → k.kind = kind ∧ k.IsComplete
  | _ => False

theorem Identifies.spec {kind : Text} {v : Value} (h : v.Identifies kind) {k : Key}
    (hk : v.bareKey? kind = some k) : k.kind = kind ∧ k.IsComplete := by
  have named (i : Identity) (hi : i ≠ .unset) : (Key.root kind i).IsComplete :=
    List.forall_mem_singleton.mpr hi
  cases v with
  | key j =>
    cases hk
    exact h
  | integer n =>
    cases hk
    exact ⟨rfl, named _ (by simp)⟩
  | text t =>
    rw [bareKey?] at hk
    cases token : Key.ofToken t with
    | ok j =>
      rw [token] at hk
      cases hk
      exact h _ token
    | error f =>
      rw [token] at hk
      cases f with
      | badKey problem =>
        cases hk
        exact ⟨rfl, named _ (by simp)⟩
      | _ => cases hk
  | _ => exact h.elim

def isBare : Value → Bool
  | .key _ | .integer _ | .text _ => true
  | _ => false

theorem Identifies.isBare {kind : Text} {v : Value} (h : v.Identifies kind) : v.isBare = true := by
  cases v with
  | key k => rfl
  | integer n => rfl
  | text t => rfl
  | _ => exact h.elim

theorem isBare_of_bareKey? {kind : Text} {v : Value} {k : Key} (h : v.bareKey? kind = some k) :
    v.isBare = true := by
  cases v with
  | key k => rfl
  | integer n => rfl
  | text t => rfl
  | _ => cases h

theorem ne_null_of_isBare {v : Value} (h : v.isBare = true) : v ≠ .null := by
  rintro rfl
  cases h

/-- The values of a list that come with a key which no value before them has. -/
def firsts (kind : Text) (vs : List Value) : List Value :=
  vs.eraseDupsBy fun v w => Draft.sameKey? (v.bareKey? kind) (w.bareKey? kind)

theorem canWrite_firsts_iff (shown : Value → Except Fault Text) (kind : Text) (vs : List Value) :
    (NativeQuery.lookup kind ((firsts kind vs).map (·.bareKey? kind))).CanWrite shown ↔
      ∀ v ∈ vs, ∀ k, v.bareKey? kind = some k → k.IsShort := by
  obtain ⟨within, covers, -⟩ := eraseDupsBy_spec
    (fun v w : Value => Draft.sameKey? (v.bareKey? kind) (w.bareKey? kind)) vs
  constructor
  · intro written v hv k hk
    obtain ⟨w, hw, rfl | alike⟩ := covers v hv
    · exact written (some k) (List.mem_map.mpr ⟨v, hw, hk⟩) k rfl
    rw [hk] at alike
    cases hj : w.bareKey? kind with
    | none =>
      rw [hj] at alike
      cases alike
    | some j =>
      rw [hj] at alike
      exact (Key.isShort_congr alike).mpr (written (some j) (List.mem_map.mpr ⟨w, hw, hj⟩) j rfl)
  · rintro short key asked k rfl
    obtain ⟨v, hv, hk⟩ := List.mem_map.mp asked
    exact short v (within hv) k hk

end Value

/-- How a value is put into a statement. -/
inductive Operand where
  | literal
  | named (parameter : Text)
  | placed (position : Int)

namespace Operand

def expr (o : Operand) (v : Value) : Expr :=
  match o with
  | .literal => .literal v
  | .named t => .parameter (some t) none
  | .placed n => .parameter none (some n)

def parameters (o : Operand) (v : Value) : Parameters :=
  match o with
  | .literal => []
  | .named t => [(.name t, v)]
  | .placed n => [(.position n, v)]

theorem operandValue_expr (o : Operand) (c : Candidate) (d : Database) (v : Value) (now : Moment) :
    Candidate.operandValue c (d.bindings (o.parameters v) now) (o.expr v) = .ok v := by
  cases o <;> simp [expr, parameters, Candidate.operandValue, Candidate.parameterValue,
    Database.bindings, Parameters.get?]

end Operand

/-- A member that is found under a name and holds the keys of its class's own objects. -/
structure ClassMapping.IsKeyed (mapping : ClassMapping) (name : Text) (m : Member) : Prop where
  found : Member.find? name mapping.members = some m
  primary : m.traits.isPrimary = true
  unrelated : m.traits.related = none
  unparented : m.traits.isParent = false

namespace Candidate

variable {c : Candidate} {b : Bindings} {name : Text} {m : Member} {right : Expr} {v : Value}

theorem comparisonStep_keyed (hm : c.mapping.IsKeyed name m)
    (value : operandValue c b right = .ok v) :
    comparisonStep c b [name] .equal right = primaryStep c b .equal v := by
  rw [comparisonStep, value, member_of_find? hm.found]
  show memberStep c b m .equal v = _
  simp [memberStep, hm.unrelated, hm.unparented, hm.primary]

theorem primaryStep_of_isBare (h : v.isBare = true) :
    primaryStep c b .equal v = keyOf c b v c.mapping.kind >>= fun k =>
      .ok (.condition ⟨keyProperty, .equal, Value.ofKey? k⟩) := by
  cases v with
  | key k => rfl
  | integer n => rfl
  | text t => rfl
  | _ => cases h

theorem mapM_keyOf {vs : List Value} {kind : Text} (h : ∀ v ∈ vs, v.Identifies kind) :
    ((∀ v ∈ vs, (v.bareKey? kind).isSome) ∧
        (vs.map fun v => keyOf c b v kind).mapM id = .ok (vs.map (·.bareKey? kind))) ∨
      ∃ v ∈ vs, v.bareKey? kind = none ∧
        ∃ f, (vs.map fun v => keyOf c b v kind).mapM id = .error f := by
  induction vs with
  | nil => exact .inl ⟨List.forall_mem_nil _, rfl⟩
  | cons v rest ih =>
    obtain ⟨first, others⟩ := List.forall_mem_cons.mp h
    rw [List.map_cons, List.mapM_cons]
    rcases keyOf_eq c b (Value.ne_null_of_isBare first.isBare) kind with
        ⟨k, hk, key⟩ | ⟨hk, f, fault⟩
    · rw [id, key]
      rcases ih others with ⟨present, keys⟩ | ⟨w, hw, missing, f, fault⟩
      · refine .inl ⟨List.forall_mem_cons.mpr ⟨by rw [hk]; rfl, present⟩, ?_⟩
        rw [keys, List.map_cons, hk]
        rfl
      · refine .inr ⟨w, .tail _ hw, missing, f, ?_⟩
        rw [fault]
        rfl
    · refine .inr ⟨v, .head _, hk, f, ?_⟩
      rw [id, fault]
      rfl

variable {className : ClassName} {aliasName text : Option Text}
  {extensions : List (Text × Setting)}

theorem compile_single
    (hs : c.statement = .comparing className name right aliasName text extensions)
    (hm : c.mapping.IsKeyed name m) (value : operandValue c b right = .ok v)
    (h : v.isBare = true) :
    (∃ k, v.bareKey? c.mapping.kind = some k ∧
      c.compile b ⟨.whole, []⟩ = .ok (.selection (.byKey c.mapping.kind k))) ∨
      v.bareKey? c.mapping.kind = none ∧ ∃ f, c.compile b ⟨.whole, []⟩ = .error f := by
  rw [compile_comparing hs, comparisonStep_keyed hm value, primaryStep_of_isBare h]
  rcases keyOf_eq c b (Value.ne_null_of_isBare h) c.mapping.kind with ⟨k, hk, key⟩ | ⟨hk, f, fault⟩
  · rw [key]
    exact .inl ⟨k, hk, rfl⟩
  · rw [fault]
    exact .inr ⟨hk, f, rfl⟩

theorem compile_collection
    (hs : c.statement = .comparing className name right aliasName text extensions)
    (hm : c.mapping.IsKeyed name m) {collected : Collection} {vs : List Value}
    (value : operandValue c b right = .ok (.collection collected vs))
    (h : ∀ v ∈ vs, v.Identifies c.mapping.kind) :
    ((∀ v ∈ vs, (v.bareKey? c.mapping.kind).isSome) ∧
      c.compile b ⟨.whole, []⟩ = .ok (.lookup c.mapping.kind
        (Draft.distinctKeys (vs.map (·.bareKey? c.mapping.kind))))) ∨
      ∃ v ∈ vs, v.bareKey? c.mapping.kind = none ∧ ∃ f, c.compile b ⟨.whole, []⟩ = .error f := by
  have compiled : c.compile b ⟨.whole, []⟩ =
      ((vs.map fun v => keyOf c b v c.mapping.kind).mapM id).map fun ks =>
        .lookup c.mapping.kind (Draft.distinctKeys ks) := by
    rw [compile_comparing hs, comparisonStep_keyed hm value]
    show (((vs.map fun v => keyOf c b v c.mapping.kind).mapM id >>= fun ks =>
      .ok { c.start with keys := some (Draft.distinctKeys ks) }) >>= Draft.logged).map _ = _
    cases (vs.map fun v => keyOf c b v c.mapping.kind).mapM id <;> rfl
  rw [compiled]
  rcases mapM_keyOf (c := c) (b := b) h with ⟨present, keys⟩ | ⟨v, hv, missing, f, fault⟩
  · rw [keys]
    exact .inl ⟨present, rfl⟩
  · rw [fault]
    exact .inr ⟨v, hv, missing, f, rfl⟩

end Candidate

/-- A query for the objects whose member equals a value. -/
structure Comparison where
  className : ClassName
  member : Text
  operand : Operand
  aliasName : Option Text
  text : Option Text
  extensions : List (Text × Setting)

namespace Comparison

variable (q : Comparison) {d : Database} {mapping : ClassMapping} {m : Member}
  {v : Value} {vs : List Value}

def statement (v : Value) : Statement :=
  .comparing q.className q.member (q.operand.expr v) q.aliasName q.text q.extensions

/-- What comes of the query for a value. -/
def answer (d : Database) (now : Moment) (v : Value) : Except Fault Result × Database :=
  (Database.execute (q.statement v) ⟨none, none⟩ (q.operand.parameters v) now).on d

def reader (d : Database) (mapping : ClassMapping) : RowReader :=
  ⟨mapping,
    .whole ((lookupName "ignore_cache" q.extensions).getD d.settings.query.ignoreCache).isTrue⟩

/-- How a query is carried out once it is compiled. -/
structure IsCarriedOutBy (d : Database) (now : Moment) (v : Value) (e : Execution) : Prop where
  statement_eq : ∃ a, e.statement =
    .comparing q.className q.member (q.operand.expr v) a q.text q.extensions
  plan_eq : e.plan = ⟨.whole, []⟩
  window_eq : e.window = .all
  refused : ∀ f,
    e.candidate.compile (d.bindings (q.operand.parameters v) now) ⟨.whole, []⟩ = .error f →
      q.answer d now v = (.error f, d)
  unwritten : ∀ native,
    e.candidate.compile (d.bindings (q.operand.parameters v) now) ⟨.whole, []⟩ = .ok native →
      ¬native.CanWrite d.shown → ∃ f, q.answer d now v = (.error f, d.compiled native)
  compiled : ∀ native,
    e.candidate.compile (d.bindings (q.operand.parameters v) now) ⟨.whole, []⟩ = .ok native →
      native.CanWrite d.shown → q.answer d now v = (e.run native).on (d.compiled native)

theorem exists_isCarriedOutBy (mapped : d.registry.get? q.className = some mapping) (now : Moment)
    (v : Value) : ∃ e, e.candidate.mapping = mapping ∧ q.IsCarriedOutBy d now v e := by
  let c : Candidate := ⟨(q.statement v).withAlias d.settings.query, mapping⟩
  obtain ⟨a, statement⟩ : ∃ a, c.statement =
      .comparing q.className q.member (q.operand.expr v) a q.text q.extensions :=
    Statement.withAlias_comparing _ _ _ _ _ _ d.settings.query
  have selects : (q.statement v).kind ≠ .update := by
    simp [Comparison.statement, Statement.comparing]
  have candidate : (q.statement v).candidateIn d = .ok c :=
    (Statement.candidateIn_eq_ok_iff _ d c).mpr ⟨selects, _, mapping, rfl, mapped, rfl⟩
  have planned := Candidate.plan_comparing statement
  refine ⟨⟨c, ⟨.whole, []⟩, .all⟩, rfl, ⟨a, statement⟩, rfl, rfl, fun f refused => ?_,
    fun native compiled unwritten => ?_, fun native compiled => ?_⟩
  · apply Database.execute_on_refused
    rw [Statement.compiledIn, candidate]
    show (c.plan >>= fun plan => _) = _
    rw [planned]
    show (c.compile (d.bindings (q.operand.parameters v) now) ⟨.whole, []⟩ >>= fun native => _) = _
    rw [refused]
    rfl
  · obtain ⟨f, -, failed⟩ :=
      Database.execute_on_unwritten ⟨candidate, planned, compiled⟩ unwritten _
    exact ⟨f, failed⟩
  · exact Database.execute_on_whole (e := ⟨c, ⟨.whole, []⟩, .all⟩) rfl
      ⟨candidate, planned, compiled⟩

namespace IsCarriedOutBy

variable {q} {e : Execution} {now : Moment}

theorem selects (h : q.IsCarriedOutBy d now v e) : e.statement.isDelete = false := by
  obtain ⟨a, statement⟩ := h.statement_eq
  rw [statement]
  rfl

theorem form_ne_count (h : q.IsCarriedOutBy d now v e) : e.plan.form ≠ .count := by
  rw [h.plan_eq]
  nofun

theorem reader_eq (h : q.IsCarriedOutBy d now v e) :
    e.reader d.settings.query = q.reader d e.candidate.mapping := by
  obtain ⟨a, statement⟩ := h.statement_eq
  simp only [Execution.reader, h.plan_eq, Statement.flag, statement]
  rfl

end IsCarriedOutBy

theorem answer_single (hd : d.Sound) (complete : ∀ r ∈ d.store.records, r.key.IsComplete)
    (mapped : d.registry.get? q.className = some mapping) (hm : mapping.IsKeyed q.member m)
    (now : Moment) (h : v.Identifies mapping.kind) :
    (∃ k, v.bareKey? mapping.kind = some k ∧ k.IsShort ∧ ∃ result last,
      q.answer d now v = (.ok result, last) ∧
        result.Yields last.store (q.reader d mapping) (d.store.find? k).toList) ∨
      (∀ k, v.bareKey? mapping.kind = some k → ¬k.IsShort) ∧
        ∃ f last, q.answer d now v = (.error f, last) := by
  obtain ⟨e, rfl, out⟩ := q.exists_isCarriedOutBy mapped now v
  obtain ⟨a, statement⟩ := out.statement_eq
  have value := q.operand.operandValue_expr e.candidate d v now
  rcases Candidate.compile_single statement hm value h.isBare with
      ⟨k, hk, compiled⟩ | ⟨hk, f, fault⟩
  · obtain ⟨hkind, hcomplete⟩ := h.spec hk
    have written := Store.canWrite_byKey_iff d e.candidate.mapping.kind k
    by_cases short : k.IsShort
    case neg =>
      obtain ⟨f, failed⟩ := out.unwritten _ compiled (mt written.mp short)
      refine .inr ⟨fun j hj => ?_, f, _, failed⟩
      obtain rfl := Option.some.inj (hk.symm.trans hj)
      exact short
    let scan : Selection := .byKey e.candidate.mapping.kind k
    have sound : (d.compiled (.selection scan)).Sound := hd
    obtain ⟨result, last, scanned, yields⟩ :=
      e.scan_yields sound out.selects out.form_ne_count out.window_eq (q := scan) rfl
        (Store.canScan_byKey d _ short _)
    refine .inl ⟨k, hk, short, result, last,
      (out.compiled _ compiled (written.mpr short)).trans scanned, ?_⟩
    have alone : ∀ r ∈ d.store.records, r.key.order k = .eq → r.key.same k = true :=
      fun r hr => (Key.order_eq_iff (complete r hr) hcomplete).mp
    rw [← out.reader_eq, ← Store.given_byKey hd d.shown hkind alone]
    exact yields
  · refine .inr ⟨fun k named => ?_, f, d, out.refused f fault⟩
    cases hk.symm.trans named

theorem answer_collection (hd : d.Sound)
    (mapped : d.registry.get? q.className = some mapping) (hm : mapping.IsKeyed q.member m)
    (now : Moment) (collected : Collection) (h : ∀ v ∈ vs, v.Identifies mapping.kind) :
    ((∀ v ∈ vs, ∃ k, v.bareKey? mapping.kind = some k ∧ k.IsShort) ∧ ∃ result last,
      q.answer d now (.collection collected vs) = (.ok result, last) ∧
        result.Yields last.store (q.reader d mapping)
          ((Value.firsts mapping.kind vs).filterMap fun v =>
            (v.bareKey? mapping.kind).bind d.store.find?)) ∨
      ∃ v ∈ vs, (∀ k, v.bareKey? mapping.kind = some k → ¬k.IsShort) ∧
        ∃ f last, q.answer d now (.collection collected vs) = (.error f, last) := by
  obtain ⟨e, rfl, out⟩ := q.exists_isCarriedOutBy mapped now (.collection collected vs)
  obtain ⟨a, statement⟩ := out.statement_eq
  have value := q.operand.operandValue_expr e.candidate d (.collection collected vs) now
  rcases Candidate.compile_collection statement hm value h with
    ⟨present, compiled⟩ | ⟨v, hv, missing, f, fault⟩
  · rw [Draft.distinctKeys_map] at compiled
    let keys := (Value.firsts e.candidate.mapping.kind vs).map
      (·.bareKey? e.candidate.mapping.kind)
    have asks : none ∉ keys := by
      intro missing
      obtain ⟨v, hv, hk⟩ := List.mem_map.mp missing
      have known := present v ((eraseDupsBy_spec _ vs).1 hv)
      rw [hk] at known
      cases known
    have written := Value.canWrite_firsts_iff d.shown e.candidate.mapping.kind vs
    by_cases short : ∀ v ∈ vs, ∀ k, v.bareKey? e.candidate.mapping.kind = some k → k.IsShort
    case neg =>
      obtain ⟨f, failed⟩ := out.unwritten _ compiled (mt written.mp short)
      push Not at short
      obtain ⟨v, hv, k, hk, long⟩ := short
      refine .inr ⟨v, hv, fun j hj => ?_, f, _, failed⟩
      obtain rfl := Option.some.inj (hk.symm.trans hj)
      exact long
    have sound : (d.compiled (.lookup e.candidate.mapping.kind keys)).Sound := hd
    have within (rs : List Record) : Execution.cut e.window rs = .ok rs := by
      rw [out.window_eq]
      rfl
    obtain ⟨result, last, looked, yields⟩ :=
      e.lookup_yields sound out.selects out.form_ne_count asks (within _)
    have named (v : Value) (hv : v ∈ vs) :
        ∃ k, v.bareKey? e.candidate.mapping.kind = some k ∧ k.IsShort := by
      obtain ⟨k, hk⟩ := Option.isSome_iff_exists.mp (present v hv)
      exact ⟨k, hk, short v hv k hk⟩
    refine .inl ⟨named, result, last, (out.compiled _ compiled (written.mpr short)).trans looked,
      ?_⟩
    rw [← out.reader_eq]
    rw [List.filterMap_map] at yields
    exact yields
  · refine .inr ⟨v, hv, fun k named => ?_, f, d, out.refused f fault⟩
    cases missing.symm.trans named

theorem mem_firsts_iff {s : Store} (hs : s.Sound) (kind : Text) (vs : List Value) (r : Record) :
    r ∈ ((Value.firsts kind vs).filterMap fun v => (v.bareKey? kind).bind s.find?) ↔
      r ∈ s.records ∧ ∃ v ∈ vs, ∃ k, v.bareKey? kind = some k ∧ r.key.same k = true := by
  obtain ⟨within, covers, -⟩ := eraseDupsBy_spec
    (fun v w : Value => Draft.sameKey? (v.bareKey? kind) (w.bareKey? kind)) vs
  rw [List.mem_filterMap]
  constructor
  · rintro ⟨v, hv, found⟩
    obtain ⟨k, hk, found⟩ := Option.bind_eq_some_iff.mp found
    obtain ⟨hr, same⟩ := Store.find?_eq_some found
    exact ⟨hr, v, within hv, k, hk, same⟩
  · rintro ⟨hr, v, hv, k, hk, same⟩
    obtain ⟨w, hw, first⟩ := covers v hv
    obtain ⟨j, hj, same⟩ : ∃ j, w.bareKey? kind = some j ∧ r.key.same j = true := by
      rcases first with rfl | alike
      · exact ⟨k, hk, same⟩
      · rw [hk] at alike
        cases hj : w.bareKey? kind with
        | none =>
          rw [hj] at alike
          cases alike
        | some j =>
          rw [hj] at alike
          exact ⟨j, rfl, Key.same_trans same alike⟩
    have found : s.find? j = some r := Store.find?_of_mem hs.apart hr same
    exact ⟨w, hw, by rw [hj, Option.bind_some, found]⟩

theorem firsts_apart (s : Store) (kind : Text) (vs : List Value) :
    ((Value.firsts kind vs).filterMap fun v => (v.bareKey? kind).bind s.find?).Pairwise
      fun a b => a.key.same b.key = false := by
  rw [List.pairwise_filterMap]
  refine (eraseDupsBy_spec _ vs).2.2.imp fun {v w} differ x hx y hy => ?_
  obtain ⟨j, hj, hx⟩ := Option.bind_eq_some_iff.mp hx
  obtain ⟨k, hk, hy⟩ := Option.bind_eq_some_iff.mp hy
  rw [hj, hk] at differ
  have hxj := (Store.find?_eq_some hx).2
  have hyk := (Store.find?_eq_some hy).2
  rw [Key.same_congr_left hxj, Key.same_congr_right hyk, Key.same_comm]
  exact differ

/-- Where the keys of all records are complete, a look-up of the primary keys in a collection comes
to something just if the scan for each of them does. It gives out what the scans give out, one after
the other in the order in which their keys first occur: the records of the keys, and none twice. -/
theorem collection_gives_singles (reached : d.Reachable)
    (complete : ∀ r ∈ d.store.records, r.key.IsComplete)
    (mapped : d.registry.get? q.className = some mapping) (hm : mapping.IsKeyed q.member m)
    (now : Moment) (collected : Collection) (h : ∀ v ∈ vs, v.Identifies mapping.kind) :
    let batch := q.answer d now (.collection collected vs)
    ((∃ result, batch.1 = .ok result) ↔ ∀ v ∈ vs, ∃ result, (q.answer d now v).1 = .ok result) ∧
    ∀ result, batch.1 = .ok result →
      ∃ reader parts, result.Yields batch.2.store reader parts.flatten ∧
        List.Forall₂ (fun v part => ∃ single last, q.answer d now v = (.ok single, last) ∧
            single.Yields last.store reader part)
          (Value.firsts mapping.kind vs) parts ∧
        (∀ r, r ∈ parts.flatten ↔ r ∈ d.store.records ∧
          ∃ v ∈ vs, ∃ k, v.bareKey? mapping.kind = some k ∧ r.key.same k = true) ∧
        parts.flatten.Pairwise fun a b => a.key.same b.key = false := by
  have single (v : Value) (hv : v ∈ vs) :=
    q.answer_single reached.sound complete mapped hm now (h v hv)
  dsimp only
  -- all keys can be written, or one of them stops the batch and its own query
  rcases q.answer_collection reached.sound mapped hm now collected h with
    ⟨present, result, last, found, yields⟩ | ⟨v, hv, long, f, last, failed⟩
  · have answered (v : Value) (hv : v ∈ vs) : ∃ single last,
        q.answer d now v = (.ok single, last) ∧ single.Yields last.store (q.reader d mapping)
          ((v.bareKey? mapping.kind).bind d.store.find?).toList := by
      obtain ⟨k, hk, short⟩ := present v hv
      rcases single v hv with ⟨j, hj, -, answered⟩ | ⟨long, -⟩
      · rw [hj]
        exact answered
      · exact absurd short (long k hk)
    rw [found]
    refine ⟨⟨fun _ v hv => ?_, fun _ => ⟨result, rfl⟩⟩, fun other same => ?_⟩
    · obtain ⟨single, last, answered, -⟩ := answered v hv
      exact ⟨single, by rw [answered]⟩
    obtain rfl : result = other := Except.ok.inj same
    let part (v : Value) := ((v.bareKey? mapping.kind).bind d.store.find?).toList
    have flat : ((Value.firsts mapping.kind vs).map part).flatten =
        (Value.firsts mapping.kind vs).filterMap fun v =>
          (v.bareKey? mapping.kind).bind d.store.find? := by
      rw [List.filterMap_eq_flatMap_toList, List.flatMap_def]
    refine ⟨q.reader d mapping, (Value.firsts mapping.kind vs).map part, ?_, ?_, ?_, ?_⟩
    · rw [flat]
      exact yields
    · rw [List.forall₂_map_right_iff, List.forall₂_same]
      exact fun v hv => answered v ((eraseDupsBy_spec _ vs).1 hv)
    · rw [flat]
      exact mem_firsts_iff reached.sound mapping.kind vs
    · rw [flat]
      exact firsts_apart d.store mapping.kind vs
  · have refused : ∃ f, (q.answer d now v).1 = .error f := by
      rcases single v hv with ⟨k, hk, short, -⟩ | ⟨-, g, _, refused⟩
      · exact absurd short (long k hk)
      · exact ⟨g, congrArg Prod.fst refused⟩
    obtain ⟨g, refused⟩ := refused
    rw [failed]
    refine ⟨⟨?_, fun all => ?_⟩, fun result found => ?_⟩
    · rintro ⟨result, found⟩
      cases found
    · obtain ⟨result, found⟩ := all v hv
      cases refused.symm.trans found
    · cases found

def authorById : Comparison := ⟨.record "Author", "id", .named "ids", none, none, []⟩

/-- An author that is asked for twice is given out once, before the one that is not there. -/
theorem collection_gives_singles_authors :
    let batch := authorById.answer Database.authorList Database.noon
      (.collection .list [.integer 1, .key (.root "Author" (.flag true)), .integer 2])
    ∃ (result : Result) (reader : RowReader) (parts : List (List Record)),
      batch.1 = .ok result ∧ result.Yields batch.2.store reader parts.flatten ∧
        parts.length = 2 ∧ (∀ r ∈ Database.authorList.store.records, r ∈ parts.flatten) ∧
        parts.flatten.Pairwise fun a b => a.key.same b.key = false := by
  intro batch
  have complete : ∀ r ∈ Database.authorList.store.records, r.key.IsComplete :=
    List.forall_mem_singleton.mpr (List.forall_mem_singleton.mpr nofun)
  have flagged : (Key.root "Author" (.flag true)).IsComplete := List.forall_mem_singleton.mpr nofun
  have identify : ∀ v ∈ [Value.integer 1, .key (.root "Author" (.flag true)), .integer 2],
      v.Identifies "Author" := by
    simpa [Value.Identifies] using ⟨rfl, flagged⟩
  obtain ⟨-, gives⟩ := authorById.collection_gives_singles (d := Database.authorList) ⟨_, _, rfl⟩
    complete rfl ⟨rfl, rfl, rfl, rfl⟩ Database.noon .list identify
  obtain ⟨reader, parts, yields, singles, found, apart⟩ := gives _ rfl
  have listed : ∀ r ∈ Database.authorList.store.records, r ∈ parts.flatten := by
    refine List.forall_mem_singleton.mpr ((found _).mpr ⟨.head _, .integer 1, .head _, ?_⟩)
    exact ⟨_, rfl, Key.same_self _⟩
  exact ⟨_, reader, parts, rfl, yields, singles.length_eq.symm, listed, apart⟩

def folderId : Member := .plain ⟨"id", .key, true, true, none, none, false, false⟩

def folder : Record := ⟨.root "Folder" (.number 1), []⟩

def folders : Database :=
  List.foldl DatabaseAction.step (Database.start .default)
    [.register (.record "Folder") ⟨"Folder", [("id", false)]⟩ [folderId] none,
      .store (.put folder none)]

def folderById : Comparison := ⟨.record "Folder", "id", .literal, none, none, []⟩

/-- A primary key that is the key of the parent as well asks for what lies below a single key. It
cannot be compared with a collection. -/
theorem collection_refused_folders :
    folders.Reachable ∧ (∀ r ∈ folders.store.records, r.key.IsComplete) ∧
      (∃ mapping, folders.registry.get? (.record "Folder") = some mapping ∧
        mapping.primary? = some folderId ∧ (Value.key folder.key).Identifies mapping.kind) ∧
      (∃ result last reader,
        folderById.answer folders Database.noon (.key folder.key) = (.ok result, last) ∧
          result.Yields last.store reader [folder]) ∧
      ∃ f, folderById.answer folders Database.noon (.collection .list [.key folder.key]) =
        (.error f, folders) := by
  have reached : folders.Reachable := ⟨_, _, rfl⟩
  have complete : folder.key.IsComplete := List.forall_mem_singleton.mpr nofun
  have compiled : (folderById.statement (.key folder.key)).CompilesTo folders [] Database.noon _ _
      (.selection ⟨"Folder", [], [], some folder.key, false⟩) := ⟨rfl, rfl, rfl⟩
  have scannable : Store.CanScan folders.shown ⟨"Folder", [], [], some folder.key, false⟩ .all
      folders.store.records :=
    Store.canScan_of_comparable
      ⟨nofun, by rintro k ⟨⟩; exact folder.key.pathText_isOk_iff.mp ⟨_, rfl⟩⟩
      nofun fun _ _ => nofun
  obtain ⟨result, last, reader, ran, yields⟩ :=
    Database.execute_answer reached.sound rfl compiled rfl nofun scannable
  have found : Store.given folders.shown ⟨"Folder", [], [], some folder.key, false⟩ false
      folders.store.records = [folder] := by
    refine List.perm_singleton.mp ?_
    exact Selection.answer_perm folders.shown ⟨"Folder", [], [], some folder.key, false⟩ [folder]
  rw [found] at yields
  exact ⟨reached, List.forall_mem_singleton.mpr complete, ⟨_, rfl, rfl, rfl, complete⟩,
    ⟨result, last, reader, ran, yields⟩, _, rfl⟩

end Comparison

end RecordStore
