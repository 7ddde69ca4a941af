import Mathlib.Data.List.Forall2
import Mathlib.Data.List.Pairwise
import RecordStore.Proofs.FilterSteps
import RecordStore.Proofs.Scanning
import RecordStore.Query.Compile

/-!
# Filters and their leaves

Compiling a filter comes to compiling its leaves, each by itself, and merging what they ask for: the
filter compiles if its leaves do and can stand together, and then a record is selected if every leaf
selects it.
-/

set_option autoImplicit false

namespace RecordStore

theorem forall_right_of_forall₂ {α β : Type} {R : α → β → Prop} {P : β → Prop}
    (hp : ∀ a b, R a b → P b) {xs : List α} {ys : List β} (h : List.Forall₂ R xs ys) :
    ∀ b ∈ ys, P b := by
  induction h with
  | nil => simp
  | cons hab _ ih => exact List.forall_mem_cons.mpr ⟨hp _ _ hab, ih⟩

theorem forall₂_and_right_iff {α β : Type} {R : α → β → Prop} {P : β → Prop} {xs : List α}
    {ys : List β} :
    List.Forall₂ (fun a b => R a b ∧ P b) xs ys ↔ List.Forall₂ R xs ys ∧ ∀ b ∈ ys, P b := by
  constructor
  · exact fun h => ⟨h.imp fun _ _ => And.left,
      forall_right_of_forall₂ (P := P) (fun _ _ => And.right) h⟩
  · rintro ⟨h, hp⟩
    induction h with
    | nil => exact .nil
    | cons hab _ ih =>
      obtain ⟨hb, hrest⟩ := List.forall_mem_cons.mp hp
      exact .cons ⟨hab, hb⟩ (ih hrest)

namespace Expr

def isField : Expr → Bool
  | .field _ => true
  | _ => false

/-- The parts of a filter that are compiled by themselves. Conjunctions are taken apart, and so are
comparisons that have no path on their left. -/
def leaves : Expr → List Expr
  | .absent => []
  | .field _ => []
  | .both l r => leaves l ++ leaves r
  | .compare op l r =>
    if op.comparator?.isSome && !l.isField then leaves l ++ leaves r else [.compare op l r]
  | x => [x]

end Expr

namespace Draft

/-- Drafts that can be merged: a look-up stands alone, and all ancestors are one. -/
structure Compatible (ds : List Draft) : Prop where
  one_lookup : ds.countP (·.isLookup) ≤ 1
  lookup_alone : ∀ d ∈ ds, d.isLookup = true → ∀ e ∈ ds, e.isLookup = false →
    e.conditions = [] ∧ e.ancestor = none
  one_ancestor : ∀ d ∈ ds, ∀ e ∈ ds, ∀ j k,
    d.ancestor = some j → e.ancestor = some k → j.same k = true

/-- A draft of the same kind with everything that some drafts ask for. -/
def merged (d : Draft) (ds : List Draft) : Draft where
  kind := d.kind
  query := d.query
  conditions := ds.flatMap (·.conditions)
  arrangement := []
  ancestor := (ds.filterMap (·.ancestor)).getLast?
  keys := (ds.filterMap (·.keys)).head?

/-- Whether a finished draft selects a record of a store. -/
def Finds (shown : Value → Except Fault Text) (s : Store) (d : Draft) (r : Record) : Prop :=
  ∃ q, d.freeze false = .selection q ∧ r ∈ s.records ∧ q.selects shown r = true

/-- Whether the scan of a finished draft is answered with a cursor. -/
def ScansTo (shown : Value → Except Fault Text) (s : Store) (d : Draft) (c : Cursor Record) :
    Prop :=
  ∃ q, d.freeze false = .selection q ∧ ((Store.scan shown q none .all false).on s).1 = .ok c

def asSelection (d : Draft) : Selection := ⟨d.kind, d.conditions, d.arrangement, d.ancestor, false⟩

theorem freeze_eq_selection_iff {d : Draft} (h : d.isLookup = false) (q : Selection) :
    d.freeze false = .selection q ↔ d.asSelection = q := by
  have hk : d.keys = none := by simpa [isLookup] using h
  simp only [freeze, hk, NativeQuery.selection.injEq, asSelection]

theorem finds_iff {d : Draft} (h : d.isLookup = false) {shown : Value → Except Fault Text}
    {s : Store} {r : Record} :
    d.Finds shown s r ↔
      r ∈ s.records ∧ r.kind = d.kind ∧
        (∀ k, d.ancestor = some k → k.isAncestorOf r.key = true) ∧
        (∀ c ∈ d.conditions, r.meets shown c = true) ∧
        ∀ c ∈ d.arrangement, r.has c.property = true := by
  simp only [Finds, freeze_eq_selection_iff h, exists_eq_left', Selection.selects_iff, asSelection]

theorem scansTo_iff {d : Draft} (h : d.isLookup = false) {shown : Value → Except Fault Text}
    {s : Store} (hs : s.IsUp .scan) {c : Cursor Record} :
    d.ScansTo shown s c ↔ Store.CanScan shown d.asSelection .all s.records ∧
      c = Cursor.ofReads (d.asSelection.answer shown s.records) := by
  simp only [ScansTo, freeze_eq_selection_iff h, exists_eq_left',
    Store.scan_on hs (Store.admits_none s _), Store.scanned_eq_ok_iff, Cursor.ofWindow_all]
  rfl

theorem gives_iff_finds {d : Draft} (h : d.isLookup = false) {shown : Value → Except Fault Text}
    {s : Store} (hs : s.IsUp .scan) {c : Cursor Record} (hc : d.ScansTo shown s c) (r : Record) :
    c.Gives r ↔ d.Finds shown s r := by
  obtain ⟨-, rfl⟩ := (scansTo_iff h hs).mp hc
  rw [Cursor.gives_ofReads, Selection.mem_answer_iff, Finds]
  simp only [freeze_eq_selection_iff h, exists_eq_left']

theorem mem_of_ancestor_merged {d : Draft} {ds : List Draft} {k : Key}
    (h : (merged d ds).ancestor = some k) : ∃ e ∈ ds, e.ancestor = some k := by
  have hm : k ∈ ds.filterMap (·.ancestor) := List.mem_of_getLast? h
  exact List.mem_filterMap.mp hm

theorem ancestor_merged (d : Draft) {e : Draft} {ds : List Draft} {k : Key} (he : e ∈ ds)
    (hk : e.ancestor = some k) : ∃ j, (merged d ds).ancestor = some j := by
  have hm : k ∈ ds.filterMap (·.ancestor) := List.mem_filterMap.mpr ⟨e, he, hk⟩
  exact ⟨_, List.getLast?_eq_some_getLast (List.ne_nil_of_mem hm)⟩

theorem isLookup_merged (d : Draft) {ds : List Draft} (h : ∀ e ∈ ds, e.isLookup = false) :
    (merged d ds).isLookup = false := by
  simpa [isLookup, merged] using h

theorem foldl_join (ds : List Draft) (d : Draft) (hs : ∀ e ∈ ds, e.arrangement = []) :
    ds.foldl join d =
      { d with
        conditions := d.conditions ++ ds.flatMap (·.conditions)
        ancestor := (ds.filterMap (·.ancestor)).getLast?.or d.ancestor
        keys := d.keys.or (ds.filterMap (·.keys)).head? } := by
  induction ds generalizing d with
  | nil => simp
  | cons e rest ih =>
    have hrest : ∀ f ∈ rest, f.arrangement = [] := fun f hf => hs f (List.mem_cons_of_mem _ hf)
    have he : e.arrangement = [] := hs e List.mem_cons_self
    rw [List.foldl_cons, ih _ hrest]
    cases ha : e.ancestor <;> cases hk : e.keys <;>
      simp [join, he, ha, hk, List.getLast?_cons]

theorem foldl_join_start (ds : List Draft) (kind : Text) (query : Option Text)
    (hs : ∀ e ∈ ds, e.arrangement = []) :
    ds.foldl join (start kind query) = merged (start kind query) ds := by
  simp [foldl_join ds _ hs, merged, start]

theorem countP_isLookup_eq_zero {ds : List Draft} (h : ∀ e ∈ ds, e.IsBlank) :
    ds.countP (·.isLookup) = 0 := by
  rw [List.countP_eq_zero]
  intro e he
  simp [not_isLookup_of_isBlank (h e he)]

theorem one_lookup_of_pairwise {ds : List Draft} (h : ds.Pairwise Joinable) :
    ds.countP (·.isLookup) ≤ 1 := by
  induction ds with
  | nil => simp
  | cons d rest ih =>
    obtain ⟨hd, hrest⟩ := List.pairwise_cons.mp h
    rw [List.countP_cons]
    split
    · rename_i hl
      simp [countP_isLookup_eq_zero fun e he => (hd e he).of_left hl]
    · exact ih hrest

theorem isAncestorOf_of_merged {d e : Draft} {ds : List Draft} (h : Compatible ds) (he : e ∈ ds)
    {k : Key} (hk : e.ancestor = some k) {key : Key}
    (below : ∀ j, (merged d ds).ancestor = some j → j.isAncestorOf key = true) :
    k.isAncestorOf key = true := by
  obtain ⟨j, hj⟩ := ancestor_merged d he hk
  obtain ⟨f, hf, hfj⟩ := mem_of_ancestor_merged hj
  rw [← Key.isAncestorOf_congr_left (h.one_ancestor f hf e he j k hfj hk)]
  exact below j hj

theorem compatible_of_pairwise {ds : List Draft} (h : ds.Pairwise Joinable) : Compatible ds := by
  have : Std.Symm Joinable := ⟨fun _ _ => joinable_comm⟩
  refine ⟨one_lookup_of_pairwise h, fun d hd hl e he hn => ?_, fun d hd e he j k hj hk => ?_⟩
  · have hne : d ≠ e := by
      rintro rfl
      simp [hl] at hn
    have hb := (h.forall hd he hne).of_left hl
    exact ⟨hb.conditions, hb.ancestor⟩
  · by_cases hne : d = e
    · subst hne
      rw [hj] at hk
      cases hk
      exact Key.same_self j
    · exact (h.forall hd he hne).ancestors j k hj hk

theorem pairwise_of_compatible {ds : List Draft} (hs : ∀ e ∈ ds, e.arrangement = [])
    (h : Compatible ds) : ds.Pairwise Joinable := by
  induction ds with
  | nil => exact .nil
  | cons d rest ih =>
    have hrest : Compatible rest :=
      ⟨Nat.le_trans (by simp [List.countP_cons]) h.one_lookup,
        fun e he hl f hf hn => h.lookup_alone e (.tail _ he) hl f (.tail _ hf) hn,
        fun e he f hf => h.one_ancestor e (.tail _ he) f (.tail _ hf)⟩
    refine List.pairwise_cons.mpr ⟨fun e he => ?_, ih (fun f hf => hs f (.tail _ hf)) hrest⟩
    -- two look-ups would be counted twice
    have once (hd : d.isLookup = true) (hl : e.isLookup = true) : False := by
      have hp : 0 < rest.countP (·.isLookup) := List.countP_pos_iff.mpr ⟨e, he, hl⟩
      have hc := h.one_lookup
      rw [List.countP_cons, if_pos hd] at hc
      omega
    have blank {x y : Draft} (hx : x ∈ d :: rest) (hy : y ∈ d :: rest) (hl : x.isLookup = true)
        (hn : y.isLookup = false) : y.IsBlank := by
      obtain ⟨hc, ha⟩ := h.lookup_alone x hx hl y hy hn
      exact ⟨hc, hs y hy, ha, by simpa [isLookup] using hn⟩
    refine ⟨fun hd => ?_, fun hl => ?_, fun j k => h.one_ancestor d (.head _) e (.tail _ he) j k⟩
    · exact blank (.head _) (.tail _ he) hd (by simpa using once hd)
    · exact blank (.tail _ he) (.head _) hl (by simpa using fun hd => once hd hl)

theorem pairwise_join_iff (d e : Draft) (ds : List Draft) :
    d.Joinable e ∧ (d.join e :: ds).Pairwise Joinable ↔ (d :: e :: ds).Pairwise Joinable := by
  simp only [List.pairwise_cons, List.forall_mem_cons]
  constructor
  · rintro ⟨hj, hde, hds⟩
    exact ⟨⟨hj, fun f hf => ((joinable_join_left hj f).mp (hde f hf)).1⟩,
      fun f hf => ((joinable_join_left hj f).mp (hde f hf)).2, hds⟩
  · rintro ⟨⟨hj, hd⟩, he, hds⟩
    exact ⟨hj, fun f hf => (joinable_join_left hj f).mpr ⟨hd f hf, he f hf⟩, hds⟩

end Draft

namespace FilterSteps

theorem run_flatMap_eq_ok_iff {α : Type} (kind : Text) (query : Option Text) (f : α → FilterSteps)
    (xs : List α) (d d' : Draft) :
    run (xs.flatMap f) d = .ok d' ↔
      ∃ es, List.Forall₂ (fun x e => run (f x) (.start kind query) = .ok e) xs es ∧
        (d :: es).Pairwise Draft.Joinable ∧ d' = es.foldl Draft.join d := by
  induction xs generalizing d with
  | nil => simp [run_nil, eq_comm]
  | cons x rest ih =>
    rw [List.flatMap_cons, run_append, bind_eq_ok_iff]
    constructor
    · rintro ⟨d₁, hx, hr⟩
      obtain ⟨e, he, hj, rfl⟩ := (run_eq_ok_iff kind query (f x) d d₁).mp hx
      obtain ⟨es, hes, hp, rfl⟩ := (ih _).mp hr
      exact ⟨e :: es, .cons he hes, (Draft.pairwise_join_iff d e es).mp ⟨hj, hp⟩, rfl⟩
    · rintro ⟨_, hall, hp, rfl⟩
      obtain ⟨e, es, he, hes, rfl⟩ := List.forall₂_cons_left_iff.mp hall
      obtain ⟨hj, hp⟩ := (Draft.pairwise_join_iff d e es).mpr hp
      exact ⟨d.join e, (run_eq_ok_iff kind query (f x) d _).mpr ⟨e, he, hj, rfl⟩,
        (ih _).mpr ⟨es, hes, hp, rfl⟩⟩

theorem run_frame {steps : FilterSteps} {d d' : Draft} (h : run steps d = .ok d') :
    d'.kind = d.kind ∧ d'.arrangement = d.arrangement := by
  induction steps generalizing d with
  | nil =>
    cases h
    exact ⟨rfl, rfl⟩
  | cons step rest ih =>
    obtain ⟨d₁, hs, hr⟩ := (bind_eq_ok_iff _ _ _).mp h
    obtain ⟨s, rfl, hs⟩ := (bind_eq_ok_iff _ _ _).mp hs
    obtain ⟨hk, ha⟩ := ih hr
    rw [hk, ha]
    cases s with
    | condition c =>
      obtain ⟨-, rfl⟩ := (FilterStep.apply_condition d d₁ c).mp hs
      exact ⟨rfl, rfl⟩
    | ancestor k =>
      obtain ⟨-, -, rfl⟩ := (FilterStep.apply_ancestor d d₁ k).mp hs
      exact ⟨rfl, rfl⟩
    | lookup comparator keys =>
      obtain ⟨-, -, ks, -, rfl⟩ := (FilterStep.apply_lookup d d₁ comparator keys).mp hs
      exact ⟨rfl, rfl⟩

end FilterSteps

namespace Candidate

theorem compileOrdering_frame {c : Candidate} {draft ordered : Draft}
    (h : c.compileOrdering draft = .ok ordered) :
    ordered.kind = draft.kind ∧ ordered.conditions = draft.conditions ∧
      ordered.keys = draft.keys := by
  rw [compileOrdering] at h
  generalize c.statement.ordering = terms at h
  induction terms generalizing draft with
  | nil =>
    cases h
    exact ⟨rfl, rfl, rfl⟩
  | cons term rest ih =>
    obtain ⟨next, sorted, h⟩ := (bind_eq_ok_iff _ _ _).mp h
    obtain ⟨clause, -, sorted⟩ := (bind_eq_ok_iff _ _ _).mp sorted
    obtain ⟨-, rfl⟩ := (Draft.addSort_eq_ok_iff _ _ _).mp sorted
    have kept := ih h
    exact kept

/-- Queries that filters and result clauses cannot tell apart. -/
structure Alike (c c' : Candidate) : Prop where
  mapping : c.mapping = c'.mapping
  text : c.statement.text = c'.statement.text
  aliasName : c.statement.aliasName = c'.statement.aliasName

theorem comparisonStep_alike {c c' : Candidate} (h : Alike c c') (b : Bindings) :
    comparisonStep c b = comparisonStep c' b := by
  obtain ⟨⟨_, _, _, _, _, _, _, _, _, _, _⟩, _⟩ := c
  obtain ⟨⟨_, _, _, _, _, _, _, _, _, _, _⟩, _⟩ := c'
  obtain ⟨rfl, rfl, rfl⟩ := h
  rfl

theorem callSteps_alike {c c' : Candidate} (h : Alike c c') (b : Bindings) :
    callSteps c b = callSteps c' b := by
  obtain ⟨⟨_, _, _, _, _, _, _, _, _, _, _⟩, _⟩ := c
  obtain ⟨⟨_, _, _, _, _, _, _, _, _, _, _⟩, _⟩ := c'
  obtain ⟨rfl, rfl, rfl⟩ := h
  rfl

theorem steps_compare (c : Candidate) (b : Bindings) (op : Operator) (l r : Expr) :
    steps c b (.compare op l r) =
      if op = .or then [c.unsupported .disjunction]
      else
        match Operator.native (some op) c.query with
        | .error f => [.error f]
        | .ok _ =>
          match l with
          | .field path => [comparisonStep c b path op r]
          | l => steps c b l ++ steps c b r :=
  steps.eq_def c b (.compare op l r)

theorem steps_alike {c c' : Candidate} (h : Alike c c') (b : Bindings) (x : Expr) :
    steps c b x = steps c' b x := by
  have hq : c.query = c'.query := h.text
  fun_induction steps c b x <;>
    simp_all [steps, steps_compare, comparisonStep_alike h, callSteps_alike h, unsupported]

theorem compileFilter_alike {c c' : Candidate} (h : Alike c c')
    (filter : c.statement.filter = c'.statement.filter) (b : Bindings) (d : Draft) :
    c.compileFilter b d = c'.compileFilter b d := by
  rw [compileFilter, compileFilter, steps_alike h, filter]

theorem compileOrdering_alike {c c' : Candidate} (h : Alike c c')
    (ordering : c.statement.ordering = c'.statement.ordering) (d : Draft) :
    c.compileOrdering d = c'.compileOrdering d := by
  obtain ⟨⟨_, _, _, _, _, _, _, _, _, _, _⟩, _⟩ := c
  obtain ⟨⟨_, _, _, _, _, _, _, _, _, _, _⟩, _⟩ := c'
  obtain ⟨rfl, rfl, rfl⟩ := h
  obtain rfl := ordering
  rfl

theorem compile_alike {c c' : Candidate} (h : Alike c c')
    (filter : c.statement.filter = c'.statement.filter)
    (ordering : c.statement.ordering = c'.statement.ordering) (b : Bindings)
    {plan plan' : ResultPlan}
    (keysOnly : (plan.form = .keysOnly || c.statement.isDelete) =
      (plan'.form = .keysOnly || c'.statement.isDelete)) :
    c.compile b plan = c'.compile b plan' := by
  have started : c.start = c'.start := by
    rw [start, start, h.mapping, query, query, h.text]
  simp only [compile, started, compileFilter_alike h filter, compileOrdering_alike h ordering,
    keysOnly]

theorem readResults_alike {c c' : Candidate} (h : Alike c c') (form : Option ResultForm)
    (projection : List (List Text × Member)) (results : List Expr) :
    c.readResults form projection results = c'.readResults form projection results := by
  obtain ⟨⟨_, _, _, _, _, _, _, _, _, _, _⟩, _⟩ := c
  obtain ⟨⟨_, _, _, _, _, _, _, _, _, _, _⟩, _⟩ := c'
  obtain ⟨rfl, rfl, rfl⟩ := h
  induction results generalizing form projection with
  | nil => rfl
  | cons x rest ih =>
    cases x with
    | call name receiver args => simp only [readResults, ih]; rfl
    | field path => simp only [readResults, ih]; rfl
    | _ => rfl

theorem steps_compare_split (c : Candidate) (b : Bindings) {op : Operator} {l : Expr} (r : Expr)
    (ho : op.comparator?.isSome = true) (hl : l.isField = false) :
    steps c b (.compare op l r) = steps c b l ++ steps c b r := by
  obtain ⟨comparator, hop⟩ := Option.isSome_iff_exists.mp ho
  have hne : op ≠ .or := by
    rintro rfl
    cases hop
  have hn : Operator.native (some op) c.query = .ok comparator := by
    simp [Operator.native, hop]
  rw [steps_compare, if_neg hne, hn]
  cases l with
  | field path => cases hl
  | _ => rfl

theorem steps_eq_flatMap_leaves (c : Candidate) (b : Bindings) (x : Expr) :
    steps c b x = x.leaves.flatMap (steps c b) := by
  fun_induction Expr.leaves x with
  | case1 => rfl
  | case2 => rfl
  | case3 l r ihl ihr => rw [steps, ihl, ihr, List.flatMap_append]
  | case4 op l r h ihl ihr =>
    simp only [Bool.and_eq_true, Bool.not_eq_true'] at h
    rw [steps_compare_split c b r h.1 h.2, ihl, ihr, List.flatMap_append]
  | case5 => simp
  | case6 => simp

def withFilter (c : Candidate) (x : Expr) : Candidate :=
  { c with statement := { c.statement with filter := x } }

theorem logged_eq_ok_iff (d d' : Draft) :
    d.logged = .ok d' ↔ d = d' ∧ ∀ k, d.ancestor = some k → k.IsShort := by
  have short : (∀ k, d.ancestor = some k → k.IsShort) ↔
      ∃ t, d.ancestor.mapM Key.pathText = .ok t := by
    simp only [← Key.pathText_isOk_iff]
    exact optionMapM_isOk_iff.symm
  simp [short, Draft.logged, bind_eq_ok_iff, pure, Except.pure, and_comm]

theorem compileFilter_eq_ok_iff_run (c : Candidate) (b : Bindings) (d d' : Draft) :
    c.compileFilter b d = .ok d' ↔
      (steps c b c.statement.filter).run d = .ok d' ∧ ∀ k, d'.ancestor = some k → k.IsShort := by
  rw [compileFilter, bind_eq_ok_iff]
  constructor
  · rintro ⟨_, hrun, h⟩
    obtain ⟨rfl, short⟩ := (logged_eq_ok_iff _ _).mp h
    exact ⟨hrun, short⟩
  · exact fun ⟨hrun, short⟩ => ⟨d', hrun, (logged_eq_ok_iff _ _).mpr ⟨rfl, short⟩⟩

theorem compileFilter_withFilter (c : Candidate) (b : Bindings) (x : Expr) (d d' : Draft) :
    (c.withFilter x).compileFilter b d = .ok d' ↔
      (steps c b x).run d = .ok d' ∧ ∀ k, d'.ancestor = some k → k.IsShort := by
  have h : Alike (c.withFilter x) c := ⟨rfl, rfl, rfl⟩
  rw [← steps_alike h]
  exact compileFilter_eq_ok_iff_run (c.withFilter x) b d d'

theorem compileFilter_frame {c : Candidate} {b : Bindings} {d : Draft}
    (h : c.compileFilter b c.start = .ok d) : d.kind = c.mapping.kind ∧ d.arrangement = [] :=
  FilterSteps.run_frame ((compileFilter_eq_ok_iff_run c b _ _).mp h).1

/-- A filter compiles to what the drafts of its leaves merge to. -/
theorem compileFilter_eq_ok_iff (c : Candidate) (b : Bindings) (x : Expr) (d : Draft) :
    (c.withFilter x).compileFilter b c.start = .ok d ↔
      ∃ ds, List.Forall₂ (fun leaf e => (c.withFilter leaf).compileFilter b c.start = .ok e)
          x.leaves ds ∧ Draft.Compatible ds ∧ d = Draft.merged c.start ds := by
  have blank : c.start.IsBlank := Draft.start_isBlank _ _
  simp only [compileFilter_withFilter, forall₂_and_right_iff]
  rw [steps_eq_flatMap_leaves, FilterSteps.run_flatMap_eq_ok_iff c.mapping.kind c.query]
  have arranged {ds : List Draft} (hall : List.Forall₂
      (fun leaf e => (steps c b leaf).run c.start = .ok e) x.leaves ds) :
      ∀ e ∈ ds, e.arrangement = [] :=
    forall_right_of_forall₂ (P := (·.arrangement = []))
      (fun leaf e h => (FilterSteps.run_frame h).2) hall
  have joined {ds : List Draft} (arranged : ∀ e ∈ ds, e.arrangement = []) :
      ds.foldl Draft.join c.start = Draft.merged c.start ds :=
    Draft.foldl_join_start ds c.mapping.kind c.query arranged
  constructor
  · rintro ⟨⟨ds, hall, hp, rfl⟩, short⟩
    rw [joined (arranged hall)] at short ⊢
    have hc := Draft.compatible_of_pairwise (List.pairwise_cons.mp hp).2
    refine ⟨ds, ⟨hall, fun e he k hk => ?_⟩, hc, rfl⟩
    -- the ancestor that is kept is the same as each of the others
    obtain ⟨j, hj⟩ := Draft.ancestor_merged c.start he hk
    obtain ⟨f, hf, hfj⟩ := Draft.mem_of_ancestor_merged hj
    exact (Key.isShort_congr (hc.one_ancestor f hf e he j k hfj hk)).mp (short j hj)
  · rintro ⟨ds, ⟨hall, short⟩, hc, rfl⟩
    refine ⟨⟨ds, hall, ?_, (joined (arranged hall)).symm⟩, fun k hk => ?_⟩
    · exact List.pairwise_cons.mpr ⟨fun e _ => Draft.joinable_of_isBlank e blank,
        Draft.pairwise_of_compatible (arranged hall) hc⟩
    · obtain ⟨e, he, hek⟩ := Draft.mem_of_ancestor_merged hk
      exact short e he k hek

theorem firstFault_flatMap_eq_none {α β : Type} {fault? : β → Option Fault} {isLast : β → Bool}
    {f : α → List β} {xs : List α} (h : ∀ x ∈ xs, firstFault fault? isLast (f x) = none) :
    firstFault fault? isLast (xs.flatMap f) = none := by
  have append {ys zs : List β} (hy : firstFault fault? isLast ys = none)
      (hz : firstFault fault? isLast zs = none) : firstFault fault? isLast (ys ++ zs) = none := by
    induction ys with
    | nil => exact hz
    | cons y rest ih =>
      obtain ⟨first, others⟩ := Option.or_eq_none_iff.mp hy
      rw [List.cons_append, firstFault, first]
      split at others
      · rw [if_pos ‹_›]
        rfl
      · rw [if_neg ‹_›, ih others]
        rfl
  induction xs with
  | nil => rfl
  | cons x rest ih =>
    obtain ⟨first, others⟩ := List.forall_mem_cons.mp h
    rw [List.flatMap_cons]
    exact append first (ih others)

theorem merged_finds_iff (c : Candidate) (ds : List Draft)
    (hd : ∀ e ∈ ds, e.kind = c.mapping.kind ∧ e.arrangement = [])
    (hc : Draft.Compatible ds) (hl : ∀ e ∈ ds, e.isLookup = false)
    (shown : Value → Except Fault Text) (s : Store) (r : Record) :
    (Draft.merged c.start ds).Finds shown s r ↔
      (r ∈ s.records ∧ r.kind = c.mapping.kind) ∧ ∀ e ∈ ds, e.Finds shown s r := by
  rw [Draft.finds_iff (Draft.isLookup_merged c.start hl)]
  constructor
  · rintro ⟨hr, hk, ha, hcs, -⟩
    refine ⟨⟨hr, hk⟩, fun e he => (Draft.finds_iff (hl e he)).mpr ?_⟩
    obtain ⟨hek, hea⟩ := hd e he
    refine ⟨hr, hk.trans hek.symm, fun k hek => ?_, fun x hx => ?_, by simp [hea]⟩
    · exact Draft.isAncestorOf_of_merged hc he hek ha
    · exact hcs x (List.mem_flatMap.mpr ⟨e, he, hx⟩)
  · rintro ⟨⟨hr, hk⟩, hall⟩
    refine ⟨hr, hk, fun k hmk => ?_, fun x hx => ?_, by simp [Draft.merged]⟩
    · obtain ⟨e, he, hek⟩ := Draft.mem_of_ancestor_merged hmk
      exact ((Draft.finds_iff (hl e he)).mp (hall e he)).2.2.1 k hek
    · obtain ⟨e, he, hxe⟩ := List.mem_flatMap.mp hx
      exact ((Draft.finds_iff (hl e he)).mp (hall e he)).2.2.2.1 x hxe

theorem merged_canScan (c : Candidate) (ds : List Draft)
    (hd : ∀ e ∈ ds, e.kind = c.mapping.kind ∧ e.arrangement = []) (hc : Draft.Compatible ds)
    {shown : Value → Except Fault Text} {rs : List Record}
    (h : ∀ e ∈ ds, Store.CanScan shown e.asSelection .all rs) :
    Store.CanScan shown (Draft.merged c.start ds).asSelection .all rs := by
  have tried : rs.findSome? ((Draft.merged c.start ds).asSelection.trialProblem? shown) = none := by
    refine List.findSome?_eq_none_iff.mpr fun r hr => ?_
    rw [Selection.trialProblem?]
    split
    · rename_i covered
      refine firstFault_flatMap_eq_none fun e he => ?_
      have each := List.findSome?_eq_none_iff.mp (Option.or_eq_none_iff.mp (h e he).compared).1 r hr
      have covers : e.asSelection.covers r = true := by
        rw [Selection.covers_iff] at covered ⊢
        exact ⟨covered.1.trans (hd e he).1.symm, fun k hk =>
          Draft.isAncestorOf_of_merged (d := c.start) hc he hk covered.2⟩
      rwa [Selection.trialProblem?, if_pos covers] at each
    · rfl
  have sorted : (Draft.merged c.start ds).asSelection.problem? shown rs = none := by
    rw [Selection.problem?, tried]
    rfl
  refine ⟨sorted, (Store.note_eq_ok_iff _ _ _).mpr ⟨⟨fun x hx => ?_, fun k hk => ?_⟩,
    Window.canWrite_all⟩⟩
  · obtain ⟨e, he, hxe⟩ := List.mem_flatMap.mp hx
    exact ((Store.note_eq_ok_iff _ _ _).mp (h e he).noted).1.1 x hxe
  · obtain ⟨e, he, hek⟩ := Draft.mem_of_ancestor_merged (d := c.start) hk
    exact ((Store.note_eq_ok_iff _ _ _).mp (h e he).noted).1.2 k hek

/-- A filter compiles if its leaves do, each by itself, and are compatible. Its draft holds their
conditions in order, their ancestor and their keys, and it selects the records that every leaf
selects. That is what scans give out, where they are answered, and the scan of the filter is
answered if those of its leaves are. -/
theorem compileFilter_leaves (c : Candidate) (b : Bindings) (x : Expr) :
    (∀ d, (c.withFilter x).compileFilter b c.start = .ok d ↔
      ∃ ds, List.Forall₂ (fun leaf e => (c.withFilter leaf).compileFilter b c.start = .ok e)
          x.leaves ds ∧ Draft.Compatible ds ∧ d = Draft.merged c.start ds) ∧
      ∀ d ds, (c.withFilter x).compileFilter b c.start = .ok d →
        List.Forall₂ (fun leaf e => (c.withFilter leaf).compileFilter b c.start = .ok e)
          x.leaves ds →
        (∀ e ∈ ds, e.isLookup = false) →
        ∀ (shown : Value → Except Fault Text) (s : Store), s.IsUp .scan →
          (∀ r, d.Finds shown s r ↔
            (r ∈ s.records ∧ r.kind = c.mapping.kind) ∧ ∀ e ∈ ds, e.Finds shown s r) ∧
          (∀ e ∈ d :: ds, ∀ cursor, e.ScansTo shown s cursor →
            ∀ r, cursor.Gives r ↔ e.Finds shown s r) ∧
          ((∀ e ∈ ds, ∃ cursor, e.ScansTo shown s cursor) → ∃ cursor,
            d.ScansTo shown s cursor) := by
  refine ⟨c.compileFilter_eq_ok_iff b x, fun d ds hd hds hl shown s hs => ?_⟩
  obtain ⟨es, hes, hc, rfl⟩ := (c.compileFilter_eq_ok_iff b x d).mp hd
  have heq : es = ds := List.right_unique_forall₂' (fun _ _ _ h h' => by
    rw [h] at h'
    exact Except.ok.inj h') hes hds
  subst heq
  have frame : ∀ e ∈ es, e.kind = c.mapping.kind ∧ e.arrangement = [] :=
    forall_right_of_forall₂
      (fun leaf e h => (compileFilter_frame h : e.kind = (c.withFilter leaf).mapping.kind ∧ _)) hes
  have whole := Draft.isLookup_merged c.start hl
  refine ⟨merged_finds_iff c es frame hc hl shown s, fun e he _ => ?_, fun answered => ?_⟩
  · have selection : e.isLookup = false := by
      rcases List.mem_cons.mp he with rfl | he
      · exact whole
      · exact hl e he
    exact Draft.gives_iff_finds selection hs
  · refine ⟨_, (Draft.scansTo_iff whole hs).mpr ⟨merged_canScan c es frame hc fun e he => ?_, rfl⟩⟩
    obtain ⟨cursor, h⟩ := answered e he
    exact ((Draft.scansTo_iff (hl e he) hs).mp h).1

variable {c b}

theorem comparisonStep_property {path : List Text} {m : Member} (hm : c.member path = .ok m)
    (unrelated : m.traits.related = none) (unparented : m.traits.isParent = false)
    (secondary : m.traits.isPrimary = false) {op : Operator} {comparator : Comparator}
    (ho : op.comparator? = some comparator) (hne : op ≠ .notEqual) {right : Expr} {v w : Value}
    (value : operandValue c b right = .ok v) (converted : c.conditionValue m v = .ok w) :
    comparisonStep c b path op right = .ok (.condition ⟨m.property, comparator, w⟩) := by
  have native : Operator.native (some op) c.query = .ok comparator := by
    simp [Operator.native, ho]
  have operand : Operator.checkOperand (some op) v c.query = .ok () := by
    simp [Operator.checkOperand, hne]
  have step : memberStep c b m comparator v = .ok (.condition ⟨m.property, comparator, w⟩) := by
    simp only [memberStep, unrelated, unparented, secondary, converted, Bool.false_eq_true,
      if_false]
    rfl
  rw [comparisonStep, native, value, hm]
  show (Operator.checkOperand (some op) v c.query >>= fun _ => memberStep c b m comparator v) = _
  rw [operand]
  exact step

end Candidate
end RecordStore
