import RecordStore.Proofs.ParentKeys
import RecordStore.Proofs.WholeRows

/-!
# Queries by a parent

A filter makes the key of a parent of its primary key alone, and leaves out what lies above the
parent. An object is stored below the whole key. The query finds the object that was stored just
where the two agree.
-/

set_option autoImplicit false

namespace RecordStore

namespace Value

/-- The key that a filter makes of a primary key. -/
def bareKey? (kind : Text) : Value → Option Key
  | .key k => some k
  | .integer n => some (.root kind (.number n))
  | .text t =>
    match Key.ofToken t with
    | .ok k => some k
    | .error (.badKey _) => some (.root kind (.name t))
    | .error _ => none
  | _ => none

/-- The key that a filter asks for, which has to be one of the kind. -/
def queriedKey? (kind : Text) (v : Value) : Option Key :=
  (v.bareKey? kind).filter (·.kind = kind)

end Value

def Statement.referring (className : ClassName) (member parameter : Text)
    (aliasName text : Option Text) : Statement where
  candidate := some className
  filter := .compare .equal (.field [member]) (.parameter (some parameter) none)
  ordering := []
  results := []
  sources := []
  grouping := []
  having := .absent
  aliasName := aliasName
  kind := .select
  text := text
  extensions := []

def Statement.comparing (className : ClassName) (member : Text) (right : Expr)
    (aliasName text : Option Text) (extensions : List (Text × Setting)) : Statement where
  candidate := some className
  filter := .compare .equal (.field [member]) right
  ordering := []
  results := []
  sources := []
  grouping := []
  having := .absent
  aliasName := aliasName
  kind := .select
  text := text
  extensions := extensions

namespace Candidate

variable {c : Candidate} {b : Bindings} {r pk : Member} {above : ClassMapping} {j : ObjectId}
  {w : Value}

theorem refused (c : Candidate) {α : Type} (shown : Except Fault Text)
    (mistake : Text → Mistake) :
    ∃ f, (shown >>= fun t => c.invalid (mistake t) : Except Fault α) = .error f := by
  cases shown <;> exact ⟨_, rfl⟩

theorem keyOf_eq (c : Candidate) (b : Bindings) (hw : w ≠ .null) (kind : Text) :
    (∃ k, w.bareKey? kind = some k ∧ keyOf c b w kind = .ok (some k)) ∨
      w.bareKey? kind = none ∧ ∃ f, keyOf c b w kind = .error f := by
  cases w with
  | null => exact absurd rfl hw
  | key k => exact .inl ⟨k, rfl, rfl⟩
  | integer n => exact .inl ⟨_, rfl, rfl⟩
  | text t =>
    rw [Value.bareKey?, keyOf]
    rcases Key.ofToken t with f | k
    · cases f with
      | badKey problem => exact .inl ⟨_, rfl, rfl⟩
      | _ => exact .inr ⟨rfl, _, rfl⟩
    · exact .inl ⟨k, rfl, rfl⟩
  | _ => exact .inr ⟨rfl, c.refused _ _⟩

theorem relatedKey_eq (hp : above.primary? = some pk)
    (ha : b.heap.attribute? pk.name (.object j) = some w) (hw : w ≠ .null) :
    (∃ q, w.queriedKey? above.kind = some q ∧
      relatedKey c b r above (.object j) = .ok (some q)) ∨
      w.queriedKey? above.kind = none ∧ ∃ f, relatedKey c b r above (.object j) = .error f := by
  have identity : relatedIdentity c b above (.object j) = .ok w := by
    simp only [relatedIdentity, hp, Option.bind_some, ha]
  rcases keyOf_eq c b hw above.kind with ⟨k, hk, key⟩ | ⟨hk, f, fault⟩
  · by_cases hkind : k.kind = above.kind
    · have queried : w.queriedKey? above.kind = some k := by
        simp [Value.queriedKey?, hk, hkind]
      have found : relatedKey c b r above (.object j) = pure (some k) := by
        simp only [relatedKey, identity, bind, Except.bind, key, if_pos hkind]
      exact .inl ⟨k, queried, found⟩
    · have foreign : w.queriedKey? above.kind = none := by
        simp [Value.queriedKey?, hk, hkind]
      have refused : relatedKey c b r above (.object j) = c.invalid
          (.foreignKind (c.mapping.fullName ++ "." ++ r.name) above.kind k.kind) := by
        simp only [relatedKey, identity, bind, Except.bind, key, if_neg hkind]
      exact .inr ⟨foreign, _, refused⟩
  · have none_queried : w.queriedKey? above.kind = none := by
      rw [Value.queriedKey?, hk]
      rfl
    have failed : relatedKey c b r above (.object j) = .error f := by
      simp only [relatedKey, identity, bind, Except.bind, fault]
    exact .inr ⟨none_queried, f, failed⟩

theorem member_of_find? {name : Text} {m : Member}
    (found : Member.find? name c.mapping.members = some m) : c.member [name] = .ok m := by
  simp only [Candidate.member, Statement.stripAlias, ClassMapping.memberAt, found,
    ClassMapping.descend]
  rfl

theorem comparisonStep_related {className : ClassName} {parameter : Text}
    (hr : c.member [r.name] = .ok r) (hrel : r.traits.related = some className)
    (hprov : r.traits.providesParent = true) (habove : b.registry.get? className = some above)
    (hpar : b.parameters.get? (.name parameter) = some (.object j)) :
    comparisonStep c b [r.name] .equal (.parameter (some parameter) none) =
      relatedKey c b r above (.object j) >>= fun key =>
        match key with
        | none => c.invalid .nullParent
        | some k => c.ancestorStep .equal (some k) := by
  have value : operandValue c b (.parameter (some parameter) none) = .ok (.object j) := by
    simp only [operandValue, parameterValue, Option.bind_none, Option.bind_some, hpar]
  have step : memberStep c b r .equal (.object j) =
      relationStep c b r className .equal (.object j) := by
    rw [memberStep, hrel]
  rw [comparisonStep, value, hr]
  show memberStep c b r .equal (.object j) = _
  rw [step, relationStep, habove]
  apply bind_congr
  intro key
  exact if_pos hprov

variable {className : ClassName} {member parameter : Text} {aliasName text : Option Text}

section Comparing

variable {right : Expr} {extensions : List (Text × Setting)}

theorem compileFilter_comparing
    (hs : c.statement = .comparing className member right aliasName text extensions) (d : Draft) :
    c.compileFilter b d =
      (comparisonStep c b [member] .equal right >>= fun step => step.apply d) >>= Draft.logged := by
  have steps_eq : steps c b c.statement.filter = [comparisonStep c b [member] .equal right] := by
    rw [hs]
    exact steps_compare c b .equal _ _
  rw [compileFilter, steps_eq, FilterSteps.run_cons]
  exact congrArg (· >>= Draft.logged) (bind_pure _)

theorem plan_comparing
    (hs : c.statement = .comparing className member right aliasName text extensions) :
    c.plan = .ok ⟨.whole, []⟩ := by
  rw [plan, hs]
  rfl

theorem compile_comparing
    (hs : c.statement = .comparing className member right aliasName text extensions) :
    c.compile b ⟨.whole, []⟩ =
      ((comparisonStep c b [member] .equal right >>= fun step => step.apply c.start) >>=
        Draft.logged).map (·.freeze false) := by
  have ordered (d : Draft) : c.compileOrdering d = .ok d := by
    rw [compileOrdering, hs]
    rfl
  have kept : c.statement.isDelete = false := by
    rw [hs]
    rfl
  rw [compile, compileFilter_comparing hs, kept]
  cases (comparisonStep c b [member] .equal right >>= fun step => step.apply c.start) >>=
      Draft.logged with
  | error f => rfl
  | ok d =>
    show (c.compileOrdering d >>= fun ordered => _) = _
    rw [ordered]
    rfl

end Comparing

theorem compile_referring
    (hs : c.statement = .referring className member parameter aliasName text) {q : Key}
    {native : NativeQuery}
    (hq : comparisonStep c b [member] .equal (.parameter (some parameter) none) =
      .ok (.ancestor q)) :
    c.compile b ⟨.whole, []⟩ = .ok native ↔
      q.IsShort ∧ native = .selection ⟨c.mapping.kind, [], [], some q, false⟩ := by
  rw [compile_comparing hs, hq, ← Key.pathText_isOk_iff]
  show ({ c.start with ancestor := some q } : Draft).logged.map (·.freeze false) = _ ↔ _
  rw [Draft.logged, Option.mapM_some]
  cases q.pathText with
  | error f =>
    constructor
    · intro h
      cases h
    · rintro ⟨⟨t, h⟩, -⟩
      cases h
  | ok t => exact ⟨fun h => ⟨⟨t, rfl⟩, (Except.ok.inj h).symm⟩, fun h => congrArg _ h.2.symm⟩

theorem compile_referring_error
    (hs : c.statement = .referring className member parameter aliasName text) {f : Fault}
    (hf : comparisonStep c b [member] .equal (.parameter (some parameter) none) = .error f) :
    c.compile b ⟨.whole, []⟩ = .error f := by
  rw [compile_comparing hs, hf]
  rfl

theorem plan_referring
    (hs : c.statement = .referring className member parameter aliasName text) :
    c.plan = .ok ⟨.whole, []⟩ :=
  plan_comparing hs

end Candidate

namespace Statement

theorem withAlias_comparing (className : ClassName) (member : Text) (right : Expr)
    (aliasName text : Option Text) (extensions : List (Text × Setting))
    (settings : QuerySettings) :
    ∃ a, (comparing className member right aliasName text extensions).withAlias settings =
      comparing className member right a text extensions := by
  cases aliasName with
  | none => exact ⟨_, rfl⟩
  | some name =>
    by_cases hn : name.isEmpty = true
    · exact ⟨settings.aliasName?, by simp only [withAlias, comparing, if_pos hn]⟩
    · exact ⟨some name, by simp only [withAlias, comparing, if_neg hn]⟩

theorem withAlias_referring (className : ClassName) (member parameter : Text)
    (aliasName text : Option Text) (settings : QuerySettings) :
    ∃ a, (referring className member parameter aliasName text).withAlias settings =
      referring className member parameter a text :=
  withAlias_comparing className member (.parameter (some parameter) none) aliasName text [] settings

end Statement

namespace Database

variable {d after : Database} {i j : ObjectId} {mapping above : ClassMapping} {r pk : Member}
  {k : Key}

theorem RefersUp.comparison (h : d.RefersUp i j mapping above r) (hp : above.primary? = some pk)
    (hw : d.heap.valueUnder pk.name (.object j) ≠ .null) (done : after.HasPut d i k)
    {c : Candidate} (hc : c.mapping = mapping) {b : Bindings} {parameter : Text} {now : Moment}
    (hb : b = after.bindings [(.name parameter, .object j)] now) :
    (∃ q, (d.heap.valueUnder pk.name (.object j)).queriedKey? above.kind = some q ∧
      c.comparisonStep b [r.name] .equal (.parameter (some parameter) none) =
        .ok (.ancestor q)) ∨
      (d.heap.valueUnder pk.name (.object j)).queriedKey? above.kind = none ∧
        ∃ f, c.comparisonStep b [r.name] .equal (.parameter (some parameter) none) = .error f := by
  have unchanged : b.heap.attribute? pk.name (.object j) =
      d.heap.attribute? pk.name (.object j) := by
    have others := done.others j (h.ne hp hw)
    simp only [hb, bindings, Heap.attribute?, Heap.get?, others, h.above_record,
      Bool.false_eq_true, if_false]
  have present : b.heap.attribute? pk.name (.object j) =
      some (d.heap.valueUnder pk.name (.object j)) := by
    rw [unchanged]
    cases ha : d.heap.attribute? pk.name (.object j) with
    | none => exact absurd (by rw [Heap.valueUnder, ha]; rfl) hw
    | some x => rw [Heap.valueUnder, ha, Option.getD_some]
  have member : c.member [r.name] = .ok r := Candidate.member_of_find? (by rw [hc, h.found])
  have mapped : b.registry.get? (d.heap.classOf (.object j)) = some above := by
    rw [hb, ← h.get?_above, ← done.registry]
    rfl
  have bound : b.parameters.get? (.name parameter) = some (.object j) := by
    simp [hb, bindings, Parameters.get?]
  rw [Candidate.comparisonStep_related member h.related h.provides mapped bound]
  rcases Candidate.relatedKey_eq (c := c) (r := r) hp present hw with
      ⟨q, hq, found⟩ | ⟨hq, f, failed⟩
  · rw [found]
    exact .inl ⟨q, hq, rfl⟩
  · rw [failed]
    exact .inr ⟨hq, f, rfl⟩

/-- An object that refers to its parent is stored below the whole key of the parent. The query for
the objects with this parent gives it out just if the key that it makes of the parent's primary key
alone lies above it. -/
theorem referring_gives_iff (hd : d.Reachable) (hn : d.store.current = none)
    (hi : d.settings.query.ignoreCache.isTrue = false) (h : d.RefersUp i j mapping above r)
    (hp : above.primary? = some pk) (hw : d.heap.valueUnder pk.name (.object j) ≠ .null)
    (hput : (put (.object i)).on d = (.ok k, after)) (parameter : Text)
    (aliasName text : Option Text) (now : Moment) :
    (∃ parent n, k = .child parent mapping.kind (.number n) ∧
      d.heap.keyAt d.registry (d.heap.maxDepth d.registry) above (.object j) =
        .ok (.key parent)) ∧
    ((∃ result last,
        (execute (.referring (d.heap.classOf (.object i)) r.name parameter aliasName text)
          ⟨none, none⟩ [(.name parameter, .object j)] now).on after = (.ok result, last) ∧
        result.Gives last k (.object i)) ↔
      ∃ q, (d.heap.valueUnder pk.name (.object j)).queriedKey? above.kind = some q ∧
        q.isAncestorOf k = true) := by
  obtain ⟨below, done⟩ := h.put_below hp hw hn hput
  apply And.intro below
  have sound : after.Sound := hd.sound.of_put hput
  let s : Statement := .referring (d.heap.classOf (.object i)) r.name parameter aliasName text
  let c : Candidate := ⟨s.withAlias after.settings.query, mapping⟩
  have mapped : after.registry.get? (d.heap.classOf (.object i)) = some mapping := by
    rw [done.registry, h.get?_eq]
  have selects : s.kind ≠ .update := by
    simp [s, Statement.referring]
  have candidate : s.candidateIn after = .ok c :=
    (Statement.candidateIn_eq_ok_iff s after c).mpr ⟨selects, _, mapping, rfl, mapped, rfl⟩
  obtain ⟨a, statement⟩ : ∃ a, c.statement = .referring _ r.name parameter a text :=
    Statement.withAlias_referring _ _ _ _ _ after.settings.query
  -- the comparison asks for what lies below a key, or it cannot be compiled
  rcases h.comparison hp hw done (c := c) rfl
    (b := after.bindings [(.name parameter, .object j)] now) rfl with ⟨q, hq, step⟩ | ⟨hq, f, step⟩
  · have plan := Candidate.plan_referring statement
    have compiled (native : NativeQuery) :
        c.compile (after.bindings [(.name parameter, .object j)] now) ⟨.whole, []⟩ = .ok native ↔
          q.IsShort ∧ native = .selection ⟨mapping.kind, [], [], some q, false⟩ :=
      Candidate.compile_referring statement step
    have kept : c.statement.isDelete = false := by
      rw [statement]
      rfl
    have whole : c.statement.flag "ignore_cache" after.settings.query.ignoreCache = false := by
      rw [statement, done.settings]
      exact hi
    constructor
    · rintro ⟨result, last, hrun, hgives⟩
      obtain ⟨c', plan', native, ⟨hc', hp', hn'⟩, -⟩ := Statement.CompilesTo.of_execute hrun
      obtain rfl : c = c' := Except.ok.inj (candidate.symm.trans hc')
      obtain rfl := Except.ok.inj (plan.symm.trans hp')
      obtain ⟨short, rfl⟩ := (compiled native).mp hn'
      have gives := execute_gives_iff sound (done.current.trans hn) ⟨hc', hp', hn'⟩ rfl kept whole
        done.holds
      obtain ⟨-, x, -, selected, rfl⟩ := gives.mp ⟨result, last, hrun, hgives⟩
      exact ⟨q, hq, ((Selection.selects_iff _ _ x).mp selected).2.1 q rfl⟩
    · rintro ⟨q', hq', lies⟩
      obtain rfl : q = q' := Option.some.inj (hq.symm.trans hq')
      obtain ⟨x, hx, hxk⟩ := done.stored
      have kind : x.kind = mapping.kind := by
        obtain ⟨parent, n, hk, -⟩ := below
        rw [Record.kind, hxk, hk]
        rfl
      have selected : Selection.selects after.shown ⟨mapping.kind, [], [], some q, false⟩ x =
          true := by
        simp [Selection.selects_iff, kind, hxk, lies]
      have short : q.IsShort := Key.isShort_of_isAncestorOf lies done.short
      have scannable : Store.CanScan after.shown ⟨mapping.kind, [], [], some q, false⟩ .all
          after.store.records :=
        Store.canScan_of_comparable ⟨nofun, by simpa using short⟩ nofun nofun
      have gives := execute_gives_iff sound (done.current.trans hn)
        ⟨candidate, plan, (compiled _).mpr ⟨short, rfl⟩⟩ rfl kept whole done.holds
      exact gives.mpr ⟨scannable, x, hx, selected, hxk⟩
  · constructor
    · rintro ⟨result, last, hrun, -⟩
      obtain ⟨c', plan, native, ⟨hc', hp', compiled⟩, -⟩ := Statement.CompilesTo.of_execute hrun
      obtain rfl : c = c' := Except.ok.inj (candidate.symm.trans hc')
      obtain rfl := Except.ok.inj ((Candidate.plan_referring statement).symm.trans hp')
      rw [Candidate.compile_referring_error statement step] at compiled
      cases compiled
    · rintro ⟨q, hq', -⟩
      rw [hq] at hq'
      cases hq'

section Chapters

def bookShape : Shape := ⟨"Book", [("id", false), ("author_key", false)]⟩

def bookMembers : List Member :=
  [.plain ⟨"id", .integer, true, false, none, none, false, false⟩,
    .plain ⟨"author_key", .key, false, true, none, none, false, false⟩]

def chapterShape : Shape := ⟨"Chapter", [("key", false), ("book", false)]⟩

def bookMember : Member :=
  .plain ⟨"book", .record bookShape, false, false, none, some (.record "Book"), true, false⟩

def chapterMembers : List Member :=
  [.plain ⟨"key", .key, true, false, none, none, false, false⟩, bookMember]

def library : Database :=
  List.foldl DatabaseAction.step (start .default)
    [.register (.record "Book") bookShape bookMembers none,
      .register (.record "Chapter") chapterShape chapterMembers none,
      .arrange ⟨⟨[⟨bookShape,
            [("id", .integer 4), ("author_key", .key (.root "Author" (.number 1)))]⟩,
          ⟨chapterShape, [("key", .null), ("book", .object 0)]⟩]⟩, .empty⟩,
      .put (.object 0)]

theorem library_refersUp : library.RefersUp 1 0
    ⟨.record "Chapter", chapterShape, "Chapter", chapterMembers⟩
    ⟨.record "Book", bookShape, "Book", bookMembers⟩ bookMember where
  mapped := rfl
  above_mapped := rfl
  above_record := rfl
  found := rfl
  related := rfl
  provides := rfl
  only_provider x hx hr _ := by
    rcases List.mem_cons.mp hx with rfl | hx
    · cases hr
    · exact List.mem_singleton.mp hx
  refers := rfl
  unidentified x hx := by
    cases hx
    rfl
  unparented x hx := by cases hx

/-- The book is looked for without its author, so the chapter is not found. -/
theorem referring_gives_iff_chapter :
    ∃ k after, (put (.object 1)).on library = (.ok k, after) ∧
      ¬∃ result last, (execute (.referring (.record "Chapter") "book" "b" none none) ⟨none, none⟩
          [(.name "b", .object 0)] ⟨⟨2024, 1, 1⟩, 12, 0, 0, 0, false, none⟩).on after =
          (.ok result, last) ∧
        result.Gives last k (.object 1) := by
  have identified : library.heap.valueUnder "id" (.object 0) ≠ .null := by
    show Value.integer 4 ≠ .null
    simp
  have stored : (put (.object 1)).on library =
      (.ok (.child (.child (.root "Author" (.number 1)) "Book" (.number 4)) "Chapter"
        (.number 1)), _) := rfl
  obtain ⟨-, found⟩ := referring_gives_iff ⟨_, _, rfl⟩ rfl rfl library_refersUp rfl identified
    stored "b" none none ⟨⟨2024, 1, 1⟩, 12, 0, 0, 0, false, none⟩
  refine ⟨_, _, stored, ?_⟩
  intro h
  obtain ⟨q, hq, lies⟩ := found.mp h
  obtain rfl : .root "Book" (.number 4) = q := Option.some.inj hq
  revert lies
  decide

end Chapters

end Database
end RecordStore
