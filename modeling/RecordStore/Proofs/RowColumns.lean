import RecordStore.Proofs.FullRows
import RecordStore.Proofs.ProjectedPaths
import RecordStore.Proofs.ResultOrder

/-!
# Columns of rows

A row has a column for each member that the result clause leads to, in the order of the clause. The
alias has a column only where nothing but the alias is asked for, and then one: beside members it is
left out of the rows.
-/

set_option autoImplicit false

namespace RecordStore

open Attempt

theorem forall₂_comp {α β γ : Type} {R : α → β → Prop} {S : β → γ → Prop} {T : α → γ → Prop}
    (h : ∀ a b c, R a b → S b c → T a c) {xs : List α} {ys : List β} {zs : List γ}
    (first : List.Forall₂ R xs ys) (second : List.Forall₂ S ys zs) : List.Forall₂ T xs zs := by
  induction first generalizing zs with
  | nil =>
    cases second
    exact .nil
  | cons own _ ih =>
    cases second with
    | cons next others => exact .cons (h _ _ _ own next) (ih others)

namespace Workspace

variable {mapping : ClassMapping} {r : Record} {w u : Workspace} {v : Value}

theorem loadChosen_gives {ms : List Member} (distinct : ∀ m ∈ ms, m.IsDistinct)
    (loaded : (loadChosen r (ms.map some)).on w = (.ok v, u)) :
    ∃ xs, v = Value.packed xs ∧
      List.Forall₂ (fun m x => (r.chosenOrigin m).Gives r u.heap x) ms xs := by
  rw [loadChosen_on] at loaded
  rcases values : (chosenValues r (ms.map some)).on w with ⟨f | xs, t⟩
  · rw [values] at loaded
    cases loaded
  rw [values] at loaded
  cases loaded
  obtain ⟨ys, t', again, -, gives⟩ := makes_chosenValues (fun m hm =>
    makes_chosenValue_of_succeeds (distinct m hm) (succeeds_of_chosenValues values m hm)) w
  rw [values] at again
  cases again
  exact ⟨xs, rfl, gives _ fun _ _ _ => rfl⟩

theorem loadIdentity_get? (loaded : (loadIdentity mapping r).on w = (.ok v, u)) :
    u.identities.get? r.key = some v := by
  rw [loadIdentity, on_bind_of_ok (on_get w)] at loaded
  cases found : w.identities.object? r.key with
  | some x =>
    rw [found] at loaded
    cases loaded
    rw [IdentityMap.object?] at found
    split at found
    · cases found
    · exact found
  | none =>
    rw [found] at loaded
    obtain ⟨x, _, -, loaded⟩ := (on_bind_eq_ok_iff _ _ _ _ _).mp loaded
    obtain ⟨_, _, -, loaded⟩ := (on_bind_eq_ok_iff _ _ _ _ _).mp loaded
    obtain ⟨_, t, -, loaded⟩ := (on_bind_eq_ok_iff _ _ _ _ _).mp loaded
    cases loaded
    show (t.identities.put r.key v true).get? r.key = some v
    rw [IdentityMap.get?_put, if_pos (Key.same_self _)]

end Workspace

namespace Candidate

variable {c : Candidate} {paths : List (List Text)}

/-- The paths of a result clause that get a column. -/
def columns (c : Candidate) (paths : List (List Text)) : List (List Text) :=
  let members := paths.filter fun path => !c.isAlias path
  if members.isEmpty then paths.take 1 else members

/-- Whether a value is what a path of the result clause stands for in the row of a record: for the
alias the object of the record's key, and for others what comes of the origin of the member. -/
def IsColumn (c : Candidate) (r : Record) (w : Workspace) (path : List Text) (x : Value) : Prop :=
  if c.isAlias path then w.identities.get? r.key = some x
  else ∃ m, c.member path = .ok m ∧ (r.chosenOrigin m).Gives r w.heap x

theorem length_columns_iff (nonempty : paths ≠ []) :
    (c.columns paths).length = paths.length ↔
      paths.length = 1 ∨ ∀ path ∈ paths, c.isAlias path = false := by
  have positive : 0 < paths.length := List.length_pos_iff.mpr nonempty
  have whole : (paths.filter fun path => !c.isAlias path).length = paths.length ↔
      ∀ path ∈ paths, c.isAlias path = false := by
    rw [List.length_filter_eq_length_iff]
    simp
  rw [columns]
  cases members : paths.filter fun path => !c.isAlias path with
  | nil =>
    rw [members] at whole
    have aliased : ¬∀ path ∈ paths, c.isAlias path = false := fun h => by
      have empty := whole.mpr h
      rw [List.length_nil] at empty
      omega
    simp only [List.isEmpty_nil, if_true, List.length_take, aliased, or_false]
    omega
  | cons p ps =>
    have most := List.length_filter_le (fun path => !c.isAlias path) paths
    rw [members] at whole most
    simp only [List.isEmpty_cons, Bool.false_eq_true, if_false, whole]
    refine ⟨.inr, fun h => h.elim (fun one => whole.mp ?_) id⟩
    rw [List.length_cons] at most ⊢
    omega

theorem projected_field (path : List Text) :
    c.projected (.field path) =
      if c.isAlias path then none
      else (c.member path).toOption.map fun m => (c.statement.stripAlias path, m) := rfl

theorem isRow_field (path : List Text) :
    c.isRow (.field path) = true ↔
      c.isAlias path = true ∨ ∃ m, c.member path = .ok m := by
  rw [isRow, projected_field, Bool.or_eq_true]
  cases own : c.isAlias path with
  | true => simp [isAliasField, own]
  | false => cases c.member path <;> simp [isAliasField, own, Except.toOption]

theorem memberAt_of_member {path : List Text} {m : Member} (h : c.member path = .ok m) :
    c.mapping.memberAt (c.statement.stripAlias path) c.query = .ok (some m) := by
  obtain ⟨found, there, h⟩ := (bind_eq_ok_iff _ _ _).mp h
  cases found with
  | none => cases h
  | some p =>
    cases h
    exact there

theorem forall₂_projected (rows : ∀ path ∈ paths, c.isRow (.field path) = true) :
    List.Forall₂ (fun path m => c.isAlias path = false ∧ c.member path = .ok m)
      (paths.filter fun path => !c.isAlias path)
      (((paths.map Expr.field).filterMap c.projected).map (·.2)) := by
  induction paths with
  | nil => exact .nil
  | cons path rest ih =>
    obtain ⟨first, others⟩ := List.forall_mem_cons.mp rows
    have later := ih others
    rw [List.map_cons, List.filterMap_cons, projected_field]
    cases own : c.isAlias path with
    | true =>
      rw [List.filter_cons_of_neg (by simp [own]), if_pos rfl]
      exact later
    | false =>
      obtain ⟨m, found⟩ := ((isRow_field path).mp first).resolve_left (by simp [own])
      rw [List.filter_cons_of_pos (by simp [own]), if_neg (by simp), found]
      exact .cons ⟨own, found⟩ later

theorem plan_of_paths {plan : ResultPlan} (h : c.plan = .ok plan)
    (clause : c.statement.results = paths.map .field) :
    (∀ path ∈ paths, c.isRow (.field path) = true) ∧
      plan.projection = (paths.map Expr.field).filterMap c.projected ∧
      (paths ≠ [] → plan.projection = [] → plan.form = .keysOnly) := by
  have own : (c.arranged c.statement.results).plan = .ok plan := h
  rw [clause] at own
  obtain ⟨-, ⟨rows, rfl⟩ | ⟨counts, -⟩⟩ := (plan_arranged_eq_ok_iff _ _).mp own
  · refine ⟨fun path hp => rows _ (List.mem_map_of_mem hp), rfl, fun nonempty bare => ?_⟩
    have bare : (paths.map Expr.field).filterMap c.projected = [] := bare
    simp [rowForm, bare, nonempty]
  · obtain ⟨x, hx, call⟩ := counts.any
    obtain ⟨path, -, rfl⟩ := List.mem_map.mp hx
    cases call

end Candidate

namespace RowReader

variable {c : Candidate} {paths : List (List Text)} {reader : RowReader} {plan : ResultPlan}
    {w : Window}
  {settings : QuerySettings} {r : Record} {t u : Workspace} {v : Value}

theorem load_columns (distinct : c.mapping.IsDistinct) (planned : c.plan = .ok plan)
    (clause : c.statement.results = paths.map .field) (nonempty : paths ≠ [])
    (loaded : (((⟨c, plan, w⟩ : Execution).reader settings).load r).on t = (.ok v, u)) :
    ∃ xs, v = Value.packed xs ∧ List.Forall₂ (c.IsColumn r u) (c.columns paths) xs := by
  obtain ⟨rows, projection, keys⟩ := Candidate.plan_of_paths planned clause
  have members := Candidate.forall₂_projected rows
  rw [← projection] at members
  cases chosen : plan.projection with
  | nil =>
    have reader : (⟨c, plan, w⟩ : Execution).reader settings = ⟨c.mapping, .identity⟩ := by
      simp [Execution.reader, chosen, keys nonempty chosen]
    rw [reader] at loaded
    rw [chosen] at members
    have aliases := List.forall₂_nil_right_iff.mp members
    obtain ⟨path, rest, rfl⟩ := List.exists_cons_of_ne_nil nonempty
    have own : c.isAlias path = true := by
      simpa using List.filter_eq_nil_iff.mp aliases path (.head _)
    have only : c.columns (path :: rest) = [path] := by
      rw [Candidate.columns, aliases]
      rfl
    refine ⟨[v], rfl, ?_⟩
    rw [only, List.forall₂_cons, Candidate.IsColumn, if_pos own]
    exact ⟨Workspace.loadIdentity_get? loaded, .nil⟩
  | cons p ps =>
    have reader : (⟨c, plan, w⟩ : Execution).reader settings =
        ⟨c.mapping, .chosen (plan.projection.map (·.2))⟩ := by
      simp [Execution.reader, chosen]
    rw [reader] at loaded
    have each := forall_right_of_forall₂
      (fun _ _ found => distinct.memberAt (Candidate.memberAt_of_member found.2)) members
    obtain ⟨xs, rfl, gives⟩ := Workspace.loadChosen_gives each loaded
    have all : c.columns paths = paths.filter fun path => !c.isAlias path := by
      refine if_neg fun empty => ?_
      rw [List.isEmpty_iff.mp empty, chosen] at members
      cases members
    refine ⟨xs, rfl, ?_⟩
    rw [all]
    refine forall₂_comp (fun path m x found gives => ?_) members gives
    rw [Candidate.IsColumn, if_neg (Bool.eq_false_iff.mp found.1)]
    exact ⟨m, found.2, gives⟩

end RowReader

namespace Execution

theorem run_reader {e : Execution} {d after : Database} {native : NativeQuery}
    {rows : Rows Record Value} {reader : RowReader}
    (h : (e.run native).on d = (.ok (.rows rows reader), after)) :
    reader = e.reader d.settings.query := by
  obtain ⟨t, cursor, opened, -⟩ := run_rows h
  rw [openRows_on] at opened
  cases opened
  rfl

end Execution

namespace Database

variable {d after : Database} {s : Statement} {parameters : Parameters} {now : Moment}
    {c : Candidate}
  {plan : ResultPlan} {native : NativeQuery} {range : Range} {rows : Rows Record Value}
  {reader : RowReader} {paths : List (List Text)}

/-- A row that is made for a result clause of paths has a column for each member that the paths lead
to, in their order, and none for the alias, unless nothing else is asked for. So it has a column for
each path just if there is one path only or none of them is the alias. -/
theorem execute_columns (hc : s.CompilesTo d parameters now c plan native)
    (distinct : c.mapping.IsDistinct) (clause : s.results = paths.map .field)
    (nonempty : paths ≠ [])
    (hx : (execute s range parameters now).on d = (.ok (.rows rows reader), after)) :
    (∀ (before made : Rows Record Value) (t t' : Database),
      (Rows.pull reader.maker).on (before, t) = (.ok true, made, t') →
        ∃ item rest r xs, before.pending = item :: rest ∧ item.outcome = .ok r ∧
          made.ready = before.ready ++ [Value.packed xs] ∧
          List.Forall₂ (c.IsColumn r t'.workspace) (c.columns paths) xs) ∧
      ((c.columns paths).length = paths.length ↔
        paths.length = 1 ∨ ∀ path ∈ paths, c.isAlias path = false) := by
  refine ⟨fun before made t t' pulled => ?_, Candidate.length_columns_iff nonempty⟩
  obtain ⟨w, reads⟩ : ∃ w, reader = (⟨c, plan, w⟩ : Execution).reader d.settings.query := by
    rcases execute_eq_ok hc hx with ⟨-, -, number | nothing⟩ | ⟨w, -, ran⟩
    · cases number
    · cases nothing
    · exact ⟨w, Execution.run_reader (d := d.compiled native) ran⟩
  rcases Rows.pull_eq_ok pulled with ⟨-, item, rest, r, t₁, v, pending, received, load,
      rfl⟩ | ⟨none, -⟩
  · obtain ⟨_, _, -, received⟩ := (on_bind_eq_ok_iff _ _ _ _ _).mp received
    obtain ⟨outcome, -⟩ := (on_ofExcept_eq_ok_iff _ _ _ _).mp received
    change (onWorkspace (reader.load r)).on t₁ = _ at load
    obtain ⟨u, loaded, rfl⟩ := (on_zoom_eq_ok_iff _ _ _ _ _ _).mp load
    rw [reads] at loaded
    have results : c.statement.results = paths.map .field := by
      rw [hc.statement_eq, (s.withAlias_kind d.settings.query).2, clause]
    obtain ⟨xs, rfl, columns⟩ := RowReader.load_columns distinct hc.plan_eq results nonempty loaded
    exact ⟨item, rest, r, xs, pending, outcome, rfl, columns⟩
  · cases none

theorem authorList_isDistinct (mapping : ClassMapping)
    (h : authorList.registry.get? (.record "Author") = some mapping) : mapping.IsDistinct := by
  let field (name type : Text) (isPrimary : Bool) : NamedField :=
    ⟨name, type, none, none, none, isPrimary, false, false, false, false⟩
  let authors : NamedClass := ⟨"Author", none, true,
    [field "id" "int" true, field "name" "str" false]⟩
  have registered : ∃ s ms after, Schema.ofDeclarations [] [authors] = .ok s ∧
      s.membersOf (.record "Author") = .ok ms ∧
      Registry.empty.register (.record "Author") (s.shapeOf (.record "Author")) ms none =
        .ok (mapping, after) := by
    cases h
    exact ⟨_, _, _, rfl, rfl, rfl⟩
  obtain ⟨s, ms, after, declared, members, registered⟩ := registered
  exact Registry.register_isDistinct (Schema.ofDeclarations_isDistinct declared) members registered

def listNames : Statement :=
  { removeAuthors with kind := .select, results := [.field ["this"], .field ["name"]] }

/-- An author is asked for with the name, and the row is the name. -/
theorem execute_columns_name :
    let ids : Parameters := [(.name "ids", .collection .list [.integer 1])]
    ∃ rows reader after made t xs,
      (execute listNames ⟨none, none⟩ ids noon).on authorList = (.ok (.rows rows reader), after) ∧
      (Rows.pull reader.maker).on (rows, after) = (.ok true, made, t) ∧
      made.ready = [Value.packed xs] ∧ xs.length = 1 ∧ made.ready = [.text "Ann"] := by
  intro ids
  have compiled : listNames.CompilesTo authorList ids noon _ _
      (.lookup "Author" [some (.root "Author" (.number 1))]) := ⟨rfl, rfl, rfl⟩
  obtain ⟨rows, reader, after, ran, made, t, pulled, started, named⟩ : ∃ rows reader after,
      (execute listNames ⟨none, none⟩ ids noon).on authorList = (.ok (.rows rows reader), after) ∧
      ∃ made t, (Rows.pull reader.maker).on (rows, after) = (.ok true, made, t) ∧
        rows.ready = [] ∧ made.ready = [.text "Ann"] :=
    ⟨_, _, _, rfl, _, _, rfl, rfl, rfl⟩
  have clause : listNames.results = ([["this"], ["name"]] : List (List Text)).map .field := rfl
  obtain ⟨each, -⟩ := execute_columns compiled (authorList_isDistinct _ rfl) clause
    (List.cons_ne_nil _ _) ran
  obtain ⟨-, -, r, xs, -, -, ready, columns⟩ := each _ _ _ _ pulled
  rw [started] at ready
  exact ⟨rows, reader, after, made, t, xs, ran, pulled, ready, columns.length_eq.symm, named⟩

end Database

end RecordStore
