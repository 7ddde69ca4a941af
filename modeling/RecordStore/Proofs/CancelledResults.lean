import RecordStore.Proofs.ParallelReads
import RecordStore.Proofs.WiredDatabases

/-!
# Results that are cut off

A client of a database holds the results that its statements came to, and reads them in any order
while it flushes, connects and closes. A result is cut off by the first flush after it was opened
that is one of the database or of the scope that the result belongs to. From then on it is answered
from its ready rows, and nothing is read or made for it.
-/

set_option autoImplicit false

namespace RecordStore

open Attempt

def DatabaseAction.cuts : DatabaseAction → Bool
  | .flush | .connect | .close => true
  | _ => false

/-- A result that was opened, the walks along it, and the scope that it belongs to. -/
structure OpenResult where
  rows : Rows Record Value
  reader : RowReader
  walks : List Walk
  scope : Nat

namespace OpenResult

def session (o : OpenResult) (d : Database) : RowsSession Database Record Value :=
  ⟨o.rows, o.walks, d⟩

def IsCut (o : OpenResult) (d : Database) : Prop := o.rows.isCancelled o.reader.maker d = true

end OpenResult

structure Client where
  database : Database
  /-- The results in the order in which they were opened. -/
  results : List OpenResult

inductive ClientAction where
  | execute (s : Statement) (range : Range) (parameters : Parameters) (now : Moment)
  | read (result : Nat) (read : RowsRead Value)
  /-- Flushes a scope, be it the current one or not. -/
  | flush (scope : Nat)
  | close (scope : Nat)
  /-- Anything else that is asked of the database. The rows that it comes to are not read. -/
  | database (a : DatabaseAction)

def ClientAction.cuts (scope : Nat) : ClientAction → Bool
  | .flush i | .close i => scope = i
  | .database a => a.cuts
  | _ => false

namespace Client

def start (settings : Settings) : Client := ⟨Database.start settings, []⟩

def read (c : Client) (j : Nat) (r : RowsRead Value) :
    Option (Except Fault (RowsReply Value)) × Client :=
  match c.results[j]? with
  | none => (none, c)
  | some o =>
    let (outcome, q) := (r.perform o.reader.maker).on (o.session c.database)
    (some outcome, ⟨q.world, c.results.set j { o with rows := q.rows, walks := q.walks }⟩)

def keep (c : Client) (d : Database) : Except Fault Result → Client
  | .ok (.rows given reader) => ⟨d, c.results ++ [⟨given, reader, [], c.database.scope⟩]⟩
  | _ => ⟨d, c.results⟩

def onConnections (c : Client) (f : Connections → Connections) : Client :=
  { c with database := { c.database with connections := f c.database.connections } }

def step (c : Client) : ClientAction → Client
  | .execute s range parameters now =>
    let (outcome, d) := (Database.execute s range parameters now).on c.database
    c.keep d outcome
  | .read j r => (c.read j r).2
  | .flush i => c.onConnections (·.flush i)
  | .close i => c.onConnections (·.close i)
  | .database a => ⟨a.step c.database, c.results⟩

end Client

namespace Database

variable {d d' : Database} {cut cut' : Nat → Prop}

/-- What becomes of the connections of a database where the tokens of some scopes are cancelled. The
current scope is a new one only if the tokens of the last one are. -/
structure Rewired (cut : Nat → Prop) (d d' : Database) : Prop where
  becomes : d.connections.Becomes cut d'.connections
  scope : d'.scope = d.scope ∨ cut d.scope
  current : d.scope < d.connections.scopes.length → d'.scope < d'.connections.scopes.length

theorem Rewired.of_scope (becomes : d.connections.Becomes cut d'.connections)
    (same : d'.scope = d.scope) : d.Rewired cut d' where
  becomes := becomes
  scope := .inl same
  current there := same ▸ there.trans_le becomes.scopes

theorem Rewired.of_iff (h : d.Rewired cut d') (same : ∀ i, cut i ↔ cut' i) : d.Rewired cut' d' := by
  obtain rfl : cut = cut' := funext fun i => propext (same i)
  exact h

theorem Rewired.of_wired (h : d'.Wired d.connections d.scope) : d.Rewired (fun _ => False) d' :=
  .of_scope (h.connections ▸ .refl _) h.scope

theorem Rewired.of_openedIn (there : d.scope < d.connections.scopes.length)
    {outcome : Except Fault Result} (h : Result.OpenedIn d.connections d.scope outcome d') :
    d.Rewired (fun _ => False) d' := by
  rcases outcome with f | ⟨n⟩ | _ | ⟨given, reader⟩
  · exact .of_wired h
  · exact .of_wired h
  · exact .of_wired h
  · obtain ⟨-, opened⟩ := h
    exact .of_scope (opened.connections ▸ Connections.becomes_issue there) opened.scope

theorem rewired_step (there : d.scope < d.connections.scopes.length) (a : DatabaseAction) :
    d.Rewired (fun i => a.cuts = true ∧ i = d.scope) (a.step d) := by
  have wired (kept : Keeps (Wired d.connections d.scope) a.perform) (spares : a.cuts = false) :
      d.Rewired (fun i => a.cuts = true ∧ i = d.scope) (a.step d) :=
    (Rewired.of_wired (kept.after d ⟨rfl, rfl⟩)).of_iff fun i => by simp [spares]
  cases a with
  | register className shape members kind =>
    exact wired (keeps_bind (keeps_wired_register _ _ _ _) fun _ => keeps_pure _) rfl
  | put v => exact wired (keeps_bind (keeps_wired_put v) fun _ => keeps_pure _) rfl
  | find className id => exact wired (keeps_bind (keeps_wired_find _ _) fun _ => keeps_pure _) rfl
  | execute s range parameters now =>
    have ends := (ends_execute s range parameters now).after d ⟨rfl, rfl⟩
    have stepped : (DatabaseAction.execute s range parameters now).step d =
        ((execute s range parameters now).on d).2 := by
      rw [DatabaseAction.step, DatabaseAction.perform, on_bind]
      rcases (execute s range parameters now).on d with ⟨f | result, d'⟩ <;> rfl
    rw [stepped]
    exact (Rewired.of_openedIn there ends).of_iff fun i => by simp [DatabaseAction.cuts]
  | pull reader rows =>
    exact wired (keeps_bind (keeps_zoom (keeps_wired_pull reader) (fun _ h => h) fun _ _ _ h => h)
      fun _ => keeps_pure _) rfl
  | arrange w => exact wired (keeps_modify fun _ h => ⟨h.connections, h.scope⟩) rfl
  | store a => exact wired (keeps_wired_onStore _) rfl
  | settle number work => exact wired (keeps_wired_settle number work) rfl
  | flush =>
    have flushed := d.connections.becomes_flush d.scope
    have rewired : d.Rewired (· = d.scope) (DatabaseAction.flush.step d) := .of_scope flushed rfl
    exact rewired.of_iff fun i => by simp [DatabaseAction.cuts]
  | connect =>
    have opened := (d.connections.becomes_flush d.scope).trans (Connections.becomes_openScope _)
    have rewired : d.Rewired (fun i => i = d.scope ∨ False) (DatabaseAction.connect.step d) :=
      ⟨opened, .inr (.inl rfl), fun _ => by
        show (d.connections.flush d.scope).scopes.length < (_ ++ [_]).length
        simp⟩
    exact rewired.of_iff fun i => by simp [DatabaseAction.cuts]
  | close =>
    have closed := d.connections.becomes_close d.scope
    have rewired : d.Rewired (· = d.scope) (DatabaseAction.close.step d) := .of_scope closed rfl
    exact rewired.of_iff fun i => by simp [DatabaseAction.cuts]

def Moved (c : Connections) (i : Nat) (c' : Connections) (d d' : Database) : Prop :=
  d.Wired c i ∧ d' = { d with connections := c' }

end Database

theorem RowReader.maker_parallel (reader : RowReader) {token : Option Nat} {c c' : Connections}
    {i : Nat} (same : ∀ k ∈ token, c'.isCancelled k = c.isCancelled k) :
    reader.maker.Parallel token (Database.Moved c i c') where
  reads n := by
    constructor
    rintro d _ ⟨⟨rfl, rfl⟩, rfl⟩
    exact ⟨rfl, ⟨⟨rfl, rfl⟩, rfl⟩, fun _ _ => trivial⟩
  makes r := by
    constructor
    rintro d _ ⟨⟨rfl, rfl⟩, rfl⟩
    exact ⟨rfl, ⟨⟨rfl, rfl⟩, rfl⟩, fun _ _ => trivial⟩
  cancelled := by
    rintro d _ ⟨⟨rfl, rfl⟩, rfl⟩ k hk
    exact same k hk
  same := by
    rintro d _ ⟨-, rfl⟩
    rfl

namespace OpenResult

variable {o : OpenResult} {d d' : Database} {cut : Nat → Prop}

/-- Whether a result has a token of its scope, which is valid only if the scope is the current
one. -/
def Belongs (o : OpenResult) (d : Database) : Prop :=
  ∃ t, o.rows.token = some t ∧ d.connections.Gave o.scope t ∧
    (d.connections.isCancelled t = false → o.scope = d.scope)

theorem isCut_iff {t : Nat} (token : o.rows.token = some t) :
    o.IsCut d ↔ d.connections.isCancelled t = true := by
  rw [IsCut, Rows.isCancelled, token]
  rfl

theorem isCut_congr (same : d'.connections = d.connections) : o.IsCut d' ↔ o.IsCut d := by
  cases token : o.rows.token with
  | none => simp [IsCut, Rows.isCancelled, token]
  | some t => rw [isCut_iff token, isCut_iff token, same]

theorem Belongs.of_token (h : o.Belongs d) (o' : OpenResult) (token : o'.rows.token = o.rows.token)
    (scope : o'.scope = o.scope) : o'.Belongs d ∧ (o'.IsCut d ↔ o.IsCut d) := by
  obtain ⟨t, own, gave, current⟩ := h
  refine ⟨⟨t, token.trans own, scope ▸ gave, scope ▸ current⟩, ?_⟩
  rw [isCut_iff own, isCut_iff (token.trans own)]

theorem Belongs.scope_eq (h : o.Belongs d) (valid : ¬o.IsCut d) : o.scope = d.scope := by
  obtain ⟨t, token, -, current⟩ := h
  rw [isCut_iff token] at valid
  exact current (Bool.eq_false_iff.mpr valid)

theorem Belongs.rewired (h : o.Belongs d) (rewired : d.Rewired cut d') :
    o.Belongs d' ∧ (o.IsCut d' ↔ o.IsCut d ∨ cut o.scope) := by
  have scope := h.scope_eq
  obtain ⟨t, token, gave, -⟩ := h
  obtain ⟨gave', becomes⟩ := rewired.becomes.gave o.scope t gave
  rw [← isCut_iff token, ← isCut_iff token] at becomes
  refine ⟨⟨t, token, gave', fun valid => ?_⟩, becomes⟩
  have valid : ¬o.IsCut d' := by
    rw [isCut_iff token, valid]
    exact Bool.false_ne_true
  rw [becomes, not_or] at valid
  rw [scope valid.1] at valid ⊢
  exact (rewired.scope.resolve_right valid.2).symm

theorem perform_moved (o : OpenResult) (d : Database) (r : RowsRead Value) {c : Connections}
    (same : ∀ k ∈ o.rows.token, c.isCancelled k = d.connections.isCancelled k) :
    let p := (r.perform o.reader.maker).on (o.session d)
    (r.perform o.reader.maker).on (o.session { d with connections := c }) =
        (p.1, { p.2 with world := { p.2.world with connections := c } }) ∧
      p.2.world.Wired d.connections d.scope ∧ p.2.rows.token = o.rows.token := by
  intro p
  have parallel := o.reader.maker_parallel (i := d.scope) same
  obtain ⟨outcome, ⟨rows, walks, own, wired, moved⟩, -⟩ :=
    (r.agrees_perform parallel).starting (o.session d) (o.session { d with connections := c })
      ⟨rfl, rfl, rfl, ⟨rfl, rfl⟩, rfl⟩
  refine ⟨Prod.ext outcome ?_, wired, own⟩
  generalize ((r.perform o.reader.maker).on (o.session { d with connections := c })).2 = q
    at rows walks moved
  obtain ⟨_, _, _⟩ := q
  cases rows
  cases walks
  cases moved
  rfl

/-- What has become of a result. -/
structure Continues (o : OpenResult) (d : Database) (cut : Prop) (o' : OpenResult) (d' : Database) :
    Prop where
  scope : o'.scope = o.scope
  belongs : o'.Belongs d'
  cut_iff : o'.IsCut d' ↔ o.IsCut d ∨ cut
  ready : o.IsCut d → o'.rows.ready = o.rows.ready

theorem Continues.of_iff {o' : OpenResult} {p q : Prop} (h : o.Continues d p o' d')
    (same : o.IsCut d ∨ p ↔ o.IsCut d ∨ q) : o.Continues d q o' d' :=
  ⟨h.scope, h.belongs, h.cut_iff.trans same, h.ready⟩

theorem Continues.trans {o' o'' : OpenResult} {d'' : Database} {p q : Prop}
    (h : o.Continues d p o' d') (h' : o'.Continues d' q o'' d'') :
    o.Continues d (p ∨ q) o'' d'' where
  scope := h'.scope.trans h.scope
  belongs := h'.belongs
  cut_iff := by rw [h'.cut_iff, h.cut_iff, or_assoc]
  ready cut := (h'.ready (h.cut_iff.mpr (.inl cut))).trans (h.ready cut)

end OpenResult

def ClientAction.cancels (current : Nat) : ClientAction → Nat → Prop
  | .flush i, scope | .close i, scope => scope = i
  | .database a, scope => a.cuts = true ∧ scope = current
  | _, _ => False

theorem ClientAction.cancels_current (a : ClientAction) (i : Nat) :
    a.cancels i i ↔ a.cuts i = true := by
  cases a <;> simp [cancels, cuts]

namespace Client

variable {c : Client} {j : Nat} {o : OpenResult}

theorem read_on (found : c.results[j]? = some o) (r : RowsRead Value) :
    let p := (r.perform o.reader.maker).on (o.session c.database)
    c.read j r =
      (some p.1, ⟨p.2.world, c.results.set j { o with rows := p.2.rows, walks := p.2.walks }⟩) := by
  rw [read, found]

/-- Whether every result belongs to a scope of the database. -/
structure Tended (c : Client) : Prop where
  known : c.database.connections.Known
  current : c.database.scope < c.database.connections.scopes.length
  belongs : ∀ o ∈ c.results, o.Belongs c.database

theorem keep_database (c : Client) (d : Database) (outcome : Except Fault Result) :
    (c.keep d outcome).database = d := by
  rcases outcome with f | ⟨n⟩ | _ | ⟨given, reader⟩ <;> rfl

theorem rewired_step (there : c.database.scope < c.database.connections.scopes.length)
    (a : ClientAction) :
    c.database.Rewired (a.cancels c.database.scope) (c.step a).database := by
  cases a with
  | execute s range parameters now =>
    have ends := (Database.ends_execute s range parameters now).after c.database ⟨rfl, rfl⟩
    rw [step, keep_database]
    exact .of_openedIn there ends
  | read j r =>
    cases found : c.results[j]? with
    | none =>
      rw [step, read, found]
      exact .of_wired ⟨rfl, rfl⟩
    | some o =>
      rw [step, read_on found]
      exact .of_wired (o.perform_moved c.database r fun _ _ => rfl).2.1
  | flush i => exact .of_scope (c.database.connections.becomes_flush i) rfl
  | close i => exact .of_scope (c.database.connections.becomes_close i) rfl
  | database a => exact Database.rewired_step there a

theorem step_other (found : c.results[j]? = some o) {a : ClientAction}
    (other : ∀ r, a ≠ .read j r) : (c.step a).results[j]? = some o := by
  cases a with
  | execute s range parameters now =>
    rw [step]
    rcases (Database.execute s range parameters now).on c.database with
      ⟨f | ⟨n⟩ | _ | ⟨given, reader⟩, d⟩
    · exact found
    · exact found
    · exact found
    · obtain ⟨there, -⟩ := List.getElem?_eq_some_iff.mp found
      exact (List.getElem?_append_left there).trans found
  | read k r =>
    have apart : k ≠ j := fun same => other r (same ▸ rfl)
    cases there : c.results[k]? with
    | none =>
      rw [step, read, there]
      exact found
    | some _ =>
      rw [step, read_on there]
      exact (List.getElem?_set_ne apart).trans found
  | flush i => exact found
  | close i => exact found
  | database a => exact found

theorem read_continues (h : c.Tended) (found : c.results[j]? = some o) (r : RowsRead Value) :
    ∃ o', (c.read j r).2.results[j]? = some o' ∧
      o.Continues c.database False o' (c.read j r).2.database := by
  have belongs := h.belongs o (List.mem_of_getElem? found)
  obtain ⟨there, -⟩ := List.getElem?_eq_some_iff.mp found
  obtain ⟨-, wired, token⟩ := o.perform_moved c.database r fun _ _ => rfl
  rw [read_on found]
  generalize ran : (r.perform o.reader.maker).on (o.session c.database) = p at wired token
  obtain ⟨outcome, q⟩ := p
  obtain ⟨belongs, still⟩ := belongs.rewired (.of_wired wired)
  obtain ⟨belongs, same⟩ := belongs.of_token { o with rows := q.rows, walks := q.walks } token rfl
  refine ⟨_, List.getElem?_set_self there, rfl, belongs, same.trans still, fun cut => ?_⟩
  obtain ⟨rows, quiet, -, ready⟩ := r.answersStill (q := o.session c.database) (.inr cut)
  rw [quiet] at ran
  cases ran
  exact ready

theorem step_continues (h : c.Tended) (found : c.results[j]? = some o) (a : ClientAction) :
    ∃ o', (c.step a).results[j]? = some o' ∧
      o.Continues c.database (a.cuts o.scope = true) o' (c.step a).database := by
  by_cases reads : ∃ r, a = .read j r
  · obtain ⟨r, rfl⟩ := reads
    obtain ⟨o', found, continues⟩ := read_continues h found r
    exact ⟨o', found, continues.of_iff (by simp [ClientAction.cuts])⟩
  · have belongs := h.belongs o (List.mem_of_getElem? found)
    obtain ⟨still, cut_iff⟩ := belongs.rewired (rewired_step h.current a)
    refine ⟨o, step_other found fun r same => reads ⟨r, same⟩, ?_⟩
    refine ⟨rfl, still, cut_iff.trans ?_, fun _ => rfl⟩
    by_cases cut : o.IsCut c.database
    · simp [cut]
    · rw [belongs.scope_eq cut, a.cancels_current]

theorem step_opens (h : c.Tended) {a : ClientAction} (new : c.results.length ≤ j)
    (opened : (c.step a).results[j]? = some o) :
    o.scope = c.database.scope ∧ o.Belongs (c.step a).database ∧ ¬o.IsCut (c.step a).database := by
  have none : c.results[j]? = none := List.getElem?_eq_none new
  cases a with
  | execute s range parameters now =>
    have ends := (Database.ends_execute s range parameters now).after c.database ⟨rfl, rfl⟩
    rw [step] at opened ⊢
    generalize (Database.execute s range parameters now).on c.database = p at ends opened ⊢
    obtain ⟨f | ⟨n⟩ | _ | ⟨given, reader⟩, d⟩ := p
    · simp [keep, none] at opened
    · simp [keep, none] at opened
    · simp [keep, none] at opened
    · obtain ⟨token, wired⟩ := ends
      have own : o = ⟨given, reader, [], c.database.scope⟩ := by
        change (c.results ++ [_])[j]? = some o at opened
        rw [List.getElem?_append_right new] at opened
        exact List.mem_singleton.mp (List.mem_of_getElem? opened)
      have gave := Connections.issue_gave h.known h.current
      have valid := c.database.connections.isCancelled_issue c.database.scope
      rw [← wired.connections] at gave valid
      subst own
      refine ⟨rfl, ⟨_, token, gave, fun _ => wired.scope.symm⟩, ?_⟩
      rw [OpenResult.isCut_iff token]
      exact Bool.eq_false_iff.mp valid
  | read k r =>
    rw [step] at opened
    cases there : c.results[k]? with
    | none => simp [read, there, none] at opened
    | some _ =>
      rw [read_on there, List.getElem?_eq_none (by simpa using new)] at opened
      cases opened
  | flush i => simp [none, step, onConnections] at opened
  | close i => simp [none, step, onConnections] at opened
  | database a => simp [none, step] at opened

theorem tended_step (h : c.Tended) (a : ClientAction) : (c.step a).Tended := by
  have rewired := rewired_step h.current a
  refine ⟨rewired.becomes.known h.known, rewired.current h.current, fun o ho => ?_⟩
  obtain ⟨j, opened⟩ := List.mem_iff_getElem?.mp ho
  by_cases old : j < c.results.length
  · obtain ⟨o', found, continues⟩ := step_continues h (List.getElem?_eq_getElem old) a
    obtain rfl := Option.some.inj (opened.symm.trans found)
    exact continues.belongs
  · exact (step_opens h (Nat.le_of_not_lt old) opened).2.1

theorem tended_run (h : c.Tended) (actions : List ClientAction) :
    (actions.foldl step c).Tended := by
  induction actions generalizing c with
  | nil => exact h
  | cons a rest ih => exact ih (tended_step h a)

theorem run_continues (h : c.Tended) (found : c.results[j]? = some o) (later : List ClientAction) :
    ∃ o', (later.foldl step c).results[j]? = some o' ∧
      o.Continues c.database (∃ a ∈ later, a.cuts o.scope = true) o'
        (later.foldl step c).database := by
  induction later generalizing c o with
  | nil =>
    have belongs := h.belongs o (List.mem_of_getElem? found)
    exact ⟨o, found, rfl, belongs, by simp, fun _ => rfl⟩
  | cons a rest ih =>
    obtain ⟨o', found', first⟩ := step_continues h found a
    obtain ⟨o'', found'', others⟩ := ih (tended_step h a) found'
    refine ⟨o'', found'', (first.trans others).of_iff ?_⟩
    rw [first.scope]
    simp

theorem start_tended (settings : Settings) : (start settings).Tended where
  known i t ht := by
    cases i <;> cases ht
  current := Nat.zero_lt_one
  belongs := List.forall_mem_nil _

/-- Flushing a scope is all the same to the results of another one. -/
theorem read_spared (belongs : o.Belongs c.database) (found : c.results[j]? = some o) {i : Nat}
    (other : i ≠ o.scope) {a : ClientAction} (flushes : a = .flush i ∨ a = .close i)
    (r : RowsRead Value) : (c.step a).read j r = ((c.read j r).1, (c.read j r).2.step a) := by
  obtain ⟨f, acts, becomes⟩ : ∃ f : Connections → Connections,
      (∀ c : Client, c.step a = c.onConnections f) ∧
        ∀ c : Connections, c.Becomes (· = i) (f c) := by
    rcases flushes with rfl | rfl
    · exact ⟨(·.flush i), fun _ => rfl, fun c => c.becomes_flush i⟩
    · exact ⟨(·.close i), fun _ => rfl, fun c => c.becomes_close i⟩
  obtain ⟨t, token, gave, -⟩ := belongs
  have same : ∀ k ∈ o.rows.token,
      (f c.database.connections).isCancelled k = c.database.connections.isCancelled k := by
    rintro k hk
    obtain rfl : t = k := Option.some.inj (token.symm.trans hk)
    obtain ⟨-, cut_iff⟩ := (becomes c.database.connections).gave o.scope t gave
    rw [Bool.eq_iff_iff, cut_iff]
    exact or_iff_left other.symm
  obtain ⟨moved, wired, -⟩ := o.perform_moved c.database r same
  have found' : (c.onConnections f).results[j]? = some o := found
  rw [acts, acts, read_on found', read_on found]
  change (some ((r.perform o.reader.maker).on (o.session _)).1, _) = _
  rw [onConnections, onConnections]
  dsimp only
  rw [moved, wired.connections]

theorem read_of_isCut (found : c.results[j]? = some o) (cut : o.IsCut c.database)
    (r : RowsRead Value) :
    (c.read j r).1 = some (r.ofList c.database.heap.same o.rows.ready o.walks).1 ∧
      (c.read j r).2.database = c.database := by
  obtain ⟨rows, quiet, -, -⟩ := r.answersStill (q := o.session c.database) (.inr cut)
  rw [read_on found, quiet]
  exact ⟨rfl, rfl⟩

/-- How results are cut off, and what goes on as it was. -/
structure CutsOff (c : Client) : Prop where
  /-- A result that is opened belongs to the current scope and is not cut off. -/
  opens : ∀ (a : ClientAction) (j : Nat) (o : OpenResult), c.results.length ≤ j →
    (c.step a).results[j]? = some o →
      o.scope = c.database.scope ∧ ¬o.IsCut (c.step a).database
  /-- It is cut off by the first action that cuts off its scope, and by nothing else. -/
  lasts : ∀ (j : Nat) (o : OpenResult), c.results[j]? = some o → ∀ later : List ClientAction,
    let last := later.foldl step c
    ∃ o', last.results[j]? = some o' ∧ o'.scope = o.scope ∧
      (o'.IsCut last.database ↔ o.IsCut c.database ∨ ∃ a ∈ later, a.cuts o.scope = true)
  /-- From then on it is read as a list of the rows that were ready at that moment, whatever there
  is in the store, and reading it does nothing to the database. -/
  silent : ∀ (j : Nat) (o : OpenResult) (a : ClientAction), c.results[j]? = some o →
    a.cuts o.scope = true → ∀ (later : List ClientAction) (r : RowsRead Value),
      let last := later.foldl step (c.step a)
      ∃ o', last.results[j]? = some o' ∧ o'.rows.ready = o.rows.ready ∧
        ∀ d : Database, d.connections = last.database.connections →
          let p := Client.read ⟨d, last.results⟩ j r
          p.1 = some (r.ofList d.heap.same o.rows.ready o'.walks).1 ∧ p.2.database = d
  /-- Only reading a result changes it. -/
  apart : ∀ (j : Nat) (o : OpenResult) (a : ClientAction), c.results[j]? = some o →
    (∀ r, a ≠ .read j r) → (c.step a).results[j]? = some o
  /-- To the reads of a result it makes no difference that another scope is flushed or closed. -/
  spared : ∀ (j : Nat) (o : OpenResult) (i : Nat) (a : ClientAction), c.results[j]? = some o →
    i ≠ o.scope → a = .flush i ∨ a = .close i →
      ∀ r, (c.step a).read j r = ((c.read j r).1, (c.read j r).2.step a)

/-- Whatever a client asks for, each of its results is cut off once and for all by the first flush
that is meant for it. -/
theorem run_cutsOff (settings : Settings) (actions : List ClientAction) :
    (actions.foldl step (start settings)).CutsOff := by
  have h := tended_run (start_tended settings) actions
  generalize actions.foldl step (start settings) = c at h
  refine ⟨fun a j o new opened => ?_, fun j o found later => ?_, fun j o a found cuts later r => ?_,
    fun j o a found => step_other found, fun j o i a found other flushes r => ?_⟩
  · obtain ⟨scope, -, valid⟩ := step_opens h new opened
    exact ⟨scope, valid⟩
  · obtain ⟨o', found', continues⟩ := run_continues h found later
    exact ⟨o', found', continues.scope, continues.cut_iff⟩
  · -- the action is no read, so the rows that are ready are those before it
    have same : (c.step a).results[j]? = some o := step_other found fun _ reads => by
      rw [reads] at cuts
      cases cuts
    obtain ⟨_, found', severed⟩ := step_continues h found a
    obtain rfl := Option.some.inj (same.symm.trans found')
    have cut := severed.cut_iff.mpr (.inr cuts)
    obtain ⟨o', last, since⟩ := run_continues (tended_step h a) same later
    have ready := since.ready cut
    refine ⟨o', last, ready, fun d wired => ?_⟩
    have still := (OpenResult.isCut_congr wired).mpr (since.cut_iff.mpr (.inl cut))
    rw [← ready]
    exact read_of_isCut (c := ⟨d, _⟩) last still r
  · exact read_spared (h.belongs o (List.mem_of_getElem? found)) found other flushes r

def authorsById : Statement where
  candidate := some (.record "Author")
  filter := .compare .equal (.field ["id"]) (.parameter (some "ids") none)
  ordering := []
  results := []
  sources := []
  grouping := []
  having := .absent
  aliasName := none
  kind := .select
  text := none
  extensions := []

def halfRead : Client :=
  List.foldl step (start .default)
    [.database (.register (.record "Author") ⟨"Author", [("id", false)]⟩
        [.plain ⟨"id", .integer, true, false, none, none, false, false⟩] none),
      .database (.store (.put ⟨.root "Author" (.number 1), []⟩ none)),
      .database (.store (.put ⟨.root "Author" (.number 2), []⟩ none)),
      .execute authorsById ⟨none, none⟩ [(.name "ids", .collection .list [.integer 1, .integer 2])]
        ⟨⟨2024, 1, 1⟩, 12, 0, 0, 0, false, none⟩,
      .read 0 .isNonempty]

-- The other author is seen only if the scope that is flushed is not that of the result.
example :
    ((halfRead.step (.flush 0)).read 0 .length).1 = some (.ok (.number 1)) ∧
      ((halfRead.step (.flush 1)).read 0 .length).1 = some (.ok (.number 2)) := ⟨rfl, rfl⟩

end Client
end RecordStore
