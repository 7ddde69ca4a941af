import RecordStore.Proofs.AgreeingLoads
import RecordStore.Proofs.TouchedRecords
import RecordStore.Proofs.VisibleQueries

/-!
# Requests that agree

Outside of transactions, databases that are alike but for what a veil hides find the same records,
whatever is asked of them, and open results over the same cursors.
-/

set_option autoImplicit false

namespace RecordStore

open Attempt

variable {u : Veil}

/-- Whether two stores have the same visible records, and neither has a current transaction. What
they count and note down is left open. -/
structure Store.AlikeUnder (u : Veil) (s s' : Store) : Prop where
  records : s'.records = s.records
  outages : s'.outages = s.outages
  outside : s.current = none
  outside' : s'.current = none
  stored : ∀ r ∈ s.records, r.Within u.visible

namespace Store

theorem AlikeUnder.recount {s s' : Store} (h : s.AlikeUnder u s')
    (journal journal' : List (Request × Option Text)) (tally tally' : List (Request × Nat))
    (reads reads' : Nat) :
    AlikeUnder u { s with journal := journal, tally := tally, reads := reads }
      { s' with journal := journal', tally := tally', reads := reads' } :=
  ⟨h.records, h.outages, h.outside, h.outside', h.stored⟩

theorem agrees_enter (request : Request) :
    Agrees (AlikeUnder u) (fun _ => True) (enter request none) (enter request none) := by
  refine agrees_get_bind fun s s' h => ?_
  refine agrees_bind (agrees_set (h.recount _ _ _ _ _ _)) fun _ _ => ?_
  rw [h.outages]
  split
  · exact agrees_throw _
  · exact agrees_pure trivial

theorem agrees_tick (request : Request) :
    Agrees (AlikeUnder u) (fun _ => True) (modify (·.tick request)) (modify (·.tick request)) :=
  agrees_modify fun _ _ h => h.recount _ _ _ _ _ _

theorem agrees_fetch (keys : List (Option Key)) {found : List (Key × Record)}
    (hf : ∀ p ∈ found, p.2.Within u.visible) :
    Agrees (AlikeUnder u) (fun found => ∀ p ∈ found, p.2.Within u.visible) (fetch keys found)
      (fetch keys found) := by
  induction keys generalizing found with
  | nil => exact agrees_pure hf
  | cons k rest ih =>
    cases k with
    | none => exact agrees_throw _
    | some k =>
      refine agrees_get_bind fun s s' h => ?_
      have same : s'.find? k = s.find? k := by rw [find?, find?, h.records]
      rw [same]
      cases there : s.find? k with
      | none => exact ih hf
      | some r =>
        have within := h.stored r (find?_eq_some there).1
        refine agrees_bind (agrees_modify fun _ _ h => h.recount _ _ _ _ _ _) fun _ _ => ih ?_
        intro p hp
        split at hp
        · obtain ⟨e, he, rfl⟩ := List.mem_map.mp hp
          split
          · exact within
          · exact hf e he
        · rcases List.mem_append.mp hp with hp | hp
          · exact hf p hp
          · rw [List.mem_singleton.mp hp]
            exact within

theorem agrees_lookup (keys : List (Option Key)) :
    Agrees (AlikeUnder u) (fun found => ∀ p ∈ found, p.2.Within u.visible) (lookup keys none)
      (lookup keys none) :=
  agrees_bind (agrees_enter .get) fun _ _ =>
    agrees_bind (agrees_tick .get) fun _ _ => agrees_fetch keys (List.forall_mem_nil _)

variable {shown shown' : Value → Except Fault Text} {q : Selection}

theorem agrees_scan (w : Window)
    (hq : ∀ rs : List Record, (∀ r ∈ rs, r.Within u.visible) →
      scanned shown' q w false rs = scanned shown q w false rs) :
    Agrees (AlikeUnder u) (fun c => ∀ r, c.Gives r → r.Within u.visible)
      (scan shown q none w false) (scan shown' q none w false) := by
  refine agrees_bind (agrees_enter .scan) fun _ _ => agrees_bind (agrees_tick .scan) fun _ _ => ?_
  refine agrees_bind (Q := fun _ => True) (agrees_pure trivial) fun _ _ => ?_
  refine agrees_get_bind fun s s' h => ?_
  rw [h.records, hq _ h.stored]
  refine agrees_ofExcept fun c found r given => ?_
  obtain ⟨-, rfl⟩ := scanned_eq_ok_iff.mp found
  have mem := Cursor.mem_of_gives_ofWindow given
  have answered (r : Record) (hr : r ∈ q.answer shown s.records) : r.Within u.visible :=
    h.stored r ((q.mem_answer_iff shown _ r).mp hr).1
  rw [Store.given] at mem
  split at mem
  · obtain ⟨full, hfull, rfl⟩ := List.mem_map.mp mem
    exact List.forall_mem_nil _
  · exact answered r mem

theorem agrees_count (w : Window)
    (hq : ∀ rs : List Record, (∀ r ∈ rs, r.Within u.visible) →
      q.matching shown' rs = q.matching shown rs) :
    Agrees (AlikeUnder u) (fun _ => True) (count shown q none w) (count shown' q none w) := by
  have counted : Agrees (AlikeUnder u) (fun _ => True)
      (checkTransaction q none >>= fun _ => get >>= fun s =>
        Attempt.ofExcept (q.matching shown s.records) >>= fun rs => pure rs.length)
      (checkTransaction q none >>= fun _ => get >>= fun s =>
        Attempt.ofExcept (q.matching shown' s.records) >>= fun rs => pure rs.length) := by
    refine agrees_bind (Q := fun _ => True) (agrees_pure trivial) fun _ _ => ?_
    refine agrees_get_bind fun s s' h => ?_
    rw [h.records, hq _ h.stored]
    exact agrees_bind (Q := fun _ => True) (agrees_ofExcept fun _ _ => trivial) fun _ _ =>
      agrees_pure trivial
  refine agrees_bind (agrees_enter .count) fun _ _ =>
    agrees_bind (agrees_tick .count) fun _ _ => ?_
  by_cases hw : (!w.isTrivial) = true
  · simp only [if_pos hw]
    exact agrees_bind (Q := fun _ => True) (agrees_throw _) fun _ _ => counted
  · simp only [if_neg hw]
    exact counted

theorem agrees_read (position : Nat) :
    Agrees (AlikeUnder u) (fun _ => True) (Store.read position) (Store.read position) := by
  refine agrees_bind (agrees_modify fun _ _ h => h.recount _ _ _ _ _ _) fun _ _ => ?_
  refine agrees_get_bind fun s s' h => ?_
  rw [h.outages]
  split
  · split
    · exact agrees_throw _
    · exact agrees_pure trivial
  · exact agrees_pure trivial

end Store

/-- Whether two databases are the same but for what a veil hides, outside of transactions. -/
structure Database.AlikeUnder (u : Veil) (d d' : Database) : Prop where
  settings : d'.settings = d.settings
  registry : d'.registry = d.registry
  connections : d'.connections = d.connections
  scope : d'.scope = d.scope
  store : d.store.AlikeUnder u d'.store
  workspace : d.workspace.AlikeUnder u d'.workspace
  members : ∀ mapping ∈ d.registry.mappings, ∀ m ∈ mapping.members, m.Within u.visible

namespace Database

theorem agrees_onStore {α : Type} {Q : α → Prop} {a b : Attempt Store α}
    (h : Agrees (Store.AlikeUnder u) Q a b) :
    Agrees (AlikeUnder u) Q (onStore a) (onStore b) :=
  agrees_zoom h (fun _ _ hd => hd.store) fun _ _ _ _ hd hs => { hd with store := hs }

theorem agrees_onWorkspace {α : Type} {Q : α → Prop} {a b : Attempt Workspace α}
    (h : Agrees (Workspace.AlikeUnder u) Q a b) :
    Agrees (AlikeUnder u) Q (onWorkspace a) (onWorkspace b) :=
  agrees_zoom h (fun _ _ hd => hd.workspace) fun _ _ _ _ hd hw => { hd with workspace := hw }

theorem agrees_onConnections {α : Type} (f : Connections → α × Connections) :
    Agrees (AlikeUnder u) (fun _ => True) (onConnections f) (onConnections f) := by
  refine agrees_get_bind fun d d' h => ?_
  dsimp only
  rw [h.connections]
  exact agrees_bind (agrees_set { h with connections := rfl }) fun _ _ => agrees_pure trivial

theorem AlikeUnder.mapping_within {d d' : Database} (h : d.AlikeUnder u d') {name : ClassName}
    {mapping : ClassMapping} (found : d.registry.get? name = some mapping) :
    ∀ m ∈ mapping.members, m.Within u.visible :=
  h.members mapping (List.mem_of_find?_eq_some found)

theorem AlikeUnder.bindings {d d' : Database} (h : d.AlikeUnder u d') {parameters : Parameters}
    (hp : ∀ p ∈ parameters, p.2.Within u.visible) (now : Moment) :
    (d.bindings parameters now).SeesAlike u.visible (d'.bindings parameters now) :=
  ⟨h.workspace.seesAlike, rfl, rfl, h.registry, hp⟩

end Database

def Result.Opens (u : Veil) : Result → Prop
  | .rows r reader =>
    r.ready = [] ∧ (∀ x, r.pending.Gives x → x.Within u.visible) ∧ reader.Within u.visible
  | _ => True

namespace Execution

variable (e : Execution)

theorem agrees_request {α : Type} {Q : α → Prop} {a b : Attempt Store α}
    (h : Agrees (Store.AlikeUnder u) Q a b) :
    Agrees (Database.AlikeUnder u) Q (e.request a) (e.request b) :=
  agrees_mapFault (Database.agrees_onStore h) _

/-- Whether the members that rows of an execution are made with hold visible objects only. -/
structure Within (visible : ObjectId → Prop) : Prop where
  members : ∀ m ∈ e.candidate.mapping.members, m.Within visible
  chosen : ∀ p ∈ e.plan.projection, p.2.Within visible

variable {e}

theorem Within.reader (he : e.Within u.visible) (settings : QuerySettings) :
    (e.reader settings).Within u.visible := by
  refine ⟨he.members, fun ms form m hm => ?_⟩
  have form : (e.reader settings).form = .chosen ms := form
  simp only [Execution.reader] at form
  split at form
  · cases form
    obtain ⟨p, hp, rfl⟩ := List.mem_map.mp hm
    exact he.chosen p hp
  · split at form <;> cases form

theorem agrees_openRows (he : e.Within u.visible) {c : Cursor Record}
    (hc : ∀ r, c.Gives r → r.Within u.visible) :
    Agrees (Database.AlikeUnder u) (Result.Opens u) (e.openRows c) (e.openRows c) := by
  refine agrees_get_bind fun d d' h => ?_
  rw [h.scope, h.settings]
  exact agrees_bind (Database.agrees_onConnections _) fun _ _ => agrees_pure ⟨rfl, hc, he.reader _⟩

theorem agrees_select (he : e.Within u.visible) (hs : e.statement.isDelete = false) {q : Selection}
    (hq : ∀ c ∈ q.conditions, c.value.Within u.visible) :
    Agrees (Database.AlikeUnder u) (Result.Opens u) (e.scan q) (e.scan q) := by
  refine agrees_get_bind fun d d' h => ?_
  have seen := h.workspace.seesAlike
  have kept : ¬e.statement.isDelete = true := by simp [hs]
  dsimp only
  rw [e.transactionFor_eq_none q h.store.outside, e.transactionFor_eq_none q h.store.outside']
  split
  · have counts := Store.agrees_count (u := u) .all fun rs hrs => Selection.matching_eq seen hrs hq
    exact agrees_bind (e.agrees_request counts) fun _ _ => agrees_pure trivial
  · have scans := Store.agrees_scan (u := u) e.window fun rs hrs =>
      Selection.scanned_eq seen hrs hq e.window false
    exact agrees_bind (e.agrees_request scans) fun c hc => agrees_openRows he hc

theorem agrees_lookup (he : e.Within u.visible) (hs : e.statement.isDelete = false)
    (keys : List (Option Key)) :
    Agrees (Database.AlikeUnder u) (Result.Opens u) (e.lookup keys) (e.lookup keys) := by
  refine agrees_get_bind fun d d' h => ?_
  have kept : ¬e.statement.isDelete = true := by simp [hs]
  dsimp only
  rw [h.store.outside, h.store.outside', if_neg kept, if_neg kept]
  refine agrees_bind (e.agrees_request (Store.agrees_lookup keys)) fun found hf => ?_
  have records (rs : List Record) (h : cut e.window (keys.filterMap (recordOf? found)) = .ok rs) :
      ∀ r ∈ rs, r.Within u.visible := by
    intro r hr
    obtain ⟨o, -, asked⟩ := List.mem_filterMap.mp (mem_of_cut h hr)
    obtain ⟨k, -, named⟩ := Option.bind_eq_some_iff.mp asked
    obtain ⟨p, first, rfl⟩ := Option.map_eq_some_iff.mp named
    exact hf p (List.mem_of_find?_eq_some first)
  refine agrees_bind (agrees_ofExcept records) fun rs hrs => ?_
  split
  · exact agrees_pure trivial
  · exact agrees_openRows he fun r given => hrs r ((Cursor.gives_ofList rs r).mp given)

end Execution

namespace ClassMapping

theorem descend_within {visible : ObjectId → Prop} {query : Option Text} {first : Option Member}
    {path : List Text} {found : Member} (hf : ∀ m, first = some m → m.Within visible)
    (h : descend query first path = .ok (some found)) : found.Within visible := by
  induction path generalizing first with
  | nil =>
    cases first with
    | none => cases h
    | some m =>
      cases h
      exact hf _ rfl
  | cons name rest ih =>
    cases first with
    | none => cases h
    | some m =>
      cases m with
      | plain t => cases h
      | embedded t parts =>
        have each := (Member.eachWithin_iff parts).mp (hf _ rfl)
        exact ih (fun part there => each part (List.mem_of_find?_eq_some there)) h

theorem memberAt_within {visible : ObjectId → Prop} {mapping : ClassMapping} {path : List Text}
    {query : Option Text} {found : Member} (hm : ∀ m ∈ mapping.members, m.Within visible)
    (h : mapping.memberAt path query = .ok (some found)) : found.Within visible := by
  cases path with
  | nil => cases h
  | cons name rest => exact descend_within (fun m there => hm m (List.mem_of_find?_eq_some there)) h

end ClassMapping

namespace Candidate

variable {c : Candidate} {visible : ObjectId → Prop}

theorem member_within (hm : ∀ m ∈ c.mapping.members, m.Within visible) {path : List Text}
    {found : Member} (h : c.member path = .ok found) : found.Within visible := by
  obtain ⟨o, there, h⟩ := (bind_eq_ok_iff _ _ _).mp h
  cases o with
  | none => cases h
  | some m =>
    cases h
    exact ClassMapping.memberAt_within hm there

theorem readResults_within (hm : ∀ m ∈ c.mapping.members, m.Within visible)
    {form : Option ResultForm} {projection : List (List Text × Member)} {results : List Expr}
    {plan : ResultPlan} (hp : ∀ p ∈ projection, p.2.Within visible)
    (h : c.readResults form projection results = .ok plan) :
    ∀ p ∈ plan.projection, p.2.Within visible := by
  induction results generalizing form projection with
  | nil =>
    cases h
    exact hp
  | cons x rest ih =>
    cases x with
    | call name receiver args =>
      rw [readResults] at h
      split at h
      · cases h
      split at h
      · cases h
      · exact ih hp h
    | field path =>
      rw [readResults] at h
      split at h
      · cases h
      split at h
      · exact ih hp h
      · obtain ⟨m, there, h⟩ := (bind_eq_ok_iff _ _ _).mp h
        refine ih (fun p hmem => ?_) h
        rcases List.mem_append.mp hmem with hmem | hmem
        · exact hp p hmem
        · rw [List.mem_singleton.mp hmem]
          exact member_within hm there
    | _ => cases h

theorem plan_within (hm : ∀ m ∈ c.mapping.members, m.Within visible) {plan : ResultPlan}
    (h : c.plan = .ok plan) : ∀ p ∈ plan.projection, p.2.Within visible := by
  simp only [Candidate.plan] at h
  split at h
  · cases h
  split at h
  · cases h
  obtain ⟨_, -, h⟩ := (bind_eq_ok_iff _ _ _).mp h
  exact readResults_within hm (List.forall_mem_nil _) h

end Candidate

theorem Statement.withAlias_filter (s : Statement) (settings : QuerySettings) :
    (s.withAlias settings).filter = s.filter := by
  rw [withAlias]
  split
  · split <;> rfl
  · rfl

namespace Database

variable {s : Statement} {parameters : Parameters}

theorem AlikeUnder.candidateIn_eq {d d' : Database} (h : d.AlikeUnder u d') :
    s.candidateIn d' = s.candidateIn d := by
  rw [Statement.candidateIn, Statement.candidateIn, h.registry, h.settings]

/-- Statements that delete nothing agree if they hold visible objects only. -/
theorem agrees_execute (hs : s.kind ≠ .delete) (hf : s.filter.Within u.visible)
    (hp : ∀ p ∈ parameters, p.2.Within u.visible) (range : Range) (now : Moment) :
    Agrees (AlikeUnder u) (Result.Opens u) (execute s range parameters now)
      (execute s range parameters now) := by
  -- both come to the same query stage by stage, and so ask the same of the store
  refine agrees_get_bind fun d d' h => ?_
  rw [h.candidateIn_eq, h.settings]
  refine agrees_bind (agrees_ofExcept fun c hc => hc) fun c candidate => ?_
  obtain ⟨-, name, mapping, -, there, rfl⟩ := (s.candidateIn_eq_ok_iff d c).mp candidate
  have members := h.mapping_within there
  refine agrees_bind (agrees_ofExcept fun plan hplan => hplan) fun plan planned => ?_
  have seen := h.bindings hp now
  have filter : (s.withAlias d.settings.query).filter.Within u.visible := by
    rw [s.withAlias_filter]
    exact hf
  rw [Candidate.compile_congr seen filter]
  refine agrees_bind (agrees_ofExcept fun native hn => hn) fun native compiled => ?_
  have noted : AlikeUnder u { d with latest := some native }
      { d' with settings := d.settings, latest := some native } := { h with settings := rfl }
  refine agrees_bind (agrees_set noted) fun _ _ => ?_
  have written : native.text d'.shown = native.text d.shown := by
    cases native with
    | selection q =>
      exact Selection.text_eq h.workspace.seesAlike (Candidate.compile_within seen filter compiled)
    | lookup kind keys => rfl
  rw [written]
  refine agrees_bind (Q := fun _ => True) (agrees_ofExcept fun _ _ => trivial) fun _ _ => ?_
  refine agrees_bind (Q := fun _ => True) (agrees_ofExcept fun _ _ => trivial) fun empty _ => ?_
  split
  · refine agrees_pure ?_
    split <;> trivial
  · refine agrees_bind (Q := fun _ => True) (agrees_ofExcept fun _ _ => trivial) fun w _ => ?_
    dsimp only
    split
    · exact agrees_throw _
    · have keeps : (s.withAlias d.settings.query).isDelete = false := by
        simp [Statement.isDelete, (s.withAlias_kind d.settings.query).1, hs]
      have within : Execution.Within ⟨⟨s.withAlias d.settings.query, mapping⟩, plan, w⟩
          u.visible := ⟨members, Candidate.plan_within members planned⟩
      cases native with
      | selection q =>
        exact Execution.agrees_select within keeps (Candidate.compile_within seen filter compiled)
      | lookup kind keys => exact Execution.agrees_lookup within keeps keys

end Database
end RecordStore
