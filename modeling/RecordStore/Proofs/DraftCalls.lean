import Mathlib.Data.List.Induction
import RecordStore.Proofs.FilterSteps

/-!
# Calls on a draft

Every call tests the draft and reads what it is given before it changes anything, so a call that
fails leaves the draft as it was. What a draft holds after any calls is what the accepted ones asked
for: the keys of a single look-up, or else conditions, sort clauses and an ancestor.
-/

set_option autoImplicit false

namespace RecordStore

theorem Key.getLast?_same_iff {ks : List Key} (agree : ks.Pairwise fun j k => j.same k = true)
    (k : Key) : (∀ j, ks.getLast? = some j → j.same k = true) ↔ ∀ j ∈ ks, j.same k = true := by
  induction ks using List.reverseRecOn with
  | nil => simp
  | append_singleton others last =>
    obtain ⟨-, -, level⟩ := List.pairwise_append.mp agree
    simp only [List.getLast?_concat, Option.some.injEq, forall_eq', List.mem_append,
      List.mem_singleton]
    constructor
    · rintro same j (hj | rfl)
      · exact same_trans (level j hj last (.head _)) same
      · exact same
    · exact fun same => same last (.inr rfl)

namespace Draft

open Attempt

@[simp] theorem sameKey?_self (k : Option Key) : sameKey? k k = true := by
  cases k <;> simp [sameKey?]

theorem sameKey?_trans {j k l : Option Key} (hjk : sameKey? j k = true)
    (hkl : sameKey? k l = true) : sameKey? j l = true := by
  cases j with
  | none =>
    cases k with
    | none => exact hkl
    | some k => cases hjk
  | some j =>
    cases k with
    | none => cases hjk
    | some k =>
      cases l with
      | none => cases hkl
      | some l => exact Key.same_trans hjk hkl

/-- The keys that are the same as none before them. -/
def firstMet (ks : List (Option Key)) : List (Option Key) :=
  (ks.zipIdx.filter fun p => !(ks.take p.2).any (sameKey? · p.1)).map Prod.fst

theorem firstMet_concat (ks : List (Option Key)) (k : Option Key) :
    firstMet (ks ++ [k]) =
      if ks.any (sameKey? · k) then firstMet ks else firstMet ks ++ [k] := by
  have before : ∀ p ∈ ks.zipIdx, (ks ++ [k]).take p.2 = ks.take p.2 := fun p hp =>
    List.take_append_of_le_length (Nat.le_of_lt (List.snd_lt_of_mem_zipIdx hp))
  have others : (ks.zipIdx.filter fun p => !((ks ++ [k]).take p.2).any (sameKey? · p.1)) =
      ks.zipIdx.filter fun p => !(ks.take p.2).any (sameKey? · p.1) :=
    List.filter_congr fun p hp => by rw [before p hp]
  rw [firstMet, List.zipIdx_append, List.filter_append, others, List.map_append]
  cases met : ks.any (sameKey? · k) <;> simp [firstMet, met]

theorem distinctKeys_concat (ks : List (Option Key)) (k : Option Key) :
    distinctKeys (ks ++ [k]) =
      if (distinctKeys ks).any (sameKey? · k) then distinctKeys ks else distinctKeys ks ++ [k] :=
  List.foldl_append

theorem any_distinctKeys (ks : List (Option Key)) (k : Option Key) :
    (distinctKeys ks).any (sameKey? · k) = ks.any (sameKey? · k) := by
  induction ks using List.reverseRecOn generalizing k with
  | nil => rfl
  | append_singleton ks j ih =>
    rw [distinctKeys_concat, List.any_append, ← ih k]
    split
    -- a key that is left out was met, so whatever is the same as it is covered already
    · rename_i met
      obtain ⟨i, kept, same⟩ := List.any_eq_true.mp met
      have covered (hjk : sameKey? j k = true) : (distinctKeys ks).any (sameKey? · k) = true :=
        List.any_eq_true.mpr ⟨i, kept, sameKey?_trans same hjk⟩
      cases hjk : sameKey? j k with
      | true => simp [covered hjk]
      | false => simp [hjk]
    · rw [List.any_append]

theorem distinctKeys_eq_firstMet (ks : List (Option Key)) : distinctKeys ks = firstMet ks := by
  induction ks using List.reverseRecOn with
  | nil => rfl
  | append_singleton ks k ih =>
    rw [distinctKeys_concat, firstMet_concat, any_distinctKeys, ih]

theorem exists_mem_firstMet {ks : List (Option Key)} {k : Option Key} (hk : k ∈ ks) :
    ∃ j ∈ firstMet ks, sameKey? j k = true := by
  rw [← distinctKeys_eq_firstMet]
  refine List.any_eq_true.mp ?_
  rw [any_distinctKeys]
  exact List.any_eq_true.mpr ⟨k, hk, sameKey?_self k⟩

/-- The step on drafts that a call comes to. -/
def Call.step (d : Draft) : Call → Except Fault Draft
  | .condition c => d.addCondition c
  | .sort c => d.addSort c
  | .ancestor k => d.setAncestor k
  | .lookup keys => d.startLookup keys

theorem forbidLookup_on (d : Draft) :
    forbidLookup.on d = (if d.isLookup then .error d.lookupWithConditions else .ok (), d) := by
  cases h : d.isLookup <;> simp [forbidLookup, on_bind, h]

theorem perform_on (call : Call) (d : Draft) :
    (perform call).on d =
      match call.step d with
      | .ok after => (.ok (), after)
      | .error f => (.error f, d) := by
  cases call with
  | condition c =>
    rw [perform, on_bind, forbidLookup_on, Call.step, addCondition]
    cases d.isLookup <;> rfl
  | sort c =>
    rw [perform, on_bind, forbidLookup_on, Call.step, addSort]
    cases d.isLookup <;> rfl
  | ancestor k =>
    rw [perform, on_bind, forbidLookup_on, Call.step, setAncestor]
    cases d.isLookup with
    | true => rfl
    | false =>
      simp only [Bool.false_eq_true, if_false, on_bind, on_get]
      cases d.ancestor with
      | none => rfl
      | some present =>
        cases hs : present.same k with
        | true => simp [hs]
        | false =>
          simp only [hs, Bool.not_false, Bool.false_eq_true, if_true, if_false, on_bind,
            on_ofExcept, secondAncestor]
          cases present.pathText with
          | error f => rfl
          | ok t => cases k.pathText <;> rfl
  | lookup keys =>
    rw [perform, on_bind_of_ok (on_get d), Call.step, startLookup]
    dsimp only
    cases !d.conditions.isEmpty || !d.arrangement.isEmpty || d.ancestor.isSome || d.isLookup with
    | true => rfl
    | false =>
      simp only [Bool.false_eq_true, if_false, on_bind, on_mapM_ofExcept]
      cases keys.mapM id <;> rfl

theorem eq_of_perform_error {call : Call} {d after : Draft} {f : Fault}
    (failed : (perform call).on d = (.error f, after)) : after = d := by
  rw [perform_on] at failed
  cases stepped : call.step d with
  | ok last => simp [stepped] at failed
  | error g =>
    rw [stepped] at failed
    cases failed
    rfl

theorem perform_on_eq_ok_iff (call : Call) (d after : Draft) :
    (perform call).on d = (.ok (), after) ↔ call.step d = .ok after := by
  rw [perform_on]
  cases call.step d <;> simp

namespace Call

def condition? : Call → Option Condition
  | .condition c => some c
  | _ => none

def sort? : Call → Option SortClause
  | .sort c => some c
  | _ => none

def ancestor? : Call → Option Key
  | .ancestor k => some k
  | _ => none

def StandsWith (taken : List Call) : Call → Prop
  | .condition _ | .sort _ => ∀ keys, .lookup keys ∉ taken
  | .ancestor k => (∀ keys, .lookup keys ∉ taken) ∧ ∀ j, .ancestor j ∈ taken → j.same k = true
  | .lookup keys => taken = [] ∧ ∃ asked : List (Option Key), keys = asked.map .ok

theorem mem_filterMap_ancestor? (taken : List Call) (j : Key) :
    j ∈ taken.filterMap ancestor? ↔ .ancestor j ∈ taken := by
  rw [List.mem_filterMap]
  constructor
  · rintro ⟨call, hc, found⟩
    cases call with
    | ancestor k =>
      cases found
      exact hc
    | _ => cases found
  · exact fun h => ⟨_, h, rfl⟩

end Call

/-- The drafts that calls come to: a look-up stands alone, and anything else is a selection. -/
inductive Gathered (kind : Text) (query : Option Text) : List Call → Draft → Prop
  | selection {taken : List Call} (noLookup : ∀ keys, .lookup keys ∉ taken)
    (agree : (taken.filterMap Call.ancestor?).Pairwise fun j k => j.same k = true) :
    Gathered kind query taken
      ⟨kind, query, taken.filterMap Call.condition?, taken.filterMap Call.sort?,
        (taken.filterMap Call.ancestor?).getLast?, none⟩
  | lookup (asked : List (Option Key)) :
    Gathered kind query [.lookup (asked.map .ok)] ⟨kind, query, [], [], none, some (firstMet asked)⟩

namespace Gathered

variable {kind : Text} {query : Option Text} {taken : List Call} {d after : Draft}

theorem start : Gathered kind query [] (start kind query) := selection nofun .nil

theorem isLookup_eq_false_iff (h : Gathered kind query taken d) :
    d.isLookup = false ↔ ∀ keys, .lookup keys ∉ taken := by
  cases h with
  | selection noLookup => exact iff_of_true rfl noLookup
  | lookup asked => exact iff_of_false nofun fun none => none _ (.head _)

theorem isBlank_iff (h : Gathered kind query taken d) : d.IsBlank ↔ taken = [] := by
  constructor
  · intro blank
    cases h with
    | selection noLookup =>
      cases taken with
      | nil => rfl
      | cons call rest =>
        cases call with
        | condition c => cases blank.conditions
        | sort c => cases blank.arrangement
        | ancestor k => simpa [Call.ancestor?] using blank.ancestor
        | lookup keys => exact absurd (.head _) (noLookup keys)
    | lookup asked => cases blank.keys
  · rintro rfl
    cases h
    exact ⟨rfl, rfl, rfl, rfl⟩

theorem ancestor_iff (h : Gathered kind query taken d) (k : Key) :
    (∀ j, d.ancestor = some j → j.same k = true) ↔ ∀ j, .ancestor j ∈ taken → j.same k = true := by
  cases h with
  | selection noLookup agree =>
    simp only [Key.getLast?_same_iff agree, Call.mem_filterMap_ancestor?]
  | lookup asked => simp

theorem step_iff (h : Gathered kind query taken d) (call : Call) :
    (∃ after, call.step d = .ok after) ↔ call.StandsWith taken := by
  cases call with
  | condition c =>
    simp only [Call.step, addCondition_eq_ok_iff, Call.StandsWith, h.isLookup_eq_false_iff,
      exists_and_left, exists_eq', and_true]
  | sort c =>
    simp only [Call.step, addSort_eq_ok_iff, Call.StandsWith, h.isLookup_eq_false_iff,
      exists_and_left, exists_eq', and_true]
  | ancestor k =>
    simp only [Call.step, setAncestor_eq_ok_iff, Call.StandsWith, h.isLookup_eq_false_iff,
      h.ancestor_iff, exists_and_left, exists_eq', and_true]
  | lookup keys =>
    simp only [Call.step, startLookup_eq_ok_iff, Call.StandsWith, h.isBlank_iff,
      mapM_id_eq_ok_iff, exists_and_left]
    grind

theorem of_step (h : Gathered kind query taken d) {call : Call} (ok : call.step d = .ok after) :
    Gathered kind query (taken ++ [call]) after := by
  cases call with
  | condition c =>
    obtain ⟨free, rfl⟩ := (addCondition_eq_ok_iff _ _ _).mp ok
    cases h with
    | selection noLookup agree =>
      have next := @selection kind query (taken ++ [.condition c]) (by simpa using noLookup)
        (by simpa [List.filterMap_cons, Call.ancestor?] using agree)
      simpa [List.filterMap_cons, Call.condition?, Call.sort?, Call.ancestor?] using next
    | lookup asked => cases free
  | sort c =>
    obtain ⟨free, rfl⟩ := (addSort_eq_ok_iff _ _ _).mp ok
    cases h with
    | selection noLookup agree =>
      have next := @selection kind query (taken ++ [.sort c]) (by simpa using noLookup)
        (by simpa [List.filterMap_cons, Call.ancestor?] using agree)
      simpa [List.filterMap_cons, Call.condition?, Call.sort?, Call.ancestor?] using next
    | lookup asked => cases free
  | ancestor k =>
    obtain ⟨free, same, rfl⟩ := (setAncestor_eq_ok_iff _ _ _).mp ok
    cases h with
    | selection noLookup agree =>
      have level := (Key.getLast?_same_iff agree k).mp same
      have next := @selection kind query (taken ++ [.ancestor k]) (by simpa using noLookup)
        (by simpa [Call.ancestor?, List.pairwise_append, agree] using level)
      simpa [List.filterMap_cons, Call.condition?, Call.sort?, Call.ancestor?] using next
    | lookup asked => cases free
  | lookup keys =>
    obtain ⟨blank, asked, read, rfl⟩ := (startLookup_eq_ok_iff _ _ _).mp ok
    obtain rfl := (mapM_id_eq_ok_iff _ _).mp read
    obtain rfl := h.isBlank_iff.mp blank
    cases h with
    | selection =>
      rw [distinctKeys_eq_firstMet]
      exact lookup asked

end Gathered

def accepted (calls : List Call) (outcomes : List (Except Fault Unit)) : List Call :=
  (calls.zip outcomes).filterMap fun (call, outcome) => if outcome.isOk then some call else none

theorem accepted_cons (call : Call) (rest : List Call) (outcome : Except Fault Unit)
    (outcomes : List (Except Fault Unit)) :
    accepted (call :: rest) (outcome :: outcomes) =
      accepted [call] [outcome] ++ accepted rest outcomes := by
  cases h : outcome.isOk <;> simp [accepted, h]

variable {kind : Text} {query : Option Text} {taken : List Call} {d : Draft}

theorem perform_gathered (h : Gathered kind query taken d) (call : Call) :
    Gathered kind query (taken ++ accepted [call] [((perform call).on d).1])
      ((perform call).on d).2 := by
  rw [perform_on]
  cases stepped : call.step d with
  | ok after => exact h.of_step stepped
  | error f => simpa [accepted, Except.isOk, Except.toBool] using h

theorem session_gathered (h : Gathered kind query taken d) (calls : List Call) :
    ∃ outcomes after, (session calls).on d = (.ok outcomes, after) ∧
      outcomes.length = calls.length ∧
      Gathered kind query (taken ++ accepted calls outcomes) after := by
  -- the accepted calls grow at their end, so what was taken before is left open
  induction calls generalizing taken d with
  | nil => exact ⟨[], d, rfl, rfl, by simpa [accepted] using h⟩
  | cons call rest ih =>
    obtain ⟨outcomes, after, run, length, gathered⟩ := ih (perform_gathered h call)
    refine ⟨((perform call).on d).1 :: outcomes, after, ?_, by simp [length], ?_⟩
    · rw [session, List.mapM_cons, on_bind, on_observing]
      exact on_bind_of_ok run _
    · rwa [accepted_cons, ← List.append_assoc]

/-- Whatever calls are made on a draft, a look-up and the parts of a selection exclude one another,
and a call that fails changes nothing. Which calls are accepted depends on those that were accepted
before. A look-up gives out each key that it was given at the place where it was first met, and a
selection makes every demand that was accepted, in order. -/
theorem session_exclusive (kind : Text) (query : Option Text) (calls : List Call) :
    ∃ outcomes d, (session calls).on (start kind query) = (.ok outcomes, d) ∧
      outcomes.length = calls.length ∧
      let taken := accepted calls outcomes
      (∀ keys, d.keys = some keys → d.conditions = [] ∧ d.arrangement = [] ∧ d.ancestor = none ∧
        ∃ asked, taken = [.lookup (asked.map .ok)] ∧ keys = firstMet asked) ∧
      (∀ call f after, (perform call).on d = (.error f, after) → after = d) ∧
      (∀ call, (∃ after, (perform call).on d = (.ok (), after)) ↔ call.StandsWith taken) ∧
      ∀ keysOnly,
        (∃ asked, taken = [.lookup (asked.map .ok)] ∧
          d.freeze keysOnly = .lookup kind (firstMet asked) ∧
          ∀ k ∈ asked, ∃ j ∈ firstMet asked, sameKey? j k = true) ∨
        (∀ keys, .lookup keys ∉ taken) ∧
          (taken.filterMap Call.ancestor?).Pairwise (fun j k => j.same k = true) ∧
          d.freeze keysOnly = .selection ⟨kind, taken.filterMap Call.condition?,
            taken.filterMap Call.sort?, (taken.filterMap Call.ancestor?).getLast?, keysOnly⟩ := by
  obtain ⟨outcomes, d, run, length, gathered⟩ :=
    session_gathered (@Gathered.start kind query) calls
  rw [List.nil_append] at gathered
  refine ⟨outcomes, d, run, length, fun keys hk => ?_, fun call f after => ?_, fun call => ?_,
    fun keysOnly => ?_⟩
  · generalize accepted calls outcomes = taken at gathered
    cases gathered with
    | selection => cases hk
    | lookup asked => exact ⟨rfl, rfl, rfl, asked, rfl, (Option.some.inj hk).symm⟩
  · exact eq_of_perform_error
  · simp only [perform_on_eq_ok_iff, gathered.step_iff]
  · generalize accepted calls outcomes = taken at gathered
    cases gathered with
    | selection noLookup agree => exact .inr ⟨noLookup, agree, rfl⟩
    | lookup asked => exact .inl ⟨asked, rfl, rfl, fun k => exists_mem_firstMet⟩

/-- A look-up whose keys cannot all be read is not begun, and so a sort clause can follow. -/
example : ((session [.lookup [.ok none, .error (.misuse .type)], .sort ⟨"due", .ascending⟩]).on
      (start "Job" none)).2.freeze false =
    .selection ⟨"Job", [], [⟨"due", .ascending⟩], none, false⟩ := rfl

end Draft
end RecordStore
