import RecordStore.Proofs.WholeRows

/-!
# Tokens and their scopes

Each token is given out by one scope. It is cancelled once that scope is flushed, and by nothing
else.
-/

set_option autoImplicit false

namespace RecordStore
namespace Connections

variable {c c' d : Connections} {scope token : Nat} {cut cut' : Nat → Prop}

def tokens (c : Connections) (i : Nat) : List Nat := (c.scope i).tokens

theorem isCancelled_cancel_iff (known : token < c.cancelled.length) (k : Nat) :
    (c.cancel k).isCancelled token = true ↔ token = k ∨ c.isCancelled token = true := by
  simp only [cancel, isCancelled, List.getElem?_modify]
  by_cases same : k = token
  · simp [same, known]
  · simp [same, Ne.symm same]

theorem isCancelled_foldl_cancel_iff (known : token < c.cancelled.length) (ks : List Nat) :
    (ks.foldl cancel c).isCancelled token = true ↔ token ∈ ks ∨ c.isCancelled token = true := by
  induction ks generalizing c with
  | nil => simp
  | cons k ks ih =>
    have still : token < (c.cancel k).cancelled.length := by simpa [cancel] using known
    rw [List.foldl_cons, ih still, isCancelled_cancel_iff known, List.mem_cons]
    tauto

theorem foldl_cancel_scopes (ks : List Nat) : (ks.foldl cancel c).scopes = c.scopes := by
  induction ks generalizing c with
  | nil => rfl
  | cons k ks ih => exact ih

theorem length_foldl_cancel (ks : List Nat) :
    (ks.foldl cancel c).cancelled.length = c.cancelled.length := by
  induction ks generalizing c with
  | nil => rfl
  | cons k ks ih => exact ih.trans (List.length_modify _ _ _)

theorem isCancelled_flush_iff (known : token < c.cancelled.length) (i : Nat) :
    (c.flush i).isCancelled token = true ↔ token ∈ c.tokens i ∨ c.isCancelled token = true :=
  isCancelled_foldl_cancel_iff known _

theorem length_flush (c : Connections) (i : Nat) :
    (c.flush i).cancelled.length = c.cancelled.length := length_foldl_cancel _

theorem tokens_modify (c : Connections) (i k : Nat) (f : Scope → Scope) :
    tokens { c with scopes := c.scopes.modify i f } k =
      if k = i ∧ i < c.scopes.length then (f (c.scope i)).tokens else c.tokens k := by
  simp only [tokens, Connections.scope, List.getElem?_modify]
  by_cases same : i = k
  · subst same
    by_cases there : i < c.scopes.length
    · simp [there]
    · simp [there]
  · simp [same, Ne.symm same]

theorem tokens_foldl_cancel (ks : List Nat) (k : Nat) :
    (ks.foldl cancel c).tokens k = c.tokens k := by
  rw [tokens, tokens, Connections.scope, foldl_cancel_scopes, Connections.scope]

theorem tokens_of_le {i : Nat} (missing : c.scopes.length ≤ i) : c.tokens i = [] := by
  rw [tokens, Connections.scope, List.getElem?_eq_none missing]
  rfl

theorem tokens_flush (c : Connections) (i k : Nat) :
    (c.flush i).tokens k = if k = i then [] else c.tokens k := by
  rw [flush, tokens_modify, foldl_cancel_scopes, tokens_foldl_cancel]
  by_cases same : k = i
  · subst same
    by_cases there : k < c.scopes.length
    · simp [there]
    · simp [there, tokens_of_le (Nat.le_of_not_lt there)]
  · simp [same]

theorem tokens_close (c : Connections) (i k : Nat) :
    (c.close i).tokens k = (c.flush i).tokens k := by
  rw [close, tokens_modify]
  split
  · rename_i same
    rw [same.1]
    rfl
  · rfl

theorem tokens_openScope (c : Connections) (k : Nat) : c.openScope.2.tokens k = c.tokens k := by
  simp only [tokens, Connections.scope, openScope, List.getElem?_append]
  split
  · rfl
  · rename_i there
    rw [List.getElem?_eq_none (Nat.le_of_not_lt there)]
    cases k - c.scopes.length <;> rfl

theorem tokens_issue {i : Nat} (there : i < c.scopes.length) (k : Nat) :
    (c.issue i).2.tokens k =
      if k = i then c.tokens k ++ [c.cancelled.length] else c.tokens k := by
  have modified := tokens_modify c.newToken.2 i k fun s =>
    { s with tokens := s.tokens ++ [c.cancelled.length] }
  refine modified.trans ?_
  by_cases same : k = i
  · subst same
    simp [newToken, there, tokens, Connections.scope]
  · simp [newToken, same, tokens, Connections.scope]

/-- Whether every token that a scope holds was given out. -/
def Known (c : Connections) : Prop := ∀ i, ∀ t ∈ c.tokens i, t < c.cancelled.length

/-- Whether a token is one of a scope. -/
structure Gave (c : Connections) (scope token : Nat) : Prop where
  known : token < c.cancelled.length
  only : ∀ i, token ∈ c.tokens i → i = scope
  valid : c.isCancelled token = false → token ∈ c.tokens scope

/-- What becomes of connections where tokens are given out, and those of some scopes cancelled. -/
structure Becomes (c : Connections) (cut : Nat → Prop) (c' : Connections) : Prop where
  known : c.Known → c'.Known
  scopes : c.scopes.length ≤ c'.scopes.length
  gave : ∀ scope token, c.Gave scope token → c'.Gave scope token ∧
    (c'.isCancelled token = true ↔ c.isCancelled token = true ∨ cut scope)

theorem Becomes.of_same (cancelled : c'.cancelled = c.cancelled)
    (scopes : c.scopes.length ≤ c'.scopes.length) (same : ∀ k, c'.tokens k = c.tokens k) :
    c.Becomes (fun _ => False) c' where
  known h i t ht := by
    rw [cancelled]
    exact h i t (same i ▸ ht)
  scopes := scopes
  gave scope token h := by
    have still : c'.isCancelled token = c.isCancelled token := by rw [isCancelled, cancelled]; rfl
    refine ⟨⟨?_, fun i ht => h.only i (same i ▸ ht), fun valid => ?_⟩, by simp [still]⟩
    · rw [cancelled]
      exact h.known
    · rw [same]
      exact h.valid (still ▸ valid)

theorem Becomes.refl (c : Connections) : c.Becomes (fun _ => False) c :=
  .of_same rfl le_rfl fun _ => rfl

theorem Becomes.trans (h : c.Becomes cut c') (h' : c'.Becomes cut' d) :
    c.Becomes (fun i => cut i ∨ cut' i) d where
  known known := h'.known (h.known known)
  scopes := h.scopes.trans h'.scopes
  gave scope token given := by
    obtain ⟨given, first⟩ := h.gave scope token given
    obtain ⟨given, second⟩ := h'.gave scope token given
    exact ⟨given, by rw [second, first, or_assoc]⟩

theorem becomes_openScope (c : Connections) : c.Becomes (fun _ => False) c.openScope.2 :=
  .of_same rfl (by simp [openScope]) c.tokens_openScope

theorem becomes_flush (c : Connections) (i : Nat) : c.Becomes (· = i) (c.flush i) where
  known h k t ht := by
    rw [tokens_flush] at ht
    rw [length_flush]
    split at ht
    · cases ht
    · exact h k t ht
  scopes := by simp [flush, foldl_cancel_scopes]
  gave scope token h := by
    have cancelled := isCancelled_flush_iff h.known i
    refine ⟨⟨(c.length_flush i).symm ▸ h.known, fun k ht => ?_, fun valid => ?_⟩, ?_⟩
    · rw [tokens_flush] at ht
      split at ht
      · cases ht
      · exact h.only k ht
    · -- neither the token nor its scope is flushed
      rw [Bool.eq_false_iff, Ne, cancelled, not_or] at valid
      have listed := h.valid (Bool.eq_false_iff.mpr valid.2)
      rw [tokens_flush, if_neg]
      · exact listed
      · rintro rfl
        exact valid.1 listed
    · rw [cancelled, or_comm]
      by_cases valid : c.isCancelled token = true
      · simp [valid]
      · have listed := h.valid (Bool.eq_false_iff.mpr valid)
        have own : token ∈ c.tokens i ↔ scope = i :=
          ⟨fun ht => (h.only i ht).symm, fun same => same ▸ listed⟩
        rw [own]

theorem becomes_close (c : Connections) (i : Nat) : c.Becomes (· = i) (c.close i) := by
  have closed : (c.flush i).Becomes (fun _ => False) (c.close i) :=
    .of_same rfl (by simp [close]) (c.tokens_close i)
  simpa using (c.becomes_flush i).trans closed

theorem length_issue (c : Connections) (i : Nat) :
    (c.issue i).2.cancelled.length = c.cancelled.length + 1 := by
  simp [issue, newToken]

theorem becomes_issue {i : Nat} (there : i < c.scopes.length) :
    c.Becomes (fun _ => False) (c.issue i).2 where
  known h k t ht := by
    rw [tokens_issue there] at ht
    rw [length_issue]
    split at ht
    · rcases List.mem_append.mp ht with ht | ht
      · exact Nat.lt_succ_of_lt (h k t ht)
      · rw [List.mem_singleton.mp ht]
        exact Nat.lt_succ_self _
    · exact Nat.lt_succ_of_lt (h k t ht)
  scopes := by simp [issue, newToken]
  gave scope token h := by
    have still : (c.issue i).2.isCancelled token = c.isCancelled token := by
      simp [issue, newToken, isCancelled, List.getElem?_append_left h.known]
    have listed (k : Nat) : token ∈ (c.issue i).2.tokens k ↔ token ∈ c.tokens k := by
      rw [tokens_issue there]
      split
      · simp [h.known.ne]
      · rfl
    refine ⟨⟨?_, fun k ht => h.only k ((listed k).mp ht), fun valid => ?_⟩, by simp [still]⟩
    · rw [length_issue]
      exact Nat.lt_succ_of_lt h.known
    · exact (listed scope).mpr (h.valid (still ▸ valid))

theorem issue_gave {i : Nat} (known : c.Known) (there : i < c.scopes.length) :
    (c.issue i).2.Gave i c.cancelled.length where
  known := by
    rw [length_issue]
    exact Nat.lt_succ_self _
  only k ht := by
    rw [tokens_issue there] at ht
    split at ht
    · assumption
    · exact absurd (known k _ ht) (Nat.lt_irrefl _)
  valid _ := by simp [tokens_issue there]

end Connections
end RecordStore
