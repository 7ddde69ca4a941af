import RecordStore.Sorting

/-!
# Sorting loses nothing

Whatever the comparison answers, sorting by runs gives back the items it was given. Searching only
decides where a row is cut, and the two parts of a row always make up the row.
-/

set_option autoImplicit false

namespace RecordStore
namespace Sorting

open List

variable {α : Type}

theorem halve_le (isBefore : Nat → Bool) (low high : Nat) (h : low ≤ high) :
    halve isBefore low high ≤ high := by
  fun_induction halve isBefore low high with
  | case1 low high hlt middle _ ih => exact ih (by omega)
  | case2 low high hlt middle _ ih => exact Nat.le_trans (ih (by omega)) (by omega)
  | case3 low high hlt => exact h

section Runs

variable (precedes : α → α → Bool)

theorem insert_perm (items : List α) (a : α) : insert precedes items a ~ a :: items := by
  apply perm_insertIdx
  simpa using halve_le _ 0 items.toArray.size (Nat.zero_le _)

theorem runFrom_append (goesOn : α → α → Bool) (a : α) (items : List α) :
    (runFrom goesOn a items).1 ++ (runFrom goesOn a items).2 = items := by
  induction items generalizing a with
  | nil => rfl
  | cons b rest ih =>
    simp only [runFrom]
    split
    · simp [ih b]
    · rfl

theorem firstRun_perm (items : List α) :
    (firstRun precedes items).1 ++ (firstRun precedes items).2 ~ items := by
  match items with
  | [] => exact .refl _
  | [a] => exact .refl _
  | a :: b :: rest =>
    simp only [firstRun]
    split
    · have h := runFrom_append (fun x y => precedes y x) b rest
      exact ((reverse_perm _).append_right _).trans (.of_eq (by simp [h]))
    · have h := runFrom_append (fun x y => !precedes y x) b rest
      exact .of_eq (by simp [h])

theorem foldl_insert_perm (items run : List α) :
    items.foldl (insert precedes) run ~ run ++ items := by
  induction items generalizing run with
  | nil => simp
  | cons a rest ih =>
    calc rest.foldl (insert precedes) (insert precedes run a)
        ~ insert precedes run a ++ rest := ih _
      _ ~ (a :: run) ++ rest := (insert_perm precedes run a).append_right rest
      _ ~ run ++ a :: rest := perm_middle.symm

theorem longRun_perm (length : Nat) (items : List α) :
    (longRun precedes length items).1 ++ (longRun precedes length items).2 ~ items := by
  have hf := firstRun_perm precedes items
  simp only [longRun]
  generalize firstRun precedes items = parts at hf ⊢
  calc _ ~ (parts.1 ++ parts.2.take _) ++ parts.2.drop _ :=
        (foldl_insert_perm precedes _ _).append_right _
    _ ~ parts.1 ++ parts.2 := .of_eq (by rw [append_assoc, take_append_drop])
    _ ~ items := hf

theorem firstRun_ne_nil (a : α) (rest : List α) : (firstRun precedes (a :: rest)).1 ≠ [] := by
  match rest with
  | [] => simp [firstRun]
  | b :: rest =>
    simp only [firstRun]
    split <;> simp

theorem longRun_length_lt (length : Nat) (a : α) (rest : List α) :
    (longRun precedes length (a :: rest)).2.length < (a :: rest).length := by
  have hp := (firstRun_perm precedes (a :: rest)).length_eq
  have hn := length_pos_iff.mpr (firstRun_ne_nil precedes a rest)
  simp only [longRun]
  generalize firstRun precedes (a :: rest) = parts at hp hn ⊢
  rw [length_append] at hp
  rw [length_drop]
  omega

end Runs

namespace Merging

def content (m : Merging α) : List α := m.done ++ m.own ++ m.other

theorem takeOwn_perm (m : Merging α) (n : Nat) : (m.takeOwn n).content ~ m.content := by
  simp only [content, takeOwn]
  apply Perm.append_right
  calc (m.own.take n).reverse ++ m.done ++ m.own.drop n
      ~ m.done ++ (m.own.take n).reverse ++ m.own.drop n := perm_append_comm.append_right _
    _ ~ m.done ++ m.own.take n ++ m.own.drop n :=
        ((reverse_perm _).append_left _).append_right _
    _ ~ m.done ++ m.own := .of_eq (by rw [append_assoc, take_append_drop])

theorem takeOther_perm (m : Merging α) (n : Nat) : (m.takeOther n).content ~ m.content := by
  simp only [content, takeOther]
  calc (m.other.take n).reverse ++ m.done ++ m.own ++ m.other.drop n
      ~ (m.other.take n).reverse ++ (m.done ++ m.own) ++ m.other.drop n := .of_eq (by simp)
    _ ~ (m.done ++ m.own) ++ (m.other.take n).reverse ++ m.other.drop n :=
        perm_append_comm.append_right _
    _ ~ (m.done ++ m.own) ++ m.other.take n ++ m.other.drop n :=
        ((reverse_perm _).append_left _).append_right _
    _ ~ m.done ++ m.own ++ m.other := .of_eq (by rw [append_assoc, take_append_drop])

theorem andThen_perm (m : Merging α) (next : Merging α → Merging α)
    (h : (next m).content ~ m.content) : (m.andThen next).content ~ m.content := by
  simp only [andThen]
  split
  · exact .refl _
  · exact h

theorem patience_perm (m : Merging α) (n : Nat) : { m with patience := n }.content ~ m.content :=
  .refl _

theorem search_perm (t : Taking α) (m : Merging α) : (m.search t).1.content ~ m.content := by
  have first (x : Merging α) (n : Nat) :
      ((x.takeOther n).andThen (·.takeOwn 1)).content ~ x.content :=
    (andThen_perm _ _ (takeOwn_perm _ _)).trans (takeOther_perm _ _)
  have second (x : Merging α) (n : Nat) :
      ((x.takeOwn n).andThen (·.takeOther 1)).content ~ x.content :=
    (andThen_perm _ _ (takeOther_perm _ _)).trans (takeOwn_perm _ _)
  simp only [search]
  split
  · exact (andThen_perm _ _ (second _ _)).trans (first _ _)
  · exact (andThen_perm _ _ (first _ _)).trans (second _ _)

theorem go_perm (t : Taking α) (fuel : Nat) (inRow : Option (Nat × Nat)) (m : Merging α) :
    (go t fuel inRow m).content ~ m.content := by
  induction fuel generalizing inRow m with
  | zero => exact .refl _
  | succ fuel ih =>
    have searched := search_perm t m
    have onward (x : Merging α) (hx : x.content ~ m.content) (isSearch : Bool)
        (inRow : Option (Nat × Nat)) :
        (if isSearch then go t fuel none { x with patience := x.patience + 1 }
          else go t fuel inRow x).content ~ m.content := by
      split
      · exact (ih _ _).trans ((patience_perm x _).trans hx)
      · exact (ih _ _).trans hx
    simp only [go]
    split
    · exact .refl _
    · exact .refl _
    · exact .refl _
    · split
      · exact onward _ (takeOther_perm m 1) _ _
      · exact onward _ (takeOwn_perm m 1) _ _
    · split
      · exact searched
      · split
        · exact (ih _ _).trans searched
        · exact (ih _ _).trans ((patience_perm _ _).trans searched)

theorem result_perm (m : Merging α) : m.result ~ m.content := by
  simp only [result, content]
  split
  · rename_i h
    rw [isEmpty_iff.mp h, append_nil]
    exact (reverse_perm _).append_right _
  · calc m.done.reverse ++ m.other ++ m.own ~ m.done ++ m.other ++ m.own :=
          ((reverse_perm _).append_right _).append_right _
      _ ~ m.done ++ m.own ++ m.other := by
          rw [append_assoc, append_assoc]
          exact perm_append_comm.append_left _

theorem merge_perm (t : Taking α) (own other : List α) (patience : Nat) :
    (merge t own other patience).1 ~ own ++ other := by
  simp only [merge]
  exact (result_perm _).trans ((go_perm t _ _ _).trans (takeOther_perm _ _))

end Merging

section Merges

variable (precedes : α → α → Bool)

theorem mergeRuns_perm (first second : List α) (patience : Nat) :
    (mergeRuns precedes first second patience).1 ~ first ++ second := by
  simp only [mergeRuns]
  split
  · rename_i h
    rw [head?_eq_none_iff.mp h, append_nil]
  rename_i b hb
  generalize reach (fun a => !precedes b a) first 0 = n
  have hfirst : (first.splitAt n).1 ++ (first.splitAt n).2 = first := by
    simp [splitAt_eq]
  generalize first.splitAt n = front at hfirst ⊢
  split
  · rename_i h
    rw [← hfirst, getLast?_eq_none_iff.mp h, append_nil]
  rename_i a ha
  generalize reach (fun x => precedes x a) second (second.length - 1) = k
  have hsecond : (second.splitAt k).1 ++ (second.splitAt k).2 = second := by
    simp [splitAt_eq]
  generalize second.splitAt k = back at hsecond ⊢
  rw [← hfirst, ← hsecond]
  split
  · rename_i h
    simp [isEmpty_iff.mp h]
  have around {middle : List α} (h : middle ~ front.2 ++ back.1) :
      front.1 ++ middle ++ back.2 ~ front.1 ++ front.2 ++ (back.1 ++ back.2) :=
    ((h.append_left _).append_right _).trans (.of_eq (by simp))
  split
  · exact around (Merging.merge_perm _ _ _ _)
  · refine around ((reverse_perm _).trans ((Merging.merge_perm _ _ _ _).trans ?_))
    exact perm_append_comm.trans ((reverse_perm _).append (reverse_perm _))

namespace Stack

def content (s : Stack α) : List α := s.runs.flatMap (·.items)

theorem content_cons (run : Run α) (runs : List (Run α)) (patience : Nat) :
    (Stack.mk (run :: runs) patience).content = run.items ++ runs.flatMap (·.items) := rfl

theorem merge_items_perm (a b : Run α) (patience : Nat) :
    (a.merge precedes b patience).1.items ~ a.items ++ b.items :=
  mergeRuns_perm precedes a.items b.items patience

theorem settle_perm (depth fuel : Nat) (s : Stack α) :
    (settle precedes depth fuel s).content ~ s.content := by
  induction fuel generalizing s with
  | zero => exact .refl _
  | succ fuel ih =>
    obtain ⟨runs, patience⟩ := s
    match runs with
    | [] => exact .refl _
    | [_] => exact .refl _
    | b :: a :: rest =>
      simp only [settle]
      split
      · refine (ih _).trans ?_
        rw [content_cons, content_cons, flatMap_cons, ← append_assoc]
        exact ((merge_items_perm precedes a b patience).trans perm_append_comm).append_right _
      · exact .refl _

theorem push_perm (length : Nat) (s : Stack α) (run : Run α) :
    (push precedes length s run).content ~ run.items ++ s.content := by
  simp only [push]
  split
  · rename_i h
    simp [content, h]
  · rename_i last rest h
    generalize depthBetween length _ _ _ = depth
    have hs := settle_perm precedes depth s.runs.length s
    generalize settle precedes depth s.runs.length s = t at hs ⊢
    obtain ⟨runs, patience⟩ := t
    match runs with
    | [] =>
      rw [show s.content = [] from (perm_nil.mp hs.symm)]
      simp [content]
    | front :: others =>
      exact hs.append_left _

theorem finish_perm (fuel : Nat) (s : Stack α) (h : s.runs.length ≤ fuel) :
    finish precedes fuel s ~ s.content := by
  induction fuel generalizing s with
  | zero =>
    simp only [finish, content]
    exact (reverse_perm _).flatMap_right _
  | succ fuel ih =>
    obtain ⟨runs, patience⟩ := s
    match runs with
    | [] => exact .refl _
    | [c] => simp [finish, content]
    | [c, b] =>
      simp only [finish, content, flatMap_cons, flatMap_nil, append_nil]
      exact (merge_items_perm precedes b c patience).trans perm_append_comm
    | c :: b :: a :: rest =>
      simp only [length_cons] at h
      simp only [finish]
      split
      · refine (ih _ (by simp; omega)).trans ?_
        simp only [content_cons, flatMap_cons]
        rw [← append_assoc b.items]
        exact (((merge_items_perm precedes a b patience).trans perm_append_comm).append_right
          _).append_left _
      · refine (ih _ (by simp; omega)).trans ?_
        simp only [content_cons, flatMap_cons]
        rw [← append_assoc c.items]
        exact ((merge_items_perm precedes b c patience).trans perm_append_comm).append_right _

end Stack

theorem sortFrom_perm (length fuel position : Nat) (s : Stack α) (items : List α)
    (h : items.length < fuel) :
    sortFrom precedes length fuel position s items ~ s.content ++ items := by
  induction fuel generalizing position s items with
  | zero => omega
  | succ fuel ih =>
    match items with
    | [] =>
      simp only [sortFrom, append_nil]
      exact Stack.finish_perm precedes _ s (Nat.le_refl _)
    | a :: rest =>
      have hp := longRun_perm precedes (runLength length false) (a :: rest)
      have hl := longRun_length_lt precedes (runLength length false) a rest
      simp only [sortFrom]
      generalize longRun precedes (runLength length false) (a :: rest) = parts at hp hl ⊢
      refine (ih _ _ _ (by omega)).trans ?_
      calc _ ~ (parts.1 ++ s.content) ++ parts.2 :=
            (Stack.push_perm precedes length s _).append_right _
        _ ~ s.content ++ (parts.1 ++ parts.2) :=
            (perm_append_comm.append_right _).trans (.of_eq (append_assoc _ _ _))
        _ ~ s.content ++ a :: rest := hp.append_left _

theorem sort_perm (items : List α) : sort precedes items ~ items :=
  sortFrom_perm precedes items.length (items.length + 1) 0 _ items (Nat.lt_succ_self _)

end Merges

end Sorting
end RecordStore
