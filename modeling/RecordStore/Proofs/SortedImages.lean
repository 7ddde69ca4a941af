import Mathlib.Data.List.InsertIdx
import RecordStore.Sorting
import RecordStore.Value.Rank

/-!
# Sorted images

Which items a sort compares and where it puts them depends on nothing but what comes of comparing
them. So the images of some items are sorted as the items are if the images compare as they do, and
two comparisons that agree on some items sort these alike.
-/

set_option autoImplicit false

namespace RecordStore
namespace Sorting

variable {α β : Type} {f : α → β} {precedes : α → α → Bool} {precedes' : β → β → Bool}

theorem any_getElem?_map (f : α → β) (items : List α) (p : β → Bool) (i : Nat) :
    ((items.map f).toArray[i]?).any p = (items.toArray[i]?).any (fun a => p (f a)) := by
  simp only [List.getElem?_toArray, List.getElem?_map, Option.any_map]

theorem reach_map (f : α → β) (isBefore : β → Bool) (items : List α) (position : Nat) :
    reach isBefore (items.map f) position = reach (fun a => isBefore (f a)) items position := by
  simp only [reach, any_getElem?_map, List.size_toArray, List.length_map]

theorem insert_map (h : ∀ a b, precedes' (f a) (f b) = precedes a b) (items : List α) (a : α) :
    insert precedes' (items.map f) (f a) = (insert precedes items a).map f := by
  simp only [insert, any_getElem?_map, List.size_toArray, List.length_map, h, List.map_insertIdx]

theorem runFrom_map {p : α → α → Bool} {q : β → β → Bool} (h : ∀ a b, q (f a) (f b) = p a b)
    (a : α) (items : List α) :
    runFrom q (f a) (items.map f) =
      ((runFrom p a items).1.map f, (runFrom p a items).2.map f) := by
  induction items generalizing a with
  | nil => rfl
  | cons b rest ih =>
    rw [List.map_cons, runFrom, runFrom, h, ih b]
    split <;> rfl

theorem firstRun_map (h : ∀ a b, precedes' (f a) (f b) = precedes a b) (items : List α) :
    firstRun precedes' (items.map f) =
      ((firstRun precedes items).1.map f, (firstRun precedes items).2.map f) := by
  match items with
  | [] => rfl
  | [a] => rfl
  | a :: b :: rest =>
    have up := runFrom_map (p := fun x y => !precedes y x) (q := fun x y => !precedes' y x)
      (f := f) (fun x y => by rw [h]) b rest
    have down := runFrom_map (p := fun x y => precedes y x) (q := fun x y => precedes' y x)
      (f := f) (fun x y => by rw [h]) b rest
    rw [List.map_cons, List.map_cons, firstRun, firstRun, h, up, down]
    split <;> simp

theorem longRun_map (h : ∀ a b, precedes' (f a) (f b) = precedes a b) (length : Nat)
    (items : List α) :
    longRun precedes' length (items.map f) =
      ((longRun precedes length items).1.map f, (longRun precedes length items).2.map f) := by
  have inserted (items run : List α) :
      (items.map f).foldl (insert precedes') (run.map f) =
        (items.foldl (insert precedes) run).map f := by
    induction items generalizing run with
    | nil => rfl
    | cons a rest ih => rw [List.map_cons, List.foldl_cons, insert_map h, ih, List.foldl_cons]
  simp only [longRun, firstRun_map h, List.length_map, ← List.map_take, ← List.map_drop, inserted]

namespace Merging

def map (f : α → β) (m : Merging α) : Merging β :=
  ⟨m.done.map f, m.own.map f, m.other.map f, m.patience⟩

theorem isOver_map (m : Merging α) : (m.map f).isOver = m.isOver := by
  simp [isOver, map]

theorem takeOwn_map (m : Merging α) (n : Nat) : (m.map f).takeOwn n = (m.takeOwn n).map f := by
  simp [takeOwn, map, List.map_take, List.map_drop]

theorem takeOther_map (m : Merging α) (n : Nat) :
    (m.map f).takeOther n = (m.takeOther n).map f := by
  simp [takeOther, map, List.map_take, List.map_drop]

theorem result_map (m : Merging α) : (m.map f).result = m.result.map f := by
  simp only [result, map, List.isEmpty_map]
  split <;> simp

theorem andThen_map {next : Merging α → Merging α} {next' : Merging β → Merging β}
    (hn : ∀ m, next' (m.map f) = (next m).map f) (m : Merging α) :
    (m.map f).andThen next' = (m.andThen next).map f := by
  rw [andThen, andThen, isOver_map, hn]
  split <;> rfl

variable {t : Taking α} {t' : Taking β}

/-- Whether the items of a merge are taken as their images are. -/
structure Mirrors (f : α → β) (t : Taking α) (t' : Taking β) : Prop where
  takesOther : ∀ a b, t'.takesOther (f a) (f b) = t.takesOther a b
  fromEnd : t'.fromEnd = t.fromEnd

theorem Mirrors.lead (h : Mirrors f t t') (comesFirst : β → Bool) (items : List α) :
    t'.lead comesFirst (items.map f) = t.lead (fun a => comesFirst (f a)) items := by
  simp only [Taking.lead, h.fromEnd, List.length_map, ← List.map_reverse, reach_map]

theorem Mirrors.ownLead (h : Mirrors f t t') (m : Merging α) :
    (m.map f).ownLead t' = m.ownLead t := by
  simp only [Merging.ownLead, map, h.lead]
  cases m.other with
  | nil => rfl
  | cons b rest => simp [h.takesOther]

theorem Mirrors.otherLead (h : Mirrors f t t') (m : Merging α) :
    (m.map f).otherLead t' = m.otherLead t := by
  simp only [Merging.otherLead, map, h.lead]
  cases m.own with
  | nil => rfl
  | cons a rest => simp [h.takesOther]

theorem Mirrors.search (h : Mirrors f t t') (m : Merging α) :
    (m.map f).search t' = ((m.search t).1.map f, (m.search t).2) := by
  have own (m : Merging α) : (m.map f).andThen (·.takeOwn 1) = (m.andThen (·.takeOwn 1)).map f :=
    andThen_map (takeOwn_map · 1) m
  have other (m : Merging α) :
      (m.map f).andThen (·.takeOther 1) = (m.andThen (·.takeOther 1)).map f :=
    andThen_map (takeOther_map · 1) m
  have thenOwn (k : Nat) (m : Merging α) :
      (m.map f).andThen (fun m => (m.takeOther k).andThen (·.takeOwn 1)) =
        (m.andThen (fun m => (m.takeOther k).andThen (·.takeOwn 1))).map f :=
    andThen_map (fun m => by rw [takeOther_map, own]) m
  have thenOther (k : Nat) (m : Merging α) :
      (m.map f).andThen (fun m => (m.takeOwn k).andThen (·.takeOther 1)) =
        (m.andThen (fun m => (m.takeOwn k).andThen (·.takeOther 1))).map f :=
    andThen_map (fun m => by rw [takeOwn_map, other]) m
  have patient :
      { m.map f with
        patience := if (m.map f).patience > 1 then (m.map f).patience - 1 else
          (m.map f).patience } =
        ({ m with patience := if m.patience > 1 then m.patience - 1 else m.patience } :
          Merging α).map f := rfl
  simp only [Merging.search, patient, h.fromEnd, h.ownLead, h.otherLead, takeOwn_map, takeOther_map,
    own, other, isOver_map, thenOwn, thenOther]
  split <;> rfl

theorem Mirrors.go (h : Mirrors f t t') (fuel : Nat) (inRow : Option (Nat × Nat)) (m : Merging α) :
    Merging.go t' fuel inRow (m.map f) = (Merging.go t fuel inRow m).map f := by
  have patient (m : Merging α) (n : Nat) :
      { m.map f with patience := n } = ({ m with patience := n } : Merging α).map f := rfl
  have patience (m : Merging α) : (m.map f).patience = m.patience := rfl
  induction fuel generalizing inRow m with
  | zero => rfl
  | succ fuel ih =>
    have own : (m.map f).own = m.own.map f := rfl
    have other : (m.map f).other = m.other.map f := rfl
    rcases others : m.other with _ | ⟨b, bs⟩
    · rw [others] at other
      cases inRow <;> simp [Merging.go, others, other]
    rcases owns : m.own with _ | ⟨a, _ | ⟨a', rest⟩⟩
    · rw [owns] at own
      cases inRow <;> simp [Merging.go, others, other, owns, own]
    · rw [owns] at own
      cases inRow <;> simp [Merging.go, others, other, owns, own]
    rw [others] at other
    rw [owns] at own
    cases inRow with
    | some inRow =>
      simp only [Merging.go, owns, own, others, other, List.map_cons, h.takesOther]
      cases t.takesOther a b with
      | true =>
        simp only [if_true, takeOther_map, isOver_map, patience, patient, ih, ← apply_ite (map f)]
      | false =>
        simp only [Bool.false_eq_true, if_false, takeOwn_map, isOver_map, patience, patient, ih,
          ← apply_ite (map f)]
    | none =>
      simp only [Merging.go, owns, own, others, other, List.map_cons, h.search, isOver_map,
        patience, patient, ih, ← apply_ite (map f)]

theorem Mirrors.merge (h : Mirrors f t t') (own other : List α) (patience : Nat) :
    Merging.merge t' (own.map f) (other.map f) patience =
      ((Merging.merge t own other patience).1.map f, (Merging.merge t own other patience).2) := by
  have begun : (Merging.mk [] (own.map f) (other.map f) patience).takeOther 1 =
      ((Merging.mk [] own other patience).takeOther 1).map f :=
    takeOther_map (f := f) ⟨[], own, other, patience⟩ 1
  simp only [Merging.merge, begun, List.length_map, h.go, result_map]
  rfl

end Merging

theorem mergeRuns_map (h : ∀ a b, precedes' (f a) (f b) = precedes a b) (first second : List α)
    (patience : Nat) :
    mergeRuns precedes' (first.map f) (second.map f) patience =
      ((mergeRuns precedes first second patience).1.map f,
        (mergeRuns precedes first second patience).2) := by
  have ahead : Merging.Mirrors f ⟨fun x y => precedes y x, false⟩
      ⟨fun x y => precedes' y x, false⟩ :=
    ⟨fun a b => h b a, rfl⟩
  have behind : Merging.Mirrors f ⟨precedes, true⟩ ⟨precedes', true⟩ := ⟨h, rfl⟩
  cases second with
  | nil => rfl
  | cons b rest =>
    have consed : (b :: rest).map f = f b :: rest.map f := rfl
    simp only [mergeRuns, List.head?_map, List.head?_cons, Option.map_some, List.splitAt_eq,
      reach_map, h, ← List.map_take, ← List.map_drop, List.getLast?_map]
    cases ((first.drop (reach (fun a => !precedes b a) first 0)).getLast?) with
    | none => simp
    | some a =>
      simp only [Option.map_some, h, List.length_map, List.isEmpty_map, ahead.merge,
        ← List.map_reverse, behind.merge]
      split
      · simp
      · split <;> simp

namespace Run

def map (f : α → β) (r : Run α) : Run β := ⟨r.items.map f, r.start, r.depth⟩

theorem merge_map (h : ∀ a b, precedes' (f a) (f b) = precedes a b) (a b : Run α)
    (patience : Nat) :
    (a.map f).merge precedes' (b.map f) patience =
      ((a.merge precedes b patience).1.map f, (a.merge precedes b patience).2) := by
  simp only [merge, map, mergeRuns_map h]

end Run

namespace Stack

def map (f : α → β) (s : Stack α) : Stack β := ⟨s.runs.map (Run.map f), s.patience⟩

theorem settle_map (h : ∀ a b, precedes' (f a) (f b) = precedes a b) (depth fuel : Nat)
    (s : Stack α) :
    (s.map f).settle precedes' depth fuel = (s.settle precedes depth fuel).map f := by
  induction fuel generalizing s with
  | zero => rfl
  | succ fuel ih =>
    obtain ⟨runs, patience⟩ := s
    match runs with
    | [] => rfl
    | [b] => rfl
    | b :: a :: rest =>
      have next := ih ⟨(a.merge precedes b patience).1 :: rest, (a.merge precedes b patience).2⟩
      have merged := Run.merge_map h a b patience
      have begun : (map f ⟨b :: a :: rest, patience⟩).settle precedes' depth (fuel + 1) =
          if a.depth > depth then
            settle precedes' depth fuel
              ⟨((a.map f).merge precedes' (b.map f) patience).1 :: rest.map (Run.map f),
                ((a.map f).merge precedes' (b.map f) patience).2⟩
          else map f ⟨b :: a :: rest, patience⟩ := rfl
      rw [begun, merged, settle]
      dsimp only
      split
      · exact next
      · rfl

theorem push_map (h : ∀ a b, precedes' (f a) (f b) = precedes a b) (length : Nat) (s : Stack α)
    (run : Run α) :
    (s.map f).push precedes' length (run.map f) = (s.push precedes length run).map f := by
  obtain ⟨runs, patience⟩ := s
  cases runs with
  | nil => rfl
  | cons last rest =>
    have settled (depth : Nat) :=
      settle_map h depth (last :: rest).length ⟨last :: rest, patience⟩
    simp only [push, map, List.map_cons, List.length_cons, List.length_map, Run.map] at settled ⊢
    simp only [settled]
    generalize settle precedes _ _ _ = settled
    obtain ⟨_ | ⟨top, below⟩, patience⟩ := settled <;> rfl

theorem finish_map (h : ∀ a b, precedes' (f a) (f b) = precedes a b) (fuel : Nat) (s : Stack α) :
    (s.map f).finish precedes' fuel = (s.finish precedes fuel).map f := by
  induction fuel generalizing s with
  | zero =>
    simp only [finish, map, List.map_flatMap, ← List.map_reverse, List.flatMap_map]
    rfl
  | succ fuel ih =>
    obtain ⟨runs, patience⟩ := s
    match runs with
    | [] => rfl
    | [c] => rfl
    | [c, b] =>
      exact congrArg (fun p => p.1.items) (Run.merge_map h b c patience)
    | c :: b :: a :: rest =>
      have first := ih ⟨c :: (a.merge precedes b patience).1 :: rest,
        (a.merge precedes b patience).2⟩
      have last := ih ⟨(b.merge precedes c patience).1 :: a :: rest,
        (b.merge precedes c patience).2⟩
      have begun : (map f ⟨c :: b :: a :: rest, patience⟩).finish precedes' (fuel + 1) =
          if (a.items.map f).length < (c.items.map f).length then
            finish precedes' fuel
              ⟨c.map f :: ((a.map f).merge precedes' (b.map f) patience).1 :: rest.map (Run.map f),
                ((a.map f).merge precedes' (b.map f) patience).2⟩
          else
            finish precedes' fuel
              ⟨((b.map f).merge precedes' (c.map f) patience).1 :: a.map f :: rest.map (Run.map f),
                ((b.map f).merge precedes' (c.map f) patience).2⟩ := rfl
      rw [begun, List.length_map, List.length_map, Run.merge_map h, Run.merge_map h, finish]
      dsimp only
      split
      · exact first
      · exact last

end Stack

theorem sortFrom_map (h : ∀ a b, precedes' (f a) (f b) = precedes a b) (length fuel position : Nat)
    (s : Stack α) (items : List α) :
    sortFrom precedes' length fuel position (s.map f) (items.map f) =
      (sortFrom precedes length fuel position s items).map f := by
  have finished (s : Stack α) : (s.map f).finish precedes' (s.map f).runs.length =
      (s.finish precedes s.runs.length).map f := by
    rw [Stack.finish_map h, Stack.map, List.length_map]
  induction fuel generalizing position s items with
  | zero => exact finished s
  | succ fuel ih =>
    cases items with
    | nil => exact finished s
    | cons a rest =>
      have cut := longRun_map h (runLength length false) (a :: rest)
      have begun : sortFrom precedes' length (fuel + 1) position (s.map f) ((a :: rest).map f) =
          sortFrom precedes' length fuel
            (position + (longRun precedes' (runLength length false) ((a :: rest).map f)).1.length)
            ((s.map f).push precedes' length
              ⟨(longRun precedes' (runLength length false) ((a :: rest).map f)).1, position, 0⟩)
            (longRun precedes' (runLength length false) ((a :: rest).map f)).2 := rfl
      have pushed := Stack.push_map h length s
        ⟨(longRun precedes (runLength length false) (a :: rest)).1, position, 0⟩
      rw [begun, cut, List.length_map]
      exact (congrArg (sortFrom precedes' length fuel _ · _) pushed).trans (ih _ _ _)

theorem sort_map (h : ∀ a b, precedes' (f a) (f b) = precedes a b) (items : List α) :
    sort precedes' (items.map f) = (sort precedes items).map f := by
  rw [sort, sort, List.length_map]
  exact sortFrom_map h _ _ _ ⟨[], _⟩ items

theorem sort_congr {precedes precedes' : α → α → Bool} {items : List α}
    (h : ∀ a ∈ items, ∀ b ∈ items, precedes' a b = precedes a b) :
    sort precedes' items = sort precedes items := by
  have attached (p : α → α → Bool) :
      sort p items = (sort (fun a b => p a.1 b.1) items.attach).map Subtype.val := by
    have sorted := sort_map (f := Subtype.val)
      (fun _ _ => rfl : ∀ a b : { a // a ∈ items }, p a.1 b.1 = p a.1 b.1) items.attach
    rwa [List.attach_map_subtype_val] at sorted
  have agree : (fun a b : { a // a ∈ items } => precedes' a.1 b.1) = fun a b =>
      precedes a.1 b.1 := by
    funext a b
    exact h a.1 a.2 b.1 b.2
  rw [attached, attached, agree]

end Sorting

theorem sortByStanding_congr {α : Type} {standing standing' : α → Standing} {items : List α}
    (h : ∀ a ∈ items, standing' a = standing a) (direction : Direction) :
    sortByStanding direction standing' items = sortByStanding direction standing items := by
  have ordered : (items.all fun a => (standing' a).isOrdered) =
      items.all fun a => (standing a).isOrdered := by
    rw [Bool.eq_iff_iff, List.all_eq_true, List.all_eq_true]
    exact forall₂_congr fun a ha => by rw [h a ha]
  have merged : items.mergeSort (fun a b => (standing' a).mayPrecede direction (standing' b)) =
      items.mergeSort fun a b => (standing a).mayPrecede direction (standing b) := by
    have mapped := List.map_mergeSort
      (r := fun a b => (standing' a).mayPrecede direction (standing' b))
      (s := fun a b => (standing a).mayPrecede direction (standing b)) (f := id) (l := items)
      fun a ha b hb => by rw [h a ha, h b hb, id, id]
    rwa [List.map_id, List.map_id] at mapped
  have sorted {items : List α} (h : ∀ a ∈ items, standing' a = standing a) :
      Sorting.sort (fun a b => (standing' a).precedes (standing' b)) items =
        Sorting.sort (fun a b => (standing a).precedes (standing b)) items :=
    Sorting.sort_congr fun a ha b hb => by rw [h a ha, h b hb]
  have reversed : ∀ a ∈ items.reverse, standing' a = standing a := fun a ha =>
    h a (List.mem_reverse.mp ha)
  rw [sortByStanding, sortByStanding, ordered, merged]
  dsimp only
  rw [sorted h, sorted reversed]

end RecordStore
