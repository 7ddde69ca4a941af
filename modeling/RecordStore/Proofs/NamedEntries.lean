import RecordStore.Text.Basic

/-!
# Looking up entries

Setting an entry changes what is found under its name and nothing else. Entries by name have
different names, and entries whose names differ are all among them.
-/

set_option autoImplicit false

namespace RecordStore

variable {α : Type}

@[simp] theorem lookupName_nil (name : Text) : lookupName name ([] : List (Text × α)) = none := rfl

theorem lookupName_cons (name : Text) (e : Text × α) (rest : List (Text × α)) :
    lookupName name (e :: rest) = if e.1 = name then some e.2 else lookupName name rest := by
  by_cases h : e.1 = name <;> simp [lookupName, h]

theorem lookupName_assignName (name field : Text) (a : α) (entries : List (Text × α)) :
    lookupName name (assignName field a entries) =
      if field = name then some a else lookupName name entries := by
  induction entries with
  | nil => simp [assignName, lookupName_cons]
  | cons e rest ih =>
    by_cases h : e.1 = field
    · by_cases hn : field = name <;> simp [assignName, lookupName_cons, h, hn]
    · rw [assignName, if_neg h, lookupName_cons, lookupName_cons, ih]
      by_cases hn : e.1 = name
      · have other : field ≠ name := fun hf => h (hn.trans hf.symm)
        simp [hn, other]
      · simp [hn]

theorem lookupName_foldl_of_not_mem {name : Text} {entries : List (Text × α)}
    (h : name ∉ entries.map (·.1)) (done : List (Text × α)) :
    lookupName name (entries.foldl (fun done e => assignName e.1 e.2 done) done) =
      lookupName name done := by
  induction entries generalizing done with
  | nil => rfl
  | cons e rest ih =>
    obtain ⟨he, hrest⟩ := not_or.mp (mt List.mem_cons.mpr h)
    rw [List.foldl_cons, ih hrest, lookupName_assignName, if_neg (Ne.symm he)]

theorem lookupName_foldl_of_mem {entries : List (Text × α)} (h : (entries.map (·.1)).Nodup)
    {e : Text × α} (he : e ∈ entries) (done : List (Text × α)) :
    lookupName e.1 (entries.foldl (fun done e => assignName e.1 e.2 done) done) = some e.2 := by
  induction entries generalizing done with
  | nil => cases he
  | cons x rest ih =>
    obtain ⟨hx, hrest⟩ := List.nodup_cons.mp h
    rw [List.foldl_cons]
    rcases List.mem_cons.mp he with rfl | he
    · rw [lookupName_foldl_of_not_mem hx, lookupName_assignName, if_pos rfl]
    · exact ih hrest he _

theorem mem_assignName {name : Text} {a : α} {entries : List (Text × α)} {e : Text × α}
    (h : e ∈ assignName name a entries) : e = (name, a) ∨ e ∈ entries := by
  induction entries with
  | nil => exact .inl (List.mem_singleton.mp h)
  | cons x rest ih =>
    by_cases hx : x.1 = name
    · rw [assignName, if_pos hx, hx] at h
      exact (List.mem_cons.mp h).imp_right (.tail _)
    · rw [assignName, if_neg hx] at h
      rcases List.mem_cons.mp h with rfl | h
      · exact .inr (.head _)
      · exact (ih h).imp_right (.tail _)

theorem names_assignName (name : Text) (a : α) (entries : List (Text × α)) :
    (assignName name a entries).map (·.1) =
      if name ∈ entries.map (·.1) then entries.map (·.1) else entries.map (·.1) ++ [name] := by
  induction entries with
  | nil => rfl
  | cons e rest ih =>
    by_cases h : e.1 = name
    · simp [assignName, h]
    · rw [assignName, if_neg h, List.map_cons, ih]
      by_cases hn : name ∈ rest.map (·.1) <;> simp [hn, Ne.symm h]

theorem mem_byName {entries : List (Text × α)} : ∀ e ∈ byName entries, e ∈ entries := by
  apply List.foldlRecOn (motive := fun done : List (Text × α) => ∀ e ∈ done, e ∈ entries)
  · simp
  · intro done hd x hx e he
    rcases mem_assignName he with rfl | he
    · exact hx
    · exact hd e he

theorem nodup_byName (entries : List (Text × α)) : ((byName entries).map (·.1)).Nodup := by
  apply List.foldlRecOn (motive := fun done : List (Text × α) => (done.map (·.1)).Nodup)
  · exact .nil
  · intro done hd x _
    rw [names_assignName]
    by_cases hx : x.1 ∈ done.map (·.1)
    · rwa [if_pos hx]
    · rw [if_neg hx]
      exact List.nodup_append.mpr ⟨hd, by simp, by
        intro a ha b hb
        rw [List.mem_singleton.mp hb]
        exact fun same => hx (same ▸ ha)⟩

theorem mem_names_foldl (name : Text) (entries done : List (Text × α)) :
    name ∈ (entries.foldl (fun done e => assignName e.1 e.2 done) done).map (·.1) ↔
      name ∈ entries.map (·.1) ∨ name ∈ done.map (·.1) := by
  induction entries generalizing done with
  | nil => simp
  | cons e rest ih =>
    rw [List.foldl_cons, ih, names_assignName, List.map_cons, List.mem_cons]
    by_cases he : e.1 ∈ done.map (·.1)
    · rw [if_pos he]
      constructor
      · exact Or.imp_left .inr
      · rintro ((rfl | h) | h)
        · exact .inr he
        · exact .inl h
        · exact .inr h
    · rw [if_neg he, List.mem_append, List.mem_singleton, or_comm (a := name ∈ done.map (·.1)),
        ← or_assoc, or_comm (b := name = e.1)]

theorem mem_names_byName (name : Text) (entries : List (Text × α)) :
    name ∈ (byName entries).map (·.1) ↔ name ∈ entries.map (·.1) :=
  (mem_names_foldl name entries []).trans (or_iff_left (by simp))

theorem isSome_lookupName_iff (name : Text) (entries : List (Text × α)) :
    (lookupName name entries).isSome = true ↔ name ∈ entries.map (·.1) := by
  rw [lookupName, Option.isSome_map, List.find?_isSome, List.mem_map]
  simp

theorem lookupName_byName {entries : List (Text × α)} (h : (entries.map (·.1)).Nodup)
    {e : Text × α} (he : e ∈ entries) : lookupName e.1 (byName entries) = some e.2 :=
  lookupName_foldl_of_mem h he []

end RecordStore
