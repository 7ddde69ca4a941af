import RecordStore.Query.Compile
import RecordStore.Proofs.SameKeys

/-!
# Joining drafts

Every filter step can be taken on an empty draft by itself. Taking it on any other draft comes to
joining the two, as long as they can stand together: a look-up stands with nothing, and ancestors
have to be the same. So a list of steps does to a draft what it does to an empty one.
-/

set_option autoImplicit false

namespace RecordStore
namespace Draft

/-- A draft that asks for nothing yet. -/
structure IsBlank (d : Draft) : Prop where
  conditions : d.conditions = []
  arrangement : d.arrangement = []
  ancestor : d.ancestor = none
  keys : d.keys = none

/-- Two drafts whose demands can be made together. -/
structure Joinable (d e : Draft) : Prop where
  of_left : d.isLookup = true → e.IsBlank
  of_right : e.isLookup = true → d.IsBlank
  ancestors : ∀ j k, d.ancestor = some j → e.ancestor = some k → j.same k = true

/-- The demands of a draft and then those of another. -/
def join (d e : Draft) : Draft where
  kind := d.kind
  query := d.query
  conditions := d.conditions ++ e.conditions
  arrangement := d.arrangement ++ e.arrangement
  ancestor := e.ancestor.or d.ancestor
  keys := d.keys.or e.keys

@[simp] theorem join_conditions (d e : Draft) :
    (d.join e).conditions = d.conditions ++ e.conditions := rfl

@[simp] theorem join_ancestor (d e : Draft) :
    (d.join e).ancestor = e.ancestor.or d.ancestor := rfl

@[simp] theorem join_keys (d e : Draft) : (d.join e).keys = d.keys.or e.keys := rfl

theorem isBlank_iff (d : Draft) :
    d.IsBlank ↔
      (!d.conditions.isEmpty || !d.arrangement.isEmpty || d.ancestor.isSome || d.isLookup) =
        false := by
  constructor
  · rintro ⟨hc, hs, ha, hk⟩
    simp [hc, hs, ha, hk, isLookup]
  · intro h
    simp only [Bool.or_eq_false_iff, Bool.not_eq_false', List.isEmpty_iff, isLookup,
      Option.isSome_eq_false_iff, Option.isNone_iff_eq_none] at h
    exact ⟨h.1.1.1, h.1.1.2, h.1.2, h.2⟩

theorem start_isBlank (kind : Text) (query : Option Text) : (start kind query).IsBlank :=
  ⟨rfl, rfl, rfl, rfl⟩

theorem join_start (d : Draft) (kind : Text) (query : Option Text) :
    d.join (start kind query) = d := by
  simp [join, start]

theorem join_assoc (d e f : Draft) : (d.join e).join f = d.join (e.join f) := by
  simp [join, Option.or_assoc]

theorem isLookup_join (d e : Draft) : (d.join e).isLookup = (d.isLookup || e.isLookup) := by
  simp [isLookup]

theorem not_isLookup_of_isBlank {d : Draft} (h : d.IsBlank) : d.isLookup = false := by
  simp [isLookup, h.keys]

theorem isBlank_join_iff (d e : Draft) : (d.join e).IsBlank ↔ d.IsBlank ∧ e.IsBlank := by
  constructor
  · rintro ⟨hc, hs, ha, hk⟩
    obtain ⟨hc, hc'⟩ := List.append_eq_nil_iff.mp hc
    obtain ⟨hs, hs'⟩ := List.append_eq_nil_iff.mp hs
    obtain ⟨ha', ha⟩ := Option.or_eq_none_iff.mp ha
    obtain ⟨hk, hk'⟩ := Option.or_eq_none_iff.mp hk
    exact ⟨⟨hc, hs, ha, hk⟩, ⟨hc', hs', ha', hk'⟩⟩
  · rintro ⟨hd, he⟩
    exact ⟨by simp [join, hd.conditions, he.conditions], by simp
      [join, hd.arrangement, he.arrangement],
      by simp [join, hd.ancestor, he.ancestor], by simp [join, hd.keys, he.keys]⟩

theorem joinable_comm {d e : Draft} (h : Joinable d e) : Joinable e d := by
  refine ⟨h.of_right, h.of_left, fun j k hj hk => ?_⟩
  rw [Key.same_comm]
  exact h.ancestors k j hk hj

theorem joinable_of_isBlank {d : Draft} (e : Draft) (h : d.IsBlank) : Joinable d e := by
  refine ⟨fun hd => ?_, fun _ => h, fun j k hj _ => ?_⟩
  · rw [not_isLookup_of_isBlank h] at hd
    cases hd
  · rw [h.ancestor] at hj
    cases hj

theorem joinable_join_left {d e : Draft} (h : Joinable d e) (f : Draft) :
    Joinable (d.join e) f ↔ Joinable d f ∧ Joinable e f := by
  constructor
  · intro hf
    refine ⟨⟨fun hd => hf.of_left (by simp [isLookup_join, hd]), fun hl => ?_, fun j k hj hk => ?_⟩,
      ⟨fun he => hf.of_left (by simp [isLookup_join, he]), fun hl => ?_, fun j k hj hk => ?_⟩⟩
    · exact ((isBlank_join_iff d e).mp (hf.of_right hl)).1
    · cases he : e.ancestor with
      | none => exact hf.ancestors j k (by simp [he, hj]) hk
      | some i => exact Key.same_trans (h.ancestors j i hj he) (hf.ancestors i k (by simp [he]) hk)
    · exact ((isBlank_join_iff d e).mp (hf.of_right hl)).2
    · exact hf.ancestors j k (by simp [hj]) hk
  · rintro ⟨hd, he⟩
    refine ⟨fun hl => ?_, fun hl => ?_, fun j k hj hk => ?_⟩
    · rw [isLookup_join, Bool.or_eq_true] at hl
      exact hl.elim hd.of_left he.of_left
    · exact (isBlank_join_iff d e).mpr ⟨hd.of_right hl, he.of_right hl⟩
    · rw [join_ancestor, Option.or_eq_some_iff] at hj
      rcases hj with hj | ⟨-, hj⟩
      · exact he.ancestors j k hj hk
      · exact hd.ancestors j k hj hk

theorem joinable_join_right {e f : Draft} (h : Joinable e f) (d : Draft) :
    Joinable d (e.join f) ↔ Joinable d e ∧ Joinable d f := by
  constructor
  · intro hd
    obtain ⟨he, hf⟩ := (joinable_join_left h d).mp (joinable_comm hd)
    exact ⟨joinable_comm he, joinable_comm hf⟩
  · rintro ⟨he, hf⟩
    exact joinable_comm ((joinable_join_left h d).mpr ⟨joinable_comm he, joinable_comm hf⟩)

theorem joinable_assoc (d e f : Draft) :
    Joinable d e ∧ Joinable (d.join e) f ↔ Joinable e f ∧ Joinable d (e.join f) := by
  constructor
  · rintro ⟨hde, hf⟩
    obtain ⟨hdf, hef⟩ := (joinable_join_left hde f).mp hf
    exact ⟨hef, (joinable_join_right hef d).mpr ⟨hde, hdf⟩⟩
  · rintro ⟨hef, hd⟩
    obtain ⟨hde, hdf⟩ := (joinable_join_right hef d).mp hd
    exact ⟨hde, (joinable_join_left hde f).mpr ⟨hdf, hef⟩⟩

end Draft
end RecordStore
