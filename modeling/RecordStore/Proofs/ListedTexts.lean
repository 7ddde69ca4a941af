import RecordStore.Proofs.Beginnings
import RecordStore.Proofs.KeyOrder

/-!
# Beginnings of listed texts

A call for the texts with a beginning is compiled to two bounds, and a list meets a bound if one of
its items does. So a list is found if an item has the beginning, but also if one item lies before
all texts with the beginning and another behind them, since each of the two meets one of the bounds.
-/

set_option autoImplicit false

namespace RecordStore

namespace Text

theorem startsWith_iff {t p : Text} (ht : ∀ x ∈ t.points, x.isSurrogate = false)
    (hp : ∀ x ∈ p.points, x.isSurrogate = false)
    (room : ∀ c ∈ p.points.getLast?, Utf8.isRaisable c = true) :
    t.startsWith p = true ↔
      t.order p ≠ .lt ∧ ∀ upper, p.upperBound = .below upper → t.order upper = .lt := by
  rw [← liesAt_iff ht hp]
  obtain ⟨ps⟩ := p
  rcases List.eq_nil_or_concat' ps with rfl | ⟨q, c, rfl⟩
  · exact iff_of_true (by cases t; rfl) (liesAt_nil t)
  · have raisable : Utf8.isRaisable c = true := room c List.getLast?_concat
    rw [liesAt_concat, if_pos raisable]

theorem within_bounds_iff {ts : List Text} {p : Text}
    (hts : ∀ t ∈ ts, ∀ x ∈ t.points, x.isSurrogate = false)
    (hp : ∀ x ∈ p.points, x.isSurrogate = false)
    (room : ∀ c ∈ p.points.getLast?, Utf8.isRaisable c = true) :
    ((∃ t ∈ ts, t.order p ≠ .lt) ∧
        ∀ upper, p.upperBound = .below upper → ∃ t ∈ ts, t.order upper = .lt) ↔
      (∃ t ∈ ts, t.startsWith p = true) ∨
        (∃ t ∈ ts, t.order p = .lt) ∧ ∃ t ∈ ts, p.order t = .lt ∧ t.startsWith p = false := by
  have has (t : Text) (ht : t ∈ ts) := startsWith_iff (hts t ht) hp room
  have own : p.startsWith p = true := List.isPrefixOf_iff_prefix.mpr (List.prefix_refl p.points)
  constructor
  · rintro ⟨⟨t, ht, lower⟩, upper⟩
    by_cases inside : t.startsWith p = true
    · exact .inl ⟨t, ht, inside⟩
    have behind : p.order t = .lt := by
      refine Std.OrientedCmp.gt_iff_lt.mp ?_
      cases side : t.order p with
      | lt => exact absurd side lower
      | gt => rfl
      | eq =>
        obtain rfl : t = p := Std.LawfulEqCmp.eq_of_compare side
        exact absurd own inside
    cases bound : p.upperBound with
    | unencodable => exact absurd bound (upperBound_ne_unencodable hp)
    | unbounded => exact absurd ((has t ht).mpr ⟨lower, by simp [bound]⟩) inside
    | below limit =>
      obtain ⟨u, hu, less⟩ := upper limit bound
      by_cases side : u.order p = .lt
      · exact .inr ⟨⟨u, hu, side⟩, t, ht, behind, Bool.eq_false_iff.mpr inside⟩
      · refine .inl ⟨u, hu, (has u hu).mpr ⟨side, fun _ same => ?_⟩⟩
        cases bound.symm.trans same
        exact less
  · rintro (⟨t, ht, inside⟩ | ⟨⟨u, hu, before⟩, t, ht, behind, -⟩)
    · obtain ⟨lower, upper⟩ := (has t ht).mp inside
      exact ⟨⟨t, ht, lower⟩, fun limit bound => ⟨t, ht, upper limit bound⟩⟩
    · refine ⟨⟨t, ht, ?_⟩, fun limit bound => ⟨u, hu, ?_⟩⟩
      · rw [Std.OrientedCmp.gt_iff_lt.mpr behind]
        nofun
      · have below := ((startsWith_iff hp hp room).mp own).2 limit bound
        exact Std.TransCmp.lt_trans before below

end Text

namespace Candidate

variable {c : Candidate} {b : Bindings} {path : List Text} {m : Member}

/-- A query for the texts of a member that have a beginning selects a record with a list of texts if
one of them has the beginning. It selects it as well if one of them comes before the beginning and
another behind all texts that have it. -/
theorem beginning_finds_listed (hm : c.member path = .ok m) (stores : m.StoresTexts) {p : Text}
    (hp : ∀ x ∈ p.points, x.isSurrogate = false)
    (room : ∀ last ∈ p.points.getLast?, Utf8.isRaisable last = true) {x : Expr}
    (asks : AsksFor c b path p x) :
    ∃ e, (c.withFilter x).compileFilter b c.start = .ok e ∧
      ∀ (shown : Value → Except Fault Text) (s : Store), s.IsUp .scan →
        e.ScansFor shown s m.property ∧
        ∀ r ∈ s.records, r.kind = c.mapping.kind →
          ∀ v (ts : List Text), r.value? m.property = some v → Record.itemsOf v = ts.map .text →
            (∀ t ∈ ts, ∀ y ∈ t.points, y.isSurrogate = false) →
              (e.Finds shown s r ↔ (∃ t ∈ ts, t.startsWith p = true) ∨
                (∃ t ∈ ts, t.order p = .lt) ∧
                  ∃ t ∈ ts, p.order t = .lt ∧ t.startsWith p = false) := by
  obtain ⟨e, compiled, finds⟩ := compileFilter_beginning hm stores hp asks
  refine ⟨e, compiled, fun shown s up => ⟨(finds shown s up).1, ?_⟩⟩
  intro r hr hk v ts stored items hts
  rw [(finds shown s up).2 r hr hk, ← Text.within_bounds_iff hts hp room]
  simp only [Record.meets_texts stored items, Comparator.holds_greaterOrEqual_iff,
    Comparator.holds_less_iff]

def namedTwice : Record :=
  ⟨.root "Sign" (.number 1), [("name", .list [.text "a", .text "z"])]⟩

def letterCall : Expr := .call "startsWith" (.field ["name"]) [.literal (.text "m")]

/-- The names a and z are found for the letter m, which neither of them begins with. -/
theorem beginning_finds_listed_apart :
    ∃ e, (signs.withFilter letterCall).compileFilter bareBindings signs.start = .ok e ∧
      (∃ cursor, e.ScansTo (fun _ => .ok Text.empty) { signStore with records := [namedTwice] }
        cursor ∧ cursor.Gives namedTwice) ∧
      namedTwice.value? "name" = some (.list [.text "a", .text "z"]) ∧
      Text.startsWith "a" "m" = false ∧ Text.startsWith "z" "m" = false := by
  have asks : AsksFor signs bareBindings ["name"] "m" letterCall := ⟨_, _, rfl, .inl ⟨rfl, rfl⟩⟩
  have plain (t : Text) (h : t.points.all (fun x => !x.isSurrogate) = true) :
      ∀ x ∈ t.points, x.isSurrogate = false := by
    simpa using h
  have raisable : ∀ last ∈ (Text.ofString "m").points.getLast?, Utf8.isRaisable last = true := by
    rintro last ⟨⟩
    rfl
  obtain ⟨e, compiled, finds⟩ := beginning_finds_listed (m := signName) rfl ⟨rfl, rfl, rfl, rfl⟩
    (plain "m" rfl) raisable asks
  have up : Store.IsUp { signStore with records := [namedTwice] } .scan := List.forall_mem_nil _
  have names : ∀ t ∈ [Text.ofString "a", Text.ofString "z"],
      ∀ x ∈ t.points, x.isSurrogate = false :=
    List.forall_mem_cons.mpr ⟨plain "a" rfl, List.forall_mem_singleton.mpr (plain "z" rfl)⟩
  obtain ⟨scans, finds⟩ := finds (fun _ => .ok Text.empty) _ up
  have found := (finds namedTwice List.mem_cons_self rfl _ _ rfl rfl names).mpr
    (.inr ⟨⟨"a", .head _, by decide⟩, "z", .tail _ (.head _), by decide, by decide⟩)
  obtain ⟨cursor, answered⟩ := scans.answered (fun _ => ⟨_, rfl⟩) (by
    intro r hr v hv item hi
    obtain rfl := List.mem_singleton.mp hr
    obtain rfl := Option.some.inj hv
    obtain ⟨t, -, rfl⟩ := List.mem_map.mp (show item ∈ [Text.ofString "a", "z"].map .text from hi)
    trivial)
  exact ⟨e, compiled, ⟨cursor, answered, (scans.gives cursor answered _).mpr found⟩, rfl,
    by decide, by decide⟩

end Candidate
end RecordStore
