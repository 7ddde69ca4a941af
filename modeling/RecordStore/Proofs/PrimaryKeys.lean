import RecordStore.Proofs.AgreeingReads
import RecordStore.Proofs.KeyQueries
import RecordStore.Proofs.KeyTokens
import RecordStore.Proofs.RoundTrip

/-!
# Objects found by their primary keys

An object that was put can be looked for under the value that its primary key has then. The object
itself is given out where the value leads back to the key that the object was put under. A filter
takes a text for a token wherever it is one, and looking for the object of a class never does.
-/

set_option autoImplicit false

namespace RecordStore

open Attempt

namespace Rows

variable {σ α β : Type} {m : RowMaker σ α β}

theorem toList_one {d : Delivery α} {token : Nat} {s t u : σ} {a : α} {b : β}
    (valid : m.isCancelled s token = false) (received : (m.receive d).on s = (.ok a, t))
    (made : (m.make a).on t = (.ok b, u)) (still : m.isCancelled u token = false)
    (query : Option Text) :
    ∃ r, (toList m).on (start [d] (some token) query, s) = (.ok [b], (r, u)) := by
  let first : Rows α β := start [d] (some token) query
  let last : Rows α β := { first with pending := [], ready := [b] }
  have goes : first.Goes m s := ⟨rfl, valid⟩
  have behind : last.Goes m u := ⟨rfl, still⟩
  have one : (pull m).on (first, s) = (.ok true, (last, u)) := pull_made goes rfl received made
  have none : (pull m).on (last, u) = (.ok false, ({ last with isExhausted := true }, u)) :=
    pull_nil behind rfl
  refine ⟨{ last with isExhausted := true }, ?_⟩
  have at_first : (row? m 0).on (first, s) = (.ok (some b), (last, u)) := by
    have filled : (fillTo m 0).on (first, s) = (.ok true, (last, u)) := by
      show (pullMany m 1).on (first, s) = _
      rw [pullMany, on_bind_of_ok one]
      rfl
    rw [row?, on_bind_of_ok filled]
    rfl
  have behind : (row? m 1).on (last, u) =
      (.ok Option.none, ({ last with isExhausted := true }, u)) := by
    have filled : (fillTo m 1).on (last, u) =
        (.ok false, ({ last with isExhausted := true }, u)) := by
      show (pullMany m 1).on (last, u) = _
      rw [pullMany, on_bind_of_ok none]
      rfl
    rw [row?, on_bind_of_ok filled]
    rfl
  show (rowsFrom m 0 2).on (first, s) = _
  rw [rowsFrom, on_bind_of_ok at_first]
  dsimp only
  rw [rowsFrom, bind_assoc, on_bind_of_ok behind]
  rfl

end Rows

namespace Comparison

variable {q : Comparison} {d : Database} {mapping : ClassMapping} {m : Member} {v w : Value}
  {k : Key} {r : Record}

theorem IsCarriedOutBy.compile_key {e : Execution} {now : Moment}
    (out : q.IsCarriedOutBy d now v e) (hm : e.candidate.mapping.IsKeyed q.member m)
    (asked : v.bareKey? e.candidate.mapping.kind = some k) :
    e.candidate.compile (d.bindings (q.operand.parameters v) now) ⟨.whole, []⟩ =
      .ok (.selection (.byKey e.candidate.mapping.kind k)) := by
  obtain ⟨a, statement⟩ := out.statement_eq
  have value := q.operand.operandValue_expr e.candidate d v now
  rcases Candidate.compile_single statement hm value (Value.isBare_of_bareKey? asked) with
    ⟨k', hk', compiled⟩ | ⟨missing, -⟩
  · obtain rfl := Option.some.inj (asked.symm.trans hk')
    exact compiled
  · cases asked.symm.trans missing

variable (q) (mapped : d.registry.get? q.className = some mapping)
  (hm : mapping.IsKeyed q.member m) (asked : v.bareKey? mapping.kind = some k) (now : Moment)
include mapped hm asked

theorem rows_of_unwritten (long : ¬k.IsShort) :
    ∃ f, ((Read.query (q.statement v) ⟨none, none⟩ (q.operand.parameters v) now).perform.on d).1 =
      .error f := by
  obtain ⟨e, rfl, out⟩ := q.exists_isCarriedOutBy mapped now v
  have unwritten := mt (Store.canWrite_byKey_iff d e.candidate.mapping.kind k).mp long
  obtain ⟨f, failed⟩ := out.unwritten _ (out.compile_key hm asked) unwritten
  have failed : (Database.execute (q.statement v) ⟨none, none⟩ (q.operand.parameters v) now).on d =
      _ := failed
  exact ⟨f, by rw [Read.perform, on_bind, failed]⟩

theorem rows_of_holds (sound : d.Sound) (idle : d.store.current = none)
    (cached : q.reader d mapping = ⟨mapping, .whole false⟩) (kind : k.kind = mapping.kind)
    (short : k.IsShort) (stored : d.store.find? k = some r)
    (alone : ∀ x ∈ d.store.records, x.key.order k = .eq → x.key.same k = true)
    (holds : d.workspace.Holds r.key w) :
    ((Read.query (q.statement v) ⟨none, none⟩ (q.operand.parameters v) now).perform.on d).1 =
      .ok (.rows [w]) := by
  obtain ⟨e, rfl, out⟩ := q.exists_isCarriedOutBy mapped now v
  let scan : Selection := .byKey e.candidate.mapping.kind k
  have whole : Cursor.stretch e.window = .ok (0, none) := by
    rw [out.window_eq]
    rfl
  let last := (d.compiled (.selection scan)).scanned
  let token := d.connections.cancelled.length
  let reader : RowReader := ⟨e.candidate.mapping, .whole false⟩
  have ran : (Database.execute (q.statement v) ⟨none, none⟩ (q.operand.parameters v) now).on d =
      (.ok (.rows (Rows.start [⟨.ok r, some 0⟩] (some token) e.candidate.query) reader), last) := by
    have answered : Store.CanScan d.shown scan e.window d.store.records := by
      rw [out.window_eq]
      exact Store.canScan_byKey d _ short _
    have scanned := e.scan_select_on (d := d.compiled (.selection scan)) scan sound idle
      out.selects out.form_ne_count whole answered
    have one : Cursor.stretchOf (0, none)
        (Store.given (d.compiled (.selection scan)).shown scan false d.store.records) = [r] := by
      show Store.given d.shown scan false d.store.records = [r]
      rw [Store.given_byKey sound d.shown kind alone, stored]
      rfl
    have same : e.reader (d.compiled (.selection scan)).settings.query = reader :=
      out.reader_eq.trans cached
    rw [same, show (d.compiled (.selection scan)).store = d.store from rfl, one] at scanned
    have written := (Store.canWrite_byKey_iff d e.candidate.mapping.kind k).mpr short
    exact (out.compiled _ (out.compile_key hm asked) written).trans scanned
  have runs := runs_whole e.candidate.mapping r.key w token
  have valid : last.connections.isCancelled token = false := d.connections.isCancelled_issue d.scope
  obtain ⟨t, received, -, still, held⟩ :=
    runs.receive_on r (some 0) (s := last) ⟨sound.congr rfl rfl, valid, holds⟩
  have made : (reader.maker.make r).on t = (.ok w, t) := by
    show (Database.onWorkspace (Workspace.loadWhole e.candidate.mapping r false)).on t = _
    rw [Database.onWorkspace, on_zoom, Workspace.loadWhole_on_of_holds held]
  obtain ⟨rows, all⟩ := Rows.toList_one valid received made still e.candidate.query
  have read : (reader.readAll (Rows.start [⟨.ok r, some 0⟩] (some token) e.candidate.query)).on
      last = (.ok [w], t) := by
    rw [RowReader.readAll, on_zoom, all]
  rw [Read.perform, on_bind_of_ok ran]
  dsimp only
  rw [on_bind_of_ok read, on_pure]

end Comparison

section Tokens

theorem Utf8.length_le_encodePoints {cs : List CodePoint} {bs : Bytes}
    (h : encodePoints cs = some bs) : cs.length ≤ bs.length := by
  induction cs generalizing bs with
  | nil => exact Nat.zero_le _
  | cons c cs ih =>
    obtain ⟨first, more, hc, hcs, rfl⟩ := encodePoints_cons_eq_some h
    have shorter := ih hcs
    have some_byte : 0 < first.length := by
      unfold encodePoint at hc
      grind
    rw [List.length_append, List.length_cons]
    omega

theorem Base64.length_le_encodePoints (bs : Bytes) : bs.length ≤ (encodePoints bs).length := by
  fun_induction encodePoints bs with
  | case1 => exact Nat.le_refl 0
  | case2 a =>
    show 1 ≤ 2
    omega
  | case3 a b =>
    show 2 ≤ 3
    omega
  | case4 a b c rest ih =>
    simp only [List.length_append, List.length_cons, List.length_nil]
    omega

theorem Json.length_lt_quote (t : Text) : t.length < (quote t).points.length := by
  have escaped (c : CodePoint) : 0 < (escape c).length := by
    unfold escape
    split <;> try exact Nat.zero_lt_succ _
    split
    · exact Nat.zero_lt_one
    · unfold units
      split <;> exact Nat.zero_lt_succ _
  have longer : t.points.length ≤ (t.points.flatMap escape).length := by
    induction t.points with
    | nil => exact Nat.zero_le _
    | cons c cs ih =>
      have one := escaped c
      rw [List.flatMap_cons, List.length_append, List.length_cons]
      omega
  rw [quote, Text.length]
  simp only [List.length_append, List.length_cons, List.length_nil]
  omega

theorem Key.length_lt_token (kind t : Text) : t.length < (root kind (.name t)).token.length := by
  let k : Key := root kind (.name t)
  have unsurrogate : ∀ c ∈ k.json.write.points, c.isSurrogate = false := by
    intro c hc
    have := chars_lt_json k c hc
    rw [CodePoint.isSurrogate_eq_false_iff]
    omega
  obtain ⟨bs, encoded, -⟩ := Utf8.decodeStrict?_encode unsurrogate
  have token : k.token = Base64.encode bs := by rw [Key.token, word, encoded, Option.getD_some]
  have quoted := Json.length_lt_quote t
  have bytes := Utf8.length_le_encodePoints encoded
  have letters := Base64.length_le_encodePoints bs
  have written : (Json.quote t).points.length ≤ k.json.write.points.length := by
    have path : k.json = .list [.list [.text kind, .text t]] := rfl
    rw [path, Json.points_write_list, Json.points_write_list, Json.write]
    simp only [List.length_append, List.flatMap_cons, Json.write]
    omega
  rw [token]
  show _ < (Base64.encodePoints bs).length
  omega

theorem Key.not_same_of_token (kind : Text) (k : Key) :
    (root kind (.name k.token)).same k = false := by
  refine Bool.eq_false_iff.mpr fun same => ?_
  have normal : k.normal = root kind (.name k.token) := ((same_iff _ _).mp same).symm
  have own : k = root kind (.name k.token) := by
    cases k with
    | child parent kind id => cases normal
    | root kind id =>
      cases id with
      | name t => exact normal
      | _ => cases normal
  have shorter := length_lt_token kind k.token
  rw [← own] at shorter
  exact Nat.lt_irrefl _ shorter

end Tokens

namespace Member

variable {m : Member} {k : Key} {kind : Text}

/-- Whether a filter takes what a primary key gives out of a key for that key. -/
inductive LeadsBack (m : Member) (kind : Text) : Key → Prop
  | key (k : Key) (plain : m.traits.isEncoded = false) (whole : m.givesKey = true) :
      LeadsBack m kind k
  | token (k : Key) (encoded : m.traits.isEncoded = true) (carried : k.IsPlain) : LeadsBack m kind k
  | number (n : Int) (plain : m.traits.isEncoded = false)
      (declared : m.traits.declared = .integer) : LeadsBack m kind (.root kind (.number n))
  | name (t : Text) (problem : KeyProblem) (plain : m.traits.isEncoded = false)
      (declared : m.traits.declared = .text) (untaken : Key.ofToken t = .error (.badKey problem)) :
      LeadsBack m kind (.root kind (.name t))

theorem LeadsBack.bareKey?_keyValue (h : m.LeadsBack kind k) :
    (m.keyValue k).bareKey? kind = some k := by
  cases h with
  | key k plain whole => rw [(Identifies.key plain whole).keyValue_eq, Value.bareKey?]
  | token k encoded carried =>
    have read := Key.ofToken_token carried
    rw [(Identifies.token encoded read).keyValue_eq, Value.bareKey?, read]
  | number n plain declared =>
    rw [(Identifies.number n plain declared rfl).keyValue_eq, Value.bareKey?]
  | name t problem plain declared untaken =>
    rw [(Identifies.name t plain declared rfl).keyValue_eq, Value.bareKey?, untaken]

theorem identifies_keyValue (plain : m.traits.isEncoded = false) (known : m.keyValue k ≠ .null) :
    m.Identifies k (m.keyValue k) := by
  cases declared : m.traits.declared with
  | integer =>
    have value : m.keyValue k = Value.ofOption Value.ofIdentity k.numberOf := by
      simp [keyValue, plain, declared, DeclaredType.isInteger]
    rw [value, Key.numberOf] at known ⊢
    cases id : k.id with
    | number n => exact .number n plain declared id
    | flag b => exact .flag b plain declared id
    | _ =>
      rw [id] at known
      exact absurd rfl known
  | text =>
    have value : m.keyValue k = Value.ofOption Value.text k.nameOf := by
      simp [keyValue, plain, declared, DeclaredType.isInteger, DeclaredType.isText]
    rw [value, Key.nameOf] at known ⊢
    cases id : k.id with
    | name t => exact .name t plain declared id
    | _ =>
      rw [id] at known
      exact absurd rfl known
  | _ =>
    have whole : m.givesKey = true := by
      simp [givesKey, plain, declared, DeclaredType.isInteger, DeclaredType.isText]
    have identifies := Identifies.key (k := k) plain whole
    rwa [identifies.keyValue_eq]

end Member

namespace Database

variable {d after : Database} {i : ObjectId} {mapping : ClassMapping} {m : Member} {k : Key}

/-- Looking for an object of a class takes what a primary key gives out for the key, if it is the
whole key or tells apart the roots of the class. -/
theorem keyIn_keyValue (d : Database) (plain : m.traits.isEncoded = false)
    (known : m.keyValue k ≠ .null) (named : mapping.kind.isEmpty = false)
    (rooted : m.givesKey = true ∨ k = .root mapping.kind k.id) :
    d.keyIn mapping (m.keyValue k) = .ok k := by
  have identifies := Member.identifies_keyValue plain known
  have part (declared : (m.traits.declared.isInteger || m.traits.declared.isText) = true) :
      k = .root mapping.kind k.id := by
    refine rooted.resolve_left fun whole => ?_
    rw [Member.givesKey, plain, declared] at whole
    cases whole
  have made {v : Value} (single : d.keyIn mapping v = Key.make d.heap none mapping.kind v)
      (declared : (m.traits.declared.isInteger || m.traits.declared.isText) = true)
      (id : v.identity? = some k.id) : d.keyIn mapping v = .ok k := by
    rw [single, Key.make, if_neg (by rw [named]; decide), id]
    exact congrArg Except.ok (part declared).symm
  generalize m.keyValue k = v at identifies
  cases identifies with
  | token encoded => exact absurd (encoded.symm.trans plain) (by decide)
  | number n _ declared id | flag b _ declared id | name t _ declared id =>
    exact made rfl (by rw [declared]; rfl) (by rw [id]; rfl)
  | key => rfl

theorem valueUnder_of_put (within : i < d.heap.size) (plain : (d.heap.object i).isKey = false)
    (idle : d.store.current = none) (mapped : d.mappingOfValue (.object i) = .ok mapping)
    (primary : mapping.primary? = some m) (hput : (put (.object i)).on d = (.ok k, after)) :
    after.heap.valueUnder m.name (.object i) = m.keyValue k := by
  obtain ⟨found, x, s, t, hm, -, -, -, assigned, -⟩ := put_spec idle hput
  obtain rfl : mapping = found := Except.ok.inj (mapped.symm.trans hm)
  have object := Heap.object_set_self within m.name (m.keyValue k)
  have shape : ((d.heap.object i).set m.name (m.keyValue k)).shape ≠ .ofKey := by
    intro shape
    rw [Object.isKey, show (d.heap.object i).shape = .ofKey from shape] at plain
    cases plain
  rw [assigned m primary, Heap.valueUnder_object (by rw [object]; exact fun h => absurd h shape),
    Heap.get?, object, Object.get?_set, if_pos rfl]
  rfl

/-- An object that was put is found again under the value of its primary key. Looking for an object
of the class finds it if the value is the whole key, or if the key is a root of the class's kind. It
does not where the value is a token, which is taken for the name of another key. A query finds the
object, and it alone, if the filter takes the value for the key, no other key counts for the same
and the key can be written. -/
theorem put_found_again (reached : d.Reachable) (idle : d.store.current = none)
    (cached : d.settings.query.ignoreCache.isTrue = false) (within : i < d.heap.size)
    (plain : (d.heap.object i).isKey = false)
    (mapped : d.mappingOfValue (.object i) = .ok mapping) (named : mapping.kind.isEmpty = false)
    (primary : mapping.primary? = some m) (hput : (put (.object i)).on d = (.ok k, after)) :
    let className := d.heap.classOf (.object i)
    let v := after.heap.valueUnder m.name (.object i)
    (m.traits.isEncoded = false → v ≠ .null →
      (m.givesKey = true ∨ k = .root mapping.kind k.id) →
        ((find? className v).on after).1 = .ok (some (.object i))) ∧
    (m.traits.isEncoded = true →
      let j : Key := .root mapping.kind (.name k.token)
      v = .text k.token ∧ j.same k = false ∧
        (after.store.find? j = none → ((find? className v).on after).1 = .ok none)) ∧
    ∀ (q : Comparison) (now : Moment), q.className = className →
      lookupName "ignore_cache" q.extensions = none → mapping.IsKeyed q.member m →
      k.kind = mapping.kind → m.LeadsBack mapping.kind k →
      (∀ x ∈ after.store.records, x.key.order k = .eq → x.key.same k = true) →
        let found := (Read.query (q.statement v) ⟨none, none⟩ (q.operand.parameters v) now).perform
        (k.IsShort → (found.on after).1 = .ok (.rows [.object i])) ∧
          (¬k.IsShort → ∃ f, (found.on after).1 = .error f) := by
  intro className v
  have value : v = m.keyValue k := valueUnder_of_put within plain idle mapped primary hput
  obtain ⟨-, -, -, -, -, -, -, done, -⟩ := put_spec idle hput
  obtain ⟨r, hr, rfl⟩ := done.stored
  have sound : after.Sound := reached.sound.of_put hput
  have stored : after.store.find? r.key = some r :=
    Store.find?_of_mem sound.apart hr (Key.same_self _)
  have still : after.store.current = none := done.current.trans idle
  have required : after.registry.require className = .ok mapping := by
    rw [done.registry]
    exact mapped
  have uncached : after.settings.query.ignoreCache.isTrue = false := by rwa [done.settings]
  rw [value]
  -- a read by the key, a read by its token, and a query
  refine ⟨fun unencoded known rooted => ?_, fun encoded => ?_,
    fun q now of_class plain_query keyed kind leads alone => ?_⟩
  · have asked := keyIn_keyValue after unencoded known named rooted
    exact find?_of_holds sound still uncached required asked stored done.holds
  · have token : m.keyValue r.key = .text r.key.token := by rw [Member.keyValue, if_pos encoded]
    have asked : after.keyIn mapping (.text r.key.token) =
        .ok (.root mapping.kind (.name r.key.token)) := by
      simp only [keyIn, Key.make, named]
      rfl
    refine ⟨token, Key.not_same_of_token _ _, fun missing => ?_⟩
    rw [token]
    exact find?_of_missing sound still required asked missing
  · have reader : q.reader after mapping = ⟨mapping, .whole false⟩ := by
      rw [Comparison.reader, plain_query, Option.getD_none, uncached]
    have known : after.registry.get? q.className = some mapping := by
      rw [of_class]
      exact Registry.get?_of_require required
    intro found
    have asked := leads.bareKey?_keyValue
    exact ⟨fun short =>
        q.rows_of_holds known keyed asked now sound still reader kind short stored alone done.holds,
      fun long => q.rows_of_unwritten known keyed asked now long⟩

def noted : Database :=
  List.foldl DatabaseAction.step (start .default)
    [.register (.record "Note") ⟨"Note", [("id", false), ("text", false)]⟩
        [.plain ⟨"id", .text, true, false, none, none, false, true⟩,
          .plain ⟨"text", .text, false, false, none, none, false, false⟩] none,
      .arrange ⟨⟨[⟨⟨"Note", [("id", false), ("text", false)]⟩,
        [("id", .null), ("text", .text "hi")]⟩]⟩, .empty⟩]

def noteById : Comparison := ⟨.record "Note", "id", .literal, none, none, []⟩

/-- The note is not found under the token that it got, and the query for the token finds it. -/
theorem put_found_again_note :
    ∃ after,
      (put (.object 0)).on noted = (.ok (.root "Note" (.number 1)), after) ∧
        let v := after.heap.valueUnder "id" (.object 0)
        v = .text (Key.root "Note" (.number 1)).token ∧
          ((find? (.record "Note") v).on after).1 = .ok none ∧
          ((Read.query (noteById.statement v) ⟨none, none⟩ [] noon).perform.on after).1 =
            .ok (.rows [.object 0]) := by
  obtain ⟨after, hput, records⟩ : ∃ after,
      (put (.object 0)).on noted = (.ok (.root "Note" (.number 1)), after) ∧
        after.store.records = [⟨.root "Note" (.number 1), [("text", .text "hi")]⟩] :=
    ⟨_, rfl, rfl⟩
  obtain ⟨-, get, query⟩ := @put_found_again noted after 0 _ _ _ ⟨_, _, rfl⟩ rfl rfl (by decide) rfl
    rfl rfl rfl hput
  obtain ⟨token, -, missing⟩ := get rfl
  have carried : (Key.root "Note" (.number 1)).IsPlain :=
    List.forall_mem_singleton.mpr ⟨rfl, by decide, Nat.one_lt_pow (by decide) (by decide)⟩
  have alone : ∀ x ∈ after.store.records,
      x.key.order (.root "Note" (.number 1)) = .eq → x.key.same (.root "Note" (.number 1)) =
        true := by
    rw [records]
    exact List.forall_mem_singleton.mpr fun _ => rfl
  have nothing : after.store.find? (.root "Note" (.name (Key.root "Note" (.number 1)).token)) =
      none := by
    rw [Store.find?, records]
    rfl
  have short : (Key.root "Note" (.number 1)).IsShort := Nat.one_lt_pow (by decide) (by decide)
  obtain ⟨finds, -⟩ :=
    query noteById noon rfl rfl ⟨rfl, rfl, rfl, rfl⟩ rfl (.token _ rfl carried) alone
  exact ⟨after, hput, token, missing nothing, finds short⟩

end Database

end RecordStore
