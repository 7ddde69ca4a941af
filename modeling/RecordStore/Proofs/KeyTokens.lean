import Mathlib.Data.List.Permutation
import RecordStore.Key.Token
import RecordStore.Proofs.Base64Reading
import RecordStore.Proofs.JsonValues
import RecordStore.Proofs.SameKeys

/-!
# Keys in tokens

A key whose parts can be written and read again is read back from its token, which has only letters
that are safe in an address. Every key that is read, however the token was spelled, is such a key.
-/

set_option autoImplicit false

namespace RecordStore

open Json (lexemes? Lexeme Frame Expected Reaches)

/-- An identity that a token can carry. -/
def Identity.IsPlain : Identity → Prop
  | .unset => True
  | .number n => n.natAbs < 10 ^ Numeral.maxDigits
  | .flag _ => False
  | .name t => Json.IsUnpaired t.points

structure Step.IsPlain (s : Step) : Prop where
  named : s.1.isEmpty = false
  kind : Json.IsUnpaired s.1.points
  id : s.2.IsPlain

namespace Key

/-- A key that a token can carry. -/
def IsPlain (k : Key) : Prop := ∀ s ∈ k.path, Step.IsPlain s

theorem IsPlain.isShort {k : Key} (h : k.IsPlain) : k.IsShort := by
  refine k.isShort_iff.mpr fun s hs => ?_
  have id := (h s hs).id
  cases hid : s.2 with
  | number n =>
    rw [hid] at id
    exact id
  | _ => trivial

theorem encode_of_isShort {k : Key} (h : k.IsShort) : k.encode = .ok k.token := by
  rw [encode_eq, map_pathText h]

theorem exists_path_eq (k : Key) : ∃ s steps, k.path = s :: steps := by
  induction k with
  | root kind id => exact ⟨_, _, rfl⟩
  | child parent kind id ih =>
    obtain ⟨s, steps, h⟩ := ih
    exact ⟨s, steps ++ [(kind, id)], by rw [path, h]; rfl⟩

section Writing

theorem lexemes?_open (rest : List CodePoint) :
    lexemes? (Quoted.chars "[" ++ rest) = (lexemes? rest).map (.openList :: ·) :=
  Json.lexemes?_cons rfl rfl

theorem lexemes?_close (rest : List CodePoint) :
    lexemes? (Quoted.chars "]" ++ rest) = (lexemes? rest).map (.closeList :: ·) :=
  Json.lexemes?_cons rfl rfl

theorem lexemes?_comma (rest : List CodePoint) :
    lexemes? (Quoted.chars "," ++ rest) = (lexemes? rest).map (.comma :: ·) :=
  Json.lexemes?_cons rfl rfl

theorem lexemes?_identity {i : Identity} (h : i.IsPlain) {rest : List CodePoint}
    (delimited : Json.IsDelimited rest) :
    lexemes? (i.json.write.points ++ rest) = (lexemes? rest).map (.scalar i.json :: ·) := by
  cases i with
  | unset =>
    rw [Identity.json, Json.write]
    exact Json.lexemes?_null rest
  | number n =>
    rw [Identity.json, Json.write]
    exact Json.lexemes?_ofInt h delimited
  | flag b => cases h
  | name t =>
    rw [Identity.json, Json.write]
    exact Json.lexemes?_quote h rest

def stepLexemes (s : Step) : List Lexeme :=
  [.openList, .scalar (.text s.1), .comma, .scalar s.2.json, .closeList]

theorem lexemes?_stepJson {s : Step} (h : Step.IsPlain s) (rest : List CodePoint) :
    lexemes? ((stepJson s).write.points ++ rest) = (lexemes? rest).map (stepLexemes s ++ ·) := by
  have delimited : Json.IsDelimited (Quoted.chars "]" ++ rest) := by
    intro c hc
    obtain rfl := Option.some.inj hc
    exact .inr rfl
  rw [stepJson, Json.points_write_list, Json.write]
  simp only [List.append_assoc, List.flatMap_cons, List.flatMap_nil, List.nil_append]
  rw [lexemes?_open, Json.lexemes?_quote h.kind, lexemes?_comma, lexemes?_identity h.id delimited,
    lexemes?_close]
  simp only [Option.map_map]
  rfl

theorem lexemes?_steps {steps : List Step} (h : ∀ s ∈ steps, Step.IsPlain s) :
    lexemes? ((steps.map stepJson).flatMap (fun j => Quoted.chars "," ++ j.write.points) ++
      Quoted.chars "]") =
      some (steps.flatMap (fun s => .comma :: stepLexemes s) ++ [.closeList]) := by
  induction steps with
  | nil =>
    have last := lexemes?_close []
    rw [lexemes?, List.append_nil] at last
    exact last
  | cons s steps ih =>
    obtain ⟨hs, hsteps⟩ := List.forall_mem_cons.mp h
    rw [List.map_cons, List.flatMap_cons, List.append_assoc, List.append_assoc, lexemes?_comma,
      lexemes?_stepJson hs, ih hsteps]
    simp

theorem reaches_step (before : List Json) {e : Expected} (he : e = .value ∨ e = .valueOrClose)
    (s : Step) :
    Reaches Json.deepest [.list before] e (stepLexemes s) [.list (stepJson s :: before)]
      .separator := by
  have opening : Json.step? [.list before] e .openList =
      some ([.list [], .list before], .valueOrClose) := by
    rcases he with rfl | rfl <;> rfl
  have one : 1 ≤ Json.deepest := by decide
  have two : 2 ≤ Json.deepest := by decide
  exact .step opening two (.step rfl two (.step rfl two
    (.step rfl two (.step rfl one (.refl _ _)))))

theorem reaches_steps (before : List Json) (steps : List Step) :
    Reaches Json.deepest [.list before] .separator
      (steps.flatMap (fun s => .comma :: stepLexemes s) ++ [.closeList]) []
      (.finish (.list (before.reverse ++ steps.map stepJson))) := by
  induction steps generalizing before with
  | nil =>
    rw [List.map_nil, List.append_nil]
    exact .step rfl (by decide) (.refl _ _)
  | cons s steps ih =>
    have rest := ih (stepJson s :: before)
    rw [List.reverse_cons, List.append_assoc] at rest
    rw [List.flatMap_cons, List.append_assoc]
    have one : 1 ≤ Json.deepest := by decide
    exact .step rfl one ((reaches_step before (.inl rfl) s).trans rest)

theorem read?_json {k : Key} (h : k.IsPlain) :
    Json.read? k.json.write = some k.json ∧ Json.isTooDeep k.json.write = false := by
  obtain ⟨s, steps, path⟩ := k.exists_path_eq
  rw [IsPlain, path] at h
  obtain ⟨hs, hsteps⟩ := List.forall_mem_cons.mp h
  have lexed : lexemes? k.json.write.points =
      some (.openList :: (stepLexemes s ++
        (steps.flatMap (fun s => .comma :: stepLexemes s) ++ [.closeList]))) := by
    rw [json, path, List.map_cons, Json.points_write_list, lexemes?_open, lexemes?_stepJson hs,
      lexemes?_steps hsteps]
    rfl
  have reaches : Reaches Json.deepest [] .value
      (.openList :: (stepLexemes s ++
        (steps.flatMap (fun s => .comma :: stepLexemes s) ++ [.closeList]))) []
      (.finish k.json) := by
    rw [json, path]
    exact .step rfl (by decide) ((reaches_step [] (.inr rfl) s).trans
      (reaches_steps [stepJson s] steps))
  constructor
  · rw [Json.read?, lexed]
    exact reaches.run?_eq
  · exact reaches.isDeeper_eq lexed

end Writing

section Steps

variable {shown : Text}

def IsProper (s : Step) : Prop := s.1.isEmpty = false ∧ ∀ b, s.2 ≠ .flag b

theorem stepOf?_stepJson {s : Step} (h : IsProper s) : stepOf? (stepJson s) = some s := by
  obtain ⟨kind, id⟩ := s
  cases id with
  | unset => rfl
  | number n => rfl
  | flag b => exact absurd rfl (h.2 b)
  | name t => rfl

theorem eq_of_stepOf? {j : Json} {s : Step} (h : stepOf? j = some s) :
    j = stepJson s ∧ ∀ b, s.2 ≠ .flag b := by
  unfold stepOf? at h
  split at h
  · rename_i kind id
    obtain ⟨i, read, rfl⟩ := Option.map_eq_some_iff.mp h
    cases id <;> cases read <;> exact ⟨rfl, nofun⟩
  · cases h

theorem descend_stepJson {s : Step} (h : IsProper s) (k : Key) (more : List Json) :
    descend shown k (stepJson s :: more) = descend shown (.child k s.1 s.2) more := by
  rw [descend, stepOf?_stepJson h]
  exact if_neg (by rw [h.1]; decide)

theorem ofItems_path {k : Key} (h : ∀ s ∈ k.path, IsProper s) (more : List Json) :
    ofItems shown (k.path.map stepJson ++ more) = descend shown k more := by
  induction k generalizing more with
  | root kind id =>
    have proper := h (kind, id) List.mem_cons_self
    rw [path, List.map_singleton, List.singleton_append, ofItems, stepOf?_stepJson proper]
    exact if_neg (by rw [proper.1]; decide)
  | child parent kind id ih =>
    rw [path, List.forall_mem_append, List.forall_mem_singleton] at h
    rw [path, List.map_append, List.append_assoc, ih h.1]
    exact descend_stepJson h.2 parent more

theorem descend_eq_ok {k k' : Key} {items : List Json} (h : descend shown k items = .ok k') :
    ∃ steps, k'.path = k.path ++ steps ∧ items = steps.map stepJson ∧ ∀ s ∈ steps, IsProper s := by
  induction items generalizing k with
  | nil =>
    cases h
    exact ⟨[], (List.append_nil _).symm, rfl, List.forall_mem_nil _⟩
  | cons j items ih =>
    rw [descend] at h
    split at h
    · cases h
    · rename_i kind id read
      obtain ⟨rfl, unflagged⟩ := eq_of_stepOf? read
      split at h
      · cases h
      · rename_i named
        obtain ⟨steps, path, rfl, proper⟩ := ih h
        refine ⟨(kind, id) :: steps, ?_, rfl, List.forall_mem_cons.mpr ⟨⟨?_, unflagged⟩, proper⟩⟩
        · rw [path, Key.path, List.append_assoc]
          rfl
        · exact Bool.eq_false_iff.mpr named

theorem ofItems_eq_ok {k : Key} {items : List Json} (h : ofItems shown items = .ok k) :
    items = k.path.map stepJson ∧ ∀ s ∈ k.path, IsProper s := by
  cases items with
  | nil => cases h
  | cons j items =>
    rw [ofItems] at h
    split at h
    · cases h
    · rename_i kind id read
      obtain ⟨rfl, unflagged⟩ := eq_of_stepOf? read
      split at h
      · cases h
      · rename_i named
        obtain ⟨steps, path, rfl, proper⟩ := descend_eq_ok h
        have first : IsProper (kind, id) := ⟨Bool.eq_false_iff.mpr named, unflagged⟩
        rw [path]
        exact ⟨rfl, List.forall_mem_cons.mpr ⟨first, proper⟩⟩

end Steps

theorem IsPlain.isProper {k : Key} (h : k.IsPlain) : ∀ s ∈ k.path, IsProper s := by
  intro s hs
  refine ⟨(h s hs).named, fun b flag => ?_⟩
  have id := (h s hs).id
  rw [flag] at id
  exact id

section Bytes

theorem chars_lt_quote (t : Text) : ∀ c ∈ (Json.quote t).points, c.val < 0x80 := by
  simp only [Json.quote, List.forall_mem_append, List.forall_mem_singleton, List.forall_mem_flatMap]
  exact ⟨⟨by decide, fun c _ => Json.escape_lt c⟩, by decide⟩

theorem chars_lt_ofInt (n : Int) : ∀ c ∈ (Text.ofInt n).points, c.val < 0x80 := by
  have digits : ∀ c ∈ Json.numeral n.natAbs, c.val < 0x80 := by
    intro c hc
    have := Json.isDigit_numeral n.natAbs c hc
    simp [Json.isDigit] at this
    omega
  by_cases nonneg : 0 ≤ n
  · rw [Json.points_ofInt_of_nonneg nonneg]
    exact digits
  · rw [Json.points_ofInt_of_neg nonneg]
    exact List.forall_mem_cons.mpr ⟨by decide, digits⟩

theorem chars_lt_identity (i : Identity) : ∀ c ∈ i.json.write.points, c.val < 0x80 := by
  cases i with
  | unset =>
    rw [Identity.json, Json.write]
    exact Json.chars_lt (by decide)
  | number n =>
    rw [Identity.json, Json.write]
    exact chars_lt_ofInt n
  | flag b =>
    rw [Identity.json, Json.write]
    cases b <;> exact Json.chars_lt (by decide)
  | name t =>
    rw [Identity.json, Json.write]
    exact chars_lt_quote t

theorem chars_lt_list {items : List Json} (h : ∀ j ∈ items, ∀ c ∈ j.write.points, c.val < 0x80) :
    ∀ c ∈ (Json.list items).write.points, c.val < 0x80 := by
  cases items with
  | nil =>
    rw [Json.write]
    exact Json.chars_lt (s := "[]") (by decide)
  | cons first items =>
    obtain ⟨hfirst, hitems⟩ := List.forall_mem_cons.mp h
    rw [Json.points_write_list]
    simp only [List.forall_mem_append, List.forall_mem_flatMap]
    exact ⟨Json.chars_lt (by decide), hfirst, fun j hj => ⟨Json.chars_lt (by decide), hitems j hj⟩,
      Json.chars_lt (by decide)⟩

theorem chars_lt_json (k : Key) : ∀ c ∈ k.json.write.points, c.val < 0x80 := by
  refine chars_lt_list fun j hj => ?_
  obtain ⟨s, -, rfl⟩ := List.mem_map.mp hj
  refine chars_lt_list (List.forall_mem_cons.mpr ⟨?_, List.forall_mem_singleton.mpr ?_⟩)
  · rw [Json.write]
    exact chars_lt_quote s.1
  · exact chars_lt_identity s.2

end Bytes

theorem decode_token (k : Key) :
    ∃ bs, k.token = Base64.encode bs ∧
      (Base64.decode? k.token).bind Utf8.decodeStrict? = some k.json.write := by
  have unsurrogate : ∀ c ∈ k.json.write.points, c.isSurrogate = false := by
    intro c hc
    have := chars_lt_json k c hc
    rw [CodePoint.isSurrogate_eq_false_iff]
    omega
  obtain ⟨bs, encoded, decoded⟩ := Utf8.decodeStrict?_encode unsurrogate
  have token : k.token = Base64.encode bs := by rw [token, word, encoded, Option.getD_some]
  refine ⟨bs, token, ?_⟩
  rw [token, Base64.decode?_encode]
  exact decoded

theorem isEmpty_token (k : Key) : k.token.isEmpty = false := by
  obtain ⟨bs, -, decoded⟩ := k.decode_token
  obtain ⟨s, steps, path⟩ := k.exists_path_eq
  rw [Bool.eq_false_iff]
  intro empty
  have none : k.token = Base64.encode [] := by
    rw [Text.isEmpty, List.isEmpty_iff] at empty
    exact congrArg Text.mk empty
  rw [none, Base64.decode?_encode, Option.bind_some, Utf8.decodeStrict?_eq_some_iff, Utf8.pieces,
    json, path, List.map_cons, Json.points_write_list] at decoded
  cases decoded

theorem ofToken_token {k : Key} (h : k.IsPlain) : ofToken k.token = .ok k := by
  obtain ⟨bs, -, decoded⟩ := k.decode_token
  obtain ⟨read, shallow⟩ := read?_json h
  have items : ofItems (Quoted.text k.token) (k.path.map stepJson) = .ok k := by
    rw [← List.append_nil (k.path.map stepJson), ofItems_path h.isProper]
    rfl
  rw [ofToken, isEmpty_token, if_neg (by decide), decoded]
  dsimp only
  rw [ofJsonText, shallow, if_neg (by decide), read, json]
  dsimp only
  rw [items]
  rfl

theorem ofToken_eq_ok {t : Text} {k : Key} (h : ofToken t = .ok k) :
    (∃ text, Json.read? text = some k.json) ∧ ∀ s ∈ k.path, IsProper s := by
  rw [ofToken] at h
  split at h
  · rename_i text decoded
    rw [ofJsonText] at h
    split at h
    · cases h
    · split at h
      · rename_i items read
        cases made : ofItems (Quoted.text t) items with
        | error problem =>
          rw [made] at h
          cases h
        | ok k' =>
          rw [made] at h
          cases h
          obtain ⟨rfl, proper⟩ := ofItems_eq_ok made
          exact ⟨⟨text, read⟩, proper⟩
      · cases h
  · cases h

theorem isPlain_identity {i : Identity} (h : Json.Readable i.json) (unflagged : ∀ b, i ≠ .flag b) :
    i.IsPlain := by
  cases i with
  | unset => trivial
  | number n =>
    cases h with
    | integer h => exact h
  | flag b => exact absurd rfl (unflagged b)
  | name t =>
    cases h with
    | text h => exact h

theorem isPlain_of_read? {k : Key} {text : Text} (h : Json.read? text = some k.json)
    (proper : ∀ s ∈ k.path, IsProper s) : k.IsPlain := by
  intro s hs
  obtain ⟨named, unflagged⟩ := proper s hs
  have step : Json.Readable (stepJson s) := by
    cases Json.readable_read? h with
    | list steps => exact steps _ (List.mem_map_of_mem hs)
  cases step with
  | list parts =>
    have kind : Json.Readable (.text s.1) := parts _ List.mem_cons_self
    have id : Json.Readable s.2.json := parts _ (List.mem_cons_of_mem _ List.mem_cons_self)
    cases kind with
    | text kind => exact ⟨named, kind, isPlain_identity id unflagged⟩

theorem isPlain_of_ofToken {t : Text} {k : Key} (h : ofToken t = .ok k) : k.IsPlain := by
  obtain ⟨⟨text, read⟩, proper⟩ := ofToken_eq_ok h
  exact isPlain_of_read? read proper

/-- A key that a token can carry is encoded in a token of safe letters that is read as that key, and
every key that is read from a text, however it is spelled, has steps with kinds and without flags
and is read from its own token. -/
theorem token_inverse :
    (∀ k : Key, k.IsPlain → k.encode = .ok k.token ∧
      (∀ c ∈ k.token.points, Base64.isLetter c = true) ∧ ofToken k.token = .ok k) ∧
    (∀ (t : Text) (k : Key), ofToken t = .ok k → k.encode = .ok k.token ∧
      (∀ s ∈ k.path, s.1.isEmpty = false ∧ ∀ b, s.2 ≠ .flag b) ∧ ofToken k.token = .ok k) := by
  constructor
  · intro k plain
    obtain ⟨bs, token, -⟩ := k.decode_token
    refine ⟨encode_of_isShort plain.isShort, ?_, ofToken_token plain⟩
    rw [token]
    exact Base64.isLetter_encode bs
  · intro t k made
    have plain := isPlain_of_ofToken made
    exact ⟨encode_of_isShort plain.isShort, (ofToken_eq_ok made).2, ofToken_token plain⟩

def farKey : Key :=
  .child (.child (.root "Author" (.number (-12))) ⟨[⟨0xDC00, by decide⟩, ⟨0xD800, by decide⟩]⟩
    .unset)
    "Book" (.name ⟨[⟨0x1F600, by decide⟩]⟩)

theorem token_inverse_far :
    farKey.IsPlain ∧ farKey.encode = .ok farKey.token ∧
      (∀ c ∈ farKey.token.points, Base64.isLetter c = true) ∧
      ofToken farKey.token = .ok farKey ∧
      ofToken "W1siQSIsIDFdXQ==" = .ok (.root "A" (.number 1)) ∧
      ofToken (Key.root "A" (.number 1)).token = .ok (.root "A" (.number 1)) := by
  have number : (-12 : Int).natAbs < 10 ^ Numeral.maxDigits :=
    Nat.lt_of_lt_of_le (by decide : 12 < 10 ^ 2) (Nat.pow_le_pow_right (by decide) (by decide))
  have name : Json.IsUnpaired [⟨0x1F600, by decide⟩] := by decide
  have plain : farKey.IsPlain := by
    simp only [farKey, IsPlain, path, List.cons_append, List.nil_append, List.forall_mem_cons]
    exact ⟨⟨rfl, by decide, number⟩, ⟨rfl, by decide, trivial⟩, ⟨rfl, by decide, name⟩,
      List.forall_mem_nil _⟩
  have spelled : ofToken "W1siQSIsIDFdXQ==" = .ok (.root "A" (.number 1)) := by
    cbv
  obtain ⟨encoded, letters, read⟩ := token_inverse.1 farKey plain
  exact ⟨plain, encoded, letters, read, spelled, (token_inverse.2 _ _ spelled).2.2⟩

end Key
end RecordStore
