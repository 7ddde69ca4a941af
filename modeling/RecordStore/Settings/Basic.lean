import RecordStore.Value.Comparison
import RecordStore.Number.Numeral
import RecordStore.Query.Bound

/-!
# Settings

Settings come from mappings of names to values of any type, in two sections. A name that is not
given keeps its default, and a name that is not known is refused; types are not checked here.
-/

set_option autoImplicit false

namespace RecordStore

/-- A setting that holds no others. The names of entries are such, too. -/
inductive Scalar where
  | null
  | flag (b : Bool)
  | integer (n : Int)
  | real (x : Double)
  | text (t : Text)
  | bytes (bs : Bytes)
  | date (d : Date)
  | moment (m : Moment)
  deriving DecidableEq

inductive Setting where
  | scalar (s : Scalar)
  | collection (c : Collection) (items : List Setting)
  | mapping (entries : List (Scalar × Setting))
  /-- A collection inside itself. -/
  | endless

instance : Inhabited Setting := ⟨.scalar .null⟩

namespace Scalar

def isTrue : Scalar → Bool
  | .null => false
  | .flag b => b
  | .integer n => n != 0
  | .real x => x != Double.zero false && x != Double.zero true
  | .text t => !t.isEmpty
  | .bytes bs => !bs.isEmpty
  | .date _ | .moment _ => true

def toValue : Scalar → Value
  | .null => .null
  | .flag b => .flag b
  | .integer n => .integer n
  | .real x => .real x
  | .text t => .text t
  | .bytes bs => .bytes bs
  | .date d => .date d
  | .moment m => .moment m

def shown (s : Scalar) : Except Fault Text := Heap.empty.shown s.toValue

/-- Whether two scalars name the same entry: numbers and flags do if they are the same quantity. -/
def same (a b : Scalar) : Bool := Value.sameAtom a.toValue b.toValue matches .ok true

end Scalar

namespace Setting

@[match_pattern] abbrev text (t : Text) : Setting := .scalar (.text t)

@[match_pattern] abbrev flag (b : Bool) : Setting := .scalar (.flag b)

@[match_pattern] abbrev integer (n : Int) : Setting := .scalar (.integer n)

def list (items : List Setting) : Setting := .collection .list items

def ofEntries (entries : List (Text × Setting)) : Setting :=
  .mapping (entries.map (fun e => (.text e.1, e.2)))

def isTrue : Setting → Bool
  | .scalar s => s.isTrue
  | .collection _ items => !items.isEmpty
  | .mapping entries => !entries.isEmpty
  | .endless => true

/-- Entries with one set: in its place if there is one of the name, and else at the end. -/
def assign (name : Scalar) (s : Setting) : List (Scalar × Setting) → List (Scalar × Setting)
  | [] => [(name, s)]
  | e :: rest => if e.1.same name then (e.1, s) :: rest else e :: assign name s rest

def distinct (entries : List (Scalar × Setting)) : Setting :=
  .mapping (entries.foldl (fun done e => assign e.1 e.2 done) [])

mutual

def shown : Setting → Except Fault Text
  | .scalar s => s.shown
  | .collection c items => do
    let shown ← shownEach items
    return c.enclose shown
  | .mapping entries => do
    let shown ← shownEntries entries
    return "\x7b" ++ Text.join ", " shown ++ "\x7d"
  | .endless => .ok "..."

def shownEach : List Setting → Except Fault (List Text)
  | [] => .ok []
  | s :: rest => do
    let first ← shown s
    return first :: (← shownEach rest)

def shownEntries : List (Scalar × Setting) → Except Fault (List Text)
  | [] => .ok []
  | (name, s) :: rest => do
    let name ← name.shown
    let first ← shown s
    return (name ++ ": " ++ first) :: (← shownEntries rest)

end

mutual

def isWithin : (depth : Nat) → Setting → Bool
  | _, .scalar _ => true
  | depth + 1, .collection _ items => allWithin depth items
  | depth + 1, .mapping entries => entriesWithin depth entries
  | _, _ => false

def allWithin (depth : Nat) : List Setting → Bool
  | [] => true
  | s :: rest => isWithin depth s && allWithin depth rest

def entriesWithin (depth : Nat) : List (Scalar × Setting) → Bool
  | [] => true
  | (_, s) :: rest => isWithin depth s && entriesWithin depth rest

end

def plainText : Setting → Except Fault Text
  | .scalar s => Heap.empty.plain s.toValue
  | s => s.shown

end Setting

structure StorageSettings where
  backend : Setting
  requireAncestor : Setting

structure QuerySettings where
  /-- Keeps ancestor queries out of the current transaction. -/
  exclude : Setting
  /-- Looks keys up before deleting them, so that only records that exist are counted. -/
  accurateDelete : Setting
  ignoreCache : Setting
  largestRange : Setting
  aliasName : Setting

structure Settings where
  storage : StorageSettings
  query : QuerySettings

namespace StorageSettings

def default : StorageSettings := ⟨.text "memory", .flag true⟩

def entries (s : StorageSettings) : List (Text × Setting) :=
  [("backend", s.backend), ("require_ancestor_in_txn", s.requireAncestor)]

def set? (s : StorageSettings) (name : Text) (v : Setting) : Option StorageSettings :=
  if name = "backend" then some { s with backend := v }
  else if name = "require_ancestor_in_txn" then some { s with requireAncestor := v }
  else none

end StorageSettings

namespace QuerySettings

def default : QuerySettings :=
  ⟨.flag false, .flag false, .flag false, .integer 2147483647, .text "this"⟩

def entries (q : QuerySettings) : List (Text × Setting) :=
  [("exclude_query_from_txn", q.exclude), ("slow_but_more_accurate_delete", q.accurateDelete),
    ("ignore_cache", q.ignoreCache), ("max_range_value", q.largestRange),
    ("candidate_alias", q.aliasName)]

def set? (q : QuerySettings) (name : Text) (v : Setting) : Option QuerySettings :=
  if name = "exclude_query_from_txn" then some { q with exclude := v }
  else if name = "slow_but_more_accurate_delete" then some { q with accurateDelete := v }
  else if name = "ignore_cache" then some { q with ignoreCache := v }
  else if name = "max_range_value" then some { q with largestRange := v }
  else if name = "candidate_alias" then some { q with aliasName := v }
  else none

def aliasName? (q : QuerySettings) : Option Text :=
  match q.aliasName with
  | .text t => some t
  | _ => none

def largest (q : QuerySettings) : Bound :=
  match q.largestRange with
  | .scalar (.integer n) => .integer n
  | .scalar (.flag b) => .flag b
  | .scalar (.real x) => .real x
  | s => .other s.plainText

end QuerySettings

namespace Settings

def default : Settings := ⟨.default, .default⟩

def section? {α : Type} (set? : α → Text → Setting → Option α) (start : α) :
    Option Setting → Except Fault α
  | none => .ok start
  | some (.mapping entries) =>
    let set (s : α) (e : Scalar × Setting) : Option α :=
      match e.1 with
      | .text name => set? s name e.2
      | _ => none
    match entries.foldlM set start with
    | some s => .ok s
    | none => .error (.misuse .type)
  | some _ => .error (.misuse .type)

def sectionOf (name : Text) (entries : List (Scalar × Setting)) : Option Setting :=
  (entries.find? (fun e => e.1.same (.text name))).map (·.2)

def ofSetting : Setting → Except Fault Settings
  | .mapping entries => do
    let storage ← section? StorageSettings.set? .default (sectionOf "storage" entries)
    let query ← section? QuerySettings.set? .default (sectionOf "query" entries)
    return ⟨storage, query⟩
  | _ => .error (.misuse (.attribute "no settings"))

def deepest : Nat := 494

/-- The entries of both sections. Settings that lie too deep in each other cannot be given out. -/
def sections (s : Settings) : Except Fault (List (Text × Setting)) :=
  let sections := [("storage", s.storage.entries), ("query", s.query.entries)]
  if sections.all (fun e => e.2.all (fun x => x.2.isWithin deepest)) then
    .ok (sections.map (fun e => (e.1, .ofEntries e.2)))
  else .error (.misuse .endless)

def toSetting (s : Settings) : Except Fault Setting := s.sections.map .ofEntries

def isOn (word : Text) : Bool :=
  let w := word.lower
  w = "1" || w = "true" || w = "yes"

def lookupVariable (name : Text) (environment : List (Text × Text)) : Option Text :=
  (lookupName name environment).filter (!·.isEmpty)

/-- Whether the environment can hold a text: bytes that are no UTF-8 it can, but no zeros. -/
def checkVariable (t : Text) : Except Fault Unit :=
  if t.points.any (fun c => c.isSurrogate && !(0xDC80 ≤ c.val && c.val ≤ 0xDCFF)) then
    .error (.misuse .encoding)
  else if t.points.any (·.val = 0) then .error (.misuse (.number "embedded null byte"))
  else .ok ()

def ofEnvironment (environment : List (Text × Text)) : Except Fault Settings := do
  for (name, word) in environment do
    checkVariable name
    checkVariable word
  let flag (name : Text) (start : Setting) : Setting :=
    match lookupVariable name environment with
    | some w => .flag (isOn w)
    | none => start
  let word (name : Text) (start : Setting) : Setting :=
    match lookupVariable name environment with
    | some w => .text w
    | none => start
  let s := Settings.default
  let largest ← match lookupVariable "KQ_MAX_RANGE_VALUE" environment with
    | none => .ok s.query.largestRange
    | some w =>
      match w.toInt? with
      | some n => .ok (.integer n)
      | none => .error (Fault.misuse (.number "invalid literal for int()"))
  return {
    storage :=
      { backend := word "KQ_STORAGE_BACKEND" s.storage.backend
        requireAncestor := flag "KQ_REQUIRE_ANCESTOR_IN_TXN" s.storage.requireAncestor }
    query :=
      { exclude := flag "KQ_EXCLUDE_QUERY_FROM_TXN" s.query.exclude
        accurateDelete := flag "KQ_SLOW_BUT_MORE_ACCURATE_DELETE" s.query.accurateDelete
        ignoreCache := flag "KQ_IGNORE_CACHE" s.query.ignoreCache
        largestRange := largest
        aliasName := word "KQ_CANDIDATE_ALIAS" s.query.aliasName } }

end Settings
end RecordStore
