import RecordStore.Json.Basic
import RecordStore.Json.Reader
import RecordStore.Key.Basic
import RecordStore.Text.Base64
import RecordStore.Fault

/-!
# Key tokens

A token is a key in one word: the path of the key as a JSON list of pairs of kind and identity, in
base64. Reading is as lenient as JSON and base64 allow, but the list has to be complete before any
of its pairs is looked at, and flags and numbers with a fraction are no identities. A text that is
nested too deep to be read is not even known to be no token.
-/

set_option autoImplicit false

namespace RecordStore

def Identity.json : Identity → Json
  | .unset => .null
  | .number n => .integer n
  | .flag b => .flag b
  | .name t => .text t

namespace Key

def stepJson (s : Step) : Json := .list [.text s.1, s.2.json]

def json (k : Key) : Json := .list (k.path.map stepJson)

def word (path : Json) : Text := Base64.encode ((Utf8.encode? path.write).getD [])

def tokenOf (path : Json) : Except Fault Text := do
  path.numbers.forM fun n => discard (Text.numeral n)
  return word path

def token (k : Key) : Text := word k.json

def encode (k : Key) : Except Fault Text := tokenOf k.json

def identityOf? : Json → Option Identity
  | .null => some .unset
  | .integer n => some (.number n)
  | .text t => some (.name t)
  | _ => none

def stepOf? : Json → Option Step
  | .list [.text kind, id] => (identityOf? id).map (fun i => (kind, i))
  | _ => none

def descend (shown : Text) : Key → List Json → Except KeyProblem Key
  | k, [] => .ok k
  | k, j :: rest =>
    match stepOf? j with
    | none => .error (.undecodable shown)
    | some (kind, id) =>
      if kind.isEmpty then .error .noKind else descend shown (.child k kind id) rest

def ofItems (shown : Text) : List Json → Except KeyProblem Key
  | [] => .error (.undecodable shown)
  | j :: rest =>
    match stepOf? j with
    | none => .error (.undecodable shown)
    | some (kind, id) =>
      if kind.isEmpty then .error .noKind else descend shown (.root kind id) rest

def ofJsonText (shown json : Text) : Except Fault Key :=
  if Json.isTooDeep json then .error (.misuse .endless)
  else
    match Json.read? json with
    | some (.list items) => (ofItems shown items).mapError .badKey
    | _ => .error (.badKey (.undecodable shown))

def ofToken (t : Text) : Except Fault Key :=
  let shown := Quoted.text t
  match if t.isEmpty then none else (Base64.decode? t).bind Utf8.decodeStrict? with
  | some json => ofJsonText shown json
  | none => .error (.badKey (.undecodable shown))

end Key
end RecordStore
