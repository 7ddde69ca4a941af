import RecordStore.Value.Basic
import RecordStore.Number.Numeral
import RecordStore.Query.Bound
import RecordStore.Fault
import RecordStore.Text.Quoted
import RecordStore.Time.Reader

/-!
# Values as the store keeps them

The store keeps a choice by the name of its member, binary data as a short blob, a decimal as the
nearest double, and every collection as a list. All other values are kept as they are.
-/

set_option autoImplicit false

namespace RecordStore

def Text.integer (t : Text) : Except Fault Int :=
  match t.toInt? with
  | some n => .ok n
  | none =>
    .error (.misuse (.number (
      if t.digitCount > Numeral.maxDigits then
        "Exceeds the limit (4300 digits) for integer string conversion: value has " ++
          Text.ofNat t.digitCount ++ " digits; use sys.set_int_max_str_digits() to increase the limit"
      else "invalid literal for int() with base 10: " ++ Quoted.text t)))

namespace Value

mutual

def stored : Value → Except Fault Value
  | .choice _ member _ => .ok (.text member)
  | .bytes bs => .ok (.blob bs)
  | .byteArray bs => .ok (.blob bs)
  | .decimal d =>
    match d.toDouble with
    | .ok x => .ok (.real x)
    | .error _ => .error (.misuse (.number "cannot convert signaling NaN to float"))
  | .collection _ items => (storedEach items).map .list
  | v => .ok v

def storedEach : List Value → Except Fault (List Value)
  | [] => .ok []
  | v :: vs => do
    let s ← stored v
    let rest ← storedEach vs
    return s :: rest

end

def negated : Value → Except Fault Value
  | .decimal d =>
    match d.negate with
    | .error s => .error (.misuse s.misuse)
    | .ok n =>
      match n.toDouble with
      | .ok x => .ok (.real x)
      | .error s => .error (.misuse s.misuse)
  | .real x => .ok (.real x.negate)
  | .integer n => .ok (.integer (-n))
  | .flag b => .ok (.integer (-Identity.ofFlag b))
  | .text t => ofText t
  | .bytes bs => ofBytes bs
  | .byteArray bs => ofBytes bs
  | _ => .error (.misuse .type)
where
  ofText (t : Text) : Except Fault Value := t.integer.map (fun n => .integer (-n))
  /-- In bytes only ASCII digits and blanks count. -/
  ofBytes (bs : Bytes) : Except Fault Value :=
    ofText (if bs.all (· < 0x80) then Utf8.decode bs else Text.empty)

def isNumber : Value → Bool
  | .integer _ | .real _ | .decimal _ => true
  | _ => false

end Value
end RecordStore

/-!
## Values that are written as texts

Dates, moments, decimals and binary data can be written as texts. A text that does not write what it
should is a fault, and so is one that writes a day, a time or a number that there is not.
-/

namespace RecordStore

def misread {α : Type} (detail : Text) : Except Fault α := .error (.misuse (.number detail))

def Text.dated {α : Type} (t : Text) (written : Option α) (problem? : α → Option String) :
    Except Fault α :=
  match written with
  | none => misread ("Invalid isoformat string: " ++ Quoted.text t)
  | some a =>
    match problem? a with
    | none => .ok a
    | some p => misread p

def Date.ofText (t : Text) : Except Fault Date := t.dated (ofString? t.asString) problem?

def Moment.ofText (t : Text) : Except Fault Moment := t.dated (ofString? t.asString) problem?

def Decimal.ofText (t : Text) : Except Fault Decimal :=
  match ofText? t with
  | none => .error (.misuse .decimalText)
  | some d => if d.isInRange then .ok d else .error (.misuse .decimalInvalid)

def Bytes.ofHex (t : Text) : Except Fault Bytes :=
  match Hex.decode t with
  | .ok bs => .ok bs
  | .error n =>
    misread ("non-hexadecimal number found in fromhex() arg at position " ++ Text.ofNat n)

def Double.ofHex (t : Text) : Except Fault Double := do
  match ofBytes? (← Bytes.ofHex t) with
  | some x => return x
  | none => .error (.misuse (.size "unpack requires a buffer of 8 bytes"))

def Text.ofNumbers (ns : List Int) : Except Fault Text := do
  let points ← ns.mapM fun n =>
    if 0 ≤ n ∧ n < 0x110000 then pure (CodePoint.ofNat n.toNat)
    else misread "chr() arg not in range(0x110000)"
  return ⟨points⟩

end RecordStore
