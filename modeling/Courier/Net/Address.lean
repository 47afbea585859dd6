import Courier.Error
import Courier.Net.Host

/-!
# Address — hosts with a port, as callers write them

A host is followed by a colon and a port.  The last colon counts, so what stands before it may hold others.  A
port is a decimal numeral below 65536, leading zeros and one plus sign allowed.  `Address.ofText?` reads what
`Address.text` writes; `Address.resolve` reads whatever stands for an address.
-/

namespace Courier

namespace IoError

/-- A host without a port. -/
def hostMalformed : IoError := ⟨.invalidInput, "invalid socket address"⟩

/-- A port that is no number of sixteen bits. -/
def portMalformed : IoError := ⟨.invalidInput, "invalid port value"⟩

/-- A name that holds the character with code zero. -/
def nameHoldsNul : IoError :=
  ⟨.invalidInput, "file name contained an unexpected NUL byte"⟩

/-- A name that only a name service would know; none is asked. -/
def nameUnanswered : IoError :=
  ⟨.other, "failed to lookup address information: Temporary failure in name resolution"⟩

end IoError

/-- An address that a listener can be bound to. -/
structure Address where
  host : Host
  port : Nat
deriving DecidableEq, Repr, Inhabited

namespace Address

/-- The text of the host. -/
def ip (a : Address) : String :=
  a.host.text

/-- The text of an address. -/
def text (a : Address) : String :=
  s!"{a.host.textBeforePort}:{a.port}"

/-! ## Reading -/

/-- A port without a sign. -/
def plainPort? (digits : List Char) : Option Nat :=
  (Host.number? 10 digits).filter (· < 65536)

/-- A port. -/
def port? : List Char → Option Nat
  | '+' :: digits => plainPort? digits
  | digits => plainPort? digits

/-- A host of eight groups with its zone, if it has one. -/
def zoned? (text : List Char) : Option Host :=
  match Text.cutLast? '%' text with
  | none => (Host.grouped? text).map (.v6 · 0)
  | some (groups, zone) =>
    match Host.grouped? groups, (Host.number? 10 zone).filter (· < 2 ^ 32) with
    | some groups, some zone => some (.v6 groups zone)
    | _, _ => none

/-- The address that a text writes out. -/
def ofText? (text : List Char) : Option Address :=
  match Text.cutLast? ':' text with
  | none => none
  | some (host, port) =>
    let host :=
      match Text.between? '[' ']' host with
      | some inner => zoned? inner
      | none => (Host.dotted? host).map .v4
    match host, plainPort? port with
    | some host, some port => some ⟨host, port⟩
    | _, _ => none

/-- The address that a text stands for. -/
def resolve (text : String) : Except IoError Address :=
  match ofText? text.toList with
  | some a => .ok a
  | none =>
    match Text.cutLast? ':' text.toList with
    | none => .error .hostMalformed
    | some (name, port) =>
      match port? port with
      | none => .error .portMalformed
      | some port =>
        if name.contains '\x00' then .error .nameHoldsNul
        else
          match Host.ofName? name with
          | some host => .ok ⟨host, port⟩
          | none => .error .nameUnanswered

end Address
end Courier
