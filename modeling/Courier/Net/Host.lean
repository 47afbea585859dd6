import Courier.Text.Cut

/-!
# Host — numeric addresses of hosts

A host has an address of 32 bits, written as four parts with dots between them, or one of eight groups of 16
bits, written in hexadecimal with colons between them.  A host of the second kind that is meant on one link only
carries the number of the link.

- `Host.text` writes an address.
- `Host.dotted?` and `Host.grouped?` read what `Host.text` writes, and for groups every other way to leave out
  zeros.
- `Host.numeric?` reads the older forms: one to four parts, each in octal, decimal or hexadecimal, the last of
  which fills the bytes that are left.
-/

namespace Courier

/-- The numeric address of a host. -/
inductive Host where
  | v4 (bits : UInt32)
  /-- Zone zero stands for none. -/
  | v6 (groups : Vector UInt16 8) (zone : Nat)
deriving DecidableEq, Repr

namespace Host

instance : Inhabited Host := ⟨.v4 0⟩

/-- The host itself, as it reaches itself. -/
def itself : Host := .v4 0x7F000001

/-- Whether an address belongs to every host for itself, or stands for all its addresses. -/
def isOwn : Host → Bool
  | .v4 bits => bits.toNat / 2 ^ 24 = 127 || bits = 0
  | .v6 groups _ =>
    let front := groups.toList.dropLast
    front.all (· = 0) && groups.toList.getLast?.any (· ≤ 1)

/-! ## Writing -/

/-- The four parts of an address of 32 bits. -/
def dotted (bits : Nat) : String :=
  ".".intercalate ([24, 16, 8, 0].map fun shift => toString (bits / 2 ^ shift % 256))

/-- Groups with colons between them. -/
def joined (groups : List UInt16) : String :=
  ":".intercalate (groups.map fun g => String.ofList (Nat.toDigits 16 g.toNat))

/-- The number of zeros at the front. -/
def leadingZeros (groups : List UInt16) : Nat :=
  (groups.takeWhile (· = 0)).length

/-- The place and the length of the longest run of zeros, the first of them among equals. -/
def longestZeros : List UInt16 → Nat × Nat
  | [] => (0, 0)
  | g :: groups =>
    let here := leadingZeros (g :: groups)
    let (place, length) := longestZeros groups
    if length ≤ here then (0, here) else (place + 1, length)

/-- Groups as text: two or more zeros in a row are left out once, and an address of 32 bits that is written in
groups keeps its dots. -/
def grouped (groups : List UInt16) : String :=
  match groups with
  | [0, 0, 0, 0, 0, 0xFFFF, high, low] => s!"::ffff:{dotted (high.toNat * 2 ^ 16 + low.toNat)}"
  | _ =>
    let (place, length) := longestZeros groups
    if length < 2 then joined groups
    else s!"{joined (groups.take place)}::{joined (groups.drop (place + length))}"

/-- The text of an address, without its zone. -/
def text : Host → String
  | .v4 bits => dotted bits.toNat
  | .v6 groups _ => grouped groups.toList

/-- The text of an address as it stands before a port. -/
def textBeforePort : Host → String
  | .v4 bits => dotted bits.toNat
  | .v6 groups 0 => s!"[{grouped groups.toList}]"
  | .v6 groups zone => s!"[{grouped groups.toList}%{zone}]"

/-! ## Reading -/

/-- The value of a digit in bases up to sixteen. -/
def digit? (base : Nat) (c : Char) : Option Nat :=
  let n :=
    if c.isDigit then some (c.toNat - '0'.toNat)
    else if 'a' ≤ c ∧ c ≤ 'f' then some (c.toNat - 'a'.toNat + 10)
    else if 'A' ≤ c ∧ c ≤ 'F' then some (c.toNat - 'A'.toNat + 10)
    else none
  n.filter (· < base)

/-- The number that the digits stand for, at least one. -/
def number? (base : Nat) (digits : List Char) : Option Nat :=
  if digits.isEmpty then none
  else digits.foldl (fun n c => n.bind fun n => (digit? base c).map (n * base + ·)) (some 0)

/-- One part of a dotted address: up to three digits without a leading zero. -/
def part? (digits : List Char) : Option Nat :=
  if digits.length ≤ 3 && (digits.head? != some '0' || digits.length = 1) then
    (number? 10 digits).filter (· < 256)
  else none

/-- A dotted address of four parts. -/
def dotted? (text : List Char) : Option UInt32 :=
  match (Text.cutAll '.' text).mapM part? with
  | some [a, b, c, d] => some (UInt32.ofNat (((a * 256 + b) * 256 + c) * 256 + d))
  | _ => none

/-- One group: up to four hexadecimal digits. -/
def group? (digits : List Char) : Option UInt16 :=
  if digits.length ≤ 4 then (number? 16 digits).map UInt16.ofNat else none

/-- Groups with colons between them; a dotted address may stand for the last two. -/
def groups? : List (List Char) → Option (List UInt16)
  | [] => some []
  | [last] =>
    match dotted? last with
    | some bits => some [UInt16.ofNat (bits.toNat / 2 ^ 16), UInt16.ofNat bits.toNat]
    | none => (group? last).map ([·])
  | first :: rest =>
    match group? first, groups? rest with
    | some g, some gs => some (g :: gs)
    | _, _ => none

/-- The groups of one side of the zeros that are left out. -/
def side? (text : List Char) : Option (List UInt16) :=
  if text.isEmpty then some [] else groups? (Text.cutAll ':' text)

/-- Eight groups. -/
def ofGroups? (groups : List UInt16) : Option (Vector UInt16 8) :=
  if h : groups.length = 8 then some ⟨groups.toArray, by simpa using h⟩ else none

/-- An address of eight groups, at least one zero of which may be left out in one place. -/
def grouped? (text : List Char) : Option (Vector UInt16 8) :=
  match Text.cutPair? ':' text with
  | none => (side? text).bind ofGroups?
  | some (before, after) =>
    if before.contains '.' then none
    else
      match side? before, side? after with
      | some front, some back =>
        let written := front.length + back.length
        if written < 8 then ofGroups? (front ++ List.replicate (8 - written) 0 ++ back) else none
      | _, _ => none

/-- A number as in older forms: hexadecimal after `0x`, octal after another zero, else decimal. -/
def part32? : List Char → Option Nat
  | '0' :: 'x' :: digits => number? 16 digits
  | '0' :: 'X' :: digits => number? 16 digits
  | '0' :: digits => number? 8 ('0' :: digits)
  | digits => number? 10 digits

/-- An address of 32 bits in one of the older forms. -/
def numeric? (text : List Char) : Option UInt32 :=
  match (Text.cutAll '.' text).mapM part32? with
  | none => none
  | some parts =>
    let front := parts.dropLast
    let last := parts.getLast?.getD 0
    let room := 256 ^ (4 - front.length)
    if front.length ≤ 3 && front.all (· < 256) && last < room then
      some (UInt32.ofNat (front.foldl (fun n part => n * 256 + part) 0 * room + last))
    else none

/-- The name of the host itself. -/
def ownName : String := "localhost"

/-- The host that a name stands for, as far as the name says it. -/
def ofName? (name : List Char) : Option Host :=
  match numeric? name with
  | some bits => some (.v4 bits)
  | none =>
    match grouped? name with
    | some groups => some (.v6 groups 0)
    | none => if name = ownName.toList then some itself else none

end Host
end Courier
