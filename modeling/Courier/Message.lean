import Courier.Value

/-!
# Message — a command with arguments

A message is a command name with positional and named arguments.  It is what peers exchange and what every
codec reads and writes.
-/

namespace Courier

/-- A command with positional and named arguments. -/
structure Message where
  command : String
  args : List Value
  kwargs : Entries
deriving Inhabited

namespace Message

/-- A message without arguments. -/
def ofCommand (command : String) : Message :=
  ⟨command, [], []⟩

/-- Whether two messages have the same command and the same arguments. -/
def same (a b : Message) : Bool :=
  a.command == b.command && Value.sameElements a.args b.args && Value.sameEntries a.kwargs b.kwargs

end Message

/-- The fields of a message on the wire, in the order of the positional form. -/
inductive Field where
  | command
  | args
  | kwargs
deriving DecidableEq, Repr

namespace Field

/-- The name of a field in the map form. -/
def name : Field → String
  | .command => "command"
  | .args => "args"
  | .kwargs => "kwargs"

/-- The field with a name. -/
def ofName? (s : String) : Option Field :=
  if s = "command" then some .command
  else if s = "args" then some .args
  else if s = "kwargs" then some .kwargs
  else none

/-- The field with a position. -/
def ofIndex? : Nat → Option Field
  | 0 => some .command
  | 1 => some .args
  | 2 => some .kwargs
  | _ => none

end Field

/-- A message whose fields are still being read. -/
structure Draft where
  command : Option String
  args : Option (List Value)
  kwargs : Option Entries

namespace Draft

/-- A draft of which no field has been read. -/
def empty : Draft := ⟨none, none, none⟩

/-- Whether a field has been read. -/
def has (d : Draft) : Field → Bool
  | .command => d.command.isSome
  | .args => d.args.isSome
  | .kwargs => d.kwargs.isSome

/-- The message of the draft; only the command is required. -/
def message? (d : Draft) : Option Message :=
  d.command.map fun command => ⟨command, d.args.getD [], d.kwargs.getD []⟩

end Draft
end Courier
