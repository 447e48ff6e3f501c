import BytecodeScopes.BigEndian
import BytecodeScopes.Interned
import BytecodeScopes.Reply

/-!
The symbols of a scope, each name once, and the setters in use. A setter's selector is its
attribute's name followed by an equals sign; while it is in use its index is found on the stack of
setters.
-/

namespace BytecodeScopes

/-- Whether a symbol stands in the program or was made up while code was built. -/
inductive Origin where
  | source
  | synthesized
  deriving DecidableEq, Repr

structure Symbol where
  name : String
  origin : Origin
  deriving DecidableEq, Repr

structure Setter where
  selector : String
  index : Nat
  deriving DecidableEq, Repr

/-- Setters stand newest first. -/
structure Symbols where
  table : Interned Symbol.name := .empty
  setters : List Setter := []

namespace Symbols

/-- An index of a symbol has 16 bits. -/
def capacity : Nat := 65536

def size (t : Symbols) : Nat := t.table.size

def find? (t : Symbols) (name : String) : Option Nat := t.table.find? name

def get? (t : Symbols) (i : Nat) : Option Symbol := t.table.get? i

def names (t : Symbols) : List String := t.table.entries.toList.map Symbol.name

def checkAdd (t : Symbols) (name : String) : Except Fault Unit :=
  if t.table.admits capacity name then .ok () else .error (.tableFull .symbols)

def intern (t : Symbols) (name : String) (origin : Origin) : Nat × Symbols :=
  let (i, table) := t.table.insert ⟨name, origin⟩
  (i, { t with table })

def add (t : Symbols) (name : String) : Reply Symbols Nat :=
  .attempt t (·.checkAdd name) fun t _ => t.intern name .source

def selector (name : String) : String := name ++ "="

def setter? (t : Symbols) (selector : String) : Option Setter :=
  t.setters.find? (·.selector = selector)

/-- The index of a setter in use, or nothing if its selector can be a symbol. -/
def checkSetter (t : Symbols) (name : String) : Except Fault (Option Nat) :=
  match t.setter? (selector name) with
  | some setter => .ok (some setter.index)
  | none => (t.checkAdd (selector name)).map fun _ => none

def internSetter (t : Symbols) (name : String) : Option Nat → Nat × Symbols
  | some i => (i, t)
  | none =>
      let (i, t) := t.intern (selector name) .synthesized
      (i, { t with setters := ⟨selector name, i⟩ :: t.setters })

def addSetter (t : Symbols) (name : String) : Reply Symbols Nat :=
  .attempt t (·.checkSetter name) fun t known => t.internSetter name known

def popSetter (t : Symbols) : Option Setter × Symbols :=
  match t.setters with
  | [] => (none, t)
  | setter :: rest => (some setter, { t with setters := rest })

/-- The bytes that names take in a record: a count, then each with its length and an end byte. -/
def namesSize (names : List String) : Nat :=
  2 + Sizes.total (names.map fun name => 2 + name.utf8ByteSize + 1)

def writtenSize (t : Symbols) : Nat := namesSize t.names

end Symbols

end BytecodeScopes
