import PageMeta.Heap.Basic

/-!
# Scripts

A script is a list of steps.  A step does one thing with values, and may keep the result in a
register, from which later steps take it.

Values are written down as operands: literals, and references to registers.  Compound literals make
new objects every time they are evaluated; plain texts and integers are one object for each place that
they are written at.  A routine is an operand too: it can be called with one argument, which goes into
a register of the routine's choice before its steps run.
-/

namespace PageMeta.Script

mutual

/-- A value as it is written down. -/
inductive Operand where
  | scalar (v : Value)
  /-- A scalar that is made anew by each evaluation. -/
  | fresh (v : Value)
  | list (items : List Operand)
  | tuple (items : List Operand)
  | dict (pairs : List (Operand × Operand))
  /-- The attribute map made from a dictionary. -/
  | map (pairs : List (Operand × Operand))
  | register (name : String)
  | routine (param : String) (steps : List Step)

/-- What a step does.  `on` is the register whose object it is about. -/
inductive Operation where
  | keep (value : Operand)
  | make (cls : String) (args : List Operand) (named : List (Name × Operand))
  | callMethod (on : String) (name : Name) (args : List Operand) (named : List (Name × Operand))
  | invoke (on : String) (args : List Operand) (named : List (Name × Operand))
  | callFunction (name : String) (args : List Operand) (named : List (Name × Operand))
  | constant (name : String)
  | readRecord (schema : String) (value : Operand)
  | nameClass (cls : String)
  | ancestors (on : String)
  | getAttribute (on : String) (name : Name)
  | hasAttribute (on name : String)
  | setAttribute (on name : String) (value : Operand)
  | getItem (on : String) (key : Operand)
  | setItem (on : String) (key value : Operand)
  | append (on : String) (value : Operand)
  | contains (on : String) (key : Operand)
  | length (on : String)
  | truth (on : String)
  | elements (on : String)
  | written (on : String)
  | hash (on : String)
  | equal (on : String) (value : Operand)
  | identical (on : String) (value : Operand)
  | look (on : String)
  | raise (cls : ErrorClass) (message : String)

/-- A step: what it does, and the register that keeps its result. -/
inductive Step where
  | mk (register? : Option String) (operation : Operation)

end

instance : Inhabited Operand := ⟨.scalar .none⟩

instance : Inhabited Operation := ⟨.keep default⟩

instance : Inhabited Step := ⟨.mk none default⟩

/-- The mark of a text that is written at a place; there is one only of the empty text and of each text
of one small character. -/
def markOf (s : String) (place : Nat) : Mark :=
  match s.toList with
  | [] => .shared
  | [c] => if c.toNat < 256 then .shared else .written place
  | _ => .written place

/-- A name that is written at a place. -/
def nameAt (s : String) (place : Nat) : Name := ⟨s, markOf s place⟩

namespace Operand

/-- A text that is written at a place. -/
def textAt (s : String) (place : Nat) : Operand := .scalar (.text s (markOf s place))

/-- An integer that is written at a place. -/
def intAt (n : Int) (place : Nat) : Operand :=
  .scalar (.int n (if Heap.isSmall n then .shared else .written place))

/-- A text that is written at a place, repeated; once is as it is written. -/
def repeatedAt (s : String) (times place : Nat) : Operand :=
  if times = 1 then textAt s place
  else .fresh (.newText (String.join (List.replicate times s)))

end Operand

namespace Operation

/-- The register whose object a step can change in place, so that its answer shows the object. -/
def changed? : Operation → Option String
  | .callMethod on _ _ _ | .setAttribute on _ _ | .setItem on _ _ | .append on _ => some on
  | _ => none

/-- The register whose object a call can hand back. -/
def called? : Operation → Option String
  | .callMethod on _ _ _ | .invoke on _ _ => some on
  | _ => none

end Operation

end PageMeta.Script
