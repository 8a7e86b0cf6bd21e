import ShaderVariants.Json.Token

/-!
# The values in a JSON text

`Document.ofText` finds the value that a text holds. The text may break off or go wrong anywhere, so
the value is kept down to the first place where it does: a container ends with its bracket, or at a
fault. Readers walk a value in the order of its text, and the first thing that any of them objects
to is the error of the whole reading.

`skip` is the reader that has no use for a value: it objects only to faults that it cannot pass
over. `found` says what stands at the head of a value, for messages.

The value is built in one pass over the tokens, with the containers that are still open on a stack.
-/

namespace ShaderVariants.Json

/-- What stands at the head of a value. -/
inductive Found where
  | null
  | boolean (b : Bool)
  | number (n : Number)
  | text (s : String)
  | sequence
  | map
deriving DecidableEq

namespace Atom

/-- An atom as the head of a value. -/
def found : Atom → Found
  | null => .null
  | boolean b => .boolean b
  | number n => .number n

end Atom

/-- How an object ends. -/
inductive Ending where
  /-- The closing bracket. -/
  | closed
  /-- Something else, where a comma or the closing bracket is due. -/
  | cut (f : Fault)
  /-- Something else, where a name is due. -/
  | nameless (f : Fault)

/-- A value of a text. The name of a member may be flawed as a text may be. -/
inductive Value where
  | atom (a : Except Flaw Atom)
  | text (s : Except Flaw String)
  /-- No value where one is due, at which every reader stops. -/
  | missing (f : Fault)
  /-- The elements, and the fault in the place of the closing bracket if it is not there. -/
  | array (elements : List Value) (cut : Option Fault)
  | object (members : List (Except Flaw String × Value)) (ending : Ending)

namespace Value

/-- The head of a value, unless it is flawed or missing. -/
def found : Value → Except Fault Found
  | atom (.ok a) => .ok a.found
  | atom (.error f) => .error f.reading
  | text (.ok s) => .ok (.text s)
  | text (.error f) => .error f.reading
  | missing f => .error f
  | array _ _ => .ok .sequence
  | object _ _ => .ok .map

end Value

namespace Ending

/-- The fault at which a reader of an object stops, if it is not closed. -/
def fault? : Ending → Option Fault
  | closed => none
  | cut f => some f
  | nameless f => some f

end Ending

/-- What a reader knows that passes over a part of a text: it has met no fault, or which one. -/
abbrev Passed := Except Fault Unit

namespace Passed

/-- No fault, or the one that was met. -/
def of : Option Fault → Passed
  | none => .ok ()
  | some f => .error f

/-- Whether a token can be passed over. -/
def token {α : Type} : Except Flaw α → Passed
  | .ok _ => .ok ()
  | .error f => of f.skipping

end Passed

namespace Value

mutual

/-- The first fault that cannot be passed over. -/
def skip : Value → Passed
  | atom a => Passed.token a
  | text s => Passed.token s
  | missing f => .error f
  | array elements cut => do
    skipElements elements
    Passed.of cut
  | object members ending => do
    skipMembers members
    Passed.of ending.fault?

/-- The first fault in elements. -/
def skipElements : List Value → Passed
  | [] => .ok ()
  | v :: vs => do
    v.skip
    skipElements vs

/-- The first fault in members, whose names are only skipped too. -/
def skipMembers : List (Except Flaw String × Value) → Passed
  | [] => .ok ()
  | (name, v) :: ms => do
    Passed.token name
    v.skip
    skipMembers ms

end

end Value

/-! ## Building a value from tokens -/

/-- A container that is still open, with a value due in it. What came before is kept last first. -/
inductive Frame where
  | array (before : List Value)
  | object (before : List (Except Flaw String × Value)) (name : Except Flaw String)

/-- What is due next. The elements and members of the innermost container are kept last first. -/
inductive Awaiting where
  /-- A value. -/
  | value
  /-- The first element of an array, or its closing bracket. -/
  | element
  /-- A comma or the closing bracket, after an element. -/
  | afterElement (elements : List Value)
  /-- The first member of an object, or its closing bracket. -/
  | firstName
  /-- A member, after a comma. -/
  | name (members : List (Except Flaw String × Value))
  /-- The colon after a name. -/
  | colon (members : List (Except Flaw String × Value)) (name : Except Flaw String)
  /-- A comma or the closing bracket, after a member. -/
  | afterMember (members : List (Except Flaw String × Value))
  /-- The end of the text, after its value. -/
  | nothing (v : Value)

/-- The value of a text, and whether something follows it. -/
structure Document where
  value : Value
  trailing : Bool

namespace Frame

/-- The container with its last value, at which the text breaks off. -/
def cut : Frame → Value → Value
  | array before, v => .array (v :: before).reverse none
  | object before name, v => .object ((name, v) :: before).reverse .closed

end Frame

namespace Document

/-- The document whose innermost value, where the text breaks off, is `v`. No reader gets past that
place, so it does not matter how the containers around it end. -/
def broken (v : Value) (stack : List Frame) : Document :=
  ⟨stack.foldl (fun v frame => frame.cut v) v, false⟩

/-- What is due after a complete value, and the containers around it. -/
def deliver (v : Value) : List Frame → Awaiting × List Frame
  | [] => (.nothing v, [])
  | .array before :: stack => (.afterElement (v :: before), stack)
  | .object before name :: stack => (.afterMember ((name, v) :: before), stack)

/-- What is due after a token that stands where a value is due, and the containers around that; or
the innermost value of a text that breaks off. -/
def begin (t : Token) (stack : List Frame) : Except Value (Awaiting × List Frame) :=
  match t with
  | .atom a => .ok (deliver (.atom a) stack)
  | .text s => .ok (deliver (.text s) stack)
  | .mark .openArray => .ok (.element, stack)
  | .mark .openObject => .ok (.firstName, stack)
  | .mark _ => .error (.missing .malformed)

/-- One token further: what is due then, and the open containers; or the innermost value of a text
that breaks off. -/
def advance (due : Awaiting) (stack : List Frame) (t : Token) :
    Except Value (Awaiting × List Frame) :=
  match due, t with
  | .value, t => begin t stack
  | .element, .mark .closeArray => .ok (deliver (.array [] none) stack)
  | .element, t => (begin t (.array [] :: stack)).mapError fun v => .array [v] none
  | .afterElement es, .mark .comma => .ok (.value, .array es :: stack)
  | .afterElement es, .mark .closeArray => .ok (deliver (.array es.reverse none) stack)
  | .afterElement es, _ => .error (.array es.reverse (some .malformed))
  | .firstName, .mark .closeObject => .ok (deliver (.object [] .closed) stack)
  | .firstName, .text name => .ok (.colon [] name, stack)
  | .firstName, _ => .error (.object [] (.nameless .malformed))
  | .name ms, .text name => .ok (.colon ms name, stack)
  | .name ms, _ => .error (.object ms.reverse (.nameless .malformed))
  | .colon ms name, .mark .colon => .ok (.value, .object ms name :: stack)
  | .colon ms name, _ => .error (.object ((name, .missing .malformed) :: ms).reverse .closed)
  | .afterMember ms, .mark .comma => .ok (.name ms, stack)
  | .afterMember ms, .mark .closeObject => .ok (deliver (.object ms.reverse .closed) stack)
  | .afterMember ms, _ => .error (.object ms.reverse (.cut .malformed))
  | .nothing v, _ => .error v

/-- The document of a text that ends where something is due. -/
def finish (due : Awaiting) (stack : List Frame) : Document :=
  match due with
  | .value => broken (.missing .truncated) stack
  | .element => broken (.array [] (some .truncated)) stack
  | .afterElement es => broken (.array es.reverse (some .truncated)) stack
  | .firstName => broken (.object [] (.nameless .truncated)) stack
  | .name ms => broken (.object ms.reverse (.nameless .truncated)) stack
  | .colon ms name => broken (.object ((name, .missing .truncated) :: ms).reverse .closed) stack
  | .afterMember ms => broken (.object ms.reverse (.cut .truncated)) stack
  | .nothing v => ⟨v, false⟩

/-- The document of the tokens that follow, where something is due inside the open containers. -/
def build (due : Awaiting) (stack : List Frame) : List Token → Document
  | [] => finish due stack
  | t :: ts =>
    match due with
    | .nothing v => ⟨v, true⟩
    | _ =>
      match advance due stack t with
      | .ok (due, stack) => build due stack ts
      | .error v => broken v stack

/-- The document of a text. -/
def ofText (text : String) : Document :=
  build .value [] (tokens text.toList)

end Document

end ShaderVariants.Json
