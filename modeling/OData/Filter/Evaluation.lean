import OData.Filter.Operand
import OData.Text.Pieces

/-!
# Evaluating a filter

A function takes evaluated arguments, any number of them, and always gives an
operand.  A table finds functions by name, where the case of ASCII letters does
not matter.  Of two functions registered under one name the later counts, and a
name that is not in the table gives false.

An expression has a value on every record: no record and no function can make
evaluation fail.  Connectives and comparisons give truth values.  A record
is accepted by a filter when the value of the filter counts as true.
-/

namespace OData.Filter

/-! ## Functions by name -/

/-- A function of filters. -/
abbrev Function := List Operand → Operand

/-- Functions by name. -/
structure FunctionTable where
  /-- The functions under their names in small letters, the latest first. -/
  entries : List (String × Function)

namespace FunctionTable

/-- The table without functions. -/
def empty : FunctionTable := ⟨[]⟩

/-- The function under a name. -/
def find? (table : FunctionTable) (name : String) : Option Function :=
  table.entries.lookup (Text.asciiLower name)

/-- The table with a function put under a name. -/
def register (table : FunctionTable) (name : String) (function : Function) : FunctionTable :=
  ⟨(Text.asciiLower name, function) :: table.entries⟩

/-- The table with some functions put under their names in turn. -/
def registerAll (table : FunctionTable) (entries : List (String × Function)) : FunctionTable :=
  entries.foldl (fun table (name, function) => table.register name function) table

/-- What a call by name gives. -/
def call (table : FunctionTable) (name : String) (args : List Operand) : Operand :=
  match table.find? name with
  | some function => function args
  | none => .bool false

/-- A name finds the function just registered under it, in any letter case. -/
theorem find?_register (table : FunctionTable) {name other : String}
    (h : Text.asciiLower other = Text.asciiLower name) (function : Function) :
    (table.register name function).find? other = some function := by
  simp [find?, register, h]

/-- A registration leaves every other name alone. -/
theorem find?_register_of_ne (table : FunctionTable) {name other : String}
    (h : Text.asciiLower other ≠ Text.asciiLower name) (function : Function) :
    (table.register name function).find? other = table.find? other := by
  have : (Text.asciiLower other == Text.asciiLower name) = false := by simpa using h
  simp [find?, register, List.lookup_cons, this]

end FunctionTable

namespace Expr

/-! ## Values of expressions -/

mutual
/-- The value of an expression on a record. -/
def eval (functions : FunctionTable) (record : Json) : Expr → Operand
  | .and l r => .bool ((l.eval functions record).truthy && (r.eval functions record).truthy)
  | .or l r => .bool ((l.eval functions record).truthy || (r.eval functions record).truthy)
  | .not e => .bool (!(e.eval functions record).truthy)
  | .compare l op r => .bool (op.holds (l.eval functions record) (r.eval functions record))
  | .isIn e items =>
    .bool ((evalAll functions record items).any (equal (e.eval functions record)))
  | .call name args => functions.call name (evalAll functions record args)
  | .property path => ((path.resolve record).map Operand.ofJson).getD .absent
  | .literal value => .ofLiteral value

/-- The values of some expressions on a record. -/
def evalAll (functions : FunctionTable) (record : Json) : List Expr → List Operand
  | [] => []
  | e :: es => e.eval functions record :: evalAll functions record es
end

/-- Whether a filter accepts a record. -/
def accepts (functions : FunctionTable) (e : Expr) (record : Json) : Bool :=
  (e.eval functions record).truthy

end Expr

end OData.Filter
