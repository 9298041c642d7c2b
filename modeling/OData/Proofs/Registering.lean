import Mathlib.Data.List.Induction
import OData.Filter.Builtin
import OData.Proofs.LetterCase

/-!
# Functions registered in turn

One registration gives a name its function and leaves all other names alone
(`find?_register_eq`), where names that differ in the case of ASCII letters are one
name.  So after any registrations a table has the last one under each name, and
what it had before under the names that are not among them (`find?_registerAll`).
-/

namespace OData.Filter.FunctionTable

open Text (SameName outsideAscii)

/-- The registrations under a name, in turn. -/
def under (name : String) (registrations : List (String × Function)) : List (String × Function) :=
  registrations.filter fun r => SameName r.1 name

variable (table start : FunctionTable) (name : String) (registrations : List (String × Function))

theorem under_append_singleton (r : String × Function) : under name (registrations ++ [r]) =
    under name registrations ++ if SameName r.1 name then [r] else [] := by
  simp only [under, List.filter_append, List.filter_cons, List.filter_nil, decide_eq_true_eq]

/-- One registration gives its name the function and leaves all other names alone. -/
theorem find?_register_eq (other : String) (function : Function) :
    (table.register other function).find? name =
      if SameName other name then some function else table.find? name := by
  split
  · next h => exact find?_register table (Text.asciiLower_eq_iff.2 h).symm function
  · next h =>
    exact find?_register_of_ne table (fun heq => h (Text.asciiLower_eq_iff.1 heq.symm)) function

/-- After any registrations the last one under a name counts, and without one what was there before. -/
theorem find?_registerAll : (start.registerAll registrations).find? name =
    ((under name registrations).getLast?.map Prod.snd).or (start.find? name) := by
  induction registrations using List.reverseRecOn with
  | nil => rfl
  | append_singleton registrations r ih =>
    have hstep : start.registerAll (registrations ++ [r]) =
        (start.registerAll registrations).register r.1 r.2 := List.foldl_append
    rw [hstep, find?_register_eq, under_append_singleton]
    split
    · rw [List.getLast?_concat]
      rfl
    · rw [List.append_nil, ih]

/-- A call applies the function of the last registration under its name, up to the case of ASCII
letters; without one the function that the table had from the start; and gives false without that.
Registrations under other names do not matter, and names with different characters outside ASCII are
other names. -/
theorem call_registerAll (args : List Operand) :
    (start.registerAll registrations).call name args =
      (match (under name registrations).getLast? with
      | some (_, function) => function args
      | none => match start.entries.lookup (Text.asciiLower name) with
        | some function => function args
        | none => .bool false) ∧
    (∀ others : List (String × Function), under name others = under name registrations →
      (start.registerAll others).call name args = (start.registerAll registrations).call name args) ∧
    ∀ (other : String) (function : Function), outsideAscii other ≠ outsideAscii name →
      ((start.registerAll registrations).register other function).call name args =
        (start.registerAll registrations).call name args := by
  refine ⟨?_, fun others h => ?_, fun other function h => ?_⟩
  · rw [call, find?_registerAll, find?]
    cases (under name registrations).getLast? <;> rfl
  · rw [call, call, find?_registerAll, find?_registerAll, h]
  · rw [call, call, find?_register_eq, if_neg (mt Text.SameName.outsideAscii_eq h)]

/-- The accent has a capital and a small form, and these are two names. -/
theorem call_registerAll_accent :
    let start := builtin (.midnight ⟨2024, 1, 1, by decide, by decide, by decide⟩)
    let registrations : List (String × Function) :=
      [("Twice", Builtin.trim), ("trim", Builtin.concat), ("TWICE", Builtin.length)]
    let others : List (String × Function) := [("Twice", Builtin.trim), ("TWICE", Builtin.length)]
    let args : List Operand := [.string "x"]
    (start.registerAll registrations).call "twice" args = Builtin.length args ∧
      (start.registerAll registrations).call "Contains" args = Builtin.contains args ∧
      under "twice" others = under "twice" registrations ∧
      (start.registerAll others).call "twice" args = Builtin.length args ∧
      outsideAscii "twicÉ" ≠ outsideAscii "twicé" ∧
      ((start.registerAll registrations).register "twicÉ" Builtin.trim).call "twicé" args =
        .bool false := by
  intro start registrations others args
  have hunder : under "twice" registrations =
      [("Twice", Builtin.trim), ("TWICE", Builtin.length)] := by rfl
  have hothers : under "twice" others = under "twice" registrations := by rfl
  have hout : outsideAscii "twicÉ" ≠ outsideAscii "twicé" := by decide +kernel
  obtain ⟨hlast, hsame, -⟩ := call_registerAll start "twice" registrations args
  obtain ⟨hbuiltin, -, -⟩ := call_registerAll start "Contains" registrations args
  obtain ⟨hnone, -, hother⟩ := call_registerAll start "twicé" registrations args
  rw [hunder] at hlast
  refine ⟨hlast, hbuiltin.trans ?_, hothers, (hsame others hothers).trans hlast, hout,
    (hother "twicÉ" Builtin.trim hout).trans (hnone.trans ?_)⟩
  · rfl
  · rfl

end OData.Filter.FunctionTable
