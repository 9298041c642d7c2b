import OData.Filter.Evaluation
import OData.Proofs.Selecting

/-!
# What a filter reads

The value of an expression depends on the record only through its paths, and on
the table only through the functions it calls by name (`eval_congr`).  So a
selection that keeps the first name of every path changes no value
(`eval_selectMembers`).
-/

namespace OData.Filter.Expr

mutual
/-- The paths in an expression. -/
def paths : Expr → List PropertyPath
  | .and l r | .or l r | .compare l _ r => l.paths ++ r.paths
  | .not e => e.paths
  | .isIn e items => e.paths ++ pathsAll items
  | .call _ args => pathsAll args
  | .property path => [path]
  | .literal _ => []

/-- The paths in some expressions. -/
def pathsAll : List Expr → List PropertyPath
  | [] => []
  | e :: es => e.paths ++ pathsAll es
end

mutual
/-- The names that an expression calls. -/
def calls : Expr → List String
  | .and l r | .or l r | .compare l _ r => l.calls ++ r.calls
  | .not e => e.calls
  | .isIn e items => e.calls ++ callsAll items
  | .call name args => name :: callsAll args
  | .property _ | .literal _ => []

/-- The names that some expressions call. -/
def callsAll : List Expr → List String
  | [] => []
  | e :: es => e.calls ++ callsAll es
end

section Congruence

variable {functions functions' : FunctionTable} {record record' : Json}

mutual
/-- Evaluation reads only the paths of an expression, and looks up only the names that it calls. -/
theorem eval_congr : ∀ e : Expr,
    (∀ path ∈ e.paths, path.resolve record = path.resolve record') →
    (∀ name ∈ e.calls, functions.find? name = functions'.find? name) →
    e.eval functions record = e.eval functions' record'
  | .and l r, hpaths, hcalls => by
    simp only [paths, calls, List.forall_mem_append] at hpaths hcalls
    rw [eval, eval, eval_congr l hpaths.1 hcalls.1, eval_congr r hpaths.2 hcalls.2]
  | .or l r, hpaths, hcalls => by
    simp only [paths, calls, List.forall_mem_append] at hpaths hcalls
    rw [eval, eval, eval_congr l hpaths.1 hcalls.1, eval_congr r hpaths.2 hcalls.2]
  | .compare l op r, hpaths, hcalls => by
    simp only [paths, calls, List.forall_mem_append] at hpaths hcalls
    rw [eval, eval, eval_congr l hpaths.1 hcalls.1, eval_congr r hpaths.2 hcalls.2]
  | .not e, hpaths, hcalls => by
    rw [eval, eval, eval_congr e hpaths hcalls]
  | .isIn e items, hpaths, hcalls => by
    simp only [paths, calls, List.forall_mem_append] at hpaths hcalls
    rw [eval, eval, eval_congr e hpaths.1 hcalls.1, evalAll_congr items hpaths.2 hcalls.2]
  | .call name args, hpaths, hcalls => by
    rw [calls, List.forall_mem_cons] at hcalls
    rw [eval, eval, FunctionTable.call, FunctionTable.call, hcalls.1,
      evalAll_congr args hpaths hcalls.2]
  | .property path, hpaths, _ => by
    rw [eval, eval, hpaths path (List.mem_singleton_self path)]
  | .literal _, _, _ => rfl

theorem evalAll_congr : ∀ es : List Expr,
    (∀ path ∈ pathsAll es, path.resolve record = path.resolve record') →
    (∀ name ∈ callsAll es, functions.find? name = functions'.find? name) →
    evalAll functions record es = evalAll functions' record' es
  | [], _, _ => rfl
  | e :: es, hpaths, hcalls => by
    simp only [pathsAll, callsAll, List.forall_mem_append] at hpaths hcalls
    rw [evalAll, evalAll, eval_congr e hpaths.1 hcalls.1, evalAll_congr es hpaths.2 hcalls.2]
end

/-- A filter accepts all or none of the records that look the same along its paths. -/
theorem accepts_congr {e : Expr}
    (hpaths : ∀ path ∈ e.paths, path.resolve record = path.resolve record') :
    e.accepts functions record = e.accepts functions record' := by
  rw [accepts, accepts, eval_congr e hpaths fun _ _ => rfl]

end Congruence

/-- A selection that keeps the first name of every path keeps the value. -/
theorem eval_selectMembers {e : Expr} {fields : List String}
    (h : ∀ path ∈ e.paths, path.StartsIn fields) (functions : FunctionTable) (record : Json) :
    e.eval functions (Collection.selectMembers fields record) = e.eval functions record :=
  eval_congr e (fun path hpath => Collection.resolve_selectMembers (h path hpath) record)
    fun _ _ => rfl

/-- Evaluation depends only on what an expression names.  Two records and two tables that agree on its
paths and on the functions it calls give the same value.  In particular, projecting records to fields
with the first name of every path changes neither their values nor which of them are accepted. -/
theorem eval_eq_of_agree (e : Expr) :
    (∀ (functions functions' : FunctionTable) (record record' : Json),
      (∀ path ∈ e.paths, path.resolve record = path.resolve record') →
      (∀ name ∈ e.calls, functions.find? name = functions'.find? name) →
      e.eval functions record = e.eval functions' record' ∧
        e.accepts functions record = e.accepts functions' record') ∧
    ∀ (functions : FunctionTable) (fields : List String) (records : List Json),
      (∀ path ∈ e.paths, path.StartsIn fields) →
      (Collection.project (some fields) records).map (e.eval functions) =
          records.map (e.eval functions) ∧
        (Collection.project (some fields) records).map (e.accepts functions) =
          records.map (e.accepts functions) := by
  constructor
  · intro functions functions' record record' hpaths hcalls
    have hvalue := eval_congr e hpaths hcalls
    exact ⟨hvalue, by rw [accepts, accepts, hvalue]⟩
  · intro functions fields records hfields
    cases fields with
    | nil => exact ⟨rfl, rfl⟩
    | cons field fields =>
      have hvalue (record : Json) := eval_selectMembers hfields functions record
      rw [Collection.project, List.map_map, List.map_map]
      constructor
      · exact List.map_congr_left fun record _ => hvalue record
      · refine List.map_congr_left fun record _ => ?_
        rw [Function.comp_apply, accepts, accepts, hvalue]

/-- A call in capital letters and a path into an object.  The records differ in a member that is not
read, and the tables in a function that is not called. -/
theorem eval_eq_of_agree_unread :
    let e : Expr := .and (.compare (.property ⟨["a", "b"]⟩) .eq (.literal (.bool true)))
      (.call "COUNT" [.property ⟨["c"]⟩])
    let count : Function := fun args => .bool (args.length = 1)
    let functions := FunctionTable.empty.register "Count" count
    let functions' := functions.register "other" fun _ => .null
    let record : Json := .object [("a", .object [("b", .bool true)]), ("d", .null)]
    let record' : Json := .object [("a", .object [("b", .bool true)]), ("d", .bool false)]
    e.accepts functions record = true ∧ e.accepts functions' record' = true ∧
      (Collection.project (some ["c", "a"]) [record]).map (e.accepts functions) = [true] := by
  intro e count functions functions' record record'
  have haccepts : e.accepts functions record = true := by decide
  obtain ⟨hagree, hproject⟩ := eval_eq_of_agree e
  have hpaths : ∀ path ∈ e.paths, path.resolve record = path.resolve record' := by
    intro path hpath
    rcases List.mem_cons.1 hpath with rfl | hpath
    · rfl
    · obtain rfl := List.mem_singleton.1 hpath
      rfl
  have hcalls : ∀ name ∈ e.calls, functions.find? name = functions'.find? name := by
    intro name hname
    obtain rfl := List.mem_singleton.1 hname
    exact (FunctionTable.find?_register_of_ne functions (by decide) _).symm
  have hfields : ∀ path ∈ e.paths, path.StartsIn ["c", "a"] := by
    intro path hpath
    rcases List.mem_cons.1 hpath with rfl | hpath
    · exact ⟨"a", rfl, by decide⟩
    · obtain rfl := List.mem_singleton.1 hpath
      exact ⟨"c", rfl, by decide⟩
  have hsame := (hagree functions functions' record record' hpaths hcalls).2
  refine ⟨haccepts, hsame.symm.trans haccepts, ?_⟩
  rw [(hproject functions ["c", "a"] [record] hfields).2, List.map_singleton, haccepts]

end OData.Filter.Expr
