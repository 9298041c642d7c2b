import OData.Number.Rounding

/-!
# JSON values

Records are JSON values.  A number remembers whether it was written as an
integer, since deep equality keeps integers and other numbers apart.  Wherever
else a number counts, only its value does (`Json.Number.value`).

The members of an object are a list in ascending order of their keys, without
repeats.  `insertMember` keeps that order and replaces the value of a key that
is there already.  The type of values cannot say so, since the keys would have to
be known in it before the values, so it is said by the type of lists that have
this order (`Json.Members`).
-/

namespace OData

/-- A JSON number: an integer, or a number with a point or an exponent. -/
inductive Json.Number where
  /-- A number written as an integer. -/
  | integer (i : Int)
  /-- A number written otherwise, or an integer beyond 64 bits. -/
  | float (x : Binary64)
deriving DecidableEq

/-- A JSON value. -/
inductive Json where
  /-- The value `null`. -/
  | null
  /-- A truth value. -/
  | bool (b : Bool)
  /-- A number. -/
  | number (n : Json.Number)
  /-- A string. -/
  | string (s : String)
  /-- An array. -/
  | array (items : List Json)
  /-- An object, its members in ascending order of their keys. -/
  | object (members : List (String × Json))

namespace Json

instance : Inhabited Json := ⟨.null⟩

/-! ## Numbers -/

/-- The value of a number. -/
def Number.value : Number → Binary64
  | .integer i => .ofInt i
  | .float x => x

/-- Whether two numbers are of one kind and have one value. -/
def Number.equal : Number → Number → Bool
  | .integer i, .integer j => i = j
  | .float x, .float y => x.equal y
  | _, _ => false

/-- A size as a JSON number. -/
def ofNat (n : Nat) : Json := .number (.integer n)

/-! ## Members -/

/-- The value of a key among members. -/
def lookupMember (key : String) : List (String × Json) → Option Json
  | [] => none
  | (k, v) :: rest => if k = key then some v else lookupMember key rest

/-- The members with a value put under a key, in order and in place of an earlier value. -/
def insertMember (key : String) (value : Json) : List (String × Json) → List (String × Json)
  | [] => [(key, value)]
  | (k, v) :: rest =>
    if key = k then (key, value) :: rest
    else if key < k then (key, value) :: (k, v) :: rest
    else (k, v) :: insertMember key value rest

/-- The object with the given members, of which the last with a key counts. -/
def ofMembers (members : List (String × Json)) : Json :=
  .object (members.foldl (fun acc (k, v) => insertMember k v acc) [])

/-- The keys of some members ascend, as they do in an object. -/
def Ascending (members : List (String × Json)) : Prop := members.Pairwise fun m n => m.1 < n.1

instance (members : List (String × Json)) : Decidable (Ascending members) :=
  inferInstanceAs (Decidable (List.Pairwise _ _))

/-- The members that an object can have. -/
structure Members where
  /-- The members one after the other. -/
  toList : List (String × Json)
  /-- Their keys ascend. -/
  ascending : Ascending toList

/-- The value of a member, if the value is an object that has it. -/
def member? (key : String) : Json → Option Json
  | .object members => lookupMember key members
  | _ => none

/-- Whether a value is `null`. -/
def isNull : Json → Bool
  | .null => true
  | _ => false

/-- The value under a key just put there is that value. -/
theorem lookupMember_insertMember (key : String) (value : Json) (members : List (String × Json)) :
    lookupMember key (insertMember key value members) = some value := by
  induction members with
  | nil => simp [insertMember, lookupMember]
  | cons m rest ih =>
    obtain ⟨k, v⟩ := m
    rw [insertMember]
    split
    · simp [lookupMember]
    · split
      · simp [lookupMember]
      · next h _ => simp [lookupMember, ih, Ne.symm h]

/-- Putting a value under a key leaves every other key alone. -/
theorem lookupMember_insertMember_of_ne {key other : String} (h : other ≠ key) (value : Json)
    (members : List (String × Json)) :
    lookupMember other (insertMember key value members) = lookupMember other members := by
  induction members with
  | nil => simp [insertMember, lookupMember, Ne.symm h]
  | cons m rest ih =>
    obtain ⟨k, v⟩ := m
    rw [insertMember]
    split
    · next hk => subst hk; simp [lookupMember, Ne.symm h]
    · split
      · simp [lookupMember, Ne.symm h]
      · simp only [lookupMember, ih]

theorem mem_insertMember {key : String} {value : Json} {members : List (String × Json)}
    {m : String × Json} (h : m ∈ insertMember key value members) :
    m = (key, value) ∨ m ∈ members := by
  induction members with
  | nil => exact .inl (List.mem_singleton.1 h)
  | cons n rest ih =>
    obtain ⟨k, v⟩ := n
    rw [insertMember] at h
    split at h
    · rcases List.mem_cons.1 h with h | h
      · exact .inl h
      · exact .inr (List.mem_cons_of_mem _ h)
    · split at h
      · exact List.mem_cons.1 h
      · rcases List.mem_cons.1 h with rfl | h
        · exact .inr List.mem_cons_self
        · exact (ih h).imp_right (List.mem_cons_of_mem _)

/-- Putting a value under a key keeps the order. -/
theorem ascending_insertMember {members : List (String × Json)} (h : Ascending members) (key : String)
    (value : Json) : Ascending (insertMember key value members) := by
  induction members with
  | nil => exact List.pairwise_singleton _ _
  | cons m rest ih =>
    obtain ⟨k, v⟩ := m
    obtain ⟨hfirst, hrest⟩ := List.pairwise_cons.1 h
    rw [insertMember]
    split
    case isTrue heq =>
      subst heq
      exact List.pairwise_cons.2 ⟨hfirst, hrest⟩
    case isFalse hne =>
      split
      case isTrue hlt =>
        refine List.pairwise_cons.2 ⟨?_, h⟩
        rintro n hn
        rcases List.mem_cons.1 hn with rfl | hn
        · exact hlt
        · exact String.lt_trans hlt (hfirst n hn)
      case isFalse hge =>
        have hlt : k < key := Decidable.byContradiction fun hnot =>
          hne (String.le_antisymm (String.not_lt.1 hnot) (String.not_lt.1 hge))
        refine List.pairwise_cons.2 ⟨?_, ih hrest⟩
        intro n hn
        rcases mem_insertMember hn with rfl | hn
        · exact hlt
        · exact hfirst n hn

namespace Members

/-- The object with some members. -/
def toJson (members : Members) : Json := .object members.toList

/-- The keys. -/
def keys (members : Members) : List String := members.toList.map Prod.fst

/-- No members. -/
def empty : Members := ⟨[], List.Pairwise.nil⟩

/-- The members with a value put under a key. -/
def insert (key : String) (value : Json) (members : Members) : Members :=
  ⟨insertMember key value members.toList, ascending_insertMember members.ascending key value⟩

/-- The members of a list, of which the last with a key counts. -/
def ofList (members : List (String × Json)) : Members :=
  members.foldl (fun acc (k, v) => acc.insert k v) empty

/-- The members that are kept. -/
def filter (kept : String × Json → Bool) (members : Members) : Members :=
  ⟨members.toList.filter kept, List.Pairwise.filter _ members.ascending⟩

/-- The object of a list of members is the one of the members in order. -/
theorem toJson_ofList (members : List (String × Json)) : (ofList members).toJson = ofMembers members := by
  have hfold (acc : Members) :
      (members.foldl (fun acc (k, v) => acc.insert k v) acc).toList =
        members.foldl (fun acc (k, v) => insertMember k v acc) acc.toList := by
    induction members generalizing acc with
    | nil => rfl
    | cons m rest ih => exact ih _
  exact congrArg Json.object (hfold empty)

end Members

/-! ## Deep equality -/

mutual
/-- Whether two values are the same at every depth, numbers compared within their kind. -/
def equal : Json → Json → Bool
  | .null, .null => true
  | .bool a, .bool b => a = b
  | .number a, .number b => a.equal b
  | .string a, .string b => a = b
  | .array xs, .array ys => equalItems xs ys
  | .object xs, .object ys => equalMembers xs ys
  | _, _ => false

/-- Whether two arrays have the same items. -/
def equalItems : List Json → List Json → Bool
  | [], [] => true
  | x :: xs, y :: ys => equal x y && equalItems xs ys
  | _, _ => false

/-- Whether two objects have the same members. -/
def equalMembers : List (String × Json) → List (String × Json) → Bool
  | [], [] => true
  | (k, x) :: xs, (l, y) :: ys => k = l && equal x y && equalMembers xs ys
  | _, _ => false
end

end Json

end OData
