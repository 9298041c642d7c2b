import OData.Envelope
import OData.Proofs.LateSelection

/-!
# Envelopes as objects

Both ways of writing an envelope give the same members (`members`), and what
stands under a key is known for every key (`lookupMember_members`).  An object
is read by its four fields alone: the two that must be there, and the two that
may be null, which is the same as missing (`ofJson?_object_iff`).

So reading undoes writing (`ofJson?_members`).  Writing what was read gives the
object again, without the members of other names and without the nulls
(`members_of_ofJson?`): both are members in ascending order with the same values.
-/

namespace OData

namespace Json

/-! ## Members that are left -/

/-- A key of an object is in no other member, so a member that is dropped leaves nothing. -/
theorem Members.lookupMember_filter (members : Members) (kept : String × Json → Bool) (key : String) :
    lookupMember key (members.filter kept).toList =
      (lookupMember key members.toList).filter fun v => kept (key, v) := by
  obtain ⟨members, h⟩ := members
  simp only [Members.filter]
  induction members with
  | nil => rfl
  | cons m rest ih =>
    obtain ⟨k, v⟩ := m
    obtain ⟨hfirst, hrest⟩ := List.pairwise_cons.1 h
    rw [List.filter_cons, lookupMember]
    by_cases hk : k = key
    · subst hk
      rw [if_pos rfl, Option.filter_some]
      split
      · rw [lookupMember, if_pos rfl]
      · exact lookupMember_of_forall_lt fun m hm => hfirst m (List.mem_of_mem_filter hm)
    · rw [if_neg hk, ← ih hrest]
      split
      · rw [lookupMember, if_neg hk]
      · rfl

end Json

namespace Envelope

/-! ## Writing -/

/-- The members of an envelope: the context, the records, and what else is there. -/
def members (e : Envelope) : Json.Members :=
  .put nextLinkKey (e.nextLink.map .string) <| .insert valueKey (.array e.value) <|
    .put countKey (e.count.map .ofNat) <| .insert contextKey (.string e.context) .empty

theorem toList_members (e : Envelope) : e.members.toList =
    Json.putMember nextLinkKey (e.nextLink.map .string) (Json.insertMember valueKey (.array e.value)
      (Json.putMember countKey (e.count.map .ofNat)
        (Json.insertMember contextKey (.string e.context) []))) := rfl

theorem toJson_eq (e : Envelope) : e.toJson = e.members.toJson := by
  obtain ⟨context, _ | n, value, _ | link⟩ := e <;> rfl

/-- Writing the fields that are there gives the same as writing member by member. -/
theorem serialize_eq (e : Envelope) : e.serialize = e.members.toJson := by
  obtain ⟨context, _ | n, value, _ | link⟩ := e <;> rfl

section Keys

variable (e : Envelope)

theorem lookupMember_contextKey :
    Json.lookupMember contextKey e.members.toList = some (.string e.context) := by
  rw [toList_members, Json.lookupMember_putMember_of_ne (by decide),
    Json.lookupMember_insertMember_of_ne (by decide),
    Json.lookupMember_putMember_of_ne (by decide), Json.lookupMember_insertMember]

theorem lookupMember_countKey :
    Json.lookupMember countKey e.members.toList = e.count.map .ofNat := by
  rw [toList_members, Json.lookupMember_putMember_of_ne (by decide),
    Json.lookupMember_insertMember_of_ne (by decide), Json.lookupMember_putMember,
    Json.lookupMember_insertMember_of_ne (by decide), Json.lookupMember, Option.or_none]

theorem lookupMember_valueKey :
    Json.lookupMember valueKey e.members.toList = some (.array e.value) := by
  rw [toList_members, Json.lookupMember_putMember_of_ne (by decide), Json.lookupMember_insertMember]

theorem lookupMember_nextLinkKey :
    Json.lookupMember nextLinkKey e.members.toList = e.nextLink.map .string := by
  rw [toList_members, Json.lookupMember_putMember, Json.lookupMember_insertMember_of_ne (by decide),
    Json.lookupMember_putMember_of_ne (by decide),
    Json.lookupMember_insertMember_of_ne (by decide), Json.lookupMember, Option.or_none]

/-- The keys that an envelope can have. -/
def keys : List String := [contextKey, countKey, valueKey, nextLinkKey]

theorem lookupMember_of_not_mem_keys {key : String} (h : key ∉ keys) :
    Json.lookupMember key e.members.toList = none := by
  simp only [keys, List.mem_cons, List.not_mem_nil, or_false, not_or] at h
  obtain ⟨hcontext, hcount, hvalue, hlink⟩ := h
  rw [toList_members, Json.lookupMember_putMember_of_ne hlink,
    Json.lookupMember_insertMember_of_ne hvalue, Json.lookupMember_putMember_of_ne hcount,
    Json.lookupMember_insertMember_of_ne hcontext, Json.lookupMember]

end Keys

/-! ## Reading -/

/-- A size that may be null is null, or it is a number that is a size. -/
theorem optionalSize?_eq_some_iff {v : Json} {count : Option Nat} :
    optionalSize? v = some count ↔
      v = (count.map .ofNat).getD .null ∧ ∀ n ∈ count, n ≤ greatestSize := by
  constructor
  · intro h
    rw [optionalSize?.eq_def] at h
    split at h
    · cases h
      exact ⟨rfl, nofun⟩
    · next i =>
      split_ifs at h with hi
      simp only [Bool.and_eq_true, decide_eq_true_eq] at hi
      cases h
      obtain ⟨n, rfl⟩ := Int.eq_ofNat_of_zero_le hi.1
      refine ⟨rfl, ?_⟩
      rintro m ⟨⟩
      exact Int.ofNat_le.1 hi.2
    · cases h
  · rintro ⟨rfl, hcount⟩
    cases count with
    | none => rfl
    | some n =>
      have hn : (0 ≤ (n : Int) && (n : Int) ≤ greatestSize) = true := by
        have := hcount n rfl
        simp only [Bool.and_eq_true, decide_eq_true_eq]
        omega
      exact if_pos hn

/-- A string that may be null is null, or it is a string. -/
theorem optionalString?_eq_some_iff {v : Json} {text : Option String} :
    optionalString? v = some text ↔ v = (text.map .string).getD .null := by
  constructor
  · intro h
    rw [optionalString?.eq_def] at h
    split at h <;> cases h <;> rfl
  · rintro rfl
    cases text <;> rfl

theorem ofFields?_eq_some_iff {context count value nextLink : Json} {e : Envelope} :
    ofFields? context count value nextLink = some e ↔
      context = .string e.context ∧ optionalSize? count = some e.count ∧ value = .array e.value ∧
        optionalString? nextLink = some e.nextLink := by
  constructor
  · intro h
    rw [ofFields?.eq_def] at h
    split at h
    · split at h
      · obtain ⟨count, hcount, h⟩ := Option.bind_eq_some_iff.1 h
        obtain ⟨nextLink, hlink, h⟩ := Option.bind_eq_some_iff.1 h
        cases h
        exact ⟨rfl, hcount, rfl, hlink⟩
      · cases h
    · cases h
  · obtain ⟨text, n, records, link⟩ := e
    rintro ⟨rfl, hcount, rfl, hlink⟩
    rw [ofFields?, hcount, hlink]
    rfl

/-- An object is read by what stands under the four keys, and null under two of them is nothing. -/
theorem ofJson?_object_iff {ms : List (String × Json)} {e : Envelope} :
    ofJson? (.object ms) = some e ↔
      Json.lookupMember contextKey ms = some (.string e.context) ∧
      Json.lookupMember valueKey ms = some (.array e.value) ∧
      (Json.lookupMember countKey ms).getD .null = (e.count.map .ofNat).getD .null ∧
      (∀ n ∈ e.count, n ≤ greatestSize) ∧
      (Json.lookupMember nextLinkKey ms).getD .null = (e.nextLink.map .string).getD .null := by
  have hfields : ofJson? (.object ms) = some e ↔ ∃ context value,
      Json.lookupMember contextKey ms = some context ∧ Json.lookupMember valueKey ms = some value ∧
      ofFields? context ((Json.lookupMember countKey ms).getD .null) value
        ((Json.lookupMember nextLinkKey ms).getD .null) = some e := by
    simp [ofJson?, Option.bind_eq_some_iff]
  simp only [hfields, ofFields?_eq_some_iff, optionalSize?_eq_some_iff,
    optionalString?_eq_some_iff]
  constructor
  · rintro ⟨context, value, hcontext, hvalue, rfl, ⟨hcount, hsize⟩, rfl, hlink⟩
    exact ⟨hcontext, hvalue, hcount, hsize, hlink⟩
  · rintro ⟨hcontext, hvalue, hcount, hsize, hlink⟩
    exact ⟨_, _, hcontext, hvalue, rfl, ⟨hcount, hsize⟩, rfl, hlink⟩

/-! ## Writing and reading -/

/-- Reading undoes writing. -/
theorem ofJson?_members {e : Envelope} (h : ∀ n ∈ e.count, n ≤ greatestSize) :
    ofJson? e.members.toJson = some e := by
  rw [Json.Members.toJson, ofJson?_object_iff, lookupMember_contextKey, lookupMember_valueKey, lookupMember_countKey,
    lookupMember_nextLinkKey]
  exact ⟨rfl, rfl, rfl, h, rfl⟩

/-- Whether a member is one of an envelope: its key is, and it is not a null where that is nothing. -/
def isKept (m : String × Json) : Bool :=
  m.1 ∈ keys && !(m.1 ∈ [countKey, nextLinkKey] && m.2.isNull)

/-- Where null is nothing, what is there is what is not null. -/
theorem eq_filter_of_getD_null {old new : Option Json} (h : old.getD .null = new.getD .null)
    (hnew : ∀ v ∈ new, v.isNull = false) : new = old.filter fun v => !v.isNull := by
  cases new with
  | none =>
    cases old with
    | none => rfl
    | some v =>
      obtain rfl : v = .null := h
      rfl
  | some w =>
    cases old with
    | none =>
      obtain rfl : .null = w := h
      cases hnew .null rfl
    | some v =>
      obtain rfl : v = w := h
      rw [Option.filter_some, hnew v rfl]
      rfl

/-- Writing what was read from an object gives the members of it that are kept. -/
theorem members_of_ofJson? {ms : Json.Members} {e : Envelope} (h : ofJson? ms.toJson = some e) :
    e.members = ms.filter isKept := by
  obtain ⟨hcontext, hvalue, hcount, -, hlink⟩ := ofJson?_object_iff.1 h
  refine Json.Members.ext fun key => ?_
  rw [ms.lookupMember_filter]
  by_cases hkey : key ∈ keys
  · simp only [keys, List.mem_cons, List.not_mem_nil, or_false] at hkey
    rcases hkey with rfl | rfl | rfl | rfl
    · rw [lookupMember_contextKey, hcontext]
      rfl
    · rw [lookupMember_countKey]
      refine eq_filter_of_getD_null hcount fun v hv => ?_
      obtain ⟨n, -, rfl⟩ := Option.map_eq_some_iff.1 hv
      rfl
    · rw [lookupMember_valueKey, hvalue]
      rfl
    · rw [lookupMember_nextLinkKey]
      refine eq_filter_of_getD_null hlink fun v hv => ?_
      obtain ⟨link, -, rfl⟩ := Option.map_eq_some_iff.1 hv
      rfl
  · rw [lookupMember_of_not_mem_keys e hkey]
    cases Json.lookupMember key ms.toList with
    | none => rfl
    | some v => simp [isKept, hkey]

/-- The two ways of writing an envelope agree, and reading undoes them.  Writing the envelope that an object
is read as gives the object without the members of other names and without nulls for the number and the
link. -/
theorem writing_and_reading :
    (∀ e : Envelope, e.serialize = e.toJson) ∧
    (∀ e : Envelope, (∀ n ∈ e.count, n ≤ greatestSize) →
      ofJson? e.serialize = some e ∧ ofJson? e.toJson = some e) ∧
    ∀ (ms : Json.Members) (e : Envelope), ofJson? ms.toJson = some e →
      e.serialize = (ms.filter isKept).toJson ∧ e.toJson = (ms.filter isKept).toJson := by
  refine ⟨fun e => ?_, fun e he => ?_, fun ms e h => ?_⟩
  · rw [serialize_eq, toJson_eq]
  · rw [serialize_eq, toJson_eq]
    exact ⟨ofJson?_members he, ofJson?_members he⟩
  · rw [serialize_eq, toJson_eq, members_of_ofJson? h]
    exact ⟨rfl, rfl⟩

/-- The greatest number and no link, and an object with a null and other names. -/
theorem writing_and_reading_extra :
    let e : Envelope := ⟨"$metadata#Things", some greatestSize, [.null, .object []], none⟩
    let ms : Json.Members :=
      { toList := [(contextKey, .string "$metadata#Things"), (countKey, .ofNat greatestSize),
          (nextLinkKey, .null), ("extra", .null), (valueKey, .array [.null, .object []])]
        ascending := by decide }
    ofJson? e.serialize = some e ∧ ofJson? e.toJson = some e ∧ ofJson? ms.toJson = some e ∧
      e.serialize = .object [(contextKey, .string "$metadata#Things"),
        (countKey, .ofNat greatestSize), (valueKey, .array [.null, .object []])] := by
  intro e ms
  obtain ⟨-, hread, hwrite⟩ := writing_and_reading
  obtain ⟨hserialize, hjson⟩ := hread e (by rintro n ⟨⟩; exact Nat.le_refl _)
  have hobject : ofJson? ms.toJson = some e := by
    rw [Json.Members.toJson, ofJson?_object_iff]
    exact ⟨rfl, rfl, rfl, by rintro n ⟨⟩; exact Nat.le_refl _, rfl⟩
  exact ⟨hserialize, hjson, hobject, (hwrite ms e hobject).1⟩

end Envelope

end OData
