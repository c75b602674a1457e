import MessageTemplate.Message.Json
import MessageTemplate.Proofs.Json.RoundTrip

/-!
# Leaving out nulls

Without its null members an object is still canonical. As long as its keys are
known, nothing is lost: a key that is gone had the value null. An encoder that
fixes the keys of its objects is therefore lossless if the encoders of their
members are.
-/

namespace MessageTemplate
namespace Json

theorem dropNullsAll_eq (items : List Json) : dropNullsAll items = items.map dropNulls := by
  induction items with
  | nil => rfl
  | cons item items ih => rw [dropNullsAll, ih, List.map_cons]

theorem dropNullMembers_eq (members : List (String × Json)) :
    dropNullMembers members =
      (members.filter fun member => !member.2.isNull).map fun member =>
        (member.1, member.2.dropNulls) := by
  induction members with
  | nil => rfl
  | cons member members ih =>
    rw [dropNullMembers, ih, List.filter_cons]
    cases member.2.isNull <;> rfl

theorem keys_dropNullMembers (members : List (String × Json)) :
    ((dropNullMembers members).map Prod.fst).Sublist (members.map Prod.fst) := by
  rw [dropNullMembers_eq, List.map_map]
  exact List.filter_sublist.map Prod.fst

theorem isNull_dropNulls (json : Json) : json.dropNulls.isNull = json.isNull := by
  cases json <;> simp [dropNulls, isNull]

theorem eq_null_of_isNull {json : Json} (h : json.isNull = true) : json = .null := by
  cases json <;> first | rfl | contradiction

theorem Canonical.dropNulls {depth : Nat} {json : Json} (h : Canonical depth json) :
    Canonical depth json.dropNulls := by
  induction h with
  | null => exact .null
  | bool => exact .bool
  | integer h => exact .integer h
  | string => exact .string
  | array h ih =>
    rw [Json.dropNulls, dropNullsAll_eq]
    refine .array fun item hitem => ?_
    obtain ⟨whole, hwhole, rfl⟩ := List.mem_map.1 hitem
    exact ih whole hwhole
  | @object depth members hkeys h ih =>
    rw [Json.dropNulls]
    refine .object (hkeys.sublist (keys_dropNullMembers members)) fun member hmember => ?_
    rw [dropNullMembers_eq] at hmember
    obtain ⟨whole, hwhole, rfl⟩ := List.mem_map.1 hmember
    exact ih whole (List.mem_filter.1 hwhole).1

theorem dropNullMembers_ne_cons {key : String} {value : Json} {kept rest : List (String × Json)}
    (h : key ∉ rest.map Prod.fst) : dropNullMembers rest ≠ (key, value) :: kept := by
  intro heq
  have hkept : key ∈ (dropNullMembers rest).map Prod.fst := by simp [heq]
  exact h ((keys_dropNullMembers rest).subset hkept)

/-- Objects with the same keys that agree without their null members agree in each member. -/
theorem dropNullMembers_inj {first second : List (String × Json)}
    (hkeys : first.map Prod.fst = second.map Prod.fst) (hnodup : (first.map Prod.fst).Nodup)
    (h : dropNullMembers first = dropNullMembers second) :
    first.map (fun member => member.2.dropNulls) = second.map fun member => member.2.dropNulls := by
  induction first generalizing second with
  | nil =>
    obtain rfl : second = [] := List.map_eq_nil_iff.1 hkeys.symm
    rfl
  | cons member first ih =>
    cases second with
    | nil => contradiction
    | cons other second =>
      obtain ⟨key, value⟩ := member
      obtain ⟨otherKey, otherValue⟩ := other
      obtain ⟨rfl, hrest⟩ := List.cons.inj hkeys
      obtain ⟨hfirst, hnodup⟩ := List.nodup_cons.1 hnodup
      have hsecond : key ∉ second.map Prod.fst := hrest ▸ hfirst
      rw [List.map_cons, List.map_cons]
      simp only [dropNullMembers] at h
      -- A member that only one side keeps has a key that the other side has nowhere else.
      split at h <;> split at h
      · rename_i hnull hother
        rw [eq_null_of_isNull hnull, eq_null_of_isNull hother, ih hrest hnodup h]
      · exact absurd h (dropNullMembers_ne_cons hfirst)
      · exact absurd h.symm (dropNullMembers_ne_cons hsecond)
      · obtain ⟨hvalue, hkept⟩ := List.cons.inj h
        rw [(Prod.mk.inj hvalue).2, ih hrest hnodup hkept]

/-! ## Lossless encoders -/

/-- The encoded thing is determined by what is left of its encoding without nulls. -/
def Lossless {α : Type} (encode : α → Json) : Prop :=
  ∀ first second, (encode first).dropNulls = (encode second).dropNulls → first = second

namespace Lossless

variable {α : Type} {encode : α → Json}

theorem string : Lossless .string := fun _ _ h => Json.string.inj h

theorem bool : Lossless .bool := fun _ _ h => Json.bool.inj h

/-- What is never null can be left out. -/
theorem optional (h : Lossless encode) (hnull : ∀ value, (encode value).isNull = false) :
    Lossless (Json.optional encode) := by
  intro first second heq
  have hne : ∀ value, (encode value).dropNulls ≠ Json.null := by
    intro value hvalue
    have hkept := (isNull_dropNulls (encode value)).trans (hnull value)
    rw [hvalue] at hkept
    contradiction
  cases first with
  | none =>
    cases second with
    | none => rfl
    | some value => exact absurd heq.symm (hne value)
  | some value =>
    cases second with
    | none => exact absurd heq (hne value)
    | some other => rw [h value other heq]

theorem array (h : Lossless encode) :
    Lossless fun values : List α => .array (values.map encode) := by
  intro first second heq
  have hitems : (first.map encode).map dropNulls = (second.map encode).map dropNulls := by
    rw [← dropNullsAll_eq, ← dropNullsAll_eq]
    exact Json.array.inj heq
  rw [List.map_map, List.map_map] at hitems
  exact List.map_injective_iff.2 (fun value other => h value other) hitems

/-- An object with fixed keys loses nothing that its members keep. -/
theorem object {members : α → List (String × Json)} {keys : List String}
    (hkeys : ∀ value, (members value).map Prod.fst = keys) (hnodup : keys.Nodup)
    (h : ∀ first second, (members first).map (fun member => member.2.dropNulls) =
      (members second).map (fun member => member.2.dropNulls) → first = second) :
    Lossless fun value => .object (members value) := by
  intro first second heq
  refine h first second (dropNullMembers_inj ?_ ?_ (Json.object.inj heq))
  · rw [hkeys, hkeys]
  · rwa [hkeys]

end Lossless
end Json
end MessageTemplate
