import PuzzleContest.Binary64
import PuzzleContest.Json.Spelling

/-!
# Values of the JSON data format

Numbers without fraction and exponent are integers of any size, the others are doubles.  The
members of an object are kept in the order in which their names first appeared.

A text or a name in which half of a character stands alone cannot be sent; nor can a number that is
not finite.
-/

namespace PuzzleContest

open Json (Ragged Spelling) in
/-- A JSON value. -/
inductive Json where
  | null
  | bool (b : Bool)
  | int (n : Int)
  | float (x : Binary64)
  | text (s : String)
  /-- A text in which half of a character stands alone. -/
  | unpaired (s : Ragged)
  | list (items : List Json)
  | object (members : List (Spelling × Json))
deriving Repr

namespace Json

instance : Inhabited Json := ⟨.null⟩

/-- The value of the first member of a name. -/
def lookup (name : Spelling) (members : List (Spelling × Json)) : Option Json :=
  (members.find? fun m => m.1 = name).map (·.2)

/-- The member of an object; `none` for a missing member and for every other value. -/
def get? (j : Json) (name : Spelling) : Option Json :=
  match j with
  | .object members => lookup name members
  | _ => none

/-- Set a member: a present name keeps its place and takes the new value. -/
def setMember (name : Spelling) (value : Json) : List (Spelling × Json) → List (Spelling × Json)
  | [] => [(name, value)]
  | m :: rest => if m.1 = name then (name, value) :: rest else m :: setMember name value rest

/-- The value last set under a name is the one found there. -/
theorem lookup_setMember (name : Spelling) (value : Json) (members : List (Spelling × Json)) :
    lookup name (setMember name value members) = some value := by
  induction members with
  | nil => simp [setMember, lookup]
  | cons m rest ih =>
    by_cases h : m.1 = name
    · simp [setMember, lookup, h]
    · simpa [setMember, lookup, h] using ih

/-- Setting a member changes no other member. -/
theorem lookup_setMember_of_ne {name other : Spelling} (value : Json) (h : other ≠ name)
    (members : List (Spelling × Json)) :
    lookup other (setMember name value members) = lookup other members := by
  induction members with
  | nil => simp [setMember, lookup, Ne.symm h]
  | cons m rest ih =>
    by_cases hm : m.1 = name
    · simp [setMember, lookup, hm, Ne.symm h]
    · by_cases ho : m.1 = other
      · simp [setMember, lookup, ho, h]
      · simpa [setMember, lookup, hm, ho] using ih

/-- A member is found under its name if no two members have one name. -/
theorem lookup_of_mem {members : List (Spelling × Json)} (h : (members.map Prod.fst).Nodup)
    {m : Spelling × Json} (hm : m ∈ members) : lookup m.1 members = some m.2 := by
  induction members with
  | nil => exact absurd hm List.not_mem_nil
  | cons first rest ih =>
    rw [List.map_cons, List.nodup_cons] at h
    rcases List.mem_cons.1 hm with rfl | hrest
    · simp [lookup]
    · have hne : first.1 ≠ m.1 := by
        intro heq
        exact h.1 (heq ▸ List.mem_map_of_mem hrest)
      simpa [lookup, hne] using ih h.2 hrest

mutual

/-- Whether all numbers of a value are finite. -/
def isFinite : Json → Bool
  | .float x => x.isFinite
  | .list items => areFinite items
  | .object members => haveFinite members
  | _ => true

/-- Whether all numbers of some values are finite. -/
def areFinite : List Json → Bool
  | [] => true
  | v :: rest => isFinite v && areFinite rest

/-- Whether all numbers of some members are finite. -/
def haveFinite : List (Spelling × Json) → Bool
  | [] => true
  | (_, v) :: rest => isFinite v && haveFinite rest

end

mutual

/-- Whether no half of a character stands alone in the texts of a value. -/
def isPaired : Json → Bool
  | .unpaired _ => false
  | .list items => arePaired items
  | .object members => havePaired members
  | _ => true

/-- Whether no half of a character stands alone in the texts of some values. -/
def arePaired : List Json → Bool
  | [] => true
  | v :: rest => isPaired v && arePaired rest

/-- Whether no half of a character stands alone in the names and texts of some members. -/
def havePaired : List (Spelling × Json) → Bool
  | [] => true
  | (name, v) :: rest => name.isPaired && isPaired v && havePaired rest

end

/-- A text as a value. -/
def Spelling.value : Spelling → Json
  | .plain s => .text s
  | .ragged s => .unpaired s

/-- A text, or null. -/
def ofText? (s : Option String) : Json := (s.map Json.text).getD .null

end Json

end PuzzleContest
