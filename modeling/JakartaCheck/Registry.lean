/-!
# Registries

A registry lists rules or fixes in the order in which they were added. Each entry has an id, which
no other entry shares, and the codes it answers for; no code belongs to two entries.
-/

namespace JakartaCheck

/-- What can be registered. -/
class Coded (α : Type) where
  id : α → String
  codes : α → List String

/-- Why an entry cannot be added. -/
inductive RegisterError where
  | duplicateId (id : String)
  | duplicateCode (code owner : String)
deriving DecidableEq, Repr

structure Registry (α : Type) where
  entries : List α

namespace Registry

variable {α : Type} [Coded α]

def empty : Registry α := ⟨[]⟩

def ids (r : Registry α) : List String := r.entries.map Coded.id

def size (r : Registry α) : Nat := r.entries.length

/-- The entry that answers for a code. -/
def entryFor? (r : Registry α) (code : String) : Option α :=
  r.entries.find? fun entry => (Coded.codes entry).contains code

/-- The id of the entry that answers for a code. -/
def ownerOf? (r : Registry α) (code : String) : Option String := (r.entryFor? code).map Coded.id

/-- The first of the codes that has an owner, with that owner. -/
def firstOwned? (r : Registry α) : List String → Option (String × String)
  | [] => none
  | code :: codes =>
    match r.ownerOf? code with
    | some owner => some (code, owner)
    | none => r.firstOwned? codes

/-- Adds an entry at the end. -/
def register (r : Registry α) (entry : α) : Except RegisterError (Registry α) :=
  if r.ids.contains (Coded.id entry) then .error (.duplicateId (Coded.id entry))
  else
    match r.firstOwned? (Coded.codes entry) with
    | some (code, owner) => .error (.duplicateCode code owner)
    | none => .ok ⟨r.entries ++ [entry]⟩

/-- Adds entries one after the other. -/
def registerAll (r : Registry α) : List α → Except RegisterError (Registry α)
  | [] => .ok r
  | entry :: entries => do (← r.register entry).registerAll entries

/-- All codes that have an owner, each once, in order. -/
def codes (r : Registry α) : List String := (r.entries.flatMap Coded.codes).eraseDups

/-- The registry without the entries whose ids are listed. -/
def without (r : Registry α) (ids : List String) : Registry α :=
  ⟨r.entries.filter fun entry => !ids.contains (Coded.id entry)⟩

end Registry

end JakartaCheck
