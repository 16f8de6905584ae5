import Separable.Fault

/-!
# Catalogs

A catalog keeps values by name, in the order in which the names came. Looking up a name that
nothing has is a fault, and so is building on one: a value can be `Given` by itself or by the name
of a value that the catalog already holds. Either way it may turn out, once it is wanted, that there
is none.

## Main results

* `find?_put`: what was put under a name is found there, and nothing else has changed.
* `put_of_find?_eq_none`: a new name goes to the end.
* `get_eq_ok_iff`: looking up succeeds exactly where something is found.
-/

namespace Separable

/-- Values by name. -/
abbrev Catalog (β : Type) : Type := List (String × β)

/-- A value by itself, or by its name. -/
inductive Given (β : Type) where
  | value (b : Supplied β)
  | named (name : String)

namespace Catalog

variable {β : Type}

/-- The value under a name. -/
def find? (name : String) : Catalog β → Option β
  | [] => none
  | (key, b) :: rest => if key = name then some b else find? name rest

/-- Puts a value under a name, in the place of the value that is there. -/
def put (name : String) (b : β) : Catalog β → Catalog β
  | [] => [(name, b)]
  | (key, c) :: rest => if key = name then (key, b) :: rest else (key, c) :: put name b rest

/-- The value under a name, which must be there. -/
def get (name : String) (entries : Catalog β) : Except Fault β :=
  match find? name entries with
  | none => .error (.unknownName name)
  | some b => .ok b

/-- The value that is given. -/
def resolve (entries : Catalog β) : Given β → Except Fault β
  | .value b => b
  | .named name => get name entries

theorem find?_put (name other : String) (b : β) (entries : Catalog β) :
    find? other (put name b entries) = if name = other then some b else find? other entries := by
  induction entries with
  | nil => simp [put, find?]
  | cons entry rest ih =>
    obtain ⟨key, c⟩ := entry
    simp only [put]
    split <;> simp only [find?, ih] <;> grind

theorem put_of_find?_eq_none {name : String} {entries : Catalog β} (h : find? name entries = none)
    (b : β) : put name b entries = entries ++ [(name, b)] := by
  induction entries with
  | nil => rfl
  | cons entry rest ih =>
    obtain ⟨key, c⟩ := entry
    simp only [find?] at h
    split at h
    · cases h
    · next hkey => simp [put, hkey, ih h]

/-- Looking up a name in a catalog that was made of a list is searching the list for it. -/
theorem find?_map {γ : Type} (key : γ → String) (f : γ → β) (name : String) (items : List γ) :
    find? name (items.map fun c => (key c, f c)) =
      (items.find? fun c => key c = name).map f := by
  induction items with
  | nil => rfl
  | cons c rest ih =>
    rw [List.map_cons, find?, ih]
    by_cases hkey : key c = name
    · simp [hkey]
    · simp [hkey]

theorem get_eq_ok_iff (name : String) (b : β) (entries : Catalog β) :
    get name entries = .ok b ↔ find? name entries = some b := by
  unfold get
  split <;> simp_all

end Catalog

end Separable
