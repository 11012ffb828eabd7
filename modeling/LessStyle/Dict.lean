import LessStyle.Text.Basic

/-!
# Dictionaries

A dictionary from texts to values, as its entries in the order of their names. `insert` puts an entry
at its place and replaces one of the same name, so what was written last is what `get?` finds.
-/

namespace LessStyle

/-- Entries by name, in the order of the names. -/
abbrev Dict (α : Type) := List (Text × α)

namespace Dict

variable {α : Type}

/-- The value under `name`. -/
def get? (d : Dict α) (name : Text) : Option α := d.lookup name

/-- The name is in the dictionary. -/
def contains (d : Dict α) (name : Text) : Bool := (d.get? name).isSome

/-- With `value` under `name`, in place of an older value. -/
def insert (d : Dict α) (name : Text) (value : α) : Dict α :=
  match d with
  | [] => [(name, value)]
  | (n, v) :: d =>
    if name == n then (name, value) :: d
    else if name.before n then (name, value) :: (n, v) :: d
    else (n, v) :: insert d name value

/-- The entries of `other` written over those of `d`. -/
def merge (d other : Dict α) : Dict α :=
  other.foldl (fun d (n, v) => d.insert n v) d

/-- The entries written one after another. -/
def ofList (entries : List (Text × α)) : Dict α := merge [] entries

@[simp] theorem get?_insert_self (d : Dict α) (name : Text) (value : α) :
    (d.insert name value).get? name = some value := by
  fun_induction insert d name value with
  | case1 => simp [get?]
  | case2 n v d h => simp [get?]
  | case3 n v d h h' => simp [get?]
  | case4 n v d h h' ih =>
    have hne : (name == n) = false := by simpa using h
    rw [get?, List.lookup_cons, hne]
    exact ih

theorem get?_insert_of_ne (d : Dict α) {name other : Text} (value : α) (h : other ≠ name) :
    (d.insert name value).get? other = d.get? other := by
  have hne : (other == name) = false := by simpa using h
  fun_induction insert d name value with
  | case1 => simp [get?, List.lookup_cons, hne]
  | case2 n v d hn =>
    have : (other == n) = false := by rw [← eq_of_beq hn]; exact hne
    simp [get?, List.lookup_cons, hne, this]
  | case3 n v d hn hb => simp [get?, List.lookup_cons, hne]
  | case4 n v d hn hb ih =>
    rw [get?, get?, List.lookup_cons, List.lookup_cons]
    cases other == n with
    | true => rfl
    | false => exact ih

end Dict

end LessStyle
