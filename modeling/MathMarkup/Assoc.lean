/-!
# Association lists

Entries in the order in which their keys were first inserted. `insert` replaces the value of a key
in place and puts a new key at the end; the two equations on `get?` say what it does to a look-up.
-/

namespace MathMarkup

/-- A list of keys with their values. -/
abbrev Assoc (α β : Type) := List (α × β)

namespace Assoc

variable {α β : Type} [DecidableEq α]

/-- The value of a key. -/
def get? (key : α) : Assoc α β → Option β
  | [] => none
  | (k, v) :: rest => if k = key then some v else get? key rest

/-- The entries with the value of `key` set. -/
def insert (key : α) (value : β) : Assoc α β → Assoc α β
  | [] => [(key, value)]
  | (k, v) :: rest => if k = key then (k, value) :: rest else (k, v) :: insert key value rest

/-- The entries with further ones inserted in order. -/
def insertAll (entries more : Assoc α β) : Assoc α β :=
  more.foldl (fun es e => insert e.1 e.2 es) entries

/-- The entries with `key` bound to `value` unless it is bound already. -/
def insertNew (key : α) (value : β) (entries : Assoc α β) : Assoc α β :=
  match get? key entries with
  | some _ => entries
  | none => entries ++ [(key, value)]

@[simp] theorem get?_insert_self (key : α) (value : β) (entries : Assoc α β) :
    get? key (insert key value entries) = some value := by
  induction entries with
  | nil => simp [insert, get?]
  | cons e rest ih =>
    unfold insert
    split
    · simp [get?, *]
    · simp [get?, *]

theorem get?_insert_of_ne {key other : α} (h : key ≠ other) (value : β) (entries : Assoc α β) :
    get? other (insert key value entries) = get? other entries := by
  induction entries with
  | nil => simp [insert, get?, h]
  | cons e rest ih =>
    unfold insert
    split
    · next he => simp [get?, he, h]
    · simp [get?, ih]

end Assoc

end MathMarkup
