import MathMarkup.Text.CodePoint

/-!
# Log entries

What a step has to say beside its result. An entry has a level, the part of the library that wrote
it, and a message. `Logged` pairs a result with the entries written on the way to it, in order.
-/

namespace MathMarkup

namespace Log

/-- How much an entry matters, in ascending order. -/
inductive Level where
  | debug
  | info
  | warning
  | error
deriving DecidableEq, Repr

/-- The rank of a level. -/
def Level.rank : Level → Nat
  | .debug => 0
  | .info => 1
  | .warning => 2
  | .error => 3

/-- The part of the library that writes an entry. -/
inductive Part where
  | options
  | symbols
  | commands
  | lexer
  | parser
  | expressions
  | environments
  | converter
  | generator
  | check
deriving DecidableEq, Repr

/-- One message. -/
structure Entry where
  level : Level
  part : Part
  message : Text
deriving DecidableEq, Repr

end Log

/-- Entries in the order in which they were written. -/
abbrev Log := List Log.Entry

/-- The entries of at least the given level. -/
def Log.atLeast (level : Log.Level) (log : Log) : Log :=
  log.filter fun e => level.rank ≤ e.level.rank

/-- A result and the entries written on the way to it. -/
structure Logged (α : Type) where
  value : α
  log : Log := []
deriving Repr

namespace Logged

/-- The empty result with one entry. -/
def say (level : Log.Level) (part : Log.Part) (message : Text) : Logged Unit :=
  ⟨(), [⟨level, part, message⟩]⟩

instance : Monad Logged where
  pure a := ⟨a, []⟩
  bind x f := ⟨(f x.value).value, x.log ++ (f x.value).log⟩

@[simp] theorem value_pure {α : Type} (a : α) : (pure a : Logged α).value = a := rfl

@[simp] theorem log_pure {α : Type} (a : α) : (pure a : Logged α).log = [] := rfl

@[simp] theorem value_bind {α β : Type} (x : Logged α) (f : α → Logged β) :
    (x >>= f).value = (f x.value).value := rfl

@[simp] theorem log_bind {α β : Type} (x : Logged α) (f : α → Logged β) :
    (x >>= f).log = x.log ++ (f x.value).log := rfl

end Logged

end MathMarkup
