/-!
# Reports on a document

Some faults of a document do not stop its reading: a prefix without a namespace, a namespace whose
name has the wrong shape, a name that is no identifier. Each of them is reported, and so are a few
oddities that only deserve a warning. Whether a document that was read to its end is refused hangs
on its last report alone: a warning behind a fault lets it pass.
-/

namespace MathMarkup.Xml

/-- Something reported while a document is read on. -/
inductive Report where
  | warning
  | fault
deriving DecidableEq, Repr

/-- The reports of a fault, if there is one. -/
def Report.faultIf (found : Bool) : List Report :=
  if found then [.fault] else []

/-- The reports of an oddity, if there is one. -/
def Report.warningIf (found : Bool) : List Report :=
  if found then [.warning] else []

end MathMarkup.Xml
