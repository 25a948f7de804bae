import FamilyPlatform.Kernel.Search

/-! The search for the first occurrence after an instant, from an anchor of any year. The year 0 has a 29 February,
but its dates are first made of the year 1900, which has none. -/
namespace FamilyPlatform.Recurrence
open ZonedTime Civil RecurrenceRule

section
variable {anchor : LocalDateTime} (zero : anchor.year = 0)
include zero

variable (real : anchor.toDate.Real) (clock : LocalDateTime.Clock anchor)

section
include real clock

end

end

end FamilyPlatform.Recurrence
