/-!
# Powers of whole numbers

Algebra libraries have a notion of power of their own, for any monoid. Inside this library `x ^ n`
is always the power that comes with the numbers themselves, so that a definition means the same
whatever else is loaded.
-/

namespace Bulletin

attribute [scoped instance (1100)] instPowNat

end Bulletin
