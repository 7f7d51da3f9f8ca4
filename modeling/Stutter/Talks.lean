import Stutter.Conversation
import Stutter.Reuse

namespace Stutter

open Joyent

namespace Peers

open Connection

variable {ω : Type} {S : Server ω} {E : Env} {W : Strategy}
variable {x x' : Peers ω} {c c' : Client} {r : Request} {reply reply' : Reply} {ok : Bool}

/-- A `send`, and what came of it. -/
structure Sent (ω : Type) where
  before : Peers ω
  client : Client
  request : Request
  reply : Reply
  ok : Bool
  reply' : Reply
  after : Peers ω

/-- Without a socket nothing changed; otherwise the reply is the one to this request. -/
def Sent.Settled (S : Server ω) (e : Sent ω) : Prop :=
  e.ok = false ∧ e.reply' = e.reply ∧ e.after.world = e.before.world ∨
    e.ok = true ∧ e.before.Answers S e.client.host e.request e.reply e.reply' e.after

end Peers

end Stutter
