import GhostLayer.Mailbox

namespace GhostLayer

/-!
# Networks and time

A network carries the messages of several worlds, each with a mailbox of its
own.  Messages may take some time to arrive, and a receive has a limited
patience, counted from the moment it is waited for.  Time is counted in
milliseconds and passes only while somebody waits.
-/

/-- A receive which has been announced. -/
structure Receive where
  world : Nat
  key : Key
  /-- The length announced for the message.  The message is delivered whole,
  whatever its length. -/
  room : Nat
  /-- How long to wait for the message; without a limit if there is none. -/
  patience : Option Nat
deriving DecidableEq, Repr

/-- A message on its way. -/
structure Flight where
  arrival : Nat
  world : Nat
  key : Key
  payload : Bytes
deriving DecidableEq

structure Network where
  now : Nat
  worlds : Array Mailbox
  /-- The messages on their way, the first to arrive first. -/
  flights : List Flight

namespace Network

/-- A network of so many worlds without any message. -/
def ofWorlds (count : Nat) : Network :=
  ⟨0, Array.replicate count .empty, []⟩

/-- Put a message into the mailbox of its world. -/
def post (network : Network) (world : Nat) (key : Key) (payload : Bytes) : Network :=
  { network with worlds := network.worlds.modify world fun mailbox => mailbox.post key payload }

/-- Take the oldest message that has arrived under a key. -/
def take (network : Network) (world : Nat) (key : Key) : Option Bytes × Network :=
  match network.worlds[world]? with
  | none => (none, network)
  | some mailbox =>
      let (payload, mailbox) := mailbox.take key
      (payload, { network with worlds := network.worlds.setIfInBounds world mailbox })

/-- Line a message up behind all that arrive no later. -/
def lineUp (flight : Flight) : List Flight -> List Flight
  | [] => [flight]
  | other :: rest =>
      if flight.arrival < other.arrival then flight :: other :: rest
      else other :: lineUp flight rest

/-- Send a message, at once or so many milliseconds from now. -/
def send (network : Network) (world : Nat) (key : Key) (payload : Bytes) :
    Option Nat -> Network
  | none => network.post world key payload
  | some delay =>
      { network with
        flights := lineUp ⟨network.now + delay, world, key, payload⟩ network.flights }

/-- Whether a moment is not past a deadline. -/
def inTime (moment : Nat) : Option Nat -> Bool
  | none => true
  | some deadline => moment ≤ deadline

/-- Look for a message, and while there is none let the next flight arrive which
does so in time. -/
def await (world : Nat) (key : Key) (deadline : Option Nat) :
    List Flight -> Network -> Option Bytes × Network
  | [], network =>
      match network.take world key with
      | (some payload, network) => (some payload, { network with flights := [] })
      | (none, network) =>
          (none, { network with flights := [], now := max network.now (deadline.getD 0) })
  | flight :: rest, network =>
      if flight.arrival ≤ network.now then
        await world key deadline rest (network.post flight.world flight.key flight.payload)
      else
        match network.take world key with
        | (some payload, network) => (some payload, { network with flights := flight :: rest })
        | (none, network) =>
            if inTime flight.arrival deadline then
              await world key deadline rest
                ({ network with now := flight.arrival }.post flight.world flight.key flight.payload)
            else
              (none, { network with
                flights := flight :: rest, now := max network.now (deadline.getD 0) })

/-- Wait for a message no longer than the patience of the receive. -/
def wait (network : Network) (receive : Receive) : Option Bytes × Network :=
  let deadline := receive.patience.map (network.now + ·)
  await receive.world receive.key deadline network.flights network

/-- A duration in the largest unit which it reaches, without trailing zeros. -/
def durationLabel (milliseconds : Nat) : String :=
  let seconds := milliseconds / 1000
  let rest := milliseconds % 1000
  if milliseconds = 0 then "0ns"
  else if seconds = 0 then s!"{milliseconds}ms"
  else if rest = 0 then s!"{seconds}s"
  else if rest % 100 = 0 then s!"{seconds}.{rest / 100}s"
  else if rest % 10 = 0 then s!"{seconds}.{rest / 100}{rest / 10 % 10}s"
  else s!"{seconds}.{rest / 100}{rest / 10 % 10}{rest % 10}s"

end Network
end GhostLayer
