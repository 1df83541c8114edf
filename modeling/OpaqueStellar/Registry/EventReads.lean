import Mathlib.Data.List.TakeWhile
import OpaqueStellar.Registry.JobMoves

/-! # The relayer registry: reading its events

`readRegistryEvents` of `frontend/src/lib/relayerDirectory.ts` reads the events of one topic page by page, from the
deployment on or as far back as the RPC goes, and gives up after sixty pages. What it has read then is what the
topic tells of a part of the run: of the calls before it the events are too old, and after it nothing had happened
yet or the pages were used up. -/

namespace OpaqueStellar.Registry

open OpaqueStellar.Lib OpaqueStellar.Soroban
open OpaqueStellar.Schemas (Str)
open OpaqueStellar.Stealth (EventResponse GetEventsResponse GetEventsRequest RpcError Service
  parseOldestLedgerFromRangeError)

/-! ## The scan -/

section Pages

variable {history : List (EventResponse RegistryEvent)} (service : Service history) {health : Option ℕ}
  {startLedger left requests : ℕ} {cursor : Str} {pages : List (List (EventResponse RegistryEvent))}

end Pages

/-! ## Windows of a run -/

/-- A part of a run. -/
structure Window (calls : List Invocation) where
  before : List Invocation
  during : List Invocation
  later : List Invocation
  whole : calls = before ++ (during ++ later)

section Windows

variable (host : Host) (pool : Pool.World) {calls : List Invocation}

def Window.start (window : Window calls) : World := (machine host).final (.deployed pool) window.before

def Window.stop (window : Window calls) : World := (machine host).final (window.start host pool) window.during

def Window.steps (window : Window calls) : List RegistryStep :=
  (machine host).trace (window.start host pool) window.during

/-- The jobs that operator `k` takes as far as `kind` in the window. -/
def Window.jobs (window : Window calls) (kind : RelayerJobEventKind) (k : Address) : List JobMove :=
  ((window.steps host pool).filterMap (jobMove kind)).filter fun m => m.operator = k

end Windows

end OpaqueStellar.Registry
