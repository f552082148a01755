import LindGrates.Base.Loop

/-!
# Loopback Ports

The search for an ephemeral port goes down from where the last one ended, from 32768
on to 60999, and gives up when it is back at its start.

## Main definitions

* `PortRegistry`: The part of the socket registry that hands out ports.
* `allocEphemeralPort`: One search.
-/

namespace LindGrates.Ipc

/-- `bound_ports` and `next_ephemeral_port` of the socket registry. -/
structure PortRegistry where
  boundPorts : Nat → Option Nat
  nextEphemeralPort : Nat

def nextPort (port : Nat) : Nat :=
  if 32768 < port then port - 1 else 60999

def portCount : Nat :=
  28232

namespace PortRegistry

def new : PortRegistry :=
  ⟨fun _ => none, 60999⟩

variable (r : PortRegistry)

def portPass (start port : Nat) : Pass Nat (Option Nat) :=
  if r.boundPorts port = none then .leave (some port)
  else if nextPort port = start then .leave none
  else .again (nextPort port)

/-- `alloc_ephemeral_port`, with no result if the search takes more passes than there are ports. -/
def allocEphemeralPort : Option (Option Nat × PortRegistry) :=
  (loop (r.portPass r.nextEphemeralPort) portCount r.nextEphemeralPort).map fun answer =>
    (answer, { r with nextEphemeralPort := (answer.map nextPort).getD r.nextEphemeralPort })

/-- Successive calls that all give a port. -/
def allocPorts : Nat → Option (List Nat × PortRegistry)
  | 0 => some ([], r)
  | k + 1 => do
    let (ports, r) ← allocPorts k
    let (answer, r) ← r.allocEphemeralPort
    return (← answer.map (ports.concat ·), r)

/-- Any ports are bound or released, or else one is handed out. -/
def step : Option (Nat → Option Nat) → Option PortRegistry
  | some boundPorts => some { r with boundPorts }
  | none => r.allocEphemeralPort.map Prod.snd

end PortRegistry

end LindGrates.Ipc
