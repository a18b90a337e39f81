import SoftPatchPanel.Shared.PortManager
import SoftPatchPanel.Shared.ResourceUid

/-!
# What `status` lists in `spp_nfv`

`append_port_info_json` and `append_patch_info_json` of `nfv/nfv_status.c` go through
`port_map` and `ports_fwd_array` and write a string for each port and a pair of
strings for each patch.  An `Entry` is what such a string is made of: the type of the
port, its number, and, for a physical port with several queues, the queue.

The two functions do not print the number in the same way: in a patch it passes
through a parameter of type `uint16_t`.
-/

namespace SoftPatchPanel.Nfv

open Shared
open Worker (PortType)

variable {L : Limits}

/-- What the string for a port is made of. -/
structure Entry where
  type : PortType
  number : ℕ
  queue : Option ℕ
  deriving DecidableEq, Repr

/-- The string that `append_port_info_json` writes for a place. -/
def portEntry (t : Tables L) (p : ℕ × ℕ) : Entry where
  type := (t.portMap p.1).portType
  number := ((t.portMap p.1).id % 2 ^ 32).toNat
  queue :=
    if (t.portMap p.1).portType = .phy ∧ t.getPortMaxQueues p.1 ≠ 1 then some p.2 else none

/-- `append_port_string`, for a place. -/
def appendPortString (t : Tables L) (p : ℕ × ℕ) : Entry where
  type := (t.portMap p.1).portType
  number := uint16OfLong (t.portMap p.1).id
  queue :=
    if (t.portMap p.1).portType = .phy ∧ 1 < t.getPortMaxQueues p.1 then some p.2 else none

/-- The ports that `append_port_info_json` lists. -/
def listedPorts (t : Tables L) : List Entry :=
  (t.scan.filter fun p => t.Present p).map (portEntry t)

/-- The patches that `append_patch_info_json` lists. -/
def listedPatches (t : Tables L) : List (Entry × Entry) :=
  (t.scan.filter fun p => t.Present p ∧ t.Patched p).map fun p =>
    (appendPortString t p, appendPortString t (t.target p))

end SoftPatchPanel.Nfv
