import SoftPatchPanel.Worker.DataTypes

/-!
# Resource UIDs

`spp_nfv` and `spp_primary` name a port by a resource UID, a type and a number with
a colon between them, as in `ring:0`; the number may be followed by `nq` and the
number of a queue.  This file is `parse_resource_uid` of `secondary/utils.c`.

The function stores its three results as it finds them and may find out only
afterwards that it has to fail.  Its callers do not all look at what it returns, so
the model returns what has been stored as well: `none` is a result that was not.
-/

namespace SoftPatchPanel.Shared

open Worker (Fault Ret)

/-- What a call of `parse_resource_uid` returns, and what it stores in the variables
of the caller. -/
structure UidResult where
  ret : Ret
  portType : Option CString
  portId : Option ℤ
  queueId : Option ℕ
  deriving DecidableEq, Repr

/-- `strtol(s, &endp, 10)` for a caller that does not ask whether there was a number:
without one the value is zero and `endp` is left at the start. -/
def strtolOrZero (s : CString) : ℤ × CString := (CString.strtol 10 s).getD (0, s)

/-- The conversion of a `long` to a `uint16_t`. -/
def uint16OfLong (n : ℤ) : ℕ := (n % 2 ^ 16).toNat

theorem uint16OfLong_of_lt {n : ℕ} (h : n < 2 ^ 16) : uint16OfLong n = n := by
  rw [uint16OfLong]
  omega

/-- `DELIM_PHY_MQ`. -/
def delimPhyMq : CString := "nq"

/-- The part of `parse_resource_uid` behind the two calls of `strtok`. -/
def parseUidToken (type token : CString) : UidResult :=
  let number := strtolOrZero token
  let stored : UidResult := ⟨.ng, some type, some (CString.intOfLong number.1), none⟩
  match CString.strstr delimPhyMq token with
  | none => if number.2 ≠ [] then stored else { stored with ret := .ok, queueId := some 0 }
  | some queueIdStr =>
    if number.2 ≠ queueIdStr then stored
    else
      let queue := strtolOrZero (queueIdStr.drop delimPhyMq.length)
      { stored with
        ret := if queue.2 ≠ [] then .ng else .ok
        queueId := some (uint16OfLong queue.1) }

/-- `parse_resource_uid`.  A null pointer is `none`; one is also what `strtok`
returns, and `strstr` then reads, if there is nothing but colons on one side. -/
def parseResourceUid (str : Option CString) : Except Fault UidResult :=
  match str with
  | none => .error .undefined
  | some s =>
    if ':' ∈ s then
      match CString.tokens ':' s with
      | type :: token :: _ => .ok (parseUidToken type token)
      | _ => .error .undefined
    else .ok ⟨.ng, none, none, none⟩

example : parseResourceUid (some "phy:0nq1") =
    .ok ⟨.ok, some "phy", some 0, some 1⟩ := by decide

end SoftPatchPanel.Shared
