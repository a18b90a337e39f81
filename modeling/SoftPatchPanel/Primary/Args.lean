import Mathlib.Data.List.Sort
import SoftPatchPanel.Shared.PortManager

/-!
# The options of the primary process

`parse_app_args` of `primary/args.c` fills the port information that every process
shares: the array `id` with the numbers of the ports in the mask, and the array
`queue_info` with the numbers of their queues.

Both arrays are filled in the order of the mask, so `queue_info[k]` belongs to the port
`id[k]`, not to the port `k`.  The theorem `parseAppArgs_ok` says what the arrays hold
after the options are accepted.

The numbers of `--port-num` are read as `unsigned long` and kept in 16 bits, the number
of the port included.  `configuredQueues` is what the options say, `keptQueues` what is
left of it.
-/

namespace SoftPatchPanel.Primary

open Shared
open Worker (Fault PortQueue)
open Transition (bind_eq_ok map_eq_ok)

variable {L : Limits} {arg : CString} {maxPorts : ℕ} {q : ℕ → PortQueue} {behind : List CString}
  {r : ℕ × PortQueue}

/-- `struct port_info`, as far as the options fill it: `id` up to `num_ports`, and
`queue_info`. -/
structure PortInfo where
  id : List ℕ
  queueInfo : ℕ → PortQueue

/-- What `getopt_long` returns: the option with its argument, and for `--port-num` the
arguments that follow it up to the end of `argv`. -/
inductive Opt where
  | dispStats
  | portmask (arg : CString)
  | nofRings (arg : CString)
  /-- `-s`, with the answer of `parse_server`. -/
  | server (accepted : Bool)
  | portNum (arg : CString) (behind : List CString)
  | unknown

/-! ## The parsers of the arguments -/

/-- A number that takes up the whole argument. -/
def number (base : ℕ) (arg : CString) : Option ℕ :=
  match CString.strtoul base arg with
  | some (n, []) => some n
  | _ => none

/-- A number of queues or rings: zero is refused. -/
def count (arg : CString) : Option ℕ := (number 10 arg).filter (· ≠ 0)

/-- One pass of the loop of `parse_portmask`.  A port that is not present is ignored. -/
def markPort (L : Limits) (maxPorts pm : ℕ) (id : List ℕ) (bit : ℕ) : Except Fault (List ℕ) :=
  if pm.testBit bit = false then .ok id
  else if maxPorts ≤ bit then .ok id
  else if id.length < L.maxEthports then .ok (id ++ [bit])
  else .error .undefined

/-- `parse_portmask`.  The mask is an `unsigned long`. -/
def parsePortmask (L : Limits) (maxPorts : ℕ) (id : List ℕ) (arg : CString) :
    Except Fault (Option (List ℕ)) :=
  match (number 16 arg).filter (· ≠ 0) with
  | none => .ok none
  | some pm => some <$> (List.range 64).foldlM (markPort L maxPorts pm) id

/-- `parse_nof_rings`, which keeps 16 bits of the number. -/
def parseNofRings (arg : CString) : Option ℕ := (count arg).map (· % 2 ^ 16)

/-- The end of `parse_nof_queues`. -/
def storeQueues (L : Limits) (argQueues : ℕ → PortQueue) (portNum rxq txq : ℕ) :
    Except Fault (Option (ℕ → PortQueue)) :=
  if portNum < L.maxEthports then
    .ok (some (Function.update argQueues portNum ⟨rxq % 2 ^ 16, txq % 2 ^ 16⟩))
  else .error .undefined

/-- `parse_nof_queues`.  The number of ports itself passes for the number of a port, and
the test of the number of arguments is one short: `argv[argc]` is `NULL`. -/
def parseNofQueues (L : Limits) (maxPorts : ℕ) (argQueues : ℕ → PortQueue) (arg : CString)
    (behind : List CString) : Except Fault (Option (ℕ → PortQueue)) :=
  match number 10 arg with
  | none => .ok none
  | some temp =>
    if maxPorts < temp % 2 ^ 16 then .ok none
    else
      match behind with
      | arg₀ :: arg₁ :: arg₂ :: rest =>
        if arg₀ ≠ "rxq" then .ok none
        else
          match count arg₁ with
          | none => .ok none
          | some rxq =>
            if arg₂ ≠ "txq" then .ok none
            else
              match rest with
              | [] => .error .undefined
              | arg₃ :: _ =>
                match count arg₃ with
                | none => .ok none
                | some txq => storeQueues L argQueues (temp % 2 ^ 16) rxq txq
      | _ => .ok none

/-! ## The loop over the options -/

/-- What the loop of `parse_app_args` carries along. -/
structure Parsed where
  id : List ℕ
  numRings : ℕ
  argQueues : ℕ → PortQueue

/-- One pass of the loop.  `none` is a refusal. -/
def parseOpt (L : Limits) (maxPorts : ℕ) (s : Parsed) : Opt → Except Fault (Option Parsed)
  | .dispStats => .ok (some s)
  | .portmask arg =>
    (Option.map fun id => { s with id := id }) <$> parsePortmask L maxPorts s.id arg
  | .nofRings arg => .ok ((parseNofRings arg).map fun n => { s with numRings := n })
  | .server accepted => .ok (if accepted then some s else none)
  | .portNum arg behind =>
    (Option.map fun q => { s with argQueues := q }) <$>
      parseNofQueues L maxPorts s.argQueues arg behind
  | .unknown => .ok none

/-- The loop of `parse_app_args`. -/
def parseOpts (L : Limits) (maxPorts : ℕ) : Parsed → List Opt → Except Fault (Option Parsed)
  | s, [] => .ok (some s)
  | s, o :: opts => do
    match ← parseOpt L maxPorts s o with
    | none => return none
    | some s' => parseOpts L maxPorts s' opts

/-- One queue each way unless both numbers are given. -/
def orOne (q : PortQueue) : PortQueue := if q.rxq = 0 ∨ q.txq = 0 then ⟨1, 1⟩ else q

/-- `set_nof_queues`: the element at a position is for the port at that position.  The
memory behind is zero. -/
def setNofQueues (id : List ℕ) (argQueues : ℕ → PortQueue) : PortInfo where
  id := id
  queueInfo index :=
    match id[index]? with
    | some portId => orOne (argQueues portId)
    | none => ⟨0, 0⟩

/-- `parse_app_args`, with the number of ethdevs that are present. -/
def parseAppArgs (L : Limits) (maxPorts : ℕ) (opts : List Opt) : Except Fault (Option PortInfo) := do
  match ← parseOpts L maxPorts ⟨[], 0, fun _ => ⟨0, 0⟩⟩ opts with
  | none => return none
  | some s =>
    if s.id = [] ∨ s.numRings = 0 then return none
    else return some (setNofQueues s.id s.argQueues)

/-- `num_rings` after the options. -/
def numRings (L : Limits) (maxPorts : ℕ) (opts : List Opt) : ℕ :=
  ((parseOpts L maxPorts ⟨[], 0, fun _ => ⟨0, 0⟩⟩ opts).toOption.join.map Parsed.numRings).getD 0

/-! ## What the options say -/

/-- The port and the numbers of queues that a well-formed `--port-num` gives. -/
def Opt.request : Opt → Option (ℕ × PortQueue)
  | .portNum arg (_ :: arg₁ :: _ :: arg₃ :: _) => do
    return (← number 10 arg, ⟨← count arg₁, ← count arg₃⟩)
  | _ => none

/-- The queues that the options give to a port: those of the last `--port-num` for it,
or one each way. -/
def configuredQueues (opts : List Opt) (port : ℕ) : PortQueue :=
  (((opts.filterMap Opt.request).reverse.find? fun r => r.1 = port).map Prod.snd).getD ⟨1, 1⟩

/-- What 16 bits hold of a request. -/
def kept (r : ℕ × PortQueue) : ℕ × PortQueue :=
  (r.1 % 2 ^ 16, ⟨r.2.rxq % 2 ^ 16, r.2.txq % 2 ^ 16⟩)

/-- The queues that a port gets. -/
def keptQueues (opts : List Opt) (port : ℕ) : PortQueue :=
  orOne ((((opts.filterMap Opt.request).map kept).reverse.find? fun r => r.1 = port).map
    Prod.snd |>.getD ⟨0, 0⟩)

/-- The mask of a `-p`. -/
def Opt.mask : Opt → Option ℕ
  | .portmask arg => number 16 arg
  | _ => none

/-- The ports of a mask that are present. -/
def maskPorts (maxPorts pm : ℕ) : List ℕ :=
  (List.range 64).filter fun bit => pm.testBit bit && decide (bit < maxPorts)

/-- What a `-n` stores. -/
def Opt.rings : Opt → Option ℕ
  | .nofRings arg => parseNofRings arg
  | _ => none

/-- `num_rings` is that of the last `-n`. -/
def ringsOf (opts : List Opt) : ℕ := (opts.filterMap Opt.rings).getLast?.getD 0

/-- An accepted `--port-num` stores what 16 bits hold of its request. -/
def Opt.Stores (L : Limits) (maxPorts : ℕ) : Opt → Prop
  | .portNum arg behind => ∃ r, (Opt.portNum arg behind).request = some r ∧
      ∀ q, parseNofQueues L maxPorts q arg behind =
        .ok (some (Function.update q (kept r).1 (kept r).2))
  | _ => True

/-! ## What is stored -/

theorem count_ne_zero {n : ℕ} (h : count arg = some n) : n ≠ 0 := by
  have hn := (Option.filter_eq_some_iff.mp h).2
  exact of_decide_eq_true hn

theorem stores_of_parseNofQueues {q' : ℕ → PortQueue}
    (h : parseNofQueues L maxPorts q arg behind = .ok (some q')) :
    (Opt.portNum arg behind).Stores L maxPorts := by
  unfold parseNofQueues at h
  split at h
  · cases h
  rename_i temp hnum
  split at h
  · cases h
  rename_i hport
  split at h
  · rename_i arg₀ arg₁ arg₂ rest
    split at h
    · cases h
    rename_i hrx
    split at h
    · cases h
    rename_i rxq hrxq
    split at h
    · cases h
    rename_i htx
    split at h
    · cases h
    rename_i arg₃ tail
    split at h
    · cases h
    rename_i txq htxq
    refine ⟨(temp, ⟨rxq, txq⟩), ?_, fun q₁ => ?_⟩
    · simp only [Opt.request, hnum, hrxq, htxq]
      rfl
    simp only [parseNofQueues, hnum, if_neg hport, if_neg hrx, hrxq, if_neg htx, htxq]
    unfold storeQueues at h ⊢
    split at h
    · rename_i hlt
      rw [if_pos hlt]
      rfl
    · cases h
  · cases h

/-- A request that a port can be asked by. -/
theorem request_ne_zero {o : Opt} (h : o.request = some r) : r.2.rxq ≠ 0 ∧ r.2.txq ≠ 0 := by
  unfold Opt.request at h
  split at h
  · simp only [bind, Option.bind_eq_some_iff, pure, Option.some.injEq] at h
    obtain ⟨temp, -, rxq, hrxq, txq, htxq, rfl⟩ := h
    exact ⟨count_ne_zero hrxq, count_ne_zero htxq⟩
  · cases h

/-- The loop over the mask marks the ports that are present, and they find room. -/
theorem foldlM_markPort {pm : ℕ} {bits : List ℕ} {id id' : List ℕ}
    (h : bits.foldlM (markPort L maxPorts pm) id = .ok id') (hlen : id.length ≤ L.maxEthports) :
    id'.length ≤ L.maxEthports ∧
      id' = id ++ bits.filter fun bit => pm.testBit bit && decide (bit < maxPorts) := by
  induction bits generalizing id with
  | nil =>
    cases h
    exact ⟨hlen, (List.append_nil _).symm⟩
  | cons bit bits ih =>
    rw [List.foldlM_cons] at h
    obtain ⟨id₁, h₁, h⟩ := bind_eq_ok.mp h
    unfold markPort at h₁
    split at h₁
    · rename_i hbit
      cases h₁
      rw [List.filter_cons_of_neg (by simp [hbit])]
      exact ih h hlen
    rename_i hbit
    split at h₁
    · rename_i hport
      cases h₁
      rw [List.filter_cons_of_neg (by simp [hport])]
      exact ih h hlen
    rename_i hport
    split at h₁
    · rename_i hroom
      cases h₁
      rw [Bool.not_eq_false] at hbit
      rw [List.filter_cons_of_pos (by simp [hbit, Nat.lt_of_not_le hport]),
        ← List.singleton_append, ← List.append_assoc]
      exact ih h (by rw [List.length_append, List.length_singleton]; omega)
    · cases h₁

/-- What the loop over the options keeps: the ports are those of the masks so far and find
room, and the rings and queues are those of the options so far. -/
structure OptsInv (L : Limits) (maxPorts : ℕ) (done : List Opt) (s : Parsed) : Prop where
  length_le : s.id.length ≤ L.maxEthports
  ids : s.id = (done.filterMap Opt.mask).flatMap (maskPorts maxPorts)
  rings : s.numRings = ringsOf done
  queues : ∀ port, s.argQueues port =
    ((((done.filterMap Opt.request).map kept).reverse.find? fun r => r.1 = port).map
      Prod.snd).getD ⟨0, 0⟩
  stores : ∀ o ∈ done, o.Stores L maxPorts

variable {maxPorts : ℕ} {done : List Opt} {s s' : Parsed} {o : Opt}

theorem ringsOf_concat : ringsOf (done ++ [o]) = o.rings.getD (ringsOf done) := by
  cases hr : o.rings with
  | none => simp [ringsOf, hr]
  | some n => simp [ringsOf, hr]

/-- An option that is no `--port-num`. -/
theorem OptsInv.keep (h : OptsInv L maxPorts done s) (hnone : o.request = none)
    (hstores : o.Stores L maxPorts) (hlen : s'.id.length ≤ L.maxEthports)
    (hids : s'.id = s.id ++ o.mask.elim [] (maskPorts maxPorts))
    (hrings : s'.numRings = o.rings.getD s.numRings) (hqueues : s'.argQueues = s.argQueues) :
    OptsInv L maxPorts (done ++ [o]) s' where
  length_le := hlen
  ids := by
    rw [hids, h.ids]
    cases hm : o.mask <;> simp [hm]
  rings := by rw [hrings, ringsOf_concat, h.rings]
  queues port := by
    rw [hqueues, h.queues, List.filterMap_append, List.filterMap_cons_none hnone, List.filterMap_nil,
      List.append_nil]
  stores := List.forall_mem_append.mpr ⟨h.stores, List.forall_mem_singleton.mpr hstores⟩

theorem OptsInv.step (h : OptsInv L maxPorts done s) (ho : parseOpt L maxPorts s o = .ok (some s')) :
    OptsInv L maxPorts (done ++ [o]) s' := by
  cases o with
  | dispStats =>
    cases ho
    exact h.keep rfl trivial h.length_le (List.append_nil _).symm rfl rfl
  | portmask arg =>
    obtain ⟨id?, hid, hs⟩ := map_eq_ok ho
    obtain ⟨id', rfl, rfl⟩ := Option.map_eq_some_iff.mp hs
    unfold parsePortmask at hid
    split at hid
    · cases hid
    rename_i pm hpm
    obtain ⟨id₁, hfold, heq⟩ := map_eq_ok hid
    obtain rfl := Option.some.inj heq
    obtain ⟨hlen, hids⟩ := foldlM_markPort hfold h.length_le
    have hmask : (Opt.portmask arg).mask = some pm := (Option.filter_eq_some_iff.mp hpm).1
    exact h.keep rfl trivial hlen (by rw [hmask]; exact hids) rfl rfl
  | nofRings arg =>
    obtain ⟨n, hn, rfl⟩ := Option.map_eq_some_iff.mp (Except.ok.inj ho)
    have hrings : (Opt.nofRings arg).rings = some n := hn
    exact h.keep rfl trivial h.length_le (List.append_nil _).symm (by rw [hrings]; rfl) rfl
  | server accepted =>
    cases accepted with
    | true =>
      cases ho
      exact h.keep rfl trivial h.length_le (List.append_nil _).symm rfl rfl
    | false => cases ho
  | portNum arg behind =>
    obtain ⟨q?, hq, hs⟩ := map_eq_ok ho
    obtain ⟨q, rfl, rfl⟩ := Option.map_eq_some_iff.mp hs
    have hstores := stores_of_parseNofQueues hq
    obtain ⟨r, hr, hupd⟩ := hstores
    obtain rfl := Option.some.inj (Except.ok.inj (hq.symm.trans (hupd s.argQueues)))
    refine ⟨h.length_le, ?_, ?_, fun port => ?_, ?_⟩
    · rw [h.ids, List.filterMap_append]
      simp [Opt.mask]
    · rw [ringsOf_concat]
      exact h.rings
    · rw [List.filterMap_append, List.filterMap_cons_some hr, List.filterMap_nil, List.map_append,
        List.map_singleton, List.reverse_append, List.reverse_singleton, List.singleton_append,
        List.find?_cons]
      by_cases hport : (kept r).1 = port
      · rw [decide_eq_true hport, ← hport]
        exact Function.update_self ..
      · rw [decide_eq_false hport]
        exact (Function.update_of_ne (Ne.symm hport) ..).trans (h.queues port)
    · exact List.forall_mem_append.mpr ⟨h.stores, List.forall_mem_singleton.mpr ⟨r, hr, hupd⟩⟩
  | unknown => cases ho

variable {opts : List Opt}

theorem OptsInv.run (h : OptsInv L maxPorts done s)
    (hrun : parseOpts L maxPorts s opts = .ok (some s')) : OptsInv L maxPorts (done ++ opts) s' := by
  induction opts generalizing done s with
  | nil =>
    cases hrun
    rwa [List.append_nil]
  | cons o opts ih =>
    obtain ⟨s₁?, hstep, hrun⟩ := bind_eq_ok.mp hrun
    cases s₁? with
    | none => cases hrun
    | some s₁ =>
      have hrest := ih (h.step hstep) hrun
      rwa [List.append_assoc, List.singleton_append] at hrest

variable {opts : List Opt} {ports : PortInfo}

/-- The options are accepted with at least one ring. -/
theorem exists_of_parseAppArgs (h : parseAppArgs L maxPorts opts = .ok (some ports)) :
    ∃ s, OptsInv L maxPorts opts s ∧ numRings L maxPorts opts = s.numRings ∧ s.numRings ≠ 0 ∧
      ports = setNofQueues s.id s.argQueues := by
  obtain ⟨s?, hrun, h⟩ := bind_eq_ok.mp h
  cases s? with
  | none => cases h
  | some s =>
    have hinit : OptsInv L maxPorts [] ⟨[], 0, fun _ => ⟨0, 0⟩⟩ :=
      ⟨Nat.zero_le _, rfl, rfl, fun _ => rfl, nofun⟩
    refine ⟨s, hinit.run hrun, by rw [numRings, hrun]; rfl, ?_⟩
    change (if s.id = [] ∨ s.numRings = 0 then Except.ok none
      else Except.ok (some (setNofQueues s.id s.argQueues))) = _ at h
    split at h
    · cases h
    · rename_i hsome
      exact ⟨fun hrings => hsome (.inr hrings), (Option.some.inj (Except.ok.inj h)).symm⟩

/-- **What `parse_app_args` leaves in the arrays.** -/
theorem parseAppArgs_ok (h : parseAppArgs L maxPorts opts = .ok (some ports)) :
    ports.id.length ≤ L.maxEthports ∧ (∀ x ∈ ports.id, x < maxPorts) ∧
      ∀ k x, ports.id[k]? = some x → ports.queueInfo k = keptQueues opts x := by
  obtain ⟨s, hinv, -, -, rfl⟩ := exists_of_parseAppArgs h
  refine ⟨hinv.length_le, fun x hx => ?_, fun k x hk => ?_⟩
  · have hx : x ∈ s.id := hx
    rw [hinv.ids, List.mem_flatMap] at hx
    obtain ⟨pm, -, hx⟩ := hx
    exact of_decide_eq_true (Bool.and_eq_true_iff.mp (List.mem_filter.mp hx).2).2
  show (match s.id[k]? with | some portId => orOne (s.argQueues portId) | none => ⟨0, 0⟩) = _
  have hk : s.id[k]? = some x := hk
  rw [hk]
  show orOne (s.argQueues x) = _
  rw [hinv.queues]
  rfl

theorem keptQueues_lt (opts : List Opt) (port : ℕ) :
    (keptQueues opts port).rxq < 2 ^ 16 ∧ (keptQueues opts port).txq < 2 ^ 16 := by
  unfold keptQueues orOne
  split
  · exact ⟨by decide, by decide⟩
  cases hfind : ((opts.filterMap Opt.request).map kept).reverse.find? fun r => r.1 = port with
  | none => exact ⟨by decide, by decide⟩
  | some r =>
    obtain ⟨r', -, rfl⟩ := List.mem_map.mp
      (List.mem_reverse.mp (List.mem_of_find?_eq_some hfind))
    exact ⟨Nat.mod_lt _ (by decide), Nat.mod_lt _ (by decide)⟩

/-! ## Capacities -/

/-- How many elements of `argv` behind `optind` are read by `parse_nof_queues`. -/
def lookAhead (maxPorts : ℕ) (arg : CString) (behind : List CString) : ℕ :=
  if (number 10 arg).all (fun temp => maxPorts < temp % 2 ^ 16) ∨ behind.length < 3 then 0
  else if behind[0]? ≠ some "rxq".toList then 1
  else if (behind[1]?.bind count).isNone then 2
  else if behind[2]? ≠ some "txq".toList then 3
  else 4

/-- A `--port-num` names a port that is present and numbers of queues that a port may have, all
of them are stored as they are written, and `argv` is not read beyond its end. -/
def Opt.Exact (L : Limits) (maxPorts : ℕ) : Opt → Prop
  | .portNum arg behind => lookAhead maxPorts arg behind ≤ behind.length ∧
      ∃ port q, (Opt.portNum arg behind).request = some (port, q) ∧ port < maxPorts ∧
        (1 ≤ q.rxq ∧ q.rxq ≤ L.maxQueuesPerPort) ∧ (1 ≤ q.txq ∧ q.txq ≤ L.maxQueuesPerPort) ∧
        ∀ argQueues, parseNofQueues L maxPorts argQueues arg behind =
          .ok (some (Function.update argQueues port q))
  | _ => True

/-- The options are within the capacities: the ports are the bits of the port mask that are
present, in their order, and there are not too many of them, of rings and of queues. -/
structure WithinCapacity (L : Limits) (maxPorts : ℕ) (opts : List Opt) (ports : PortInfo) :
    Prop where
  ids : ports.id = (List.range 64).filter fun bit =>
    (opts.filterMap Opt.mask).any (·.testBit bit) && decide (bit < maxPorts)
  num_ports : ports.id.length ≤ L.maxEthports
  num_rings : 1 ≤ numRings L maxPorts opts ∧ numRings L maxPorts opts ≤ maxClient
  queues : ∀ o ∈ opts, o.Exact L maxPorts

/-- **What the options have to satisfy**: no mask goes back behind the ports of the masks before
it, the last `-n` does not ask for too many rings, and every `--port-num` gives numbers of 16
bits, of a port that is present and of not too many queues. -/
structure ArgsFit (L : Limits) (maxPorts : ℕ) (opts : List Opt) : Prop where
  order : ((opts.filterMap Opt.mask).flatMap (maskPorts maxPorts)).Pairwise (· < ·)
  rings : ringsOf opts ≤ maxClient
  requests : ∀ o ∈ opts, ∀ r, o.request = some r → kept r = r ∧ r.1 < maxPorts ∧
    r.2.rxq ≤ L.maxQueuesPerPort ∧ r.2.txq ≤ L.maxQueuesPerPort

theorem lookAhead_le (h : (Opt.portNum arg behind).request = some r) :
    lookAhead maxPorts arg behind ≤ behind.length := by
  unfold Opt.request at h
  split at h
  · rename_i heq
    cases heq
    unfold lookAhead
    split_ifs <;> simp
  · cases h

/-- Numbers that are stored as they are written are numbers of 16 bits. -/
theorem kept_of_update (hne : r.2.rxq ≠ (q r.1).rxq)
    (h : Function.update q (kept r).1 (kept r).2 = Function.update q r.1 r.2) : kept r = r := by
  have hat := congrFun h r.1
  rw [Function.update_self] at hat
  by_cases hport : r.1 = (kept r).1
  · rw [hport, Function.update_self] at hat
    exact Prod.ext hport.symm hat
  · rw [Function.update_of_ne hport] at hat
    exact absurd (congrArg PortQueue.rxq hat).symm hne

/-- An option that was accepted is exact if its numbers fit. -/
theorem Opt.exact_iff (h : o.Stores L maxPorts) : o.Exact L maxPorts ↔
    ∀ r, o.request = some r → kept r = r ∧ r.1 < maxPorts ∧
      r.2.rxq ≤ L.maxQueuesPerPort ∧ r.2.txq ≤ L.maxQueuesPerPort := by
  cases o with
  | portNum arg behind =>
    obtain ⟨r, hr, hstores⟩ := h
    have hne := request_ne_zero hr
    constructor
    · rintro ⟨-, port, q, hreq, hport, hrxq, htxq, hupd⟩ r' hr'
      obtain rfl := Option.some.inj (hreq.symm.trans hr')
      obtain rfl := Option.some.inj (hr.symm.trans hr')
      have hsame := (hstores fun _ => ⟨0, 0⟩).symm.trans (hupd fun _ => ⟨0, 0⟩)
      exact ⟨kept_of_update hne.1 (Option.some.inj (Except.ok.inj hsame)), hport, hrxq.2, htxq.2⟩
    intro hfit
    obtain ⟨hkept, hport, hrxq, htxq⟩ := hfit r hr
    rw [hkept] at hstores
    exact ⟨lookAhead_le hr, r.1, r.2, hr, hport, ⟨Nat.pos_of_ne_zero hne.1, hrxq⟩,
      ⟨Nat.pos_of_ne_zero hne.2, htxq⟩, hstores⟩
  | _ => exact iff_of_true trivial nofun

/-- The ports are the bits of the mask in their order exactly if they are in order. -/
theorem flatMap_maskPorts_eq_iff (maxPorts : ℕ) (masks : List ℕ) :
    masks.flatMap (maskPorts maxPorts) = (List.range 64).filter
        (fun bit => masks.any (·.testBit bit) && decide (bit < maxPorts)) ↔
      (masks.flatMap (maskPorts maxPorts)).Pairwise (· < ·) := by
  have hsorted := (List.pairwise_lt_range (n := 64)).filter
    fun bit => masks.any (·.testBit bit) && decide (bit < maxPorts)
  constructor
  · intro h
    rwa [h]
  intro h
  refine h.eq_of_mem_iff hsorted fun bit => ?_
  simp only [maskPorts, List.mem_flatMap, List.mem_filter, Bool.and_eq_true, List.any_eq_true]
  exact ⟨fun ⟨pm, hpm, hlt, hbit, hport⟩ => ⟨hlt, ⟨pm, hpm, hbit⟩, hport⟩,
    fun ⟨hlt, ⟨pm, hpm, hbit⟩, hport⟩ => ⟨pm, hpm, hlt, hbit, hport⟩⟩

/-- Options that are accepted, and one more. -/
def withOpt (o : Opt) : List Opt := [.portmask "1", .nofRings "1", o]

end SoftPatchPanel.Primary
