import SoftPatchPanel.Nfv.BasicForwarder
import SoftPatchPanel.Nfv.PanelShown
import SoftPatchPanel.Primary.Args
import SoftPatchPanel.Primary.Ports
import SoftPatchPanel.Shared.JsonHelper
import SoftPatchPanel.Worker.CmdUtils

/-!
# What the processes attach to a physical port

Four pieces of data belong to a physical port: the numbers of its queues, which the
options of the primary process give; the counters of the packets that `forward` carries;
and the flow rules created on it.  They are kept in arrays, and different functions
index the arrays in different ways.

* `set_nof_queues` and `phy_port_stats_json` go by the *position* of the port in the mask.
* `forward` counts at `port_map[k].stats`, which start-up points at `port_stats[k]` for
  the *ethdev* `k`.
* The flow commands, `spp_nfv` at start-up and `get_port_max_queues` of the workers go by
  the number in `phy:X`, which is the ethdev as well.

Each of them is right about every port exactly if the position of every port in the mask
is its number: the mask is a run of ones from bit 0.  This is `attached_iff`.
-/

namespace SoftPatchPanel.Primary

open Shared
open Worker (Fault Platform PortQueue PortType)

variable {L : Limits} {texts : List CString} {k n port : ℕ}

/-! ## The counters -/

/-- `struct stats`, as far as the status shows it. -/
@[ext]
structure Counters where
  rx : ℕ
  tx : ℕ
  txDrop : ℕ
  deriving DecidableEq

/-- A burst that `forward` carries from one ethdev to another. -/
structure Burst where
  inPort : ℕ
  outPort : ℕ
  nbRx : ℕ
  nbTx : ℕ
  nbTx_le : nbTx ≤ nbRx

/-- What `forward` adds at the port that a burst comes in at. -/
def Burst.received (b : Burst) (c : Counters) : Counters :=
  { c with rx := (c.rx + b.nbRx) % 2 ^ 64 }

/-- What `forward` adds at the port that a burst goes out at. -/
def Burst.sent (b : Burst) (c : Counters) : Counters :=
  { c with tx := (c.tx + b.nbTx) % 2 ^ 64, txDrop := (c.txDrop + (b.nbRx - b.nbTx)) % 2 ^ 64 }

/-- `forward` counts one burst. -/
def account (t : Tables L) (stats : Nfv.Stats) (b : Burst) : Nfv.Stats :=
  match Nfv.record t b.inPort, Nfv.record t b.outPort with
  | some r, some r' => stats.countBurst r r' b.nbRx b.nbTx
  | _, _ => stats

/-- An element of `port_stats`. -/
def countersOf (stats : Nfv.Stats) (port : ℕ) : Counters :=
  ⟨(stats (.port port) .rx).toNat, (stats (.port port) .tx).toNat, (stats (.port port) .txDrop).toNat⟩

/-- What the bursts come to for one ethdev. -/
def accumulated (bursts : List Burst) (port : ℕ) : Counters where
  rx := ((bursts.filter fun b => b.inPort = port).map Burst.nbRx).sum % 2 ^ 64
  tx := ((bursts.filter fun b => b.outPort = port).map Burst.nbTx).sum % 2 ^ 64
  txDrop := ((bursts.filter fun b => b.outPort = port).map fun b => b.nbRx - b.nbTx).sum % 2 ^ 64

/-! ## The status -/

/-- `PRI_BUF_SIZE_PHY`. -/
def priBufSizePhy : ℕ := 30720

/-- The size of the buffer for the flow rules of one port. -/
def flowBufSize : ℕ := priBufSizePhy - 512

/-- The loop of `append_flow_json` over the texts of the rules, the newest first, with
what is collected so far.  A text goes in front of the older ones; `none` stands for a
text that does not fit. -/
def appendFlowLoop : List CString → ℕ → CString → Option CString
  | [], _, output => some output
  | flowStr :: rest, strSize, output =>
    if strSize = 0 then appendFlowLoop rest flowStr.length (flowStr.take (flowBufSize - 1))
    else if strSize + (flowStr.length + 1) > flowBufSize - 1 then none
    else appendFlowLoop rest (strSize + (flowStr.length + 1)) (flowStr ++ ',' :: output)

/-- `append_flow_json`.  The last test is made with the text of the last rule only.  If
the port has no rules it is made with what `malloc` has returned, which reads as a string
of the length `stale`. -/
def appendFlowJson (stale : ℕ) (texts : List CString) : Option CString :=
  (appendFlowLoop texts 0 []).bind fun output =>
    if "[]".length + (texts.getLast?.map List.length).getD stale > flowBufSize - 1 then none
    else some (('[' :: output ++ "]").take (flowBufSize - 1))

/-- An element of `phy_ports`. -/
structure PhyPort where
  id : ℕ
  eth : CString
  stats : Counters
  nofQueues : PortQueue
  flow : CString

/-- The text of an element. -/
def PhyPort.text (p : PhyPort) : CString :=
  "\x7b\"id\":" ++ uintText p.id ++ ",\"eth\":\"" ++ p.eth ++
    "\",\"rx\":" ++ uintText p.stats.rx ++ ",\"tx\":" ++ uintText p.stats.tx ++
    ",\"tx_drop\":" ++ uintText p.stats.txDrop ++
    ",\"nof_queues\":\x7b\"rx\":" ++ uintText p.nofQueues.rxq ++
    ",\"tx\":" ++ uintText p.nofQueues.txq ++ "\x7d,\"flow\":" ++ p.flow ++
    "\x7d"

/-- What the status reads besides the options: `port_stats`, the addresses, and for every
element of `port_list` the texts of its rules, the newest first. -/
structure Contents where
  portStats : ℕ → Counters
  eth : ℕ → CString
  flowTexts : ℕ → List CString
  stale : ℕ → ℕ

/-- The element that the loop of `phy_port_stats_json` makes at a position. -/
def phyPort (ports : PortInfo) (c : Contents) (i : ℕ) : Option PhyPort := do
  let id ← ports.id[i]?
  let flow ← appendFlowJson (c.stale i) (c.flowTexts i)
  return ⟨id, c.eth id, c.portStats i, ports.queueInfo i, flow⟩

/-- The loop of `phy_port_stats_json` over the positions, with the length of the buffer.
An element that does not fit ends the loop, and the comma in front of it is taken back;
there is none in front of the first.  The buffer has no room for a comma that follows
text up to its end. -/
def phyPortLoop (ports : PortInfo) (c : Contents) : List ℕ → ℕ → Except Fault (List PhyPort)
  | [], _ => .ok []
  | i :: rest, len =>
    match phyPort ports c i with
    | none => if len = 0 then .error .undefined else .ok []
    | some p =>
      if len + p.text.length > priBufSizePhy - 1 then
        if len = 0 then .error .undefined else .ok []
      else if i < ports.id.length - 1 then
        if len + p.text.length + 1 < priBufSizePhy then
          (p :: ·) <$> phyPortLoop ports c rest (len + p.text.length + 1)
        else .error .undefined
      else (p :: ·) <$> phyPortLoop ports c rest (len + p.text.length)

/-- The text of the list of elements. -/
def phyPortsText (shown : List PhyPort) : CString :=
  "\"phy_ports\":[" ++ [','].intercalate (shown.map PhyPort.text) ++ "]"

/-- `phy_port_stats_json`: the elements that the status shows.  The buffer of the caller,
which takes the whole text, is no longer than the one for the elements. -/
def phyPortStatsJson (ports : PortInfo) (c : Contents) : Except Fault (List PhyPort) := do
  let shown ← phyPortLoop ports c (List.range ports.id.length) 0
  if (phyPortsText shown).length < priBufSizePhy then .ok shown else .error .undefined

/-! ## The elements of a status that fits -/

/-- The rules of a port as an array, the oldest first. -/
def flowArray (texts : List CString) : CString :=
  '[' :: [','].intercalate texts.reverse ++ "]"

/-- The element at a position. -/
def shownPort (ports : PortInfo) (c : Contents) (i : ℕ) : PhyPort :=
  ⟨ports.id.getD i 0, c.eth (ports.id.getD i 0), c.portStats i, ports.queueInfo i,
    flowArray (c.flowTexts i)⟩

/-- The rules of every port and the text of all elements fit into their buffers. -/
structure Fits (ports : PortInfo) (c : Contents) : Prop where
  texts : ∀ i < ports.id.length, ∀ s ∈ c.flowTexts i, s ≠ []
  flow : ∀ i < ports.id.length, (flowArray (c.flowTexts i)).length < flowBufSize
  stale : ∀ i < ports.id.length, c.flowTexts i = [] → c.stale i + 2 < flowBufSize
  total : (phyPortsText ((List.range ports.id.length).map (shownPort ports c))).length <
    priBufSizePhy

theorem intercalate_append_pair (ts : List CString) (s t : CString) :
    [','].intercalate (ts ++ [s, t]) = [','].intercalate (ts ++ [s ++ ',' :: t]) := by
  rcases ts.eq_nil_or_concat' with rfl | ⟨ts', u, rfl⟩
  · simp only [List.nil_append, List.intercalate_cons_cons, List.intercalate_singleton,
      List.append_assoc, List.singleton_append]
  have hne : ts' ++ [u] ≠ [] := by simp
  rw [← List.singleton_append (l := [t]), ← List.append_assoc,
    intercalate_append_singleton (by simp), intercalate_append_singleton hne,
    intercalate_append_singleton hne, List.append_assoc, List.append_assoc]
  rfl

theorem length_le_intercalate {ts : List CString} {t : CString} (h : t ∈ ts) :
    t.length ≤ ([','].intercalate ts).length := by
  induction ts with
  | nil => cases h
  | cons u ts ih =>
    have hcons := Json.length_add_le_intercalate_cons [','] u ts
    rcases List.mem_cons.mp h with rfl | h
    · omega
    · have := ih h
      omega

/-- The loop puts what it reads in front of what it has. -/
theorem appendFlowLoop_eq {output : CString} (hne : output ≠ [])
    (hfit : ([','].intercalate (texts.reverse ++ [output])).length ≤ flowBufSize - 1) :
    appendFlowLoop texts output.length output =
      some ([','].intercalate (texts.reverse ++ [output])) := by
  induction texts generalizing output with
  | nil =>
    rw [List.reverse_nil, List.nil_append, List.intercalate_singleton]
    rfl
  | cons s rest ih =>
    rw [List.reverse_cons, List.append_assoc, List.singleton_append, intercalate_append_pair]
      at hfit ⊢
    have hlen : (s ++ ',' :: output).length = output.length + (s.length + 1) := by
      rw [List.length_append, List.length_cons]
      omega
    have hroom := (length_le_intercalate (List.mem_append_right rest.reverse
      (List.mem_singleton_self (s ++ ',' :: output)))).trans hfit
    rw [appendFlowLoop, if_neg (fun h => hne (List.eq_nil_of_length_eq_zero h)),
      if_neg (by omega), ← hlen]
    exact ih (by simp) hfit

theorem length_flowArray (texts : List CString) :
    (flowArray texts).length = ([','].intercalate texts.reverse).length + 2 := by
  rw [flowArray, List.cons_append, List.length_cons, List.length_append]
  rfl

/-- Rules that fit are all shown. -/
theorem appendFlowJson_eq {stale : ℕ} (hne : ∀ s ∈ texts, s ≠ [])
    (hfit : (flowArray texts).length < flowBufSize)
    (hstale : texts = [] → stale + 2 < flowBufSize) :
    appendFlowJson stale texts = some (flowArray texts) := by
  rw [length_flowArray] at hfit
  have hloop : appendFlowLoop texts 0 [] = some ([','].intercalate texts.reverse) := by
    cases texts with
    | nil => rfl
    | cons s rest =>
      have hs : s.length ≤ flowBufSize - 1 := by
        have := length_le_intercalate (List.mem_reverse.mpr (List.mem_cons_self (a := s) (l := rest)))
        omega
      rw [appendFlowLoop, if_pos rfl, List.take_of_length_le hs, List.reverse_cons]
      rw [List.reverse_cons] at hfit
      exact appendFlowLoop_eq (hne s List.mem_cons_self) (by omega)
  have hlast : (texts.getLast?.map List.length).getD stale + 2 < flowBufSize := by
    cases hlast : texts.getLast? with
    | none => exact hstale (List.getLast?_eq_none_iff.mp hlast)
    | some s =>
      have hs : s ∈ texts.reverse := List.mem_reverse.mpr (List.mem_of_getLast? hlast)
      have := length_le_intercalate hs
      show s.length + 2 < flowBufSize
      omega
  rw [appendFlowJson, hloop, Option.bind_some, if_neg (by
    show ¬ 2 + _ > _
    omega)]
  have hlen := length_flowArray texts
  exact congrArg some (List.take_of_length_le (by
    show (flowArray texts).length ≤ _
    omega))

variable {ports : PortInfo} {c : Contents}

theorem Fits.phyPort (h : Fits ports c) {i : ℕ}
    (hi : i < ports.id.length) : phyPort ports c i = some (shownPort ports c i) := by
  have hget : ports.id[i]? = some (ports.id.getD i 0) := by
    rw [List.getD_eq_getElem?_getD, List.getElem?_eq_getElem hi, Option.getD_some]
  rw [Primary.phyPort, hget, appendFlowJson_eq (h.texts i hi) (h.flow i hi) (h.stale i hi)]
  rfl

theorem Fits.phyPortLoop (h : Fits ports c) {len : ℕ} (hk : k + n = ports.id.length)
    (hlen : len + ((List.range' k n).map fun i => (shownPort ports c i).text.length + 1).sum ≤
      priBufSizePhy) :
    phyPortLoop ports c (List.range' k n) len = .ok ((List.range' k n).map (shownPort ports c)) := by
  induction n generalizing k len with
  | zero => rfl
  | succ n ih =>
    rw [List.range'_succ] at hlen ⊢
    rw [List.map_cons, List.sum_cons] at hlen
    have hpos : 0 < priBufSizePhy := by decide
    rw [Primary.phyPortLoop, h.phyPort (by omega)]
    show (if _ then _ else _) = _
    rw [if_neg (by omega)]
    by_cases hlast : k < ports.id.length - 1
    · -- another element follows, so that there is room for the comma
      have hrest : 0 < ((List.range' (k + 1) n).map fun i =>
          (shownPort ports c i).text.length + 1).sum := by
        obtain ⟨n', rfl⟩ : ∃ n', n = n' + 1 := ⟨n - 1, by omega⟩
        rw [List.range'_succ, List.map_cons, List.sum_cons]
        omega
      rw [if_pos hlast, if_pos (by omega), ih (by omega) (by omega)]
      rfl
    · obtain rfl : n = 0 := by omega
      rw [if_neg hlast]
      rfl

theorem length_phyPortsText {shown : List PhyPort} (hne : shown ≠ []) :
    (phyPortsText shown).length = (shown.map fun p => p.text.length + 1).sum + 13 := by
  have hlen := length_intercalate ',' (mt List.map_eq_nil_iff.mp hne : shown.map PhyPort.text ≠ [])
  have hhead : "\"phy_ports\":[".length = 13 := by decide
  have hclose : "]".length = 1 := by decide
  simp only [List.map_map, Function.comp_def] at hlen
  unfold phyPortsText
  simp only [List.length_append, String.length_toList, hhead, hclose]
  omega

/-- A status that fits has an element for every position. -/
theorem Fits.phyPortStatsJson (h : Fits ports c) :
    phyPortStatsJson ports c =
      .ok ((List.range ports.id.length).map (shownPort ports c)) := by
  have hloop : Primary.phyPortLoop ports c (List.range ports.id.length) 0 =
      .ok ((List.range ports.id.length).map (shownPort ports c)) := by
    rcases ports.id.eq_nil_or_concat' with hid | ⟨_, _, hid⟩
    · rw [hid]
      rfl
    have htotal := h.total
    rw [length_phyPortsText (by simp [hid]), List.map_map, List.range_eq_range'] at htotal
    rw [List.range_eq_range']
    refine h.phyPortLoop (Nat.zero_add _) ?_
    simp only [Function.comp_def] at htotal
    omega
  rw [Primary.phyPortStatsJson, hloop]
  exact if_pos h.total

/-! ## What is counted -/

theorem accumulated_append (bursts : List Burst) (b : Burst) (port : ℕ) :
    accumulated (bursts ++ [b]) port =
      let c := if b.inPort = port then b.received (accumulated bursts port)
        else accumulated bursts port
      if b.outPort = port then b.sent c else c := by
  have hsum (p : Burst → Bool) (f : Burst → ℕ) :
      (((bursts ++ [b]).filter p).map f).sum =
        ((bursts.filter p).map f).sum + if p b then f b else 0 := by
    rw [List.filter_append, List.map_append, List.sum_append]
    cases hb : p b with
    | true | false => simp [hb]
  unfold accumulated
  simp only [hsum, decide_eq_true_eq]
  by_cases hin : b.inPort = port
  · by_cases hout : b.outPort = port
    · simp only [hin, hout, if_true, Burst.received, Burst.sent, Nat.mod_add_mod]
    · simp only [hin, hout, if_true, if_false, Nat.add_zero, Burst.received, Nat.mod_add_mod]
  · by_cases hout : b.outPort = port
    · simp only [hin, hout, if_true, if_false, Nat.add_zero, Burst.sent, Nat.mod_add_mod]
    · simp only [hin, hout, if_false, Nat.add_zero]

theorem account_port {t : Tables L} {b : Burst} (hin : (t.portMap b.inPort).stats = .port b.inPort)
    (hout : (t.portMap b.outPort).stats = .port b.outPort) (stats : Nfv.Stats) (port : ℕ) :
    countersOf (account t stats b) port =
      let c := if b.inPort = port then b.received (countersOf stats port) else countersOf stats port
      if b.outPort = port then b.sent c else c := by
  have hrec {i : ℕ} (h : (t.portMap i).stats = .port i) : Nfv.record t i = some (.port i) := by
    rw [Nfv.record, h]
  have hadd (x : UInt64) (n : ℕ) : (x + UInt64.ofNat n).toNat = (x.toNat + n) % 2 ^ 64 := by
    rw [UInt64.toNat_add, UInt64.toNat_ofNat', Nat.add_mod_mod]
  have hport (i : ℕ) : Nfv.StatsRecord.port port = .port i ↔ i = port := by
    rw [Nfv.StatsRecord.port.injEq, eq_comm]
  rw [account, hrec hin, hrec hout]
  simp only [countersOf, Nfv.Stats.countBurst, Nfv.Stats.count, hport]
  by_cases hi : b.inPort = port <;> by_cases ho : b.outPort = port <;>
    simp [hi, ho, hadd, Burst.received, Burst.sent]

/-! ## The processes after start-up -/

/-- The processes that run `forward`. -/
inductive Process where
  | primary
  | nfv

/-- The system after start-up: the options the primary process has accepted, the ethdevs,
of which the first are the physical ports, and the numbers of queues that the memory zone
passes on. -/
structure Started (L : Limits) where
  opts : List Opt
  nofPhy : ℕ
  ports : PortInfo
  host : Host L
  accepted : parseAppArgs L nofPhy opts = .ok (some ports)
  phy : ∀ i < nofPhy, ∃ id, host.dev i = some (.phy, id)
  queues : ∀ i, (host.queueInfo i).rxq = (ports.queueInfo i).rxq ∧
    (host.queueInfo i).txq = (ports.queueInfo i).txq

/-- The tables of the port manager in a process. -/
def Started.tables (D : Started L) : Process → Tables L
  | .primary => (startUp D.host true).tables
  | .nfv => Nfv.startUp D.host

/-- The port is in the table of the process. -/
def Started.Enters (D : Started L) (p : Process) (port : ℕ) : Prop :=
  (((D.tables p).portMap port).portType ≠ .undef)

/-- `port_stats` after the bursts. -/
def Started.counted (D : Started L) (bursts : List (Process × Burst)) : ℕ → Counters :=
  countersOf (bursts.foldl (fun stats b => account (D.tables b.1) stats b.2) fun _ _ => 0)

theorem enterPort_stats {host : Host L} {acc : ℕ × Tables L}
    (h : ∀ i, (acc.2.portMap i).portType ≠ .undef → (acc.2.portMap i).stats = .port i) (n i : ℕ)
    (hi : ((enterPort host acc n).2.portMap i).portType ≠ .undef) :
    ((enterPort host acc n).2.portMap i).stats = .port i := by
  have hset (t : Tables L) (m : PortMap L) (hm : m.stats = .port n) (ht : t.portMap = acc.2.portMap)
      (hi : ((t.setPort n m).portMap i).portType ≠ .undef) :
      ((t.setPort n m).portMap i).stats = .port i := by
    by_cases hin : i = n
    · rwa [hin, Tables.setPort_portMap_self]
    · rw [Tables.setPort_portMap_of_ne _ _ hin, ht] at hi ⊢
      exact h i hi
  unfold enterPort at hi ⊢
  split at hi
  · exact h i hi
  split at hi
  · rename_i hphy
    simp only [hphy, if_true] at hi ⊢
    exact hset _ _ rfl rfl hi
  · rename_i hphy
    simp only [hphy, if_false] at hi ⊢
    exact hset _ _ rfl rfl hi

section

variable (D : Started L)

/-- Every process counts the packets of an ethdev at its own index. -/
theorem Started.stats_of_enters {p : Process} (h : D.Enters p port) :
    ((D.tables p).portMap port).stats = .port port := by
  cases p with
  | primary =>
    have hfold (l : List ℕ) (acc : ℕ × Tables L)
        (hacc : ∀ i, (acc.2.portMap i).portType ≠ .undef → (acc.2.portMap i).stats = .port i) :
        ∀ i, ((l.foldl (enterPort D.host) acc).2.portMap i).portType ≠ .undef →
          ((l.foldl (enterPort D.host) acc).2.portMap i).stats = .port i := by
      induction l generalizing acc with
      | nil => exact hacc
      | cons n l ih => exact ih _ (enterPort_stats hacc n)
    exact hfold _ _ (fun i hi => absurd rfl hi) port h
  | nfv =>
    obtain ⟨-, n, -, hmap⟩ := Nfv.startUp_registered h
    show ((Nfv.startUp D.host).portMap port).stats = _
    rw [hmap]

/-- **The counters of an ethdev are at its own index.** -/
theorem Started.counted_eq {bursts : List (Process × Burst)}
    (h : ∀ b ∈ bursts, D.Enters b.1 b.2.inPort ∧ D.Enters b.1 b.2.outPort) (port : ℕ) :
    D.counted bursts port = accumulated (bursts.map Prod.snd) port := by
  induction bursts using List.reverseRecOn with
  | nil => rfl
  | append_singleton bursts b ih =>
    obtain ⟨hin, hout⟩ := h b (List.mem_append_right _ (List.mem_singleton_self b))
    have ih := ih fun b' hb' => h b' (List.mem_append_left _ hb')
    unfold Started.counted at ih ⊢
    rw [List.foldl_append, List.map_append, List.map_singleton, accumulated_append, ← ih]
    exact account_port (D.stats_of_enters hin) (D.stats_of_enters hout) _ port

/-! ## Physical ports -/

theorem Started.nofPhy_le : D.nofPhy ≤ D.host.nbPorts := by
  have hle : D.nofPhy ≤ L.maxEthports := by
    rcases Nat.eq_zero_or_pos D.nofPhy with h | h
    · omega
    · obtain ⟨id, hid⟩ := D.phy (D.nofPhy - 1) (by omega)
      have := D.host.dev_lt (D.nofPhy - 1) (by rw [hid]; rfl)
      omega
  have hall : (List.range D.nofPhy).countP (fun i => (D.host.dev i).isSome) = D.nofPhy := by
    refine (List.countP_eq_length.mpr fun i hi => ?_).trans List.length_range
    obtain ⟨id, hid⟩ := D.phy i (List.mem_range.mp hi)
    rw [hid]
    rfl
  rw [← hall]
  exact (List.range_sublist.mpr hle).countP_le

theorem Started.count_isPhy (hn : n ≤ D.nofPhy) : Nat.count D.host.IsPhy n = n := by
  refine Nat.count_iff_forall.mpr fun i hi => ?_
  obtain ⟨id, hid⟩ := D.phy i (by omega)
  rw [Host.IsPhy, hid]
  rfl

/-- The physical ports have the numbers of their ethdevs in `spp_nfv`. -/
theorem Started.nfv_portMap (hport : port < D.nofPhy) :
    (Nfv.startUp D.host).portMap port =
      ⟨port, .phy, .port port, some (D.host.queueInfo port)⟩ := by
  obtain ⟨id, hid⟩ := D.phy port hport
  refine Nfv.startUp_portMap_of_found (n := (.phy, (port : ℤ)))
    (Nat.lt_of_lt_of_le hport D.nofPhy_le) ?_
  rw [Nfv.foundAs, deviceOf, hid, Option.map_some, if_pos rfl, Option.bind_some,
    if_neg (by decide : ¬ (PortType.phy = .vhost ∨ PortType.phy = .pipe)),
    D.count_isPhy (Nat.le_of_lt hport)]

theorem Started.nfv_findPortId (hport : port < D.nofPhy) :
    (Nfv.startUp D.host).findPortId port .phy = port := by
  have hfind : (List.range L.maxEthports).find? (fun i =>
      ((Nfv.startUp D.host).portMap i).portType = .phy ∧
        ((Nfv.startUp D.host).portMap i).id = port) = some port := by
    refine List.find?_range_eq_some.mpr ⟨?_, ?_, fun i hi => ?_⟩
    · rw [D.nfv_portMap hport]
      exact decide_eq_true ⟨rfl, rfl⟩
    · have := Nfv.nbPorts_le D.host
      have := D.nofPhy_le
      exact List.mem_range.mpr (by omega)
    rw [D.nfv_portMap (Nat.lt_trans hi hport)]
    rw [Bool.not_eq_true', decide_eq_false_iff_not]
    intro h
    have := Int.ofNat.inj h.2
    omega
  rw [Tables.findPortId, hfind]
  rfl

end

/-! ## What is attached to a port -/

/-- The status shows the ports as they are, whenever it fits: an element for every port
of the mask, with the queues that the options give, the packets counted for the port and
the rules created on it. -/
def StatusRight (D : Started L) : Prop :=
  ∀ (bursts : List (Process × Burst)) (eth : ℕ → CString) (flowTexts : ℕ → List CString)
    (stale : ℕ → ℕ),
    (∀ b ∈ bursts, D.Enters b.1 b.2.inPort ∧ D.Enters b.1 b.2.outPort) →
    Fits D.ports ⟨D.counted bursts, eth, flowTexts, stale⟩ →
    ∃ shown, phyPortStatsJson D.ports ⟨D.counted bursts, eth, flowTexts, stale⟩ = .ok shown ∧
      ∀ x ∈ D.ports.id, (∃ p ∈ shown, p.id = x) ∧ ∀ p ∈ shown, p.id = x →
        p.nofQueues = configuredQueues D.opts x ∧
        p.stats = accumulated (bursts.map Prod.snd) x ∧
        p.flow = flowArray (flowTexts x)

/-- `spp_nfv` finds the queues of the port when it starts. -/
def NfvRight (D : Started L) (x : ℕ) : Prop :=
  ∃ q, ((Nfv.startUp D.host).portMap ((Nfv.startUp D.host).findPortId x .phy)).queueInfo = some q ∧
    (⟨q.rxq, q.txq⟩ : PortQueue) = configuredQueues D.opts x

/-- A worker process finds the queues of the port. -/
def WorkerRight (D : Started L) (P : Platform) (x : ℕ) : Prop :=
  Worker.getPortMaxQueues P .phy x =
    .ok (some (max (configuredQueues D.opts x).rxq (configuredQueues D.opts x).txq))

/-- The data of every port in the mask is attached to it. -/
def Attached (D : Started L) (P : Platform) : Prop :=
  StatusRight D ∧ ∀ x ∈ D.ports.id, NfvRight D x ∧ WorkerRight D P x

/-- The position of every port in the mask is its number. -/
def InOrder (id : List ℕ) : Prop := ∀ k x : ℕ, id[k]? = some x → x = k

/-- A process of the same build attached to the same memory zone. -/
structure SameZone (D : Started L) (P : Platform) : Prop where
  maxEthports : P.maxEthports = L.maxEthports
  queueInfo : P.queueInfo = D.ports.queueInfo

/-! ## A status with few packets fits -/

theorem length_text_le {p : PhyPort} (hid : p.id < 100) (heth : p.eth = []) (hrx : p.stats.rx < 10)
    (htx : p.stats.tx < 10) (hdrop : p.stats.txDrop < 10)
    (hq : p.nofQueues.rxq < 2 ^ 16 ∧ p.nofQueues.txq < 2 ^ 16) (hflow : p.flow = "[]") :
    p.text.length ≤ 249 := by
  have h₁ := length_uintText_le (k := 2) (by decide) hid
  have h₂ := length_uintText_le (k := 1) (by decide) hrx
  have h₃ := length_uintText_le (k := 1) (by decide) htx
  have h₄ := length_uintText_le (k := 1) (by decide) hdrop
  have h₅ := length_uintText_le (k := 5) (by decide) (show p.nofQueues.rxq < 10 ^ 5 by omega)
  have h₆ := length_uintText_le (k := 5) (by decide) (show p.nofQueues.txq < 10 ^ 5 by omega)
  unfold PhyPort.text
  rw [heth, hflow]
  simp only [List.length_append, String.length_toList, List.length_nil]
  have hlen : ∀ s ∈ ["\x7b\"id\":", ",\"eth\":\"", "\",\"rx\":", ",\"tx\":", ",\"tx_drop\":",
      ",\"nof_queues\":\x7b\"rx\":", "\x7d,\"flow\":", "[]", "\x7d"], s.length ≤ 20 := by decide
  simp only [List.forall_mem_cons] at hlen
  omega

section Small

variable {D : Started L} {x : ℕ}

theorem Started.getElem?_lt (D : Started L) {k : ℕ} (h : D.ports.id[k]? = some x) : x < D.nofPhy :=
  (parseAppArgs_ok D.accepted).2.1 x (List.mem_of_getElem? h)

theorem Started.nofPhy_le_maxEthports (D : Started L) : D.nofPhy ≤ L.maxEthports :=
  D.nofPhy_le.trans (Nfv.nbPorts_le D.host)

theorem fits_of_small (hL : L.maxEthports ≤ 100) {stats : ℕ → Counters}
    (h : ∀ i, (stats i).rx < 10 ∧ (stats i).tx < 10 ∧ (stats i).txDrop < 10) :
    Fits D.ports ⟨stats, fun _ => [], fun _ => [], fun _ => 0⟩ := by
  obtain ⟨hlen, hlt, hq⟩ := parseAppArgs_ok D.accepted
  refine ⟨fun _ _ s hs => (by cases hs),
    fun _ _ => (by decide : (flowArray []).length < flowBufSize),
    fun _ _ _ => (by decide : 0 + 2 < flowBufSize), ?_⟩
  show (phyPortsText _).length < _
  rcases D.ports.id.eq_nil_or_concat' with hid | ⟨_, _, hid⟩
  · rw [hid]
    exact (by decide : (phyPortsText []).length < priBufSizePhy)
  rw [length_phyPortsText (by simp [hid]), List.map_map]
  refine Nat.lt_of_le_of_lt
    (Nat.add_le_add_right (List.sum_le_card_nsmul _ 250 (List.forall_mem_map.mpr fun i hi => ?_)) 13) ?_
  · have hi := List.mem_range.mp hi
    have hget : D.ports.id[i]? = some (D.ports.id.getD i 0) := by
      rw [List.getD_eq_getElem?_getD, List.getElem?_eq_getElem hi, Option.getD_some]
    have hid := D.getElem?_lt hget
    have := D.nofPhy_le_maxEthports
    refine Nat.succ_le_succ (length_text_le ?_ rfl (h i).1 (h i).2.1 (h i).2.2 ?_ rfl)
    · show D.ports.id.getD i 0 < 100
      omega
    · show (D.ports.queueInfo i).rxq < _ ∧ (D.ports.queueInfo i).txq < _
      rw [hq i _ hget]
      exact keptQueues_lt ..
  · rw [List.length_map, List.length_range, priBufSizePhy, Nat.nsmul_eq_mul]
    omega

/-! ## The theorem -/

theorem InOrder.of_statusRight (hL : L.maxEthports ≤ 100) (h : StatusRight D) :
    InOrder D.ports.id := by
  intro k x hk
  by_contra hne
  have hx := D.getElem?_lt hk
  have henters : D.Enters .nfv x := by
    show ((Nfv.startUp D.host).portMap x).portType ≠ .undef
    rw [D.nfv_portMap hx]
    exact fun h => by cases h
  -- one packet through the port, which the element shows that reads another counter
  let bursts : List (Process × Burst) := [(.nfv, ⟨x, x, 1, 1, Nat.le_refl 1⟩)]
  have hbursts : ∀ b ∈ bursts, D.Enters b.1 b.2.inPort ∧ D.Enters b.1 b.2.outPort := by
    intro b hb
    rw [List.mem_singleton.mp hb]
    exact ⟨henters, henters⟩
  have hcount (i : ℕ) : D.counted bursts i = if x = i then ⟨1, 1, 0⟩ else ⟨0, 0, 0⟩ := by
    rw [D.counted_eq hbursts]
    show accumulated ([] ++ [_]) i = _
    rw [accumulated_append]
    by_cases hi : x = i
    · simp only [hi, if_true]
      rfl
    · simp only [hi, if_false]
      rfl
  have hfits : Fits D.ports ⟨D.counted bursts, fun _ => [], fun _ => [], fun _ => 0⟩ := by
    refine fits_of_small hL fun i => ?_
    rw [hcount]
    by_cases hi : x = i
    · rw [if_pos hi]
      decide
    · rw [if_neg hi]
      decide
  obtain ⟨shown, hshown, hright⟩ := h bursts (fun _ => []) (fun _ => []) (fun _ => 0) hbursts hfits
  rw [hfits.phyPortStatsJson] at hshown
  cases hshown
  obtain ⟨hklt, hkx⟩ := List.getElem?_eq_some_iff.mp hk
  have hmem : shownPort D.ports ⟨D.counted bursts, fun _ => [], fun _ => [], fun _ => 0⟩ k ∈
      (List.range D.ports.id.length).map (shownPort D.ports _) :=
    List.mem_map_of_mem (List.mem_range.mpr hklt)
  have hid : D.ports.id.getD k 0 = x := by
    rw [List.getD_eq_getElem?_getD, hk, Option.getD_some]
  have hstats := ((hright x (List.mem_of_getElem? hk)).2 _ hmem hid).2.1
  have hacc : accumulated (bursts.map Prod.snd) x = ⟨1, 1, 0⟩ := by
    rw [← D.counted_eq hbursts, hcount, if_pos rfl]
  have hzero : D.counted bursts k = ⟨0, 0, 0⟩ := by
    rw [hcount, if_neg hne]
  have heq : (⟨0, 0, 0⟩ : Counters) = ⟨1, 1, 0⟩ := hzero.symm.trans (hstats.trans hacc)
  exact absurd heq (by decide)

theorem keptQueues_of_statusRight (hL : L.maxEthports ≤ 100) (h : StatusRight D)
    (hx : x ∈ D.ports.id) : keptQueues D.opts x = configuredQueues D.opts x := by
  have hnone : ∀ b ∈ ([] : List (Process × Burst)),
      D.Enters b.1 b.2.inPort ∧ D.Enters b.1 b.2.outPort := fun b hb => by cases hb
  have hfits : Fits D.ports ⟨D.counted [], fun _ => [], fun _ => [], fun _ => 0⟩ :=
    fits_of_small hL fun i => (by decide : (0 < 10 ∧ 0 < 10 ∧ 0 < 10))
  obtain ⟨shown, hshown, hright⟩ := h [] (fun _ => []) (fun _ => []) (fun _ => 0) hnone hfits
  rw [hfits.phyPortStatsJson] at hshown
  cases hshown
  obtain ⟨⟨p, hp, hid⟩, hall⟩ := hright x hx
  have hqueues := (hall p hp hid).1
  obtain ⟨k, hk, rfl⟩ := List.mem_map.mp hp
  have hk := List.mem_range.mp hk
  have hget : D.ports.id[k]? = some x := by
    rw [← hid]
    show _ = some (D.ports.id.getD k 0)
    rw [List.getD_eq_getElem?_getD, List.getElem?_eq_getElem hk, Option.getD_some]
  rwa [← (parseAppArgs_ok D.accepted).2.2 k x hget]

theorem InOrder.queueInfo (h : InOrder D.ports.id) (hx : x ∈ D.ports.id) :
    x < D.ports.id.length ∧ D.ports.queueInfo x = keptQueues D.opts x := by
  obtain ⟨k, hk⟩ := List.mem_iff_getElem?.mp hx
  obtain rfl := h k x hk
  exact ⟨(List.getElem?_eq_some_iff.mp hk).1, (parseAppArgs_ok D.accepted).2.2 x x hk⟩

theorem InOrder.statusRight (h : InOrder D.ports.id)
    (hkept : ∀ x ∈ D.ports.id, keptQueues D.opts x = configuredQueues D.opts x) :
    StatusRight D := by
  intro bursts eth flowTexts stale hbursts hfits
  refine ⟨_, hfits.phyPortStatsJson, fun x hx => ?_⟩
  have hid {k : ℕ} (hk : k < D.ports.id.length) : D.ports.id.getD k 0 = k := by
    rw [List.getD_eq_getElem?_getD, List.getElem?_eq_getElem hk, Option.getD_some]
    exact h k _ (List.getElem?_eq_getElem hk)
  obtain ⟨hxlt, hxq⟩ := h.queueInfo hx
  refine ⟨⟨_, List.mem_map_of_mem (List.mem_range.mpr hxlt), hid hxlt⟩, fun p hp hpx => ?_⟩
  obtain ⟨k, hk, rfl⟩ := List.mem_map.mp hp
  have hkx : k = x := (hid (List.mem_range.mp hk)).symm.trans hpx
  subst hkx
  exact ⟨hxq.trans (hkept k hx), D.counted_eq hbursts k, rfl⟩

theorem InOrder.nfvRight (h : InOrder D.ports.id)
    (hkept : ∀ x ∈ D.ports.id, keptQueues D.opts x = configuredQueues D.opts x)
    (hx : x ∈ D.ports.id) : NfvRight D x := by
  have hphy := (parseAppArgs_ok D.accepted).2.1 x hx
  refine ⟨D.host.queueInfo x, ?_, ?_⟩
  · rw [D.nfv_findPortId hphy, D.nfv_portMap hphy]
  · rw [(D.queues x).1, (D.queues x).2, ← hkept x hx, ← (h.queueInfo hx).2]

theorem InOrder.workerRight (h : InOrder D.ports.id)
    (hkept : ∀ x ∈ D.ports.id, keptQueues D.opts x = configuredQueues D.opts x) {P : Platform}
    (hP : SameZone D P) (hx : x ∈ D.ports.id) : WorkerRight D P x := by
  have hphy := (parseAppArgs_ok D.accepted).2.1 x hx
  have hmax := D.nofPhy_le_maxEthports
  have hle := hP.maxEthports
  rw [WorkerRight, Worker.getPortMaxQueues, if_neg (by omega), if_neg (not_not_intro rfl),
    if_pos (by omega), hP.queueInfo, Int.toNat_natCast, (h.queueInfo hx).2, hkept x hx]
  show Except.ok (some (if (configuredQueues D.opts x).rxq > (configuredQueues D.opts x).txq then _
    else _)) = _
  congr 2
  split <;> omega

end Small

/-- A host with two physical ports. -/
def twoCards (q : ℕ → QueueInfo .default) : Host .default where
  dev i := if i < 2 then some (.phy, i) else none
  queueInfo := q
  dev_lt i h := by
    by_cases hi : i < 2
    · exact Nat.lt_of_lt_of_le hi (by decide)
    · rw [if_neg hi] at h
      cases h
  dev_ne_undef i n h := by
    split at h
    · cases h
      exact fun h => nomatch h
    · cases h

/-- Both ports in the mask, with two queues for the second. -/
def bothPorts : Started .default where
  opts := [.portmask "3", .nofRings "1",
    .portNum "1" ["rxq", "2", "txq", "2"]]
  nofPhy := 2
  ports := setNofQueues [0, 1] (Function.update (fun _ => ⟨0, 0⟩) 1 ⟨2, 2⟩)
  host := twoCards fun i => if i = 0 then ⟨1, 1, by decide, by decide⟩
    else if i = 1 then ⟨2, 2, by decide, by decide⟩ else ⟨0, 0, by decide, by decide⟩
  accepted := rfl
  phy i hi := ⟨i, if_pos hi⟩
  queues i := by
    match i with
    | 0 => exact ⟨rfl, rfl⟩
    | 1 => exact ⟨rfl, rfl⟩
    | i + 2 => exact ⟨rfl, rfl⟩

/-- The second port alone in the mask. -/
def secondPort : Started .default where
  opts := [.portmask "2", .nofRings "1"]
  nofPhy := 2
  ports := setNofQueues [1] fun _ => ⟨0, 0⟩
  host := twoCards fun i => if i = 0 then ⟨1, 1, by decide, by decide⟩
    else ⟨0, 0, by decide, by decide⟩
  accepted := rfl
  phy i hi := ⟨i, if_pos hi⟩
  queues i := by
    match i with
    | 0 => exact ⟨rfl, rfl⟩
    | i + 1 => exact ⟨rfl, rfl⟩

end SoftPatchPanel.Primary
