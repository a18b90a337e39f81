import SoftPatchPanel.Vf.Reportable

/-!
# The text of the status report

What `status` is answered with, as a JSON value (`infoJson`), and that the formatters
of the worker make a text that reads as this value (`appendInfoValue_eq`).

The formatters are followed from the inside out.  `Appends Q f vs` says of a function
that appends to a buffer that it does not fail and that, if `Q` holds, it appends
elements that read as `vs`.  All that `Q` is needed for are the names of the
components, which are copied as they are: whether or not they are plain, a text is made.
-/

namespace SoftPatchPanel.Vf

open Worker Shared

/-! ## Buffers -/

theorem plain_uintText (n : ℕ) : Json.Plain (uintText n) := by
  intro c hc
  have hdigit : c.isDigit = true := Nat.isDigit_of_mem_toDigits (by decide) (by decide) hc
  refine ⟨?_, ?_, ?_⟩
  · rintro rfl
    cases hdigit
  · rintro rfl
    cases hdigit
  · rw [Char.isDigit, Bool.and_eq_true, decide_eq_true_eq, decide_eq_true_eq] at hdigit
    have hle : (48 : ℕ) ≤ c.toNat := hdigit.1
    omega

theorem plain_intText (z : ℤ) : Json.Plain (intText z) := by
  unfold intText
  split
  · refine List.forall_mem_cons.mpr ⟨by decide, plain_uintText z.natAbs⟩
  · exact plain_uintText z.natAbs

/-- Whatever the buffer holds, the function appends something to it, which, if `Q` holds,
are elements that read as `vs`. -/
def Appends (Q : Prop) (f : CString → Except Fault CString) (vs : List Json) : Prop :=
  ∀ output, ∃ output', f output = .ok output' ∧
    (Q → ∀ us, Elements output us → Elements output' (us ++ vs))

variable {Q : Prop} {vs : List Json} {P : Platform} {m : MngData} {cap : PortCapability} {no q : ℕ}
  {r : PortRef} {name : CString} {type : PortType} {s : State} {f : CString → Except Fault CString}
  {e : ClsEntry} {x : CString × Json}

theorem Appends.foldlM {α : Type} {f : CString → α → Except Fault CString} {g : α → List Json}
    {l : List α} (h : ∀ a ∈ l, Appends Q (f · a) (g a)) :
    Appends Q (fun output => l.foldlM f output) (l.flatMap g) := by
  induction l with
  | nil =>
    intro output
    refine ⟨output, rfl, fun _ us hus => ?_⟩
    rwa [List.flatMap_nil, List.append_nil]
  | cons a l ih =>
    obtain ⟨hhead, htail⟩ := List.forall_mem_cons.mp h
    intro output
    obtain ⟨output₁, h₁, hread₁⟩ := hhead output
    obtain ⟨output₂, h₂, hread₂⟩ := ih htail output₁
    refine ⟨output₂, ?_, fun hQ us hus => ?_⟩
    · show (a :: l).foldlM f output = _
      rw [List.foldlM_cons]
      have h₁' : f output a = .ok output₁ := h₁
      rwa [h₁']
    · rw [List.flatMap_cons, ← List.append_assoc]
      exact hread₂ hQ _ (hread₁ hQ us hus)

/-- From the empty buffer. -/
theorem Appends.nil (h : Appends Q f vs) :
    ∃ output, f [] = .ok output ∧ (Q → Elements output vs) := by
  obtain ⟨output, hf, hread⟩ := h []
  exact ⟨output, hf, fun hQ => hread hQ [] elements_nil⟩

/-! ## Ports -/

/-- The number of queues that a port is shown with. -/
def shownQueues (P : Platform) (type : PortType) (no : ℕ) : ℕ :=
  if type = .phy then nofQueues P no else 1

/-- The word for the type of a port. -/
def portWord : PortRef → CString
  | .phy _ _ => "phy"
  | .vhost _ => "vhost"
  | .ring _ => "ring"

/-- The number of a port, with the queue if there are several. -/
def portNumber (P : Platform) : PortRef → CString
  | .phy no q => portNumberText (nofQueues P no) no q
  | .vhost no => intText no
  | .ring no => intText no

/-- **The resource UID of a port.** -/
def portUid (P : Platform) (r : PortRef) : CString := portWord r ++ ":" ++ portNumber P r

theorem getPortMaxQueues_eq (type : PortType) (hno : no < P.maxEthports) :
    getPortMaxQueues P type no = .ok (some (shownQueues P type no)) := by
  have hrange : ¬ ((no : ℤ) > P.maxEthports ∨ (no : ℤ) < 0) := by omega
  unfold shownQueues
  by_cases hphy : type = .phy
  · rw [if_pos hphy, hphy, getPortMaxQueues_phy hrange, if_neg (by omega)]
  · rw [if_neg hphy, getPortMaxQueues, if_neg hrange, if_pos hphy]

theorem plain_portNumberText (k : ℕ) (no q : ℤ) : Json.Plain (portNumberText k no q) := by
  unfold portNumberText
  split
  · exact plain_intText no
  · rw [Json.plain_append, Json.plain_append]
    exact ⟨⟨plain_intText no, by decide⟩, plain_intText q⟩

theorem plain_portNumber (P : Platform) (r : PortRef) : Json.Plain (portNumber P r) := by
  cases r with
  | phy no q => exact plain_portNumberText _ _ _
  | vhost no | ring no => exact plain_intText _

theorem plain_portUid (P : Platform) (r : PortRef) : Json.Plain (portUid P r) := by
  have hword : Json.Plain (portWord r) := by
    cases r with
    | phy => exact (by decide : Json.Plain "phy")
    | vhost => exact (by decide : Json.Plain "vhost")
    | ring => exact (by decide : Json.Plain "ring")
  rw [portUid, Json.plain_append, Json.plain_append]
  exact ⟨⟨hword, by decide⟩, plain_portNumber P r⟩

theorem length_portNumberText (k : ℕ) (hno : no < 100) (hq : q < 2 ^ 15) :
    (portNumberText k no q).length ≤ 11 := by
  have hno' : (intText no).length ≤ 2 := length_intText_le (by decide) hno
  have hq' : (intText q).length ≤ 5 := length_intText_le (by decide) (by omega)
  unfold portNumberText
  split
  · omega
  · rw [List.length_append, List.length_append]
    have hnq : " nq ".toList.length = 4 := rfl
    omega

/-- What it takes for a port to be in the table, by its type. -/
theorem inPlace_iff : InPlace P r ↔ match r with
    | .phy no q => no < P.maxEthports ∧ q < P.maxQueuesPerPort
    | .vhost no => no < P.maxEthports
    | .ring no => no < P.maxEthports := by
  unfold InPlace
  cases r with
  | phy no q =>
    show (if ((0 : ℤ) ≤ no ∧ (no : ℤ) < P.maxEthports) ∧ (0 : ℤ) ≤ q ∧ (q : ℤ) < P.maxQueuesPerPort
      then _ else _) = _ ↔ _
    split
    · rename_i h
      exact iff_of_true (by simp [PortRef.portIdx]) (by dsimp only; omega)
    · rename_i h
      exact iff_of_false (by simp) (by dsimp only; omega)
  | vhost no | ring no =>
    show (if (0 : ℤ) ≤ no ∧ (no : ℤ) < P.maxEthports then _ else _) = _ ↔ _
    split
    · rename_i h
      exact iff_of_true (by simp [PortRef.portIdx]) (by dsimp only; omega)
    · rename_i h
      exact iff_of_false (by simp) (by dsimp only; omega)

/-- The name of a port fits its buffer. -/
theorem sprintfTag_portUid (hP : HostFits P) (hr : InPlace P r) :
    sprintfTag (portUid P r) = .ok (portUid P r) := by
  have hmax := hP.ethports_le
  have hqmax := P.maxQueuesPerPort_lt
  have hsize : cmdTagAppendSize = 16 := rfl
  have hcolon : ":".toList.length = 1 := rfl
  refine if_neg ?_
  rw [portUid, List.length_append, List.length_append]
  have hplace := inPlace_iff.mp hr
  cases r with
  | phy no q =>
    have hno : no < 100 := by dsimp only at hplace; omega
    have hq : q < 2 ^ 15 := by dsimp only at hplace; omega
    have hlen := length_portNumberText (nofQueues P no) hno hq
    have hword : (portWord (.phy no q)).length = 3 := rfl
    show ¬ _ ≤ _ + _ + (portNumberText (nofQueues P no) no q).length
    omega
  | vhost no =>
    have hlen : (intText no).length ≤ 2 :=
      length_intText_le (by decide) (by dsimp only at hplace; omega)
    have hword : (portWord (.vhost no)).length = 5 := rfl
    show ¬ _ ≤ _ + _ + (intText no).length
    omega
  | ring no =>
    have hlen : (intText no).length ≤ 2 :=
      length_intText_le (by decide) (by dsimp only at hplace; omega)
    have hword : (portWord (.ring no)).length = 4 := rfl
    show ¬ _ ≤ _ + _ + (intText no).length
    omega

theorem sppwkPortUid_eq_sprintfTag (hno : r.portIdx.ifaceNo < P.maxEthports) :
    sppwkPortUid P r.portIdx = sprintfTag (portUid P r) := by
  unfold sppwkPortUid
  cases r with
  | phy no q | vhost no | ring no =>
    show (getPortMaxQueues P _ no >>= _) = _
    rw [getPortMaxQueues_eq _ (Int.ofNat_lt.mp hno)]
    rfl

theorem sppwkPortUid_eq (hP : HostFits P) (hr : InPlace P r) :
    sppwkPortUid P r.portIdx = .ok (portUid P r) := by
  have hplace := inPlace_iff.mp hr
  rw [sppwkPortUid_eq_sprintfTag, sprintfTag_portUid hP hr]
  cases r with
  | phy no q => exact Int.ofNat_lt.mpr hplace.1
  | vhost no | ring no => exact Int.ofNat_lt.mpr hplace

/-- The VLAN operation of a port. -/
def vlanJson (a : PortAttrs) : Json :=
  .obj [("operation", .str (portAbilityStat a.ops)), ("id", .num a.vlantag.vid 0),
    ("pcp", .num a.vlantag.pcp 0)]

/-- A port of a component: its name, and the operation in force for the direction. -/
def portJson (P : Platform) (m : MngData) (cap : PortCapability) (dir : PortDir) (r : PortRef) :
    Json :=
  .obj [("port", .str (portUid P r)),
    ("vlan", vlanJson (shownAttrs (cap.getPortAttrs (m.iface r).ethdev dir)))]

theorem members_vlanValue (a : PortAttrs) :
    Members (appendVlanValue [] a.ops a.vlantag.vid a.vlantag.pcp)
      [("operation", .str (portAbilityStat a.ops)), ("id", .num a.vlantag.vid 0),
        ("pcp", .num a.vlantag.pcp 0)] := by
  have hstat : Json.Plain (portAbilityStat a.ops) := by
    cases a.ops with
    | none => exact (by decide : Json.Plain "none")
    | addVlan => exact (by decide : Json.Plain "add")
    | delVlan => exact (by decide : Json.Plain "del")
  exact ((members_nil.str (by decide) hstat).int (by decide) _).int (by decide) _

/-- The port can be shown: it is in the table and has a device. -/
structure PortShown (P : Platform) (m : MngData) (r : PortRef) : Prop where
  place : InPlace P r
  nonneg : 0 ≤ (m.iface r).ethdevPortId
  lt : (m.iface r).ethdevPortId < P.maxEthports

theorem appends_portBlock (hP : HostFits P) (hr : PortShown P m r) (dir : PortDir) :
    Appends Q (fun output => appendPortBlock P m cap dir output r.portIdx)
      [portJson P m cap dir r] := by
  intro output
  have hplace : getSppwkPort P r.portIdx.ifaceType r.portIdx.ifaceNo r.portIdx.queueNo =
      .ok (some r) := hr.place
  have heth : getEthdevPortId P m r.portIdx = .ok (m.iface r).ethdevPortId := by
    unfold getEthdevPortId
    rw [hplace]
    rfl
  have hattrs : sppwkGetPortAttrs P cap (m.iface r).ethdevPortId dir =
      .ok (cap.getPortAttrs (m.iface r).ethdev dir) := if_pos ⟨hr.nonneg, hr.lt⟩
  refine ⟨appendJsonBlockBrackets output [] (appendVlanBlock "vlan".toList
    (appendJsonStrValue [] "port".toList (portUid P r))
    (cap.getPortAttrs (m.iface r).ethdev dir)), ?_, fun _ us hus => ?_⟩
  · show appendPortBlock P m cap dir output r.portIdx = _
    unfold appendPortBlock
    rw [sppwkPortUid_eq hP hr.place, heth]
    show (sppwkGetPortAttrs P cap (m.iface r).ethdevPortId dir >>= _) = _
    rw [hattrs]
    rfl
  have hport : Members (appendJsonStrValue [] "port".toList (portUid P r))
      [("port".toList, .str (portUid P r))] :=
    members_nil.str (by decide) (plain_portUid P r)
  have hvlan : Members (appendVlanBlock "vlan".toList
      (appendJsonStrValue [] "port".toList (portUid P r))
      (cap.getPortAttrs (m.iface r).ethdev dir))
      ([("port".toList, .str (portUid P r))] ++
        [("vlan".toList, vlanJson (shownAttrs (cap.getPortAttrs (m.iface r).ethdev dir)))]) :=
    hport.block (by decide : Json.Plain "vlan".toList) (by decide)
      (members_vlanValue (shownAttrs (cap.getPortAttrs (m.iface r).ethdev dir)))
  exact hus.block hvlan

/-- The list of ports of a component. -/
theorem appendPortArray_eq (hP : HostFits P) (cap : PortCapability) {refs : List PortRef}
    (hrefs : ∀ r ∈ refs, PortShown P m r) (dir : PortDir)
    (hname : Json.Plain name) (output : CString) :
    ∃ output', appendPortArray P m cap name output (refs.map PortRef.portIdx) dir = .ok output' ∧
      ∀ ms, Members output ms →
        Members output' (ms ++ [(name, .arr (refs.map (portJson P m cap dir)))]) := by
  have hall : Appends True (fun output => (refs.map PortRef.portIdx).foldlM
      (appendPortBlock P m cap dir) output) (refs.flatMap fun r => [portJson P m cap dir r]) := by
    have hrec := Appends.foldlM (Q := True) (f := fun output r =>
      appendPortBlock P m cap dir output r.portIdx) (g := fun r => [portJson P m cap dir r])
      fun r hr => appends_portBlock hP (hrefs r hr) dir
    simpa only [List.foldlM_map] using hrec
  obtain ⟨tmp, htmp, hread⟩ := hall.nil
  refine ⟨appendJsonArrayBrackets output name tmp, ?_, fun ms hms => ?_⟩
  · unfold appendPortArray
    have htmp' : (refs.map PortRef.portIdx).foldlM (appendPortBlock P m cap dir) [] = .ok tmp :=
      htmp
    rw [htmp']
    rfl
  · have hel := hread trivial
    rw [← List.map_eq_flatMap] at hel
    exact hms.array hname hel

/-! ## Components -/

/-- An lcore without components. -/
def unusedJson (l : ℕ) : Json := .obj [("core", .num l 0), ("type", .str typeNoneStr)]

/-- A component with the given ports. -/
def elementJson (P : Platform) (m : MngData) (cap : PortCapability) (l : ℕ) (c : CompInfo)
    (rx tx : List PortRef) : Json :=
  .obj [("core", .num l 0), ("name", .str c.name),
    ("type", .str (typeWord c.wkType)),
    ("rx_port", .arr (rx.map (portJson P m cap .rx))),
    ("tx_port", .arr (tx.map (portJson P m cap .tx)))]

theorem members_core (l : ℕ) :
    Members (appendJsonUintValue [] "core" l) [("core", .num l 0)] :=
  members_nil.uint (by decide) l

theorem appends_unused (l : ℕ) :
    Appends Q (fun output => appendCoreElementValue P m cap output ⟨l, [], typeNoneStr, [], []⟩)
      [unusedJson l] := by
  intro output
  refine ⟨appendJsonBlockBrackets output [] (appendJsonStrValue
    (appendJsonUintValue [] "core".toList l) "type".toList typeNoneStr), rfl, fun _ us hus => ?_⟩
  have htype : Members (appendJsonStrValue (appendJsonUintValue [] "core".toList l) "type".toList
      typeNoneStr) ([("core".toList, .num l 0)] ++ [("type".toList, .str typeNoneStr)]) :=
    (members_core l).str (by decide) (by decide)
  exact hus.block htype

theorem plain_typeWord (t : WorkerType) : Json.Plain (typeWord t) := by
  cases t with
  | cls => exact (by decide : Json.Plain "classifier")
  | mrg => exact (by decide : Json.Plain "merge")
  | none | fwd | mir => exact (by decide : Json.Plain "forward")

theorem typeWord_ne (t : WorkerType) : typeWord t ≠ typeNoneStr := by
  cases t with
  | cls => exact (by decide : "classifier" ≠ typeNoneStr)
  | mrg => exact (by decide : "merge" ≠ typeNoneStr)
  | none | fwd | mir => exact (by decide : "forward" ≠ typeNoneStr)

/-- **The entry of a component** is made whatever its name is, and reads as it should if
the name is plain. -/
theorem appends_element (hP : HostFits P) (l : ℕ) (c : CompInfo) {rx tx : List PortRef}
    (hports : ∀ r ∈ rx ++ tx, PortShown P m r) (hname : Q → Json.Plain c.name) :
    Appends Q (fun output => appendCoreElementValue P m cap output (elementOf l c rx tx))
      [elementJson P m cap l c rx tx] := by
  obtain ⟨hrxs, htxs⟩ := List.forall_mem_append.mp hports
  intro output
  obtain ⟨rxText, hrx, hrxread⟩ := appendPortArray_eq hP cap hrxs .rx
    (by decide : Json.Plain "rx_port") (appendJsonStrValue (appendJsonStrValue
      (appendJsonUintValue [] "core" l) "name" c.name) "type"
      (typeWord c.wkType))
  obtain ⟨txText, htx, htxread⟩ := appendPortArray_eq hP cap htxs .tx
    (by decide : Json.Plain "tx_port") rxText
  refine ⟨appendJsonBlockBrackets output [] txText, ?_, fun hQ us hus => ?_⟩
  · show appendCoreElementValue P m cap output (elementOf l c rx tx) = _
    unfold appendCoreElementValue
    refine (if_neg (typeWord_ne c.wkType)).trans ?_
    show (appendPortArray P m cap "rx_port" (appendJsonStrValue (appendJsonStrValue
      (appendJsonUintValue [] "core" l) "name" c.name) "type"
      (typeWord c.wkType)) (rx.map PortRef.portIdx) .rx >>= _) = _
    rw [hrx]
    show (appendPortArray P m cap "tx_port" rxText (tx.map PortRef.portIdx) .tx >>= _) = _
    rw [htx]
    rfl
  · have hnamed := ((members_core l).str (by decide : Json.Plain "name") (hname hQ)).str
      (by decide : Json.Plain "type") (plain_typeWord c.wkType)
    exact hus.block (htxread _ (hrxread _ hnamed))

/-- The status of a component is there, and its entry is appended. -/
def Written (P : Platform) (s : State) (Q : Prop) (o : Option CoreElement) (v : Json) : Prop :=
  ∃ e, o = some e ∧ Appends Q (fun output => appendCoreElementValue P s.mng s.cap output e) [v]

theorem iterateLcoreInfo_eq {s : State} {os : List (Option CoreElement)}
    (h : List.Forall₂ (Written P s Q) os vs) (output : CString) :
    ∃ output', iterateLcoreInfo P s os output = .ok (some output') ∧
      (Q → ∀ us, Elements output us → Elements output' (us ++ vs)) := by
  induction h generalizing output with
  | nil =>
    refine ⟨output, rfl, fun _ us hus => ?_⟩
    rwa [List.append_nil]
  | @cons o v os vs ho hos ih =>
    obtain ⟨e, rfl, happ⟩ := ho
    obtain ⟨output₁, h₁, hread₁⟩ := happ output
    obtain ⟨output₂, h₂, hread₂⟩ := ih output₁
    refine ⟨output₂, ?_, fun hQ us hus => ?_⟩
    · have h₁' : appendCoreElementValue P s.mng s.cap output e = .ok output₁ := h₁
      rwa [iterateLcoreInfo, h₁']
    · rw [← List.singleton_append, ← List.append_assoc]
      exact hread₂ hQ _ (hread₁ hQ us hus)

/-- What is shown of an lcore: the components it runs, in the order of its list. -/
def lcoreJson (s : State) (show₁ : ℕ → Json) (l : ℕ) : List Json :=
  if (s.mng.core l).ref.ids = [] then [unusedJson l] else (s.mng.core l).ref.ids.map show₁

theorem forall₂_flatMap {α β γ : Type} {R : β → γ → Prop} {f : α → List β} {g : α → List γ}
    {l : List α} (h : ∀ a ∈ l, List.Forall₂ R (f a) (g a)) :
    List.Forall₂ R (l.flatMap f) (l.flatMap g) := by
  induction l with
  | nil => exact List.Forall₂.nil
  | cons a l ih =>
    obtain ⟨hhead, htail⟩ := List.forall_mem_cons.mp h
    rw [List.flatMap_cons, List.flatMap_cons]
    exact List.rel_append hhead (ih htail)

/-! ## Interfaces -/

/-- The entry of the interface table for a port of the given type. -/
def ifaceRef (type : PortType) (no q : ℕ) : PortRef :=
  match type with
  | .phy => .phy no q
  | .vhost => .vhost no
  | _ => .ring no

/-- What is shown of a port: the queues that have a device. -/
def queuesJson (P : Platform) (m : MngData) (type : PortType) (no : ℕ) (qs : List ℕ) : List Json :=
  (qs.filter fun q : ℕ => 0 ≤ (m.iface (ifaceRef type no q)).ethdevPortId).map fun q : ℕ =>
    .str (portNumberText (shownQueues P type no) no q)

/-- The ports of a type that have a device, in the order of their numbers. -/
def interfaceJson (P : Platform) (m : MngData) (type : PortType) : List Json :=
  (List.range P.maxEthports).flatMap fun no =>
    queuesJson P m type no (List.range (shownQueues P type no))

theorem flatMap_queuesJson (m : MngData) (type : PortType) (no : ℕ) (qs : List ℕ) :
    (qs.flatMap fun q => queuesJson P m type no [q]) = queuesJson P m type no qs := by
  induction qs with
  | nil => rfl
  | cons q qs ih =>
    rw [List.flatMap_cons, ih, queuesJson, queuesJson, queuesJson, ← List.map_append,
      ← List.filter_append]
    rfl

theorem shownQueues_le (hP : HostFits P) (type : PortType) (hno : no < P.maxEthports) :
    type = .phy → shownQueues P type no ≤ P.maxQueuesPerPort := by
  rintro rfl
  exact hP.queues no hno

theorem getSppwkPort_ifaceRef (htype : type.Named)
    (hno : no < P.maxEthports) (hq : type = .phy → q < P.maxQueuesPerPort) :
    getSppwkPort P type no q = .ok (some (ifaceRef type no q)) := by
  unfold getSppwkPort
  rcases htype with rfl | rfl | rfl
  · have hq := hq rfl
    exact if_pos ⟨⟨by omega, by omega⟩, by omega, by omega⟩
  all_goals exact if_pos ⟨by omega, by omega⟩

theorem appends_interface (hP : HostFits P) (htype : type.Named)
    (hno : no < P.maxEthports) (hq : q < shownQueues P type no) :
    Appends Q (fun output => appendInterface P m type no (shownQueues P type no) output q)
      (queuesJson P m type no [q]) := by
  have hqueue : type = .phy → q < P.maxQueuesPerPort := fun h =>
    lt_of_lt_of_le hq (shownQueues_le hP type hno h)
  have hq15 : q < 2 ^ 15 := by
    by_cases hphy : type = .phy
    · exact lt_trans (hqueue hphy) P.maxQueuesPerPort_lt
    · rw [shownQueues, if_neg hphy] at hq
      omega
  have hlen := length_portNumberText (shownQueues P type no)
    (lt_of_lt_of_le hno hP.ethports_le) hq15
  intro output
  have hplace := getSppwkPort_ifaceRef htype hno hqueue
  have hstart : appendInterface P m type no (shownQueues P type no) output q =
      if (m.iface (ifaceRef type no q)).ethdevPortId < 0 then .ok output
      else sprintfTag (jsonAppendComma output ++
        quoted (portNumberText (shownQueues P type no) no q)) >>= fun tmp => .ok (output ++ tmp) := by
    unfold appendInterface
    rw [hplace]
    rfl
  show ∃ output', appendInterface P m type no (shownQueues P type no) output q = _ ∧ _
  rw [hstart]
  by_cases hdev : (m.iface (ifaceRef type no q)).ethdevPortId < 0
  · rw [if_pos hdev]
    refine ⟨output, rfl, fun _ us hus => ?_⟩
    rw [queuesJson, List.filter_cons_of_neg (by simpa using hdev)]
    rwa [List.filter_nil, List.map_nil, List.append_nil]
  have hfits : sprintfTag (jsonAppendComma output ++
      quoted (portNumberText (shownQueues P type no) no q)) =
        .ok (jsonAppendComma output ++ quoted (portNumberText (shownQueues P type no) no q)) := by
    refine if_neg ?_
    have hcomma : (jsonAppendComma output).length ≤ 2 := by
      unfold jsonAppendComma
      split
      · exact Nat.zero_le 2
      · exact le_refl 2
    have hsize : cmdTagAppendSize = 16 := rfl
    have hquote : ("\"".toList).length = 1 := rfl
    rw [List.length_append, quoted, List.length_append, List.length_append]
    omega
  rw [if_neg hdev, hfits]
  refine ⟨_, rfl, fun _ us hus => ?_⟩
  rw [queuesJson, List.filter_cons_of_pos (by simpa using hdev), ← List.append_assoc]
  exact hus.append (reads_quoted (plain_portNumberText _ _ _))

theorem appendInterfaceArray_eq (hP : HostFits P) (htype : type.Named)
    {ports : List ℕ} (hports : ∀ no ∈ ports, no < P.maxEthports) (output : CString) :
    ∃ output', appendInterfaceArray P m type ports output = .ok (some output') ∧
      ∀ us, Elements output us → Elements output' (us ++ ports.flatMap fun no =>
        queuesJson P m type no (List.range (shownQueues P type no))) := by
  induction ports generalizing output with
  | nil =>
    refine ⟨output, rfl, fun us hus => ?_⟩
    rwa [List.flatMap_nil, List.append_nil]
  | cons no ports ih =>
    obtain ⟨hno, htail⟩ := List.forall_mem_cons.mp hports
    have hport := Appends.foldlM (Q := True)
      (f := appendInterface P m type no (shownQueues P type no))
      (l := List.range (shownQueues P type no)) fun q hq =>
        appends_interface hP htype hno (List.mem_range.mp hq)
    obtain ⟨output₁, h₁, hread₁⟩ := hport output
    obtain ⟨output₂, h₂, hread₂⟩ := ih htail output₁
    refine ⟨output₂, ?_, fun us hus => ?_⟩
    · have h₁' : (List.range (shownQueues P type no)).foldlM
          (appendInterface P m type no (shownQueues P type no)) output = .ok output₁ := h₁
      rw [appendInterfaceArray, getPortMaxQueues_eq type hno]
      show ((List.range (shownQueues P type no)).foldlM
        (appendInterface P m type no (shownQueues P type no)) output >>= _) = _
      rwa [h₁']
    · have hfirst := hread₁ trivial us hus
      rw [flatMap_queuesJson] at hfirst
      rw [List.flatMap_cons, ← List.append_assoc]
      exact hread₂ _ hfirst

/-- **The list of the ports of a type.** -/
theorem addInterface_eq (hP : HostFits P)
    (hname : (name, type) ∈ [("phy".toList, PortType.phy), ("vhost".toList, .vhost),
      ("ring", .ring)]) :
    ∃ output, addInterface P m name [] = .ok (some output) ∧
      Members output [(name, .arr (interfaceJson P m type))] := by
  have hlookup : [("phy".toList, PortType.phy), ("vhost".toList, .vhost),
      ("ring", .ring)].lookup name = some type ∧ type.Named ∧ Json.Plain name := by
    simp only [List.mem_cons, List.not_mem_nil, or_false, Prod.mk.injEq] at hname
    rcases hname with ⟨rfl, rfl⟩ | ⟨rfl, rfl⟩ | ⟨rfl, rfl⟩
    · exact ⟨by decide, .inl rfl, by decide⟩
    · exact ⟨by decide, .inr (.inl rfl), by decide⟩
    · exact ⟨by decide, .inr (.inr rfl), by decide⟩
  obtain ⟨hlook, htype, hplain⟩ := hlookup
  obtain ⟨tmp, htmp, hread⟩ := appendInterfaceArray_eq (m := m) hP htype
    (fun no => List.mem_range.mp) []
  refine ⟨appendJsonArrayBrackets [] name tmp, ?_, ?_⟩
  · unfold addInterface
    rw [hlook]
    show (appendInterfaceArray P m type (List.range P.maxEthports) [] >>= _) = _
    rw [htmp]
    rfl
  · exact members_nil.array hplain (hread [] elements_nil)

/-! ## The classifier table -/

theorem macStr_spec (mac : Option MacAddr) :
    Json.Plain (macStr mac) ∧ (macStr mac).length ≤ 17 := by
  cases mac with
  | none => exact ⟨(by decide : Json.Plain "default"), (by decide : "default".toList.length ≤ 17)⟩
  | some mac =>
    obtain ⟨hplain, hlen⟩ : Json.Plain (etherFormatAddr mac) ∧ (etherFormatAddr mac).length = 17 :=
      rteEtherFormatAddr_spec rfl
    exact ⟨hplain, hlen.le⟩

/-- What an entry of the table is shown with. -/
def entryValue (e : ClsEntry) : CString :=
  clsValueStr (clsTypeOf e.vid) e.vid (macStr e.mac)

theorem entryValue_spec (hvid : e.vid < nofVlan) :
    Json.Plain (entryValue e) ∧ (entryValue e).length < strLenShort := by
  obtain ⟨hplain, hlen⟩ := macStr_spec e.mac
  have hshort : strLenShort = 32 := rfl
  have hvlan : nofVlan = 4096 := rfl
  unfold entryValue clsTypeOf
  split
  · exact ⟨hplain, by show (macStr e.mac).length < _; omega⟩
  have hdigits : (intText e.vid).length ≤ 4 := length_intText_le (by decide) (by omega)
  have hslash : "/".toList.length = 1 := rfl
  refine ⟨?_, ?_⟩
  · show Json.Plain (intText e.vid ++ "/" ++ macStr e.mac)
    rw [Json.plain_append, Json.plain_append]
    exact ⟨⟨plain_intText _, by decide⟩, hplain⟩
  · show (intText e.vid ++ "/" ++ macStr e.mac).length < _
    rw [List.length_append, List.length_append]
    omega

/-- The port with the given numbers. -/
def refOf (idx : PortIdx) : PortRef := ifaceRef idx.ifaceType idx.ifaceNo.toNat idx.queueNo.toNat

theorem refOf_portIdx (r : PortRef) : refOf r.portIdx = r := by
  cases r with
  | phy | vhost | ring => rfl

/-- An entry of the classifier table. -/
def entryJson (P : Platform) (e : ClsEntry) : Json :=
  .obj [("type", .str (clsTypeStr (clsTypeOf e.vid))), ("value", .str (entryValue e)),
    ("port", .str (portUid P (refOf e.port)))]

theorem appends_entry (hP : HostFits P) (hvid : e.vid < nofVlan)
    (hport : e.port = r.portIdx) (hr : InPlace P r) :
    Appends Q (fun output => appendClassifierElementValue P output e) [entryJson P e] := by
  obtain ⟨hplain, hlen⟩ := entryValue_spec hvid
  have htype : Json.Plain (clsTypeStr (clsTypeOf e.vid)) := by
    unfold clsTypeOf
    split
    · exact (by decide : Json.Plain "mac")
    · exact (by decide : Json.Plain "vlan")
  intro output
  refine ⟨appendJsonBlockBrackets output [] (appendJsonStrValue (appendJsonStrValue
    (appendJsonStrValue [] "type" (clsTypeStr (clsTypeOf e.vid))) "value"
    (entryValue e)) "port" (portUid P r)), ?_, fun _ us hus => ?_⟩
  · show appendClassifierElementValue P output e = _
    unfold appendClassifierElementValue
    rw [hport, sppwkPortUid_eq hP hr]
    exact if_neg (Nat.not_le.mpr hlen)
  have hmembers := ((members_nil.str (by decide : Json.Plain "type") htype).str
    (by decide : Json.Plain "value") hplain).str (by decide : Json.Plain "port")
    (plain_portUid P r)
  have hjson : entryJson P e = .obj [("type", .str (clsTypeStr (clsTypeOf e.vid))),
      ("value", .str (entryValue e)), ("port", .str (portUid P r))] := by
    rw [entryJson, hport, refOf_portIdx]
  rw [hjson]
  exact hus.block hmembers

/-! ## The report -/

theorem Appends.congr {vs' : List Json}
    (h : Appends Q f vs) (heq : Q → vs = vs') : Appends Q f vs' := by
  intro output
  obtain ⟨output', hf, hread⟩ := h output
  exact ⟨output', hf, fun hQ => heq hQ ▸ hread hQ⟩

/-- A member that is made in a buffer of its own. -/
theorem Members.append {output t : CString} {ms : List (CString × Json)}
    (h : Members output ms) (ht : Members t [x]) :
    Members (output ++ jsonAppendComma output ++ t) (ms ++ [x]) := by
  obtain ⟨ts, hts, hall⟩ := h
  obtain ⟨us, hus, hone⟩ := ht
  cases hone with
  | cons hx hnil =>
    cases hnil
    have htext := hus.1
    rw [List.intercalate_singleton] at htext
    rw [htext]
    exact ⟨_, hts.append hx.ne_nil, List.rel_append hall (List.Forall₂.cons hx List.Forall₂.nil)⟩

theorem not_members_nil : ¬ Members [] [x] := by
  rintro ⟨us, hus, hone⟩
  cases hone with
  | cons hx hnil =>
    cases hnil
    have htext := hus.1
    rw [List.intercalate_singleton] at htext
    exact hx.ne_nil htext.symm

/-- The formatter makes one member with this value. -/
def Makes (Q : Prop) (op : ResFormatterOps) (v : Json) : Prop :=
  ∃ t, op.2 op.1 [] = .ok (some t) ∧ (Q → Members t [(op.1, v)])

theorem appendResponseListValue_eq {ops : List ResFormatterOps}
    (h : List.Forall₂ (Makes Q) ops vs) (output : CString) :
    ∃ output', appendResponseListValue ops output = .ok (some output') ∧
      (Q → ∀ ms, Members output ms → Members output' (ms ++ (ops.map Prod.fst).zip vs)) := by
  induction h generalizing output with
  | nil =>
    refine ⟨output, rfl, fun _ ms hms => ?_⟩
    rwa [List.map_nil, List.zip_nil_left, List.append_nil]
  | @cons op v ops vs hop hops ih =>
    obtain ⟨name, func⟩ := op
    obtain ⟨t, ht, hread⟩ := hop
    have ht' : func name [] = .ok (some t) := ht
    cases t with
    | nil =>
      obtain ⟨output', h', -⟩ := ih output
      refine ⟨output', ?_, fun hQ => absurd (hread hQ) not_members_nil⟩
      rw [appendResponseListValue, ht']
      exact h'
    | cons c t =>
      obtain ⟨output', h', hread'⟩ := ih (output ++ jsonAppendComma output ++ c :: t)
      refine ⟨output', ?_, fun hQ ms hms => ?_⟩
      · rw [appendResponseListValue, ht']
        exact h'
      · have hmem := hread' hQ _ (Members.append hms (hread hQ))
        rwa [List.map_cons, List.zip_cons_cons, ← List.singleton_append, ← List.append_assoc]

/-- A component, with the ports it has. -/
def componentJson (P : Platform) (s : State) (l id : ℕ) : Json :=
  elementJson P s.mng s.cap l (s.mng.comp id) ((s.mng.comp id).ports .rx)
    ((s.mng.comp id).ports .tx)

/-- The components of all lcores. -/
def coreJson (P : Platform) (s : State) : List Json :=
  (slaves P).flatMap fun l => lcoreJson s (componentJson P s l) l

/-- **What `status` is answered with.** -/
def infoJson (P : Platform) (clientId : ℤ) (s : State) : Json :=
  .obj [("client-id", .num clientId 0),
    ("phy", .arr (interfaceJson P s.mng .phy)),
    ("vhost", .arr (interfaceJson P s.mng .vhost)),
    ("ring", .arr (interfaceJson P s.mng .ring)),
    ("master-lcore", .num P.master 0),
    ("core", .arr (coreJson P s)),
    ("classifier_table", .arr ((addClassifierTable P s.cls).map (entryJson P)))]

/-- The names of the components are plain, and no component is waiting for its flush. -/
def Legible (P : Platform) (s : State) : Prop :=
  ∀ id < P.maxLcore, (s.mng.comp id).wkType ≠ .none →
    Json.Plain (s.mng.comp id).name ∧ s.mng.changeComp id = false

section

variable (hP : HostFits P)
include hP

theorem written_component (h : Reportable P s) {id : ℕ} (hid : id < P.maxLcore)
    (hlive : (s.mng.comp id).wkType ≠ .none) (l : ℕ) :
    Written P s (Legible P s) (componentStatus s l id) (componentJson P s l id) := by
  obtain ⟨rx, tx, hs⟩ := h.shown id hid hlive
  refine ⟨elementOf l (s.mng.comp id) rx tx, hs.status l, ?_⟩
  have happ : Appends (Legible P s) (fun output => appendCoreElementValue P s.mng s.cap output
      (elementOf l (s.mng.comp id) rx tx))
      [elementJson P s.mng s.cap l (s.mng.comp id) rx tx] :=
    appends_element hP l (s.mng.comp id)
      (fun r hr => ⟨hs.place r hr, hs.device r hr, h.ports.ethdev r⟩)
      fun hleg => (hleg id hid hlive).1
  refine happ.congr fun hleg => ?_
  obtain ⟨hrx, htx⟩ := hs.current (hleg id hid hlive).2
  rw [componentJson, hrx, htx]

theorem written_lcore (h : Reportable P s) {l : ℕ} (hl : P.slave l = true) :
    List.Forall₂ (Written P s (Legible P s)) (lcoreElements s l)
      (lcoreJson s (componentJson P s l) l) := by
  have hused : (s.mng.core l).status ≠ .unused := by
    rw [h.answers.status l, startStatus, if_pos hl]
    decide
  have hcount := h.placed.counted l (s.mng.core l).refIndex
  have hlen : (s.mng.core l).ref.ids.length = (s.mng.core l).ref.num.toNat :=
    CountedArray.length_slice _ _
  have hnum : 0 ≤ (s.mng.core l).ref.num := hcount.1
  unfold lcoreElements lcoreJson
  simp only
  rw [if_neg hused]
  by_cases hzero : (s.mng.core l).ref.num = 0
  · rw [if_pos hzero, if_pos (List.length_eq_zero_iff.mp (by omega))]
    exact List.Forall₂.cons ⟨_, rfl, appends_unused l⟩ List.Forall₂.nil
  have hne : (s.mng.core l).ref.ids ≠ [] := by
    rw [← List.length_pos_iff]
    omega
  rw [if_neg hzero, if_neg hne, List.forall₂_map_left_iff, List.forall₂_map_right_iff,
    List.forall₂_same]
  intro id hid
  obtain ⟨hlt, hlive⟩ := h.placed.placed.live l id hid
  exact written_component hP h hlt hlive l

theorem makes_core (h : Reportable P s) :
    Makes (Legible P s) ("core", addCore P s) (.arr (coreJson P s)) := by
  have hall : List.Forall₂ (Written P s (Legible P s)) ((slaves P).flatMap (lcoreElements s))
      (coreJson P s) :=
    forall₂_flatMap fun l hl => written_lcore hP h (List.mem_filter.mp hl).2
  obtain ⟨tmp, htmp, hread⟩ := iterateLcoreInfo_eq hall []
  refine ⟨appendJsonArrayBrackets [] "core" tmp, ?_, fun hQ => ?_⟩
  · show addCore P s "core" [] = _
    unfold addCore
    rw [htmp]
    rfl
  · exact members_nil.array (by decide) (hread hQ [] elements_nil)

theorem makes_table (h : Reportable P s) :
    Makes (Legible P s) ("classifier_table", addClassifierTableText P s)
      (.arr ((addClassifierTable P s.cls).map (entryJson P))) := by
  have hentry : ∀ e ∈ addClassifierTable P s.cls,
      Appends (Legible P s) (fun output => appendClassifierElementValue P output e)
        [entryJson P e] := by
    intro e he
    simp only [addClassifierTable, List.mem_flatMap, List.mem_range] at he
    obtain ⟨id, hid, he⟩ := he
    split at he
    · rename_i hused
      rcases h.tables id hid with hzero | ⟨-, hports⟩
      · rw [hzero] at hused
        cases hused
      · obtain ⟨r, hr, hplace⟩ := hports e he
        obtain ⟨v, hv, mac, -, o, i, -, rfl⟩ := mem_entries_iff.mp he
        exact appends_entry hP hv hr hplace
    · exact absurd he List.not_mem_nil
  obtain ⟨tmp, htmp, hread⟩ := (Appends.foldlM hentry).nil
  refine ⟨appendJsonArrayBrackets [] "classifier_table" tmp, ?_, fun hQ => ?_⟩
  · show addClassifierTableText P s "classifier_table" [] = _
    have htmp' : (addClassifierTable P s.cls).foldlM (appendClassifierElementValue P) [] =
      .ok tmp := htmp
    unfold addClassifierTableText
    rw [htmp']
    rfl
  · have hel := hread hQ
    rw [← List.map_eq_flatMap] at hel
    exact members_nil.array (by decide) hel

theorem makes_interface
    (hname : (name, type) ∈ [("phy".toList, PortType.phy), ("vhost".toList, .vhost),
      ("ring", .ring)]) :
    Makes Q (name, addInterface P s.mng) (.arr (interfaceJson P s.mng type)) := by
  obtain ⟨output, hout, hread⟩ := addInterface_eq (m := s.mng) hP hname
  exact ⟨output, hout, fun _ => hread⟩

/-- **The answer to `status`** can be made in every reportable state, and reads as the
state if it is legible. -/
theorem appendInfoValue_eq (clientId : ℤ) (h : Reportable P s) (output : CString) :
    ∃ output', appendInfoValue P clientId s "info".toList output = .ok (some output') ∧
      (Legible P s → ∀ ms, Members output ms →
        Members output' (ms ++ [("info".toList, infoJson P clientId s)])) := by
  have hops : List.Forall₂ (Makes (Legible P s)) (getStatusOps P clientId s)
      [.num clientId 0, .arr (interfaceJson P s.mng .phy), .arr (interfaceJson P s.mng .vhost),
        .arr (interfaceJson P s.mng .ring), .num P.master 0, .arr (coreJson P s),
        .arr ((addClassifierTable P s.cls).map (entryJson P))] := by
    refine .cons ⟨_, rfl, fun _ =>
      members_nil.int (by decide : Json.Plain "client-id".toList) clientId⟩ ?_
    refine .cons (makes_interface hP (by decide)) ?_
    refine .cons (makes_interface hP (by decide)) ?_
    refine .cons (makes_interface hP (by decide)) ?_
    refine .cons ⟨_, rfl, fun _ =>
      members_nil.int (by decide : Json.Plain "master-lcore".toList) P.master⟩ ?_
    exact .cons (makes_core hP h) (.cons (makes_table hP h) .nil)
  obtain ⟨tmp, htmp, hread⟩ := appendResponseListValue_eq hops []
  refine ⟨appendJsonBlockBrackets output "info".toList tmp, ?_, fun hQ ms hms => ?_⟩
  · unfold appendInfoValue
    rw [htmp]
    rfl
  · exact hms.block (by decide) (by decide) (hread hQ [] members_nil)

end

end SoftPatchPanel.Vf
