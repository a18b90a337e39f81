import Mathlib.Data.Finset.Basic
import SoftPatchPanel.Foundation.LinkedList
import SoftPatchPanel.Shared.JsonHelper
import SoftPatchPanel.Worker.DataTypes

/-!
# The flow rules of `spp_primary`

`spp_primary` remembers the flow rules that it has created in the ports, to show them and
to destroy them by their numbers.  Each port has a linked list, latest rule first; a new
rule gets the number that follows the one at the head.  This file is `exec_flow_create`,
`exec_flow_destroy` and `exec_flow_flush` of `flow.c`, and what the lists have to do with
the rules that the driver has.

The driver is part of the model as the set of its live handles, which no code reads.  Each
call may fail, and memory may run out.  Where a rule has been created in the driver and
cannot be entered in the list, `exec_flow_create` destroys it again, and does not look at
whether that worked; if it did not, the driver keeps a rule that nobody knows about
(`not_mirrored_of_failed_undo`).  Apart from that the lists mirror the driver.

One more thing can go wrong.  The number of a new rule is printed with `%d` into eleven
characters, which is one too few for numbers from 2147483648 to 3294967296: they are
negative as an `int`.
-/

namespace SoftPatchPanel.Primary
namespace Flow

open Worker (Fault)
open Shared (intText)
open LinkedList
open Function (update update_self update_of_ne update_eq_self update_idem)

variable {R : Type}

/-! ## State -/

/-- `struct flow_rule`, without its pointer to the rule before. -/
structure FlowRule (R : Type) where
  ruleId : ℕ
  flowHandle : ℕ
  rule : R
  deriving DecidableEq, Repr

/-- `port_list`, and the handles that are live in the driver, port by port. -/
structure State (R : Type) where
  portList : Store ℕ ℕ (FlowRule R)
  live : ℕ → Finset ℕ

/-- The state at start-up. -/
def State.init : State R := ⟨⟨fun _ => none, fun _ => none⟩, fun _ => ∅⟩

/-- The handles of a port change. -/
def State.setLive (s : State R) (port : ℕ) (handles : Finset ℕ) : State R :=
  { s with live := Function.update s.live port handles }

/-! ## Responses -/

/-- `make_response`. -/
def makeResponse (result message : CString) (ruleId : Option CString) : CString :=
  let head := "\x7b\"result\": \"" ++ result ++ "\", \"message\": \"" ++ message
  match ruleId with
  | none => head ++ "\"\x7d"
  | some id => head ++ "\", \"rule_id\": \"" ++ id ++ "\"\x7d"

/-- `make_error_response`; the error is the text that is made of `rte_flow_error`. -/
def makeErrorResponse (message error : CString) (ruleId : Option CString) : CString :=
  makeResponse "error" ((message ++ error).take 511) ruleId

/-- `printf` with `%d` of a `uint32_t`. -/
def ruleIdText (ruleId : ℕ) : CString := intText (CString.intOfLong ruleId)

/-! ## Creating a rule -/

/-- What the driver and the allocator answer while a rule is created. -/
structure CreateEnv where
  /-- The handle that `rte_flow_create` returns. -/
  flow : Option ℕ
  /-- Whether the first call of `rte_flow_conv`, for the size, succeeds. -/
  convSize : Bool
  /-- The memory that `calloc` returns. -/
  calloc : Option ℕ
  /-- Whether the second call of `rte_flow_conv` succeeds. -/
  convRule : Bool
  /-- Whether `rte_flow_destroy` succeeds when the rule has to be taken back. -/
  undo : Bool
  error : CString
  deriving DecidableEq, Repr

/-- `create_flow_rule`: the memory of the new entry. -/
def createFlowRule (e : CreateEnv) : Option ℕ :=
  if e.convSize then
    match e.calloc with
    | none => none
    | some a => if e.convRule then some a else none
  else none

/-- The number of the next rule; `none` if there is none left. -/
def nextRuleId (s : State R) (port : ℕ) : Except Fault (Option ℕ) :=
  match s.portList.anchor port with
  | none => .ok (some 0)
  | some a =>
    match s.portList.cell a with
    | none => .error .undefined
    | some (head, _) => .ok (if 2 ^ 32 - 1 ≤ head.ruleId then none else some (head.ruleId + 1))

/-- The driver after an attempt to take a rule back. -/
def takeBack (s : State R) (port flow : ℕ) (undo : Bool) : State R :=
  if undo then s.setLive port ((s.live port).erase flow) else s

/-- `exec_flow_create`. -/
def execFlowCreate (s : State R) (port : ℕ) (rule : R) (e : CreateEnv) :
    Except Fault (CString × State R) :=
  match e.flow with
  | none => .ok (makeErrorResponse "Flow create error" e.error (some []), s)
  | some flow => do
    let s := s.setLive port (insert flow (s.live port))
    match ← nextRuleId s port with
    | none =>
      .ok (makeResponse "error" "Rule ID must be less than %u" (some []),
        takeBack s port flow e.undo)
    | some ruleId =>
      match createFlowRule e with
      | none =>
        .ok (makeErrorResponse "Flow create error" e.error (some []),
          takeBack s port flow e.undo)
      | some a =>
        -- `rule_id_str` has eleven characters
        if 11 ≤ (ruleIdText ruleId).length then .error .undefined
        else
          .ok (makeResponse "success"
              ("Flow rule #" ++ ruleIdText ruleId ++ " created")
              (some (ruleIdText ruleId)),
            { s with portList := s.portList.push port a ⟨ruleId, flow, rule⟩ })

/-! ## Destroying rules -/

/-- What the driver answers while rules are destroyed: whether the port is in use, and
whether the call succeeds. -/
structure DestroyEnv where
  used : Bool
  ok : Bool
  error : CString
  deriving DecidableEq, Repr

/-- A list has no more rules than there are numbers. -/
def maxRounds : ℕ := 2 ^ 32 + 1

/-- The response for a port that is not there. -/
def invalidPort (port : ℕ) : CString :=
  makeResponse "error" ("Invalid port " ++ intText port) none

/-- `exec_flow_destroy`. -/
def execFlowDestroy (s : State R) (port ruleId : ℕ) (e : DestroyEnv) :
    Except Fault (CString × State R) :=
  if e.used then
    match s.portList.find (fun r => r.ruleId = ruleId) maxRounds (.anchor port)
        (s.portList.anchor port) with
    | none => .error .undefined
    | some none =>
      .ok (makeResponse "error"
        ("Flow rule #" ++ ruleIdText ruleId ++ " not found") none, s)
    | some (some (link, a, r)) =>
      if e.ok then
        match s.portList.unlink link a with
        | none => .error .undefined
        | some portList =>
          .ok (makeResponse "success"
              ("Flow rule #" ++ ruleIdText ruleId ++ " destroyed") none,
            { s.setLive port ((s.live port).erase r.flowHandle) with portList := portList })
      else .ok (makeErrorResponse "Flow destroy error" e.error none, s)
  else .ok (invalidPort port, s)

/-- `exec_flow_flush`; the handles are invalid afterwards, whatever the call returns. -/
def execFlowFlush (s : State R) (port : ℕ) (e : DestroyEnv) : Except Fault (CString × State R) :=
  if e.used then
    let response :=
      if e.ok then makeResponse "success" "Flow rule all destroyed" none
      else makeErrorResponse "Flow destroy error" e.error none
    match Store.clear port maxRounds s.portList with
    | none => .error .undefined
    | some portList => .ok (response, { s.setLive port ∅ with portList := portList })
  else .ok (invalidPort port, s)

/-! ## Runs -/

/-- The calls, and what the environment answers. -/
inductive FlowCall (R : Type) where
  | create (port : ℕ) (rule : R) (e : CreateEnv)
  | destroy (port ruleId : ℕ) (e : DestroyEnv)
  | flush (port : ℕ) (e : DestroyEnv)

/-- The port that a call is about. -/
def FlowCall.port : FlowCall R → ℕ
  | .create port _ _ => port
  | .destroy port _ _ => port
  | .flush port _ => port

/-- `exec_flow`, apart from the validation of rules, which changes nothing. -/
def execFlow (s : State R) : FlowCall R → Except Fault (CString × State R)
  | .create port rule e => execFlowCreate s port rule e
  | .destroy port ruleId e => execFlowDestroy s port ruleId e
  | .flush port e => execFlowFlush s port e

/-- The environment keeps its side: a new rule has a handle of its own, and `calloc`
returns memory that is not in use. -/
def FlowCall.Sound (s : State R) : FlowCall R → Prop
  | .create port _ e => (∀ flow, e.flow = some flow → flow ∉ s.live port) ∧
      ∀ a, e.calloc = some a → s.portList.cell a = none
  | .destroy _ _ _ => True
  | .flush _ _ => True

/-- The calls in any order, on any ports. -/
def flowSystem (R : Type) : Transition.System (State R) (FlowCall R) where
  init s := s = .init
  step s c s' := c.Sound s ∧ ∃ response, execFlow s c = .ok (response, s')

/-! ## The lists and the driver -/

/-- The lists are in order: the numbers decrease, and every rule is live in the driver,
under a handle of its own. -/
structure Listed (s : State R) (L : ℕ → List (ℕ × FlowRule R)) : Prop where
  represents : Represents s.portList L
  decreasing : ∀ p, (L p).Pairwise fun x y => y.2.ruleId < x.2.ruleId
  bounded : ∀ p, ∀ x ∈ L p, x.2.ruleId < 2 ^ 32
  live : ∀ p, ∀ x ∈ L p, x.2.flowHandle ∈ s.live p
  distinct : ∀ p, ((L p).map fun x => x.2.flowHandle).Nodup

/-- Every rule that is live in the driver is in the list of its port. -/
def Complete (s : State R) (L : ℕ → List (ℕ × FlowRule R)) : Prop :=
  ∀ p, ∀ f ∈ s.live p, ∃ x ∈ L p, x.2.flowHandle = f

/-- A rule that has to be taken back is destroyed, and the number of a new rule is not
negative as an `int`. -/
def CallGuard (s : State R) : FlowCall R → Prop
  | .create port _ e =>
    (createFlowRule e = none ∨ nextRuleId s port = .ok none → e.undo = true) ∧
      ∀ id, nextRuleId s port = .ok (some id) → id < 2 ^ 31
  | .destroy _ _ _ => True
  | .flush _ _ => True

/-- What a call does to the lists. -/
structure Effect (s : State R) (L : ℕ → List (ℕ × FlowRule R)) (c : FlowCall R) (s' : State R)
    (L' : ℕ → List (ℕ × FlowRule R)) : Prop where
  listed : Listed s' L'
  others : ∀ p, p ≠ c.port → L' p = L p ∧ s'.live p = s.live p
  destroyed : ∀ port ruleId e, c = .destroy port ruleId e → L' port =
    if e.used = true ∧ e.ok = true then (L port).filter fun x => x.2.ruleId ≠ ruleId
    else L port
  complete : Complete s L → CallGuard s c → Complete s' L'

variable {s s' : State R} {L : ℕ → List (ℕ × FlowRule R)}

theorem listed_init : Listed (.init : State R) fun _ => [] where
  represents := represents_empty
  decreasing _ := List.Pairwise.nil
  bounded _ _ hx := absurd hx List.not_mem_nil
  live _ _ hx := absurd hx List.not_mem_nil
  distinct _ := List.nodup_nil

/-- A list ends within the rounds of the loops. -/
theorem Listed.length_lt (h : Listed s L) (p : ℕ) : (L p).length < maxRounds := by
  have hnodup : ((L p).map fun x => x.2.ruleId).Nodup := by
    refine List.pairwise_map.mpr ((h.decreasing p).imp fun hlt => ?_)
    exact Nat.ne_of_gt hlt
  have hsub : ((L p).map fun x => x.2.ruleId) ⊆ List.range (2 ^ 32) := by
    intro id hid
    obtain ⟨x, hx, rfl⟩ := List.mem_map.mp hid
    exact List.mem_range.mpr (h.bounded p x hx)
  have hle := (hnodup.subperm hsub).length_le
  rw [List.length_map, List.length_range] at hle
  exact Nat.lt_succ_of_le hle

/-- The number of the next rule is larger than all in the list. -/
theorem Listed.nextRuleId (h : Listed s L) (port : ℕ) :
    ∃ next, Flow.nextRuleId s port = .ok next ∧
      ∀ id, next = some id → id < 2 ^ 32 ∧ ∀ x ∈ L port, x.2.ruleId < id := by
  have hchain := h.represents.chain port
  have hdec := h.decreasing port
  have hbound := h.bounded port
  unfold Flow.nextRuleId
  cases hl : L port with
  | nil =>
    rw [hl] at hchain
    have hnone : s.portList.anchor port = none := hchain
    rw [hnone]
    refine ⟨some 0, rfl, ?_⟩
    rintro id ⟨⟩
    exact ⟨by decide, fun x hx => absurd hx List.not_mem_nil⟩
  | cons x l =>
    rw [hl] at hchain hdec hbound
    obtain ⟨a, r⟩ := x
    obtain ⟨hanchor, n, hcell, -⟩ := hchain
    obtain ⟨hhead, -⟩ := List.pairwise_cons.mp hdec
    simp only [hanchor, hcell]
    refine ⟨_, rfl, fun id hid => ?_⟩
    split at hid
    · cases hid
    cases hid
    have hr := hbound _ List.mem_cons_self
    refine ⟨by omega, fun y hy => ?_⟩
    rcases List.mem_cons.mp hy with rfl | hy
    · exact Nat.lt_succ_self _
    · exact Nat.lt_succ_of_lt (hhead y hy)

variable {c : FlowCall R}

/-- Nothing happens. -/
theorem Listed.effect_self (h : Listed s L)
    (hc : ∀ port ruleId e, c = .destroy port ruleId e → e.used = true → e.ok = true →
      ∀ x ∈ L port, x.2.ruleId ≠ ruleId) : Effect s L c s L where
  listed := h
  others _ _ := ⟨rfl, rfl⟩
  destroyed port ruleId e hcall := by
    split
    · rename_i hok
      refine (List.filter_eq_self.mpr fun x hx => ?_).symm
      exact decide_eq_true (hc port ruleId e hcall hok.1 hok.2 x hx)
    · rfl
  complete hcomplete _ := hcomplete

variable {port : ℕ} {handles : Finset ℕ}

/-- Only the driver's handles of one port change, and those of the rules stay live. -/
theorem Listed.setLive (h : Listed s L)
    (hlive : ∀ x ∈ L port, x.2.flowHandle ∈ handles) : Listed (s.setLive port handles) L := by
  refine ⟨h.represents, h.decreasing, h.bounded, fun p x hx => ?_, h.distinct⟩
  show x.2.flowHandle ∈ update s.live port handles p
  rcases eq_or_ne p port with rfl | hne
  · rw [update_self]
    exact hlive x hx
  · rw [update_of_ne hne]
    exact h.live p x hx

variable {l : List (ℕ × FlowRule R)}

/-- The list of one port is replaced, and its handles in the driver. -/
theorem Listed.replace (h : Listed s L) {portList : Store ℕ ℕ (FlowRule R)}
    (hrep : Represents portList (update L port l))
    (hdec : l.Pairwise fun x y => y.2.ruleId < x.2.ruleId)
    (hbound : ∀ x ∈ l, x.2.ruleId < 2 ^ 32) (hlive : ∀ x ∈ l, x.2.flowHandle ∈ handles)
    (hdistinct : (l.map fun x => x.2.flowHandle).Nodup) :
    Listed { s.setLive port handles with portList := portList } (update L port l) := by
  refine ⟨hrep, fun p => ?_, fun p => ?_, fun p => ?_, fun p => ?_⟩
  · rcases eq_or_ne p port with rfl | hne
    · rwa [update_self]
    · rw [update_of_ne hne]
      exact h.decreasing p
  · rcases eq_or_ne p port with rfl | hne
    · rwa [update_self]
    · rw [update_of_ne hne]
      exact h.bounded p
  · show ∀ x ∈ update L port l p,
      x.2.flowHandle ∈ update s.live port handles p
    rcases eq_or_ne p port with rfl | hne
    · rwa [update_self, update_self]
    · rw [update_of_ne hne, update_of_ne hne]
      exact h.live p
  · rcases eq_or_ne p port with rfl | hne
    · rwa [update_self]
    · rw [update_of_ne hne]
      exact h.distinct p

theorem Complete.replace (h : Complete s L) (portList : Store ℕ ℕ (FlowRule R))
    (hl : ∀ f ∈ handles, ∃ x ∈ l, x.2.flowHandle = f) :
    Complete { s.setLive port handles with portList := portList } (update L port l) := by
  intro p
  show ∀ f ∈ update s.live port handles p, ∃ x ∈ update L port l p, _
  rcases eq_or_ne p port with rfl | hne
  · rwa [update_self, update_self]
  · rw [update_of_ne hne, update_of_ne hne]
    exact h p

variable {rule : R} {e : CreateEnv}

/-- A rule is created in the driver and cannot be entered. -/
theorem Listed.takeBack (h : Listed s L) {flow : ℕ} (hfresh : flow ∉ s.live port)
    (hundo : CallGuard s (.create port rule e) → e.undo = true) :
    Effect s L (.create port rule e)
      (Flow.takeBack (s.setLive port (insert flow (s.live port))) port flow e.undo) L := by
  have hlisted : Listed (s.setLive port (insert flow (s.live port))) L :=
    h.setLive fun x hx => Finset.mem_insert_of_mem (h.live port x hx)
  have hinsert : (s.setLive port (insert flow (s.live port))).live port =
      insert flow (s.live port) := update_self _ _ _
  have herase : ((s.setLive port (insert flow (s.live port))).live port).erase flow =
      s.live port := by rw [hinsert, Finset.erase_insert hfresh]
  unfold Flow.takeBack
  rw [herase]
  refine ⟨?_, fun p hp => ⟨rfl, ?_⟩, fun _ _ _ hc => (by cases hc),
    fun hcomplete hguard => ?_⟩
  · split
    · exact hlisted.setLive fun x hx => h.live port x hx
    · exact hlisted
  · have hp : p ≠ port := hp
    split
    · exact (update_of_ne hp _ _).trans (update_of_ne hp _ _)
    · exact update_of_ne hp _ _
  rw [if_pos (hundo hguard)]
  intro p f hf
  refine hcomplete p f ?_
  have hf : f ∈ update (update s.live port _) port (s.live port) p := hf
  rwa [update_idem, update_eq_self] at hf

/-- A rule has been created in the driver and entered in the list of its port. -/
def State.enter (s : State R) (port a : ℕ) (r : FlowRule R) : State R :=
  { s.setLive port (insert r.flowHandle (s.live port)) with portList := s.portList.push port a r }

theorem Listed.enter (h : Listed s L) (port a : ℕ) (r : FlowRule R)
    (hmemory : s.portList.cell a = none) (hnew : r.flowHandle ∉ s.live port)
    (hbound : r.ruleId < 2 ^ 32) (hall : ∀ x ∈ L port, x.2.ruleId < r.ruleId) :
    Listed (s.enter port a r) (update L port ((a, r) :: L port)) := by
  refine h.replace (h.represents.push port hmemory _) ?_ ?_ ?_ ?_
  · exact List.pairwise_cons.mpr ⟨hall, h.decreasing port⟩
  · exact List.forall_mem_cons.mpr ⟨hbound, h.bounded port⟩
  · exact List.forall_mem_cons.mpr ⟨Finset.mem_insert_self _ _,
      fun x hx => Finset.mem_insert_of_mem (h.live port x hx)⟩
  rw [List.map_cons, List.nodup_cons]
  refine ⟨fun hin => ?_, h.distinct port⟩
  obtain ⟨x, hx, hxf⟩ := List.mem_map.mp hin
  have hxf : x.2.flowHandle = r.flowHandle := hxf
  exact hnew (hxf ▸ h.live port x hx)

/-- **Creating a rule.** -/
theorem Listed.create (h : Listed s L)
    {response : CString} (hsound : (FlowCall.create port rule e).Sound s)
    (hexec : execFlowCreate s port rule e = .ok (response, s')) :
    ∃ L', Effect s L (.create port rule e) s' L' := by
  obtain ⟨hfresh, hmemory⟩ := hsound
  obtain ⟨next, hnext, hlarge⟩ := h.nextRuleId port
  unfold execFlowCreate at hexec
  cases hflow : e.flow with
  | none =>
    rw [hflow] at hexec
    cases hexec
    exact ⟨L, h.effect_self fun _ _ _ hc => by cases hc⟩
  | some flow =>
    have hnew := hfresh flow hflow
    rw [hflow] at hexec
    obtain ⟨next', hnext', hexec⟩ := Transition.bind_eq_ok.mp hexec
    obtain rfl : next = next' := Except.ok.inj (hnext.symm.trans hnext')
    cases next with
    | none =>
      cases hexec
      exact ⟨L, h.takeBack hnew fun hguard => hguard.1 (.inr hnext)⟩
    | some ruleId =>
      obtain ⟨hbound, hall⟩ := hlarge ruleId rfl
      cases hcreate : createFlowRule e with
      | none =>
        simp only [hcreate] at hexec
        cases hexec
        exact ⟨L, h.takeBack hnew fun hguard => hguard.1 (.inl hcreate)⟩
      | some a =>
        have hcalloc : e.calloc = some a := by
          unfold createFlowRule at hcreate
          split at hcreate
          · split at hcreate
            · cases hcreate
            rename_i b hb
            split at hcreate
            · rw [hb, hcreate]
            · cases hcreate
          · cases hcreate
        simp only [hcreate] at hexec
        split at hexec
        · cases hexec
        cases hexec
        refine ⟨update L port ((a, ⟨ruleId, flow, rule⟩) :: L port), ?_,
          fun p hp => ⟨update_of_ne hp _ _, update_of_ne hp _ _⟩,
          fun _ _ _ hc => (by cases hc), fun hcomplete _ => ?_⟩
        · exact h.enter port a _ (hmemory a hcalloc) hnew hbound hall
        · refine hcomplete.replace _ fun f hf => ?_
          rcases Finset.mem_insert.mp hf with rfl | hf
          · exact ⟨_, List.mem_cons_self, rfl⟩
          · obtain ⟨x, hx, hxf⟩ := hcomplete port f hf
            exact ⟨x, List.mem_cons_of_mem _ hx, hxf⟩

/-- **Destroying a rule.** -/
theorem Listed.destroy (h : Listed s L) (port ruleId : ℕ) (e : DestroyEnv) :
    ∃ response s' L', execFlowDestroy s port ruleId e = .ok (response, s') ∧
      Effect s L (.destroy port ruleId e) s' L' := by
  have hself (hno : e.used = true → e.ok = true → ∀ x ∈ L port, x.2.ruleId ≠ ruleId) :
      Effect s L (.destroy port ruleId e) s L := by
    refine h.effect_self fun port' ruleId' e' hc => ?_
    cases hc
    exact hno
  unfold execFlowDestroy
  by_cases hused : e.used = true
  · rw [if_pos hused]
    rcases Store.find_spec (fun r => decide (r.ruleId = ruleId)) (k := .anchor port)
      (h.represents.chain port) (h.length_lt port) with
      ⟨hall, hfind⟩ | ⟨l₁, a, r, l₂, hl, hall, hr, hfind⟩
    · rw [hfind]
      exact ⟨_, s, L, rfl, hself fun _ _ x hx => of_decide_eq_false (hall x hx)⟩
    rw [hfind]
    by_cases hok : e.ok = true
    · obtain ⟨portList, hunlink, hrep⟩ := h.represents.unlink hl
      have hid : r.ruleId = ruleId := of_decide_eq_true hr
      have hdec := h.decreasing port
      have hdistinct := h.distinct port
      rw [hl] at hdec hdistinct
      have hsub : (l₁ ++ l₂).Sublist (l₁ ++ (a, r) :: l₂) :=
        (List.sublist_cons_self _ _).append_left l₁
      have hmem {x : ℕ × FlowRule R} (hx : x ∈ l₁ ++ l₂) : x ∈ L port := hl ▸ hsub.subset hx
      have hnodup : (((a, r) :: (l₁ ++ l₂)).map fun x => x.2.flowHandle).Nodup :=
        ((List.perm_middle.map _).nodup_iff).mp hdistinct
      rw [List.map_cons, List.nodup_cons] at hnodup
      simp only [hok, if_true, hunlink]
      refine ⟨_, _, update L port (l₁ ++ l₂), rfl, ?_,
        fun p hp => ⟨update_of_ne hp _ _, update_of_ne hp _ _⟩, ?_,
        fun hcomplete _ => ?_⟩
      · refine h.replace hrep (hdec.sublist hsub) (fun x hx => h.bounded port x (hmem hx)) ?_
          hnodup.2
        intro x hx
        refine Finset.mem_erase.mpr ⟨?_, h.live port x (hmem hx)⟩
        exact fun heq => hnodup.1 (heq ▸ List.mem_map_of_mem hx)
      · intro port' ruleId' e' hc
        cases hc
        -- the numbers behind the rule are smaller than its own
        obtain ⟨hlt, -⟩ := List.pairwise_cons.mp (List.pairwise_append.mp hdec).2.1
        have h₁ : l₁.filter (fun x => x.2.ruleId ≠ ruleId) = l₁ :=
          List.filter_eq_self.mpr fun x hx =>
            decide_eq_true (of_decide_eq_false (hall x hx))
        have h₂ : l₂.filter (fun x => x.2.ruleId ≠ ruleId) = l₂ :=
          List.filter_eq_self.mpr fun x hx =>
            decide_eq_true (Nat.ne_of_lt (hid ▸ hlt x hx))
        rw [update_self, if_pos ⟨hused, hok⟩, hl, List.filter_append,
          List.filter_cons_of_neg (by simpa using hid), h₁, h₂]
      · refine hcomplete.replace _ fun f hf => ?_
        obtain ⟨hne, hf⟩ := Finset.mem_erase.mp hf
        obtain ⟨x, hx, hxf⟩ := hcomplete port f hf
        rw [hl, List.mem_append, List.mem_cons] at hx
        rcases hx with hx | rfl | hx
        · exact ⟨x, List.mem_append_left _ hx, hxf⟩
        · exact absurd hxf.symm hne
        · exact ⟨x, List.mem_append_right _ hx, hxf⟩
    · simp only [hok]
      exact ⟨_, s, L, rfl, hself fun _ hok' => absurd hok' hok⟩
  · rw [if_neg hused]
    exact ⟨_, s, L, rfl, hself fun hused' => absurd hused' hused⟩

/-- **Flushing a port.** -/
theorem Listed.flush (h : Listed s L) (port : ℕ) (e : DestroyEnv) :
    ∃ response s' L', execFlowFlush s port e = .ok (response, s') ∧
      Effect s L (.flush port e) s' L' := by
  unfold execFlowFlush
  by_cases hused : e.used = true
  · rw [if_pos hused]
    obtain ⟨portList, hclear, hrep⟩ := h.represents.clear port (h.length_lt port)
    simp only [hclear]
    refine ⟨_, _, update L port [], rfl, ?_,
      fun p hp => ⟨update_of_ne hp _ _, update_of_ne hp _ _⟩,
      fun _ _ _ hc => (by cases hc), fun hcomplete _ => ?_⟩
    · exact h.replace hrep List.Pairwise.nil (fun x hx => absurd hx List.not_mem_nil)
        (fun x hx => absurd hx List.not_mem_nil) List.nodup_nil
    · exact hcomplete.replace _ fun f hf => absurd hf (Finset.notMem_empty f)
  · rw [if_neg hused]
    exact ⟨_, s, L, rfl, h.effect_self fun _ _ _ hc => by cases hc⟩

/-- Every call that returns has an effect on the lists as described. -/
theorem Listed.step (h : Listed s L) (hstep : (flowSystem R).step s c s') :
    ∃ L', Effect s L c s' L' := by
  obtain ⟨hsound, response, hexec⟩ := hstep
  cases c with
  | create port rule e => exact h.create hsound hexec
  | destroy port ruleId e =>
    obtain ⟨response', s'', L', hexec', heffect⟩ := h.destroy port ruleId e
    cases hexec.symm.trans hexec'
    exact ⟨L', heffect⟩
  | flush port e =>
    obtain ⟨response', s'', L', hexec', heffect⟩ := h.flush port e
    cases hexec.symm.trans hexec'
    exact ⟨L', heffect⟩

/-- A number that is not negative as an `int` has at most ten digits. -/
theorem length_ruleIdText {id : ℕ} (hid : id < 2 ^ 31) : (ruleIdText id).length < 11 := by
  have hint : CString.intOfLong id = id := by
    rw [CString.intOfLong]
    exact Int.bmod_eq_of_le (by omega) (by omega)
  rw [ruleIdText, hint]
  exact Nat.lt_succ_of_le (Shared.length_intText_le (by decide) (by omega))

/-- No call of the kind that the guard allows runs into a fault. -/
theorem Listed.returns (h : Listed s L) (hguard : CallGuard s c) :
    ∃ response s', execFlow s c = .ok (response, s') := by
  cases c with
  | create port rule e =>
    obtain ⟨next, hnext, -⟩ := h.nextRuleId port
    show ∃ response s', execFlowCreate s port rule e = .ok (response, s')
    unfold execFlowCreate
    cases e.flow with
    | none => exact ⟨_, _, rfl⟩
    | some flow =>
      have hnext' : Flow.nextRuleId (s.setLive port (insert flow (s.live port))) port =
        .ok next := hnext
      simp only [hnext', bind, Except.bind]
      cases next with
      | none => exact ⟨_, _, rfl⟩
      | some ruleId =>
        have hlen := length_ruleIdText (hguard.2 ruleId hnext)
        cases createFlowRule e with
        | none => exact ⟨_, _, rfl⟩
        | some a =>
          simp only [if_neg (Nat.not_le.mpr hlen)]
          exact ⟨_, _, rfl⟩
  | destroy port ruleId e =>
    obtain ⟨response, s', -, hexec, -⟩ := h.destroy port ruleId e
    exact ⟨response, s', hexec⟩
  | flush port e =>
    obtain ⟨response, s', -, hexec, -⟩ := h.flush port e
    exact ⟨response, s', hexec⟩

/-- **Flow rule bookkeeping.**  After every sequence of calls, on any ports, the lists are in
order, and every further call leaves the lists of other ports alone and, if it destroys
a rule, takes exactly that one out of its list.  If the calls meet the guard, the rules
in the lists are exactly those that are live in the driver, and every further call that
meets the guard returns. -/
theorem flowRules_mirror {h : List (State R × FlowCall R)} {s : State R}
    (hrun : Transition.Run (flowSystem R) h s) :
    ∃ L, Listed s L ∧
      (∀ c s', (flowSystem R).step s c s' → ∃ L', Effect s L c s' L') ∧
      (Transition.Guarded CallGuard h →
        (∀ p f, f ∈ s.live p ↔ f ∈ (L p).map fun x => x.2.flowHandle) ∧
        ∀ c, c.Sound s → CallGuard s c → ∃ s', (flowSystem R).step s c s') := by
  have hinv : ∃ L, Listed s L ∧ (Transition.Guarded CallGuard h → Complete s L) := by
    refine hrun.invariant_trace (G := fun _ _ => True) (J := fun h s => ∃ L, Listed s L ∧
      (Transition.Guarded CallGuard h → Complete s L)) ?_ ?_ fun _ _ => trivial
    · rintro _ rfl
      exact ⟨_, listed_init, fun _ p f hf => absurd hf (Finset.notMem_empty f)⟩
    · rintro h s c s' ⟨L, hlisted, hcomplete⟩ - hstep
      obtain ⟨L', heffect⟩ := hlisted.step hstep
      refine ⟨L', heffect.listed, fun hG => ?_⟩
      obtain ⟨hguard, hrest⟩ := Transition.guarded_cons.mp hG
      exact heffect.complete (hcomplete hrest) hguard
  obtain ⟨L, hlisted, hcomplete⟩ := hinv
  refine ⟨L, hlisted, fun c s' hstep => hlisted.step hstep, fun hG => ⟨fun p f => ?_, ?_⟩⟩
  · constructor
    · intro hf
      obtain ⟨x, hx, rfl⟩ := hcomplete hG p f hf
      exact List.mem_map_of_mem hx
    · intro hf
      obtain ⟨x, hx, rfl⟩ := List.mem_map.mp hf
      exact hlisted.live p x hx
  · intro c hsound hguard
    obtain ⟨response, s', hexec⟩ := hlisted.returns hguard
    exact ⟨s', hsound, response, hexec⟩

/-! ### Two rules in port 0 -/

/-- A call that creates a rule in port 0. -/
def createIn (flow a : ℕ) : FlowCall Unit := .create 0 () ⟨some flow, true, some a, true, true, []⟩

/-- Port 0 has the rule 7 of the driver. -/
def oneRule : State Unit := State.init.enter 0 100 ⟨0, 7, ()⟩

/-- The rule 8 has come in front of it. -/
def twoRules : State Unit := oneRule.enter 0 101 ⟨1, 8, ()⟩

theorem fresh_oneRule : 8 ∉ oneRule.live 0 := by
  show 8 ∉ update (fun _ => (∅ : Finset ℕ)) 0 (insert 7 ∅) 0
  simp

/-- The rules of `twoRules`. -/
def twoLists : ℕ → List (ℕ × FlowRule Unit) :=
  update (fun _ => []) 0 [(101, ⟨1, 8, ()⟩), (100, ⟨0, 7, ()⟩)]

theorem listed_twoRules : Listed twoRules twoLists := by
  have hone : Listed oneRule (update (fun _ => []) 0 [(100, ⟨0, 7, ()⟩)]) :=
    listed_init.enter 0 100 _ rfl (Finset.notMem_empty 7) (by decide) (by decide)
  have htwo := hone.enter 0 101 ⟨1, 8, ()⟩ rfl fresh_oneRule (by decide) (by decide)
  rwa [update_idem] at htwo

/-- Two rules are created, and the older one is destroyed. -/
theorem flowRules_mirror_two : ∃ h s, Transition.Run (flowSystem Unit) h s ∧
    h.map Prod.snd = [.destroy 0 0 ⟨true, true, []⟩, createIn 8 101, createIn 7 100] ∧
    s.live 0 = {8} ∧ ∃ L, Listed s L ∧
      ∀ p f, f ∈ s.live p ↔ f ∈ (L p).map fun x => x.2.flowHandle := by
  have hone : (flowSystem Unit).step .init (createIn 7 100) oneRule :=
    ⟨⟨fun flow _ => Finset.notMem_empty flow, fun a _ => rfl⟩, _, rfl⟩
  have htwo : (flowSystem Unit).step oneRule (createIn 8 101) twoRules := by
    refine ⟨⟨?_, ?_⟩, _, rfl⟩
    · rintro flow ⟨⟩
      exact fresh_oneRule
    · rintro a ⟨⟩
      rfl
  have hdestroy : (flowSystem Unit).step twoRules (.destroy 0 0 ⟨true, true, []⟩)
      { twoRules.setLive 0 ((twoRules.live 0).erase 7) with
        portList := (twoRules.portList.unlink (.next 101) 100).get rfl } :=
    ⟨trivial, _, rfl⟩
  have hguard : Transition.Guarded CallGuard [(twoRules, .destroy 0 0 ⟨true, true, []⟩),
      (oneRule, createIn 8 101), (.init, createIn 7 100)] := by
    have hcreate {s : State Unit} {id : ℕ} (hnext : nextRuleId s 0 = .ok (some id))
        (hid : id < 2 ^ 31) (flow a : ℕ) : CallGuard s (createIn flow a) :=
      ⟨fun _ => rfl, fun id' hid' => by rwa [← Option.some.inj (Except.ok.inj (hnext.symm.trans hid'))]⟩
    simp only [Transition.guarded_cons]
    exact ⟨trivial, hcreate rfl (by decide) _ _, hcreate rfl (by decide) _ _,
      Transition.guarded_nil _⟩
  have hrun : Transition.Run (flowSystem Unit) _ _ :=
    .snoc (.snoc (.snoc (.start rfl) hone) htwo) hdestroy
  obtain ⟨L, hlisted, -, hmirror⟩ := flowRules_mirror hrun
  exact ⟨_, _, hrun, rfl, by decide, L, hlisted, (hmirror hguard).1⟩

/-- **A rule that nobody knows about.**  The driver creates rule 7, the entry cannot be made,
and the attempt to destroy the rule fails: it stays in the driver, and the list is empty. -/
theorem not_mirrored_of_failed_undo :
    ∃ h s, Transition.Run (flowSystem Unit) h s ∧
      h.map Prod.snd = [.create 0 () ⟨some 7, false, none, false, false, []⟩] ∧
      7 ∈ s.live 0 ∧ s.portList.anchor 0 = none := by
  have hstep : (flowSystem Unit).step .init
      (.create 0 () ⟨some 7, false, none, false, false, []⟩)
      (State.init.setLive 0 (insert 7 ∅)) :=
    ⟨⟨fun flow _ => Finset.notMem_empty flow, fun a _ => rfl⟩, _, rfl⟩
  exact ⟨_, _, .snoc (.start rfl) hstep, rfl, Finset.mem_insert_self 7 ∅, rfl⟩

end Flow
end SoftPatchPanel.Primary
