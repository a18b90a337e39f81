import Mathlib.Algebra.BigOperators.Group.Finset.Basic
import SoftPatchPanel.Nfv.PatchPanel

/-!
# The basic forwarder

`forward` goes once over all queues of all ports.  From each queue that is in use and
patched it takes a burst of packets, hands them to the queue it is patched to, and frees
those that are not accepted.  It counts what it does in the statistics records that the two
ports point to.

The tables are those that `spp_nfv` can have after any commands, whatever they name: every
patched queue and the queue it leads to have had their functions set (`Wired`), so `forward`
never calls through a null pointer.  Packets are conserved, and so are the counts
(`forward_conserves_iff`), unless a packet comes from or goes to a port whose statistics
pointer is outside its array.  `client_stats` has 99 records, but a ring is given the record
with its own number and rings are numbered as far as the `-n` option of the primary allows.
-/

namespace SoftPatchPanel.Nfv

open Shared Shared.Tables Transition
open Worker (Fault Ret)

variable {L : Limits} {M : Type} {t t' : Tables L} {p q : ℕ × ℕ} {i queueId : ℕ} {host : Host L}

/-! ## `forward` -/

/-- `MAX_PKT_BURST`. -/
def maxPktBurst : ℕ := 32

/-- The statistics records: `default_stats` of an entry of `port_map`, and those of the
shared memory zone. -/
inductive StatsRecord where
  | own (i : ℕ)
  | port (i : ℕ)
  | client (i : ℤ)
  deriving DecidableEq, Repr

/-- The record that `port_map[i].stats` points to. -/
def record (t : Tables L) (i : ℕ) : Option StatsRecord :=
  match (t.portMap i).stats with
  | .null => none
  | .own => some (.own i)
  | .port k => some (.port k)
  | .client n => if 0 ≤ n ∧ n < maxClient then some (.client n) else none

/-- The fields of `struct stats` that `forward` adds to. -/
inductive Counter where
  | rx
  | tx
  | txDrop
  deriving DecidableEq, Repr

/-- The counters of all records. -/
abbrev Stats : Type := StatsRecord → Counter → UInt64

/-- `stats->c += n`. -/
def Stats.count (s : Stats) (r : StatsRecord) (c : Counter) (n : ℕ) : Stats := fun r' c' =>
  if r' = r ∧ c' = c then s r' c' + UInt64.ofNat n else s r' c'

/-- What is counted for a burst, in the records of the port it comes from and of the one it is
sent to. -/
def Stats.countBurst (s : Stats) (r r' : StatsRecord) (nbRx nbTx : ℕ) : Stats :=
  ((s.count r .rx nbRx).count r' .tx nbTx).count r' .txDrop (nbRx - nbTx)

/-- What the functions of the PMDs do in one call of `forward`: the packets that come from a
queue, and how many of them are accepted where they are sent to. -/
structure Bursts (M : Type) where
  rx : ℕ × ℕ → List M
  tx : ℕ × ℕ → ℕ
  rx_le : ∀ p, (rx p).length ≤ maxPktBurst
  tx_le : ∀ p, tx p ≤ (rx p).length

/-- A call that `forward` makes. -/
inductive Call (M : Type) where
  | rx (p : ℕ × ℕ) (bufs : List M)
  | tx (q : ℕ × ℕ) (bufs : List M) (sent : ℕ)
  | free (m : M)

/-- The calls so far and the counters. -/
structure Progress (M : Type) where
  calls : List (Call M)
  stats : Stats

/-- The body of the two loops. -/
def serve (t : Tables L) (B : Bursts M) (s : Progress M) (p : ℕ × ℕ) : Except Fault (Progress M) :=
  if ¬ t.Present p then .ok s
  else if ¬ t.Patched p then .ok s
  else if (t.fwd p).bursts = false then .error .undefined
  else if B.rx p = [] then .ok { s with calls := s.calls ++ [.rx p []] }
  else
    match record t p.1 with
    | none => .error .undefined
    | some r =>
      let q := t.target p
      if q.1 < L.maxEthports ∧ q.2 < L.maxQueuesPerPort ∧ (t.fwd q).bursts = true then
        match record t q.1 with
        | none => .error .undefined
        | some r' =>
          .ok
            { calls := s.calls ++
                (.rx p (B.rx p) :: .tx q (B.rx p) (B.tx p) :: ((B.rx p).drop (B.tx p)).map .free)
              stats := s.stats.countBurst r r' (B.rx p).length (B.tx p) }
      else .error .undefined

/-- `forward`. -/
def forward (t : Tables L) (B : Bursts M) (stats : Stats) : Except Fault (Progress M) :=
  t.scan.foldlM (serve t B) ⟨[], stats⟩

/-! ## What it is to do -/

/-- The packets that a call takes in. -/
def Call.received : Call M → List M
  | .rx _ bufs => bufs
  | _ => []

/-- The packets that a call gives away. -/
def Call.accepted : Call M → List M
  | .tx _ bufs sent => bufs.take sent
  | _ => []

/-- The packets that a call frees. -/
def Call.freed : Call M → List M
  | .free m => [m]
  | _ => []

/-- The calls for a queue that is served and the queue it is patched to. -/
def callsOf (B : Bursts M) (x : (ℕ × ℕ) × (ℕ × ℕ)) : List (Call M) :=
  if B.rx x.1 = [] then [.rx x.1 []]
  else .rx x.1 (B.rx x.1) :: .tx x.2 (B.rx x.1) (B.tx x.1) ::
    ((B.rx x.1).drop (B.tx x.1)).map .free

/-- The packets of a pair of queues that a counter counts. -/
def amount (B : Bursts M) (x : (ℕ × ℕ) × (ℕ × ℕ)) : Counter → ℕ
  | .rx => (B.rx x.1).length
  | .tx => B.tx x.1
  | .txDrop => (B.rx x.1).length - B.tx x.1

/-- The port that a counter is counted for. -/
def owner (x : (ℕ × ℕ) × (ℕ × ℕ)) : Counter → ℕ
  | .rx => x.1.1
  | _ => x.2.1

/-- The packets received from, sent to or dropped for the ports that own a record. -/
def increase (t : Tables L) (B : Bursts M) (r : StatsRecord) (c : Counter) : ℕ :=
  ((t.served.filter fun x => record t (owner x c) = some r).map fun x => amount B x c).sum

/-- One call of `forward` handles every packet once and counts it. -/
structure Conserved (t : Tables L) (B : Bursts M) (stats : Stats) (out : Progress M) : Prop where
  calls : out.calls = t.served.flatMap (callsOf B)
  once : (out.calls.flatMap Call.received).Perm
    (out.calls.flatMap Call.accepted ++ out.calls.flatMap Call.freed)
  stats : ∀ r c, out.stats r c = stats r c + UInt64.ofNat (increase t B r c)
  total : ∃ R : Finset StatsRecord, (∀ r ∉ R, ∀ c, increase t B r c = 0) ∧
    ∑ r ∈ R, increase t B r .rx = ∑ r ∈ R, (increase t B r .tx + increase t B r .txDrop)

/-- The statistics pointers that `forward` is going to use lead to records. -/
def Counted (t : Tables L) (B : Bursts M) : Prop :=
  ∀ x ∈ t.served, B.rx x.1 ≠ [] → (record t x.1.1).isSome ∧ (record t x.2.1).isSome

/-! ## Every patched queue is wired -/

/-- The functions of a patched queue and of the queue it leads to are set. -/
def Wired (t : Tables L) : Prop :=
  ∀ p, t.Patched p → (t.fwd p).bursts = true ∧ (t.target p).1 < L.maxEthports ∧
    (t.target p).2 < L.maxQueuesPerPort ∧ (t.fwd (t.target p)).bursts = true

/-- No patch is new and no function is taken away. -/
theorem Wired.mono (h : Wired t) (hout : ∀ p, t'.Patched p → t.Patched p ∧ t'.target p = t.target p)
    (hset : ∀ p, (t.fwd p).bursts = true → (t'.fwd p).bursts = true) : Wired t' := by
  intro p hp
  obtain ⟨hpatched, htarget⟩ := hout p hp
  obtain ⟨hb, h₁, h₂, hb'⟩ := h p hpatched
  rw [htarget]
  exact ⟨hset p hb, h₁, h₂, hset _ hb'⟩

/-- An entry is replaced by one that leads to the same place or nowhere. -/
theorem Wired.setFwd (h : Wired t) {e : FwdPort} (hout : e.outPortId = portReset ∨
      e.outPortId = (t.fwd p).outPortId ∧ e.outQueueId = (t.fwd p).outQueueId)
    (hset : e.bursts = (t.fwd p).bursts) : Wired (t.setFwd p e) := by
  refine h.mono (fun q hq => ?_) fun q hq => ?_
  · rcases eq_or_ne q p with rfl | hne
    · rw [Patched, setFwd_fwd_self] at hq
      rcases hout with hreset | ⟨h₁, h₂⟩
      · exact absurd hreset hq
      · refine ⟨by rwa [Patched, ← h₁], ?_⟩
        rw [target, setFwd_fwd_self, h₁, h₂]
        rfl
    · rw [Patched, setFwd_fwd_of_ne _ _ hne] at hq
      exact ⟨hq, by rw [target, setFwd_fwd_of_ne _ _ hne]; rfl⟩
  · rcases eq_or_ne q p with rfl | hne
    · rw [setFwd_fwd_self, hset, hq]
    · rwa [setFwd_fwd_of_ne _ _ hne]

theorem Wired.setPort (h : Wired t) (i : ℕ) (m : PortMap L) : Wired (t.setPort i m) := h

theorem Wired.unpatch (h : Wired t) (p : ℕ × ℕ) : Wired (t.unpatch p) :=
  h.setFwd (Or.inl rfl) rfl

theorem Wired.reset (h : Wired t) (p : ℕ × ℕ) :
    Wired (t.setFwd p (t.fwd p).reset) := h.setFwd (Or.inl rfl) rfl

/-- A patch sets the functions of both its queues. -/
theorem Wired.writePatch (h : Wired t) (h₁ : q.1 < L.maxEthports)
    (h₂ : q.2 < L.maxQueuesPerPort) : Wired (t.writePatch p q) := by
  have hset : ∀ x, (t.fwd x).bursts = true → ((t.writePatch p q).fwd x).bursts = true := by
    intro x hx
    rw [Tables.writePatch]
    rcases eq_or_ne x q with rfl | hq
    · rw [setFwd_fwd_self]
    rw [setFwd_fwd_of_ne _ _ hq]
    rcases eq_or_ne x p with rfl | hp
    · rw [setFwd_fwd_self]
    · rwa [setFwd_fwd_of_ne _ _ hp]
  have hq : ((t.writePatch p q).fwd q).bursts = true := by
    rw [Tables.writePatch, setFwd_fwd_self]
  intro x hx
  rcases eq_or_ne x p with rfl | hp
  · have htarget : (t.writePatch x q).target x = q := by
      rw [target, Tables.writePatch]
      rcases eq_or_ne x q with rfl | hne
      · rw [setFwd_fwd_self, setFwd_fwd_self]
      · rw [setFwd_fwd_of_ne _ _ hne, setFwd_fwd_self]
    have hx' : ((t.writePatch x q).fwd x).bursts = true := by
      rw [Tables.writePatch]
      rcases eq_or_ne x q with rfl | hne
      · rw [setFwd_fwd_self]
      · rw [setFwd_fwd_of_ne _ _ hne, setFwd_fwd_self]
    rw [htarget]
    exact ⟨hx', h₁, h₂, hq⟩
  -- the other entries lead where they led before
  have hout : ((t.writePatch p q).fwd x).outPortId = (t.fwd x).outPortId ∧
      ((t.writePatch p q).fwd x).outQueueId = (t.fwd x).outQueueId := by
    rw [Tables.writePatch]
    rcases eq_or_ne x q with rfl | hne
    · rw [setFwd_fwd_self, setFwd_fwd_of_ne _ _ hp]
      exact ⟨rfl, rfl⟩
    · rw [setFwd_fwd_of_ne _ _ hne, setFwd_fwd_of_ne _ _ hp]
      exact ⟨rfl, rfl⟩
  obtain ⟨hb, h₁', h₂', hb'⟩ := h x (by rw [Patched, ← hout.1]; exact hx)
  have htarget : (t.writePatch p q).target x = t.target x :=
    Prod.ext hout.1 hout.2
  rw [htarget]
  exact ⟨hset x hb, h₁', h₂', hset _ hb'⟩

/-- A command, with whatever it names: `add` comes with what the PMD returns. -/
inductive NfvCmd where
  | add (pmd : ℤ) (pType : CString) (pId : ℤ) (queueId : ℕ)
  | del (pType : CString) (pId : ℤ) (queueId : ℕ)
  | patch (inType : CString) (inId : ℤ) (inQueue : ℕ) (outType : CString) (outId : ℤ)
      (outQueue : ℕ)
  | reset

/-- What a command makes of the tables, whether it succeeds or not. -/
def runCmd (t : Tables L) : NfvCmd → Except Fault (Tables L)
  | .add pmd pType pId queueId => Prod.snd <$> doAdd t pmd pType pId queueId
  | .del pType pId queueId => Prod.snd <$> doDel t pType pId queueId
  | .patch inType inId inQueue outType outId outQueue =>
    Prod.snd <$> doPatch t inType inId inQueue outType outId outQueue
  | .reset => .ok t.forwardArrayReset

/-- `spp_nfv` from its start on. -/
def nfvSystem (host : Host L) : System (Tables L) NfvCmd where
  init t := t = startUp host
  step t cmd t' := runCmd t cmd = .ok t'

theorem wired_startUp (host : Host L) : Wired (startUp host) := by
  have hloop : ∀ (is : List ℕ) (acc : ℕ × Tables L), Wired acc.2 →
      Wired (is.foldl (enterPort host) acc).2 := by
    intro is
    induction is with
    | nil => exact fun acc h => h
    | cons i is ih =>
      refine fun acc h => ih _ ?_
      have henter : ∀ type id, Wired (enterAt host acc.2 i type id) := by
        intro type id
        refine h.mono (fun p hp => ?_) fun p hp => ?_
        · rw [Patched, enterAt] at hp
          rw [target, enterAt]
          dsimp only at hp ⊢
          split at hp
          · next hin => exact ⟨hp, by rw [if_pos hin]; rfl⟩
          · next hin => exact ⟨hp, by rw [if_neg hin]; rfl⟩
        · rw [enterAt]
          dsimp only
          split <;> exact hp
      unfold enterPort
      split
      · exact h
      split
      · exact henter _ _
      · split
        · exact h
        · exact henter _ _
  exact hloop _ _ fun p hp => absurd rfl hp

theorem addPatch_cases {r : ℤ}
    (h : t.addPatch p q = .ok (r, t')) : t' = t ∨ t.addPatch p q = .ok (0, t') := by
  have hcopy := h
  unfold addPatch at h
  obtain ⟨_ | _, hp, h⟩ := bind_eq_ok.mp h
  · cases h
    exact Or.inl rfl
  obtain ⟨_ | _, hq, h⟩ := bind_eq_ok.mp h
  · cases h
    exact Or.inl rfl
  obtain ⟨_ | _, -, h⟩ := bind_eq_ok.mp h
  · cases h
    exact Or.inl rfl
  obtain ⟨_ | _, -, h⟩ := bind_eq_ok.mp h
  · cases h
    exact Or.inl rfl
  · cases h
    exact Or.inr hcopy

theorem Wired.register (h : Wired t) {type : Worker.PortType}
    {pId : ℤ} (hr : Nfv.register t i type pId queueId = .ok t') : Wired t' := by
  unfold Nfv.register at hr
  split at hr
  · cases hr
    exact (h.setPort _ _).setFwd (Or.inr ⟨rfl, rfl⟩) rfl
  · cases hr

theorem Wired.unregister (h : Wired t) (hr : Nfv.unregister t i queueId = .ok t') : Wired t' := by
  obtain ⟨t₁, hremove, hinit⟩ := bind_eq_ok.mp hr
  obtain ⟨-, rfl⟩ := forwardArrayRemove_eq_ok hremove
  unfold portMapInitOne at hinit
  split at hinit
  · cases hinit
    refine Wired.setPort ?_ _ _
    split
    · exact h.reset _
    · exact (h.reset _).unpatch _
  · cases hinit

/-- Every command leaves the patched queues wired. -/
theorem Wired.runCmd (h : Wired t) {cmd : NfvCmd}
    (hrun : Nfv.runCmd t cmd = .ok t') : Wired t' := by
  cases cmd with
  | add pmd pType pId queueId =>
    obtain ⟨⟨ret, t₁⟩, hadd, rfl⟩ := map_eq_ok hrun
    unfold doAdd at hadd
    split at hadd
    · split at hadd
      · cases hadd
        exact h
      · obtain ⟨t₂, hreg, heq⟩ := map_eq_ok hadd
        cases heq
        exact h.register hreg
    · obtain ⟨t₂, hreg, heq⟩ := map_eq_ok hadd
      cases heq
      exact h.register hreg
  | del pType pId queueId =>
    obtain ⟨⟨ret, t₁⟩, hdel, rfl⟩ := map_eq_ok hrun
    unfold doDel at hdel
    split at hdel
    · split at hdel
      · cases hdel
        exact h
      · obtain ⟨t₂, hreg, heq⟩ := map_eq_ok hdel
        cases heq
        exact h.unregister hreg
    · obtain ⟨t₂, hreg, heq⟩ := map_eq_ok hdel
      cases heq
      exact h.unregister hreg
  | patch inType inId inQueue outType outId outQueue =>
    obtain ⟨⟨ret, t₁⟩, hpatch, rfl⟩ := map_eq_ok hrun
    rcases addPatch_cases hpatch with rfl | hzero
    · exact h
    · obtain ⟨-, ⟨h₁, -, h₂⟩, rfl⟩ := addPatch_eq_zero hzero
      exact h.writePatch h₁ (Nat.lt_of_lt_of_le h₂ (getPortMaxQueues_le _ _))
  | reset =>
    cases hrun
    refine h.mono (fun p hp => ?_) fun p hp => ?_
    · rw [Patched, forwardArrayReset_fwd] at hp
      rw [target, forwardArrayReset_fwd]
      split at hp
      · exact absurd rfl hp
      · next hout => exact ⟨hp, by rw [if_neg hout]; rfl⟩
    · rw [forwardArrayReset_fwd]
      split <;> exact hp

theorem wired_of_run {h : List (Tables L × NfvCmd)} (hrun : Run (nfvSystem host) h t) : Wired t :=
  hrun.invariant (G := fun _ _ => True) (I := Wired)
    (fun t ht => by rw [show t = startUp host from ht]; exact wired_startUp host)
    (fun _ _ _ hw _ hstep => Wired.runCmd hw hstep) fun _ _ => trivial

/-! ## One call of `forward` -/

/-- The progress made with one pair of queues. -/
def Progress.add (t : Tables L) (B : Bursts M) (s : Progress M) (x : (ℕ × ℕ) × (ℕ × ℕ)) :
    Progress M where
  calls := s.calls ++ callsOf B x
  stats r c := s.stats r c +
    if record t (owner x c) = some r then UInt64.ofNat (amount B x c) else 0

theorem serve_of_unserved (h : ¬ (t.Present p ∧ t.Patched p))
    (B : Bursts M) (s : Progress M) : serve t B s p = .ok s := by
  unfold serve
  by_cases hpres : t.Present p
  · rw [if_neg (not_not_intro hpres), if_pos fun hpat => h ⟨hpres, hpat⟩]
  · rw [if_pos hpres]

variable {B : Bursts M}

/-- A queue that is served, when the statistics pointers are good. -/
theorem serve_of_counted (hw : Wired t) (hserved : t.Present p ∧ t.Patched p)
    (hrec : B.rx p ≠ [] → (record t p.1).isSome ∧ (record t (t.target p).1).isSome)
    (s : Progress M) : serve t B s p = .ok (s.add t B (p, t.target p)) := by
  obtain ⟨hset, h₁, h₂, hset'⟩ := hw p hserved.2
  unfold serve
  rw [if_neg (not_not_intro hserved.1), if_neg (not_not_intro hserved.2), if_neg (by simp [hset])]
  by_cases hrx : B.rx p = []
  · have htx : B.tx p = 0 := by
      have := B.tx_le p
      rw [hrx] at this
      exact Nat.le_zero.mp this
    have hzero : ∀ c, amount B (p, t.target p) c = 0 := by
      intro c
      cases c <;> simp [amount, hrx, htx]
    have hnothing : UInt64.ofNat 0 = 0 := rfl
    rw [if_pos hrx]
    simp only [Progress.add, callsOf, hrx, if_true, hzero, hnothing, ite_self, UInt64.add_zero]
  · obtain ⟨hr, hr'⟩ := hrec hrx
    obtain ⟨r, hr⟩ := Option.isSome_iff_exists.mp hr
    obtain ⟨r', hr'⟩ := Option.isSome_iff_exists.mp hr'
    rw [if_neg hrx, hr]
    dsimp only
    rw [if_pos ⟨h₁, h₂, hset'⟩, hr']
    simp only [Progress.add, callsOf, if_neg hrx]
    congr 2
    funext k c
    cases c <;> simp [Stats.countBurst, Stats.count, owner, amount, hr, hr', eq_comm] <;> split <;> simp_all

/-- Without a record there is nothing the counts could be added to. -/
theorem serve_of_not_counted (hw : Wired t)
    (hserved : t.Present p ∧ t.Patched p) (hrx : B.rx p ≠ [])
    (hrec : ¬ ((record t p.1).isSome ∧ (record t (t.target p).1).isSome)) (s : Progress M) :
    serve t B s p = .error .undefined := by
  obtain ⟨hset, h₁, h₂, hset'⟩ := hw p hserved.2
  unfold serve
  rw [if_neg (not_not_intro hserved.1), if_neg (not_not_intro hserved.2), if_neg (by simp [hset]),
    if_neg hrx]
  cases hr : record t p.1 with
  | none => rfl
  | some r =>
    dsimp only
    rw [if_pos ⟨h₁, h₂, hset'⟩]
    cases hr' : record t (t.target p).1 with
    | none => rfl
    | some r' => exact absurd (by simp [hr, hr']) hrec

/-- The pairs of queues that are served among some queues. -/
def pairs (t : Tables L) (ps : List (ℕ × ℕ)) : List ((ℕ × ℕ) × (ℕ × ℕ)) :=
  (ps.filter fun p => t.Present p ∧ t.Patched p).map fun p => (p, t.target p)

theorem foldlM_serve (hw : Wired t) (ps : List (ℕ × ℕ)) :
    ∀ s : Progress M,
      (∀ x ∈ pairs t ps, B.rx x.1 ≠ [] → (record t x.1.1).isSome ∧ (record t x.2.1).isSome) →
      ps.foldlM (serve t B) s = .ok ((pairs t ps).foldl (Progress.add t B) s) := by
  induction ps with
  | nil => exact fun s _ => rfl
  | cons p ps ih =>
    intro s hrec
    rw [List.foldlM_cons]
    by_cases h : t.Present p ∧ t.Patched p
    · have hcons : pairs t (p :: ps) = (p, t.target p) :: pairs t ps := by
        simp only [pairs, List.filter_cons_of_pos (p := fun p => decide (t.Present p ∧ t.Patched p))
          (decide_eq_true h), List.map_cons]
      rw [hcons] at hrec ⊢
      rw [serve_of_counted hw h (hrec _ List.mem_cons_self)]
      exact ih _ fun x hx => hrec x (List.mem_cons_of_mem _ hx)
    · have hskip : pairs t (p :: ps) = pairs t ps := by
        simp only [pairs, List.filter_cons_of_neg (p := fun p => decide (t.Present p ∧ t.Patched p))
          (fun h' => h (of_decide_eq_true h'))]
      rw [hskip] at hrec ⊢
      rw [serve_of_unserved h]
      exact ih s hrec

theorem foldlM_serve_error (hw : Wired t) (ps : List (ℕ × ℕ)) :
    ∀ s : Progress M, (∃ p ∈ ps, (t.Present p ∧ t.Patched p) ∧ B.rx p ≠ [] ∧
      ¬ ((record t p.1).isSome ∧ (record t (t.target p).1).isSome)) →
      ps.foldlM (serve t B) s = .error .undefined := by
  induction ps with
  | nil =>
    rintro s ⟨p, hp, -⟩
    cases hp
  | cons p ps ih =>
    rintro s ⟨x, hx, hserved, hrx, hrec⟩
    rw [List.foldlM_cons]
    by_cases hbad : (t.Present p ∧ t.Patched p) ∧ B.rx p ≠ [] ∧
        ¬ ((record t p.1).isSome ∧ (record t (t.target p).1).isSome)
    · rw [serve_of_not_counted hw hbad.1 hbad.2.1 hbad.2.2]
      rfl
    have hx' : x ∈ ps := by
      rcases List.mem_cons.mp hx with rfl | hx'
      · exact absurd ⟨hserved, hrx, hrec⟩ hbad
      · exact hx'
    obtain ⟨s', hs'⟩ : ∃ s', serve t B s p = .ok s' := by
      by_cases h : t.Present p ∧ t.Patched p
      · refine ⟨_, serve_of_counted hw h (fun hne => ?_) s⟩
        by_contra hno
        exact hbad ⟨h, hne, hno⟩
      · exact ⟨s, serve_of_unserved h B s⟩
    rw [hs']
    exact ih s' ⟨x, hx', hserved, hrx, hrec⟩

theorem calls_foldl_add (t : Tables L) (B : Bursts M) (xs : List ((ℕ × ℕ) × (ℕ × ℕ))) :
    ∀ s : Progress M,
      (xs.foldl (Progress.add t B) s).calls = s.calls ++ xs.flatMap (callsOf B) := by
  induction xs with
  | nil => exact fun s => by simp
  | cons x xs ih =>
    intro s
    rw [List.foldl_cons, ih, List.flatMap_cons, ← List.append_assoc]
    rfl

theorem stats_foldl_add (t : Tables L) (B : Bursts M) (r : StatsRecord) (c : Counter)
    (xs : List ((ℕ × ℕ) × (ℕ × ℕ))) :
    ∀ s : Progress M, (xs.foldl (Progress.add t B) s).stats r c = s.stats r c + UInt64.ofNat
      ((xs.filter fun x => record t (owner x c) = some r).map fun x => amount B x c).sum := by
  induction xs with
  | nil => exact fun s => (UInt64.add_zero _).symm
  | cons x xs ih =>
    intro s
    rw [List.foldl_cons, ih, List.filter_cons]
    simp only [Progress.add, decide_eq_true_eq]
    split
    · rw [List.map_cons, List.sum_cons, UInt64.ofNat_add, UInt64.add_assoc]
    · rw [UInt64.add_zero]

/-- The packets of one pair of queues: the first ones are accepted and the others freed. -/
theorem callsOf_once (B : Bursts M) (x : (ℕ × ℕ) × (ℕ × ℕ)) :
    (callsOf B x).flatMap Call.received = B.rx x.1 ∧
    (callsOf B x).flatMap Call.accepted = (B.rx x.1).take (B.tx x.1) ∧
    (callsOf B x).flatMap Call.freed = (B.rx x.1).drop (B.tx x.1) := by
  have hfree : ∀ ms : List M, (ms.map Call.free).flatMap Call.received = [] ∧
      (ms.map Call.free).flatMap Call.accepted = [] ∧
      (ms.map Call.free).flatMap Call.freed = ms := by
    intro ms
    induction ms with
    | nil => exact ⟨rfl, rfl, rfl⟩
    | cons m ms ih => exact ⟨ih.1, ih.2.1, congrArg (m :: ·) ih.2.2⟩
  obtain ⟨h₁, h₂, h₃⟩ := hfree ((B.rx x.1).drop (B.tx x.1))
  unfold callsOf
  split
  · next h => simp [h, Call.received, Call.accepted, Call.freed]
  · simp only [List.flatMap_cons, h₁, h₂, h₃, Call.received, Call.accepted, Call.freed,
      List.append_nil, List.nil_append, and_self]

/-- The sum over the fibres of a map is the sum. -/
theorem sum_fibres {α ρ : Type} [DecidableEq ρ] (R : Finset ρ) (f : α → Option ρ) (g : α → ℕ)
    (l : List α) (h : ∀ x ∈ l, g x ≠ 0 → ∃ r ∈ R, f x = some r) :
    ∑ r ∈ R, ((l.filter fun x => f x = some r).map g).sum = (l.map g).sum := by
  induction l with
  | nil => simp
  | cons x l ih =>
    have hhead : ∑ r ∈ R, (if f x = some r then g x else 0) = g x := by
      by_cases hx : g x = 0
      · simp [hx]
      · obtain ⟨r, hr, hfx⟩ := h x List.mem_cons_self hx
        rw [Finset.sum_eq_single_of_mem r hr fun k _ hne => if_neg fun hk =>
          hne (Option.some.inj (hk.symm.trans hfx)), if_pos hfx]
    have hsplit : ∀ r, (((x :: l).filter fun x => f x = some r).map g).sum =
        (if f x = some r then g x else 0) + ((l.filter fun x => f x = some r).map g).sum := by
      intro r
      rw [List.filter_cons]
      by_cases hr : f x = some r <;> simp [hr]
    simp only [hsplit, Finset.sum_add_distrib, hhead, List.map_cons, List.sum_cons,
      ih fun y hy => h y (List.mem_cons_of_mem _ hy)]

/-- The records that a call of `forward` adds to. -/
def records (t : Tables L) : Finset StatsRecord :=
  (t.served.flatMap fun x => (record t x.1.1).toList ++ (record t x.2.1).toList).toFinset

theorem mem_records {x : (ℕ × ℕ) × (ℕ × ℕ)} (hx : x ∈ t.served) {c : Counter}
    {r : StatsRecord} (hr : record t (owner x c) = some r) : r ∈ records t := by
  rw [records, List.mem_toFinset, List.mem_flatMap]
  refine ⟨x, hx, ?_⟩
  cases c <;> simp [owner] at hr <;> simp [hr]

theorem sum_increase (hcounted : Counted t B) (c : Counter) :
    ∑ r ∈ records t, increase t B r c = (t.served.map fun x => amount B x c).sum := by
  refine sum_fibres _ _ _ _ fun x hx hne => ?_
  have hrx : B.rx x.1 ≠ [] := by
    intro hnil
    have := B.tx_le x.1
    cases c <;> simp_all [amount]
  obtain ⟨h₁, h₂⟩ := hcounted x hx hrx
  obtain ⟨r, hr⟩ : ∃ r, record t (owner x c) = some r := by
    cases c
    · exact Option.isSome_iff_exists.mp h₁
    · exact Option.isSome_iff_exists.mp h₂
    · exact Option.isSome_iff_exists.mp h₂
  exact ⟨r, mem_records hx hr, hr⟩

theorem conserved_of_counted (hw : Wired t) (hcounted : Counted t B) (stats : Stats) :
    ∃ out, forward t B stats = .ok out ∧ Conserved t B stats out := by
  refine ⟨_, foldlM_serve hw t.scan ⟨[], stats⟩ hcounted, ?_⟩
  have hcalls := calls_foldl_add t B (pairs t t.scan) ⟨[], stats⟩
  rw [List.nil_append] at hcalls
  refine ⟨hcalls, ?_, fun r c => stats_foldl_add t B r c _ _, records t, ?_, ?_⟩
  · rw [hcalls]
    simp only [List.flatMap_assoc, (callsOf_once B _).1, (callsOf_once B _).2.1,
      (callsOf_once B _).2.2]
    refine List.Perm.trans ?_ (List.flatMap_append_perm _ _ _).symm
    simp only [List.take_append_drop, List.Perm.refl]
  · intro r hr c
    have hnone : (t.served.filter fun x => record t (owner x c) = some r) = [] :=
      List.filter_eq_nil_iff.mpr fun x hx h => hr (mem_records hx (of_decide_eq_true h))
    rw [increase, hnone]
    rfl
  rw [Finset.sum_add_distrib, sum_increase hcounted, sum_increase hcounted,
    sum_increase hcounted, ← List.sum_map_add]
  refine congrArg List.sum (List.map_congr_left fun x _ => ?_)
  have := B.tx_le x.1
  simp only [amount]
  omega

/-- **The basic forwarder conserves packets and counts**: after any commands of `spp_nfv`,
one call of `forward` handles every packet it receives exactly once and counts it, if and
only if the ports it moves packets between have statistics records. -/
theorem forward_conserves_iff {host : Host L} {h : List (Tables L × NfvCmd)} {t : Tables L}
    (hrun : Run (nfvSystem host) h t) (B : Bursts M) (stats : Stats) :
    (∃ out, forward t B stats = .ok out ∧ Conserved t B stats out) ↔ Counted t B := by
  have hw := wired_of_run hrun
  refine ⟨fun ⟨out, hok, _⟩ => ?_, fun hcounted => conserved_of_counted hw hcounted stats⟩
  by_contra hbad
  simp only [Counted, not_forall] at hbad
  obtain ⟨x, hx, hrx, hrec⟩ := hbad
  obtain ⟨p, hp, rfl⟩ := List.mem_map.mp hx
  obtain ⟨hscan, hserved⟩ := List.mem_filter.mp hp
  rw [forward, foldlM_serve_error hw t.scan _ ⟨p, hscan, of_decide_eq_true hserved, hrx, hrec⟩]
    at hok
  cases hok

/-! ## Two rings -/

theorem one_le_queues : 1 ≤ Limits.default.maxQueuesPerPort := by decide

/-- No port. -/
def noDevice : ℕ → Option (Worker.PortType × ℤ) := fun _ => none

theorem noDevice_lt (i : ℕ) (h : (noDevice i).isSome) : i < Limits.default.maxEthports := by cases h

theorem noDevice_ne_undef (i : ℕ) (n : Worker.PortType × ℤ) (h : noDevice i = some n) :
    n.1 ≠ .undef := by cases h

/-- A process that is started when there is no port. -/
def emptyHost : Host Limits.default where
  dev := noDevice
  queueInfo _ := ⟨1, 1, one_le_queues, one_le_queues⟩
  dev_lt := noDevice_lt
  dev_ne_undef := noDevice_ne_undef

/-- One packet comes from ethdev 0 and is accepted. -/
def oneBurst : Bursts Unit where
  rx p := if p = (0, 0) then [()] else []
  tx p := if p = (0, 0) then 1 else 0
  rx_le p := by split <;> decide
  tx_le p := by split <;> decide

/-- `add ring:0`, `add ring:N` and `patch ring:0 ring:N`. -/
def joinRings (n : ℤ) : List NfvCmd :=
  [.add 0 "ring" 0 0, .add 1 "ring" n 0, .patch "ring" 0 0 "ring" n 0]

theorem run_of_foldlM {cmds : List NfvCmd} :
    cmds.foldlM runCmd (startUp host) = .ok t → ∃ h, Run (nfvSystem host) h t := by
  suffices hgen : ∀ (cmds : List NfvCmd) {h : List (Tables L × NfvCmd)} {s : Tables L},
      Run (nfvSystem host) h s → cmds.foldlM runCmd s = .ok t → ∃ h, Run (nfvSystem host) h t from
    hgen cmds (.start rfl)
  intro cmds
  induction cmds with
  | nil =>
    intro h s hrun heq
    cases heq
    exact ⟨h, hrun⟩
  | cons cmd cmds ih =>
    intro h s hrun heq
    rw [List.foldlM_cons] at heq
    obtain ⟨s', hstep, hrest⟩ := bind_eq_ok.mp heq
    exact ih (hrun.snoc hstep) hrest

theorem exists_tables_rings (n : ℤ) (hn : n = 1 ∨ n = 99) :
    ∃ t, (joinRings n).foldlM runCmd (startUp emptyHost) = .ok t ∧
      t.served = [((0, 0), (1, 0))] ∧ (0, 0) ∈ t.scan ∧ (t.Present (0, 0) ∧ t.Patched (0, 0)) ∧
      t.target (0, 0) = (1, 0) ∧ (record t 0).isSome ∧ ((record t 1).isSome ↔ n = 1) := by
  rcases hn with rfl | rfl
  all_goals exact ⟨_, rfl, by decide +kernel⟩

theorem forward_conserves_iff_rings :
    ∃ h t, Run (nfvSystem emptyHost) h t ∧ t.served = [((0, 0), (1, 0))] ∧
      ∃ out, forward t oneBurst (fun _ _ => 0) = .ok out ∧
        Conserved t oneBurst (fun _ _ => 0) out := by
  obtain ⟨t, hfold, hserved, -, -, -, hr, hr'⟩ := exists_tables_rings 1 (.inl rfl)
  obtain ⟨h, hrun⟩ := run_of_foldlM hfold
  refine ⟨h, t, hrun, hserved, (forward_conserves_iff hrun _ _).mpr fun x hx _ => ?_⟩
  rw [hserved, List.mem_singleton] at hx
  subst hx
  exact ⟨hr, hr'.mpr rfl⟩

/-- Ring 99 has no record: `client_stats` ends at 98. -/
theorem not_conserved_ring :
    ∃ h t, Run (nfvSystem emptyHost) h t ∧
      ¬ ∃ out, forward t oneBurst (fun _ _ => 0) = .ok out ∧
        Conserved t oneBurst (fun _ _ => 0) out := by
  obtain ⟨t, hfold, -, hscan, hserved, htarget, -, hr'⟩ := exists_tables_rings 99 (.inr rfl)
  obtain ⟨h, hrun⟩ := run_of_foldlM hfold
  refine ⟨h, t, hrun, ?_⟩
  rintro ⟨out, hok, -⟩
  have hnone : ¬ ((record t 0).isSome ∧ (record t (t.target (0, 0)).1).isSome) := by
    rw [htarget]
    exact fun h => absurd (hr'.mp h.2) (by decide)
  rw [forward, foldlM_serve_error (wired_of_run hrun) t.scan _
    ⟨(0, 0), hscan, hserved, List.cons_ne_nil _ _, hnone⟩] at hok
  cases hok

end SoftPatchPanel.Nfv
