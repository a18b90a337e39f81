import SoftPatchPanel.Foundation.LinkedList
import SoftPatchPanel.Foundation.Memory
import SoftPatchPanel.Vf.ForwarderTable

/-!
# `spp_mirror.c`: an iteration of a mirror

`mirror_proc` receives a burst, copies every packet into mbufs of its own pool, sends the copies
to the second tx port and the packets themselves to the first, and frees what the drivers have
not taken.  This is the build without `SPP_MIRROR_SHALLOWCOPY`, in which the copies are deep: for
each segment an mbuf is allocated, filled and appended to the chain, through a pointer to the
place where the chain ends; if an allocation fails the chain so far is freed and the copy is the
null pointer.

The mbufs are the cells of a heap of linked lists (`Foundation.LinkedList`).  The anchors are the
arrays `bufs` and `copybufs`, the variable `mirror_mbuf`, and whatever else points to mbufs in
the process.  An mbuf gets a new name each time it is allocated.

`mirrorProc_spec` says what an iteration does to the heap, for every pattern of failures and
whatever the drivers take.  `mirrored_iff` derives when nothing goes wrong.  Two things can: a
copy that could not be made stands as a null pointer in the array that is handed to the driver;
and if the second port takes more packets than the first, the originals in between are neither
sent nor freed, because the loop that frees them starts behind the larger of the two counts.
-/

namespace SoftPatchPanel.Mirror

open LinkedList Worker Vf
open Function (Injective update update_apply update_idem update_of_ne update_self)

/-- `RTE_MBUF_DEFAULT_BUF_SIZE`, the size of the buffers of the pool of copies and of the pool
that packets are received into. -/
def bufLen : ℕ := 2176

/-- A `struct rte_mbuf`, without the pointer to the next segment. -/
structure Mbuf where
  dataOff : ℕ
  dataLen : ℕ
  port : ℕ
  vlanTci : ℕ
  txOffload : ℕ
  hash : ℕ
  pktLen : ℕ
  nbSegs : ℕ
  olFlags : ℕ
  packetType : ℕ
  buf : ℕ → BitVec 8
  fits : dataOff + dataLen ≤ bufLen

/-- The bytes of a segment. -/
def Mbuf.bytes (m : Mbuf) : List (BitVec 8) := Memory.load m.buf m.dataOff m.dataLen

/-- The fields are copied, and the bytes into a buffer that holds anything. -/
def Mbuf.copy (m : Mbuf) (buf : ℕ → BitVec 8) : Mbuf :=
  { m with buf := Memory.store m.dataOff m.bytes buf }

/-- Two segments that are the same packet data. -/
def Mbuf.Same (m m' : Mbuf) : Prop :=
  m'.bytes = m.bytes ∧ m'.dataLen = m.dataLen ∧ m'.dataOff = m.dataOff ∧ m'.port = m.port ∧
    m'.vlanTci = m.vlanTci ∧ m'.txOffload = m.txOffload ∧ m'.hash = m.hash ∧
    m'.pktLen = m.pktLen ∧ m'.nbSegs = m.nbSegs ∧ m'.olFlags = m.olFlags ∧
    m'.packetType = m.packetType

theorem Mbuf.same_copy (m : Mbuf) (buf : ℕ → BitVec 8) : m.Same (m.copy buf) := by
  refine ⟨?_, rfl, rfl, rfl, rfl, rfl, rfl, rfl, rfl, rfl, rfl⟩
  exact Memory.load_store_self _ _ _ (Memory.length_load ..)

/-- The variables that point to chains of mbufs. -/
inductive Var where
  /-- `bufs[cnt]`. -/
  | orig (cnt : ℕ)
  /-- `copybufs[cnt]`. -/
  | copy (cnt : ℕ)
  /-- `mirror_mbuf`. -/
  | mirror
  /-- Any other pointer in the process. -/
  | other (n : ℕ)
  deriving DecidableEq

/-- The mbufs of the process, and how often `rte_pktmbuf_alloc` has been called. -/
structure Mem where
  store : Store Var ℕ Mbuf
  calls : ℕ

/-- What the environment does in an iteration. -/
structure Env where
  /-- The packets received. -/
  nbRx : ℕ
  /-- The packets the first port takes. -/
  nbTx1 : ℕ
  /-- The packets the second port takes. -/
  nbTx2 : ℕ
  /-- The calls of `rte_pktmbuf_alloc` that fail. -/
  fails : ℕ → Bool
  /-- The mbuf that a call returns. -/
  addr : ℕ → ℕ
  /-- What its buffer holds. -/
  buf : ℕ → ℕ → BitVec 8

variable (E : Env) (bound : ℕ) {l : List (ℕ × Mbuf)} {cnt n : ℕ} {m : Mem}
  {L : Var → List (ℕ × Mbuf)} {path : Path}

/-! ## The copies -/

/-- The loop over the segments of a packet.  `k` is `mirror_mbufs`, the place where the pointer
to the next copy goes. -/
def copyLoop : ℕ → Link Var ℕ → ℕ → Mem → Option Mem
  | 0, _, _, _ => none
  | fuel + 1, k, org, m =>
    match m.store.cell org with
    | none => none
    | some (d, next) =>
      if E.fails m.calls then
        (m.store.clear .mirror bound).map fun S => ⟨S, m.calls + 1⟩
      else
        let a := E.addr m.calls
        let m' : Mem :=
          ⟨(m.store.put a (d.copy (E.buf m.calls))).write k (some a), m.calls + 1⟩
        match next with
        | none => some m'
        | some org' => copyLoop fuel (.next a) org' m'

/-- The body of the loop over the burst. -/
def mirrorCopy (m : Mem) (cnt : ℕ) : Option Mem :=
  match m.store.anchor (.orig cnt) with
  | none => none
  | some org => (copyLoop E bound bound (.anchor .mirror) org m).map fun m =>
      { m with store := m.store.rename .mirror (.copy cnt) }

/-- The loop over the burst. -/
def mirrorCopies (n : ℕ) (m : Mem) : Option Mem := (List.range n).foldlM (mirrorCopy E bound) m

/-! ## The iteration -/

/-- `rte_pktmbuf_free`. -/
def freePacket (m : Mem) (v : Var) : Option Mem :=
  (m.store.clear v bound).map fun S => { m with store := S }

/-- What an iteration has done. -/
structure Outcome where
  mem : Mem
  /-- The packets that were received. -/
  received : ℕ
  /-- The array that was handed to the driver of the second port. -/
  handed : List (Option ℕ)
  /-- The packets that the drivers have taken. -/
  sent : List Var
  /-- The packets that were freed, in order. -/
  freed : List Var

/-- The packets from one count up to another. -/
def between (lo hi : ℕ) : List ℕ := (List.range (hi - lo)).map (lo + ·)

/-- `nb_tx1`. -/
def nbTx1 (path : Path) : ℕ := if 0 ≤ (path.ports 0).tx.ethdevPortId then E.nbTx1 else 0

/-- `nb_tx`, where the loop that frees the originals starts. -/
def nbTx (path : Path) : ℕ := if nbTx1 E path < E.nbTx2 then E.nbTx2 else nbTx1 E path

/-- The packets that the drivers take. -/
def taken (path : Path) : List Var :=
  (List.range (nbTx1 E path)).map .orig ++ (List.range E.nbTx2).map .copy

/-- The packets that are freed afterwards. -/
def discarded (path : Path) : List Var :=
  (between (nbTx E path) E.nbRx).map .orig ++ (between E.nbTx2 E.nbRx).map .copy

/-- The part of `mirror_proc` after a burst has been received.  Without a second port,
`copybufs` is freed although nothing has been stored in it. -/
def mirrorBurst (path : Path) (m : Mem) : Option Outcome :=
  if 0 ≤ (path.ports 1).tx.ethdevPortId then do
    let m ← mirrorCopies E bound E.nbRx m
    let handed := (List.range E.nbRx).map fun cnt => m.store.anchor (.copy cnt)
    let m ← (discarded E path).foldlM (freePacket bound) m
    some ⟨m, E.nbRx, handed, taken E path, discarded E path⟩
  else none

/-- The "practice condition check" of `mirror_proc`. -/
def ready (path : Path) : Bool := path.nofTx = 2 ∧ path.nofRx = 1

/-- `mirror_proc`, on the side of the table that the worker has. -/
def mirrorProc (path : Path) (m : Mem) : Option Outcome :=
  if ready path ∧ E.nbRx ≠ 0 then mirrorBurst E bound path m
  else some ⟨m, 0, [], [], []⟩

/-! ## What is to hold -/

/-- **Mirrored**: every packet received, and every copy that was made, is sent or freed, and that
once; the array of copies has no null pointer; every copy that is sent has the segments of its
original, with their bytes; and no mbuf is there but those that have been sent and those that
were there before. -/
def Mirrored (path : Path) (m : Mem) (L : Var → List (ℕ × Mbuf)) : Prop :=
  ∃ out L', mirrorProc E bound path m = some out ∧ Represents out.mem.store L' ∧
    (∀ cnt < out.received, (out.sent ++ out.freed).count (.orig cnt) = 1 ∧
      (out.sent ++ out.freed).count (.copy cnt) = 1) ∧
    none ∉ out.handed ∧
    (∀ cnt, Var.copy cnt ∈ out.sent →
      List.Forall₂ Mbuf.Same ((L (.orig cnt)).map Prod.snd) ((L' (.copy cnt)).map Prod.snd)) ∧
    (∀ v ∈ out.freed, L' v = []) ∧
    ∀ v, v ∉ out.freed → (∀ cnt, v = .copy cnt → v ∉ out.sent) → L' v = L v

/-- The process when a burst has been received: the packets are chains, nothing is copied yet,
and the mbufs that will be allocated are not in use. -/
structure Received (m : Mem) (L : Var → List (ℕ × Mbuf)) : Prop where
  heap : Represents m.store L
  packets : ∀ cnt < E.nbRx, L (.orig cnt) ≠ []
  copies : ∀ cnt, L (.copy cnt) = []
  mirror : L .mirror = []
  fresh : ∀ j ≥ m.calls, ∀ v, E.addr j ∉ (L v).map Prod.fst
  injective : Function.Injective E.addr
  short : ∀ cnt < E.nbRx, (L (.orig cnt)).length < bound

/-- The number of segments of the first packets. -/
def segments (L : Var → List (ℕ × Mbuf)) (n : ℕ) : ℕ :=
  ((List.range n).map fun cnt => (L (.orig cnt)).length).sum

/-! ## The copy of a packet -/

/-- The mbufs that the next calls return are not in use. -/
def Fresh (calls : ℕ) (L : Var → List (ℕ × Mbuf)) : Prop :=
  ∀ j ≥ calls, ∀ v, E.addr j ∉ (L v).map Prod.fst

variable {E bound} {m : Mem} {L : Var → List (ℕ × Mbuf)}

theorem Fresh.cell_eq_none (hfresh : Fresh E m.calls L) (h : Represents m.store L) :
    m.store.cell (E.addr m.calls) = none := by
  by_contra hlive
  obtain ⟨v, hv⟩ := h.exhaustive _ hlive
  exact hfresh m.calls (Nat.le_refl _) v hv

theorem Fresh.update {calls calls' : ℕ} (hfresh : Fresh E calls L) (hle : calls ≤ calls') {v : Var}
    (hl : ∀ j ≥ calls', E.addr j ∉ l.map Prod.fst) :
    Fresh E calls' (Function.update L v l) := by
  intro j hj w
  rcases eq_or_ne w v with rfl | hne
  · rw [update_self]
    exact hl j hj
  · rw [update_of_ne hne]
    exact hfresh j (hle.trans hj) w

/-- A segment is copied and appended. -/
theorem Fresh.append (hinj : Injective E.addr) (hfresh : Fresh E m.calls L)
    (h : Represents m.store L) (d : Mbuf) :
    Represents ((m.store.put (E.addr m.calls) d).write (lastLink (.anchor .mirror) (L .mirror))
        (some (E.addr m.calls)))
      (Function.update L .mirror (L .mirror ++ [(E.addr m.calls, d)])) ∧
    Fresh E (m.calls + 1)
      (Function.update L .mirror (L .mirror ++ [(E.addr m.calls, d)])) := by
  refine ⟨h.append .mirror (hfresh.cell_eq_none h) d, hfresh.update (Nat.le_succ _) ?_⟩
  intro j hj hin
  rw [List.map_append, List.mem_append] at hin
  rcases hin with hin | hin
  · exact hfresh j (Nat.le_of_succ_le hj) .mirror hin
  · have hsame : j = m.calls := hinj (List.mem_singleton.mp hin)
    omega

/-- **The loop over the segments.**  A part of the chain has been copied; the rest is, or an
allocation fails and nothing is left of the copy. -/
theorem copyLoop_spec (hinj : Injective E.addr)
    {l₁ : List (ℕ × Mbuf)} {org : ℕ} {d : Mbuf} {fuel : ℕ}
    (h : Represents m.store L) (hfresh : Fresh E m.calls L)
    (horig : L (.orig cnt) = l₁ ++ (org, d) :: l) (hfuel : l.length < fuel)
    (hbound : (L .mirror).length + l.length < bound) :
    ∃ m' Q, copyLoop E bound fuel (lastLink (.anchor .mirror) (L .mirror)) org m = some m' ∧
      Represents m'.store (update L .mirror Q) ∧
      Fresh E m'.calls (update L .mirror Q) ∧
      ((Q = [] ∧ ∃ k ≤ l.length, E.fails (m.calls + k) = true) ∨
        ∃ Q', Q = L .mirror ++ Q' ∧
          List.Forall₂ Mbuf.Same (((org, d) :: l).map Prod.snd) (Q'.map Prod.snd) ∧
          m'.calls = m.calls + (l.length + 1) ∧
          ∀ k ≤ l.length, E.fails (m.calls + k) = false) := by
  induction l generalizing m L l₁ org d fuel with
  | nil =>
    obtain ⟨fuel, rfl⟩ := Nat.exists_eq_succ_of_ne_zero (Nat.ne_zero_of_lt hfuel)
    obtain ⟨r, -, rfl, n, hcell, rfl⟩ := seg_append.mp (horig ▸ h.chain (.orig cnt))
    unfold copyLoop
    simp only [hcell]
    by_cases hfail : E.fails m.calls = true
    · obtain ⟨S, hclear, hS⟩ := h.clear .mirror (by simpa using hbound)
      refine ⟨⟨S, m.calls + 1⟩, [], by rw [if_pos hfail, hclear]; rfl, hS,
        hfresh.update (Nat.le_succ _) (by simp), .inl ⟨rfl, 0, Nat.le_refl _, hfail⟩⟩
    obtain ⟨hS, hfresh'⟩ := hfresh.append hinj h (d.copy (E.buf m.calls))
    refine ⟨_, _, if_neg hfail, hS, hfresh', .inr ⟨[(E.addr m.calls, d.copy (E.buf m.calls))],
      rfl, ?_, rfl, fun k hk => ?_⟩⟩
    · exact .cons (d.same_copy _) .nil
    · obtain rfl : k = 0 := Nat.le_zero.mp hk
      simpa using hfail
  | cons x l ih =>
    obtain ⟨org', d'⟩ := x
    obtain ⟨fuel, rfl⟩ := Nat.exists_eq_succ_of_ne_zero (Nat.ne_zero_of_lt hfuel)
    obtain ⟨r, -, rfl, n, hcell, rfl, -⟩ := seg_append.mp (horig ▸ h.chain (.orig cnt))
    have hlen : ((org', d') :: l).length = l.length + 1 := rfl
    rw [hlen] at hfuel hbound ⊢
    unfold copyLoop
    simp only [hcell]
    by_cases hfail : E.fails m.calls = true
    · have hshort : (L .mirror).length < bound := by omega
      obtain ⟨S, hclear, hS⟩ := h.clear .mirror hshort
      refine ⟨⟨S, m.calls + 1⟩, [], by rw [if_pos hfail, hclear]; rfl, hS,
        hfresh.update (Nat.le_succ _) (by simp), .inl ⟨rfl, 0, Nat.zero_le _, hfail⟩⟩
    obtain ⟨hS, hfresh'⟩ := hfresh.append hinj h (d.copy (E.buf m.calls))
    rw [if_neg hfail]
    have horig' : update L .mirror
        (L .mirror ++ [(E.addr m.calls, d.copy (E.buf m.calls))]) (.orig cnt) =
        (l₁ ++ [(org, d)]) ++ (org', d') :: l := by
      rw [update_of_ne (by simp), horig, List.append_assoc]
      rfl
    have hfuel' : l.length < fuel := by omega
    have hbound' : (update L .mirror
        (L .mirror ++ [(E.addr m.calls, d.copy (E.buf m.calls))]) .mirror).length + l.length <
        bound := by
      simp only [update_self, List.length_append, List.length_singleton]
      omega
    obtain ⟨m', Q, hloop, hQ, hfreshQ, hcases⟩ :=
      ih (m := ⟨_, m.calls + 1⟩) hS hfresh' horig' hfuel' hbound'
    have hlink : lastLink (.anchor .mirror) (update L .mirror
        (L .mirror ++ [(E.addr m.calls, d.copy (E.buf m.calls))]) .mirror) =
        (.next (E.addr m.calls) : Link Var ℕ) := by
      rw [update_self, lastLink, List.getLast?_concat]
    rw [hlink] at hloop
    rw [update_idem] at hQ hfreshQ
    refine ⟨m', Q, hloop, hQ, hfreshQ, ?_⟩
    rcases hcases with ⟨rfl, k, hk, hfailk⟩ | ⟨Q', rfl, hsame, hcalls, hok⟩
    · refine .inl ⟨rfl, k + 1, by omega, ?_⟩
      rwa [← Nat.add_assoc, Nat.add_right_comm]
    refine .inr ⟨(E.addr m.calls, d.copy (E.buf m.calls)) :: Q', ?_, ?_, ?_, fun k hk => ?_⟩
    · rw [update_self, List.append_assoc]
      rfl
    · exact .cons (d.same_copy _) hsame
    · rw [hcalls]
      show m.calls + 1 + (l.length + 1) = _
      omega
    cases k with
    | zero => simpa using hfail
    | succ k =>
      rw [← Nat.add_assoc, Nat.add_right_comm]
      exact hok k (by omega)

/-- **The copy of a packet**, as it stands in `copybufs`. -/
theorem mirrorCopy_spec (hinj : Injective E.addr)
    (h : Represents m.store L) (hfresh : Fresh E m.calls L)
    (hpacket : L (.orig cnt) ≠ []) (hcopy : L (.copy cnt) = []) (hmirror : L .mirror = [])
    (hshort : (L (.orig cnt)).length < bound) :
    ∃ m' Q, mirrorCopy E bound m cnt = some m' ∧
      Represents m'.store (update L (.copy cnt) Q) ∧
      Fresh E m'.calls (update L (.copy cnt) Q) ∧
      ((Q = [] ∧ ∃ k < (L (.orig cnt)).length, E.fails (m.calls + k) = true) ∨
        (Q ≠ [] ∧ List.Forall₂ Mbuf.Same ((L (.orig cnt)).map Prod.snd) (Q.map Prod.snd) ∧
          m'.calls = m.calls + (L (.orig cnt)).length ∧
          ∀ k < (L (.orig cnt)).length, E.fails (m.calls + k) = false)) := by
  obtain ⟨⟨org, d⟩, l, horig⟩ := List.exists_cons_of_ne_nil hpacket
  have hanchor : m.store.anchor (.orig cnt) = some org := by
    have hchain := h.chain (.orig cnt)
    rw [horig] at hchain
    exact hchain.1
  rw [horig, List.length_cons] at hshort
  have hbound : (L .mirror).length + l.length < bound := by
    rw [hmirror, List.length_nil]
    omega
  have hnone : L (.orig cnt) = [] ++ (org, d) :: l := horig
  obtain ⟨m', Q, hloop, hQ, hfreshQ, hcases⟩ := copyLoop_spec hinj h hfresh hnone
    (show l.length < bound by omega) hbound
  have hlists : update (update (update L .mirror Q) (.copy cnt)
      (update L .mirror Q .mirror)) .mirror [] = update L (.copy cnt) Q := by
    funext v
    simp only [update_apply]
    by_cases hv : v = .mirror
    · rw [if_pos hv, if_neg (by rw [hv]; simp), hv, hmirror]
    · rw [if_neg hv]
      simp [hv]
  refine ⟨{ m' with store := m'.store.rename .mirror (.copy cnt) }, Q, ?_, ?_, ?_, ?_⟩
  · have hlink : lastLink (.anchor .mirror) (L .mirror) = (.anchor .mirror : Link Var ℕ) := by
      rw [hmirror]
      rfl
    rw [hlink] at hloop
    rw [mirrorCopy, hanchor]
    simp only [hloop, Option.map_some]
  · rw [← hlists]
    exact hQ.rename (by simp) (by rw [update_of_ne (by simp), hcopy])
  · have hmirrored := hfreshQ.update (Nat.le_refl _) (v := .copy cnt) (l := Q) fun j hj => by
      have hnot := hfreshQ j hj .mirror
      rwa [update_self] at hnot
    have hcleared := hmirrored.update (Nat.le_refl _) (v := .mirror) (l := []) (by simp)
    rwa [← hlists, update_self]
  · rw [horig, List.length_cons]
    rcases hcases with ⟨rfl, k, hk, hfail⟩ | ⟨Q', rfl, hsame, hcalls, hok⟩
    · exact .inl ⟨rfl, k, by omega, hfail⟩
    rw [hmirror, List.nil_append]
    refine .inr ⟨?_, hsame, hcalls, fun k hk => hok k (by omega)⟩
    rintro rfl
    cases hsame

/-! ## The burst -/

theorem segments_succ (L : Var → List (ℕ × Mbuf)) (n : ℕ) :
    segments L (n + 1) = segments L n + (L (.orig n)).length := by
  simp [segments, List.range_succ]

/-- What the copies of the first packets have become. -/
structure Copied (E : Env) (m : Mem) (L : Var → List (ℕ × Mbuf)) (n : ℕ) (m' : Mem)
    (L' : Var → List (ℕ × Mbuf)) : Prop where
  heap : Represents m'.store L'
  fresh : Fresh E m'.calls L'
  kept : ∀ v, (∀ cnt < n, v ≠ .copy cnt) → L' v = L v
  same : ∀ cnt < n, L' (.copy cnt) ≠ [] →
    List.Forall₂ Mbuf.Same ((L (.orig cnt)).map Prod.snd) ((L' (.copy cnt)).map Prod.snd)
  made : (∀ cnt < n, L' (.copy cnt) ≠ []) ↔
    ∀ k < segments L n, E.fails (m.calls + k) = false
  calls : (∀ cnt < n, L' (.copy cnt) ≠ []) → m'.calls = m.calls + segments L n

/-- **The loop over the burst.** -/
theorem mirrorCopies_spec (hrecv : Received E bound m L) (hn : n ≤ E.nbRx) :
    ∃ m' L', mirrorCopies E bound n m = some m' ∧ Copied E m L n m' L' := by
  induction n with
  | zero =>
    refine ⟨m, L, rfl, hrecv.heap, hrecv.fresh, fun _ _ => rfl, nofun, ?_, fun _ => rfl⟩
    exact iff_of_true nofun fun k hk => absurd hk (Nat.not_lt_zero k)
  | succ n ih =>
    obtain ⟨m₁, L₁, hcopies, hcopied⟩ := ih (Nat.le_of_succ_le hn)
    have horig : L₁ (.orig n) = L (.orig n) := hcopied.kept _ (by simp)
    have hshort : (L₁ (.orig n)).length < bound := by
      rw [horig]
      exact hrecv.short n hn
    obtain ⟨m', Q, hcopy, hQ, hfresh, hcases⟩ := mirrorCopy_spec hrecv.injective hcopied.heap
      hcopied.fresh (by rw [horig]; exact hrecv.packets n hn)
      (by rw [hcopied.kept _ (by simp; omega)]; exact hrecv.copies n)
      (by rw [hcopied.kept _ (by simp)]; exact hrecv.mirror) hshort
    rw [horig] at hcases
    have hbefore (cnt : ℕ) (hcnt : cnt < n) :
        update L₁ (.copy n) Q (.copy cnt) = L₁ (.copy cnt) :=
      update_of_ne (fun heq => absurd (Var.copy.inj heq) (Nat.ne_of_lt hcnt)) _ _
    have hall : (∀ cnt < n + 1, update L₁ (.copy n) Q (.copy cnt) ≠ []) ↔
        (∀ cnt < n, L₁ (.copy cnt) ≠ []) ∧ Q ≠ [] := by
      rw [Nat.forall_lt_succ_right, update_self]
      refine and_congr_left fun _ => forall₂_congr fun cnt hcnt => ?_
      rw [hbefore cnt hcnt]
    refine ⟨m', _, ?_, hQ, hfresh, fun v hv => ?_, fun cnt hcnt hne => ?_, ?_, ?_⟩
    · rw [mirrorCopies, List.range_succ, List.foldlM_append, ← mirrorCopies, hcopies]
      show ([n].foldlM (mirrorCopy E bound) m₁) = some m'
      rw [List.foldlM_cons, hcopy]
      rfl
    · rw [update_of_ne (hv n (Nat.lt_succ_self n))]
      exact hcopied.kept v fun cnt hcnt => hv cnt (Nat.lt_succ_of_lt hcnt)
    · rcases Nat.lt_succ_iff_lt_or_eq.mp hcnt with hlt | rfl
      · rw [hbefore cnt hlt] at hne ⊢
        exact hcopied.same cnt hlt hne
      rw [update_self] at hne ⊢
      rcases hcases with ⟨rfl, -⟩ | ⟨-, hsame, -⟩
      · exact absurd rfl hne
      · exact hsame
    · rw [hall, segments_succ]
      -- if the copies before are all there, the calls for this one start behind theirs
      constructor
      · rintro ⟨hprev, hQne⟩ k hk
        rcases hcases with ⟨rfl, -⟩ | ⟨-, -, -, hok⟩
        · exact absurd rfl hQne
        by_cases hlt : k < segments L n
        · exact hcopied.made.mp hprev k hlt
        have hthis := hok (k - segments L n) (by omega)
        rw [hcopied.calls hprev] at hthis
        rw [← hthis]
        congr 1
        omega
      · intro hok
        have hprev := hcopied.made.mpr fun k hk => hok k (by omega)
        refine ⟨hprev, ?_⟩
        rcases hcases with ⟨-, k, hk, hfail⟩ | ⟨hQne, -⟩
        · rw [hcopied.calls hprev, Nat.add_assoc, hok _ (by omega)] at hfail
          cases hfail
        · exact hQne
    · rw [hall, segments_succ]
      rintro ⟨hprev, hQne⟩
      rcases hcases with ⟨rfl, -⟩ | ⟨-, -, hcalls, -⟩
      · exact absurd rfl hQne
      · rw [hcalls, hcopied.calls hprev, Nat.add_assoc]

/-- **The loops that free.** -/
theorem freePackets_spec {vs : List Var}
    (h : Represents m.store L) (hshort : ∀ v ∈ vs, (L v).length < bound) :
    ∃ m', vs.foldlM (freePacket bound) m = some m' ∧
      Represents m'.store fun v => if v ∈ vs then [] else L v := by
  induction vs generalizing m L with
  | nil => exact ⟨m, rfl, by simpa using h⟩
  | cons v vs ih =>
    rw [List.forall_mem_cons] at hshort
    obtain ⟨S, hclear, hS⟩ := h.clear v hshort.1
    have hfree : freePacket bound m v = some { m with store := S } := by
      rw [freePacket, hclear]
      rfl
    obtain ⟨m', hfold, hm'⟩ := ih (m := { m with store := S }) hS fun w hw => by
      rw [update_apply]
      split
      · exact Nat.zero_lt_of_lt hshort.1
      · exact hshort.2 w hw
    refine ⟨m', by rw [List.foldlM_cons, hfree]; exact hfold, ?_⟩
    have hlists : (fun w => if w ∈ vs then [] else update L v [] w) =
        fun w => if w ∈ v :: vs then [] else L w := by
      funext w
      simp only [update_apply, List.mem_cons]
      by_cases hw : w = v <;> simp [hw]
    rwa [hlists] at hm'

/-! ## The iteration -/

theorem mem_between {lo hi : ℕ} : cnt ∈ between lo hi ↔ lo ≤ cnt ∧ cnt < hi := by
  rw [between, List.mem_map]
  constructor
  · rintro ⟨k, hk, rfl⟩
    rw [List.mem_range] at hk
    omega
  · rintro ⟨hlo, hhi⟩
    exact ⟨cnt - lo, List.mem_range.mpr (by omega), by omega⟩

theorem nodup_between (lo hi : ℕ) : (between lo hi).Nodup :=
  List.nodup_range.map (add_right_injective lo)

/-- How often a packet is sent or freed. -/
theorem count_orig (path : Path) (cnt : ℕ) :
    (taken E path ++ discarded E path).count (.orig cnt) =
      (if cnt < nbTx1 E path then 1 else 0) + if nbTx E path ≤ cnt ∧ cnt < E.nbRx then 1 else 0 := by
  have hcopies (l : List ℕ) : (l.map Var.copy).count (.orig cnt) = 0 :=
    List.count_eq_zero.mpr (by simp)
  have horigs (l : List ℕ) : (l.map Var.orig).count (.orig cnt) = l.count cnt :=
    List.count_map_of_injective l _ (fun _ _ => Var.orig.inj) cnt
  simp only [taken, discarded, List.count_append, hcopies, horigs, Nat.add_zero,
    List.nodup_range.count, (nodup_between ..).count, List.mem_range, mem_between]

/-- How often a copy is. -/
theorem count_copy (path : Path) (cnt : ℕ) :
    (taken E path ++ discarded E path).count (.copy cnt) =
      (if cnt < E.nbTx2 then 1 else 0) + if E.nbTx2 ≤ cnt ∧ cnt < E.nbRx then 1 else 0 := by
  have horigs (l : List ℕ) : (l.map Var.orig).count (.copy cnt) = 0 :=
    List.count_eq_zero.mpr (by simp)
  have hcopies (l : List ℕ) : (l.map Var.copy).count (.copy cnt) = l.count cnt :=
    List.count_map_of_injective l _ (fun _ _ => Var.copy.inj) cnt
  simp only [taken, discarded, List.count_append, hcopies, horigs, Nat.zero_add,
    List.nodup_range.count, (nodup_between ..).count, List.mem_range, mem_between]

/-- A null pointer is handed to the driver where a copy could not be made. -/
theorem Copied.handed {m₁ : Mem} {L₁ : Var → List (ℕ × Mbuf)} (h : Copied E m L n m₁ L₁) :
    none ∉ (List.range n).map (fun cnt => m₁.store.anchor (.copy cnt)) ↔
      ∀ cnt < n, L₁ (.copy cnt) ≠ [] := by
  simp only [List.mem_map, List.mem_range, not_exists, not_and]
  refine forall₂_congr fun cnt _ => not_congr ?_
  exact h.heap.anchor_eq_none

/-- **A burst**, for every pattern of failures and whatever the drivers take. -/
theorem mirrorProc_spec (hrecv : Received E bound m L) (hready : ready path = true)
    (hrx : E.nbRx ≠ 0) (hport : 0 ≤ (path.ports 1).tx.ethdevPortId) :
    ∃ m₁ L₁ m₂, Copied E m L E.nbRx m₁ L₁ ∧
      mirrorProc E bound path m = some ⟨m₂, E.nbRx,
        (List.range E.nbRx).map (fun cnt => m₁.store.anchor (.copy cnt)), taken E path,
        discarded E path⟩ ∧
      Represents m₂.store fun v => if v ∈ discarded E path then [] else L₁ v := by
  obtain ⟨m₁, L₁, hcopies, hcopied⟩ := mirrorCopies_spec hrecv (Nat.le_refl _)
  have hshort : ∀ v ∈ discarded E path, (L₁ v).length < bound := by
    intro v hv
    rw [discarded, List.mem_append, List.mem_map, List.mem_map] at hv
    rcases hv with ⟨cnt, hcnt, rfl⟩ | ⟨cnt, hcnt, rfl⟩
    · rw [hcopied.kept _ (by simp)]
      exact hrecv.short cnt (mem_between.mp hcnt).2
    have hlt := (mem_between.mp hcnt).2
    by_cases hne : L₁ (.copy cnt) = []
    · rw [hne]
      exact Nat.zero_lt_of_lt (hrecv.short cnt hlt)
    have hlen := (hcopied.same cnt hlt hne).length_eq
    rw [List.length_map, List.length_map] at hlen
    rw [← hlen]
    exact hrecv.short cnt hlt
  obtain ⟨m₂, hfree, hm₂⟩ := freePackets_spec hcopied.heap hshort
  refine ⟨m₁, L₁, m₂, hcopied, ?_, hm₂⟩
  rw [mirrorProc, if_pos ⟨hready, hrx⟩, mirrorBurst, if_pos hport, hcopies]
  simp only [Option.bind_eq_bind, Option.bind_some, hfree]

/-- What a burst needs to be mirrored: a packet at the first count is lost if the second count is
larger, and a null pointer is handed over if a copy could not be made. -/
theorem Mirrored.burst (hrecv : Received E bound m L)
    (htx2 : E.nbTx2 ≤ E.nbRx) (h : Mirrored E bound path m L) (hready : ready path = true)
    (hrx : E.nbRx ≠ 0) :
    0 ≤ (path.ports 1).tx.ethdevPortId ∧ E.nbTx2 ≤ nbTx1 E path ∧
      ∀ k < segments L E.nbRx, E.fails (m.calls + k) = false := by
  obtain ⟨out, L', hout, -, hcounts, hhanded, -⟩ := h
  by_cases hport : 0 ≤ (path.ports 1).tx.ethdevPortId
  · obtain ⟨m₁, L₁, m₂, hcopied, hproc, -⟩ := mirrorProc_spec hrecv hready hrx hport
    obtain rfl := Option.some.inj (hproc.symm.trans hout)
    refine ⟨hport, ?_, hcopied.made.mp (hcopied.handed.mp hhanded)⟩
    by_contra hlt
    have hfirst : nbTx1 E path < E.nbRx := by omega
    have hcount := (hcounts _ hfirst).1
    have hnb : nbTx E path = E.nbTx2 := if_pos (by omega)
    rw [count_orig, hnb, if_neg (Nat.lt_irrefl _), if_neg (by omega)] at hcount
    cases hcount
  · rw [mirrorProc, if_pos ⟨hready, hrx⟩, mirrorBurst, if_neg hport] at hout
    cases hout

/-- A burst is mirrored if its copies can be made and the second port takes no more than the
first. -/
theorem mirrored_burst (hrecv : Received E bound m L) (htx1 : E.nbTx1 ≤ E.nbRx)
    (hready : ready path = true) (hrx : E.nbRx ≠ 0)
    (hport : 0 ≤ (path.ports 1).tx.ethdevPortId) (hle : E.nbTx2 ≤ nbTx1 E path)
    (hok : ∀ k < segments L E.nbRx, E.fails (m.calls + k) = false) :
    Mirrored E bound path m L := by
  obtain ⟨m₁, L₁, m₂, hcopied, hproc, hm₂⟩ := mirrorProc_spec hrecv hready hrx hport
  have hmade := hcopied.made.mpr hok
  have hnb : nbTx E path = nbTx1 E path := if_neg (by omega)
  have hfirst : nbTx1 E path ≤ E.nbRx := by
    unfold nbTx1
    split <;> omega
  refine ⟨_, _, hproc, hm₂, fun cnt hcnt => ?_, hcopied.handed.mpr hmade, fun cnt hsent => ?_,
    fun v hv => if_pos hv, fun v hv hsent => ?_⟩
  · replace hcnt : cnt < E.nbRx := hcnt
    rw [count_orig, count_copy, hnb]
    constructor <;> split <;> split <;> omega
  · have hlt : cnt < E.nbTx2 := by simpa [taken] using hsent
    rw [if_neg (by simp [discarded, mem_between]; omega)]
    exact hcopied.same cnt (by omega) (hmade cnt (by omega))
  rw [if_neg hv]
  refine hcopied.kept v ?_
  rintro cnt hcnt rfl
  have hout := hsent cnt rfl
  simp only [taken, discarded, List.mem_append, List.mem_map, mem_between,
    List.mem_range] at hout hv
  by_cases hlt : cnt < E.nbTx2
  · exact hout (.inr ⟨cnt, hlt, rfl⟩)
  · exact hv (.inr ⟨cnt, ⟨by omega, hcnt⟩, rfl⟩)

/-- **A mirror loses nothing iff** the copies can be made and the second port takes no more than
the first.  This is for every burst, for every pattern of failures, and whatever the drivers
take. -/
theorem mirrored_iff (hrecv : Received E bound m L) (path : Path) (htx1 : E.nbTx1 ≤ E.nbRx)
    (htx2 : E.nbTx2 ≤ E.nbRx) :
    Mirrored E bound path m L ↔
      (ready path = true ∧ E.nbRx ≠ 0 → 0 ≤ (path.ports 1).tx.ethdevPortId ∧
        E.nbTx2 ≤ nbTx1 E path ∧ ∀ k < segments L E.nbRx, E.fails (m.calls + k) = false) := by
  constructor
  · rintro h ⟨hready, hrx⟩
    exact h.burst hrecv htx2 hready hrx
  · intro h
    by_cases hgo : ready path = true ∧ E.nbRx ≠ 0
    · obtain ⟨hport, hle, hok⟩ := h hgo
      exact mirrored_burst hrecv htx1 hgo.1 hgo.2 hport hle hok
    · refine ⟨⟨m, 0, [], [], []⟩, L, if_neg hgo, hrecv.heap, ?_⟩
      simp

/-! ### A packet of two segments -/

/-- A segment of four bytes. -/
def segment : Mbuf := ⟨128, 4, 0, 0, 0, 0, 8, 2, 0, 0, fun i => BitVec.ofNat 8 i, by decide⟩

/-- The process when the packet has been received. -/
def twoSegments : Mem where
  store := ((⟨fun _ => none, fun _ => none⟩ : Store Var ℕ Mbuf).push (.orig 0) 1 segment).push
    (.orig 0) 0 segment
  calls := 0

/-- A burst of one packet. -/
def onePacket (nbTx1 nbTx2 : ℕ) (fails : ℕ → Bool) : Env where
  nbRx := 1
  nbTx1 := nbTx1
  nbTx2 := nbTx2
  fails := fails
  addr j := j + 2
  buf _ _ := 0#8

/-- A mirror with its three ports. -/
def mirrorOfThree : Path := mirrorPath "m" .mir [zeroPort] [zeroPort, zeroPort]

theorem received_twoSegments (nbTx1 nbTx2 : ℕ) (fails : ℕ → Bool) :
    Received (onePacket nbTx1 nbTx2 fails) 3 twoSegments
      (update (fun _ => []) (.orig 0) [(0, segment), (1, segment)]) where
  heap := by
    have hfirst := (represents_empty (I := Var)).push (.orig 0) (a := 1) rfl segment
    have hboth := hfirst.push (.orig 0) (a := 0) rfl segment
    rwa [update_idem, update_self] at hboth
  packets cnt hcnt := by
    obtain rfl : cnt = 0 := Nat.lt_one_iff.mp hcnt
    simp
  copies cnt := rfl
  mirror := rfl
  fresh j _ v := by
    rcases eq_or_ne v (.orig 0) with rfl | hne
    · simp [onePacket]
    · simp [update_of_ne hne]
  injective := add_left_injective 2
  short cnt hcnt := by
    obtain rfl : cnt = 0 := Nat.lt_one_iff.mp hcnt
    simp

/-- The first port takes the packet, the second does not. -/
theorem mirrored_twoSegments :
    Mirrored (onePacket 1 0 fun _ => false) 3 mirrorOfThree twoSegments
      (Function.update (fun _ => []) (.orig 0) [(0, segment), (1, segment)]) :=
  (mirrored_iff (received_twoSegments 1 0 fun _ => false) mirrorOfThree (by decide)
    (by decide)).mpr fun _ => ⟨by decide, by decide, fun _ _ => rfl⟩

/-- Only the second port takes the packet, and the original is lost; the second segment cannot
be copied, and the driver gets a null pointer. -/
theorem not_mirrored_twoSegments :
    ¬ Mirrored (onePacket 0 1 fun _ => false) 3 mirrorOfThree twoSegments
      (Function.update (fun _ => []) (.orig 0) [(0, segment), (1, segment)]) ∧
    ¬ Mirrored (onePacket 1 1 fun j => j == 1) 3 mirrorOfThree twoSegments
      (Function.update (fun _ => []) (.orig 0) [(0, segment), (1, segment)]) := by
  constructor
  · intro h
    have hle := (h.burst (received_twoSegments ..) (by decide) rfl (by decide)).2.1
    exact absurd hle (by decide)
  · intro h
    have hok := (h.burst (received_twoSegments ..) (by decide) rfl (by decide)).2.2
    exact absurd (hok 1 (by decide)) (by decide)

end SoftPatchPanel.Mirror
