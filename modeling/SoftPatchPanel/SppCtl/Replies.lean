import SoftPatchPanel.Foundation.Transition

/-!
# How `spp-ctl` receives the reply to a command

`exec_command` holds the semaphore of a process from before it sends a command until it
has the reply, so there is at most one command on a connection at a time.  The peer
answers every command with one reply.  The bytes of the reply arrive in order, in any
number of segments and at any time.

`_send_command` finds the end of a reply by the lengths of what `recv` returns.  A first,
blocking call that returns fewer than `MSG_SIZE` bytes ends the reply.  Otherwise
`_continue_recv` reads on without blocking until a call returns fewer bytes or nothing.
It does not know how long the reply is.

So a `recv` ends the reply before its end exactly if part of the reply is still under way
and fewer than `MSG_SIZE` bytes have arrived.  From then on the replies no longer go with
the commands.  The theorem `paired_iff` says that a run is free of such calls if and only
if every command has been given its own reply.
-/

namespace SoftPatchPanel.SppCtl

open Transition (System Run Guarded Reaches ofStep guarded_cons guarded_nil)

variable {T B : Type} {t : T} {reply : List B}

/-! ## A connection -/

/-- `MSG_SIZE` of `spp_ctl.py`. -/
def msgSize : ℕ := 4096

/-- Where the thread is that holds the semaphore. -/
inductive Client (T B : Type) where
  /-- No thread holds it. -/
  | free
  /-- About to call the blocking `recv` of `_send_command`. -/
  | waiting (t : T)
  /-- About to call the `recv` of `_continue_recv`, with the data so far. -/
  | draining (t : T) (data : List B)
  deriving DecidableEq

/-- A connection: the bytes under way, those that have arrived and are not read yet, and
the thread that uses it.  `replies` records what the peer has answered to which thread,
and `returned` what `_send_command` has returned. -/
structure Conn (T B : Type) where
  flight : List B
  buffer : List B
  client : Client T B
  replies : List (T × List B)
  returned : List (T × List B)

/-- A connection that has just been accepted. -/
def Conn.init : Conn T B := ⟨[], [], .free, [], []⟩

/-- `_send_command` returns. -/
def Conn.give (s : Conn T B) (t : T) (data : List B) : Conn T B :=
  { s with client := .free, returned := s.returned ++ [(t, data)] }

/-- What happens on a connection. -/
inductive Event (T B : Type) where
  /-- A thread takes the semaphore and sends a command, to which the peer sends this reply. -/
  | send (t : T) (reply : List B)
  /-- A segment of at most so many bytes arrives. -/
  | arrive (n : ℕ)
  /-- The thread with the semaphore calls `recv`. -/
  | recv

/-- `recv(MSG_SIZE)`, in `_send_command` and in the loop of `_continue_recv`.  A blocking
call waits for the first byte.  Without blocking, `EAGAIN` ends the loop as a short read
does. -/
def recv (s : Conn T B) : Option (Conn T B) :=
  let data := s.buffer.take msgSize
  let s' := { s with buffer := s.buffer.drop msgSize }
  match s.client with
  | .free => none
  | .waiting t =>
    if s.buffer = [] then none
    else if data.length = msgSize then some { s' with client := .draining t data }
    else some (s'.give t data)
  | .draining t before =>
    if data.length < msgSize then some (s'.give t (before ++ data))
    else some { s' with client := .draining t (before ++ data) }

def next (s : Conn T B) : Event T B → Option (Conn T B)
  | .send t reply =>
    match s.client with
    | .free => some { s with
        client := .waiting t, flight := s.flight ++ reply, replies := s.replies ++ [(t, reply)] }
    | _ => none
  | .arrive n => some { s with
      flight := s.flight.drop n, buffer := s.buffer ++ s.flight.take n }
  | .recv => recv s

/-- The connection of a process. -/
def connection : System (Conn T B) (Event T B) := ofStep .init next

/-- When `recv` is called, it finds as many bytes as it asks for, or nothing is under
way. -/
def Guard (s : Conn T B) : Event T B → Prop
  | .recv => msgSize ≤ s.buffer.length ∨ s.flight = []
  | _ => True

instance (s : Conn T B) : (e : Event T B) → Decidable (Guard s e)
  | .recv => inferInstanceAs (Decidable (_ ∨ _))
  | .send _ _ | .arrive _ => .isTrue trivial

/-! ## While nothing has gone wrong -/

/-- Everything that was returned is right, and the rest of the reply to the command under
way is all there is to read. -/
def Good (s : Conn T B) : Prop :=
  match s.client with
  | .free => s.buffer ++ s.flight = [] ∧ s.returned = s.replies
  | .waiting t => s.replies = s.returned ++ [(t, s.buffer ++ s.flight)]
  | .draining t data => s.replies = s.returned ++ [(t, data ++ (s.buffer ++ s.flight))]

/-- What a thread returns that does not wait for what is under way. -/
theorem not_prefix_of_short {rs : List (T × List B)} {d b f : List B} (hf : f ≠ []) :
    ¬ rs ++ [(t, d ++ b)] <+: rs ++ [(t, d ++ (b ++ f))] := by
  rw [List.prefix_append_right_inj]
  intro h
  have heq := List.IsPrefix.eq_of_length h rfl
  have hlen := congrArg List.length (Prod.mk.inj (List.singleton_inj.mp heq)).2
  rw [List.length_append, List.length_append, List.length_append] at hlen
  have hpos := List.length_pos_iff.mpr hf
  omega

variable {s : Conn T B}

theorem Good.arrive (h : Good s) (n : ℕ) :
    Good { s with flight := s.flight.drop n, buffer := s.buffer ++ s.flight.take n } := by
  have hall : s.buffer ++ s.flight.take n ++ s.flight.drop n = s.buffer ++ s.flight := by
    rw [List.append_assoc, List.take_append_drop]
  unfold Good at h ⊢
  cases hc : s.client <;> rw [hc] at h
  case free => exact ⟨hall.trans h.1, h.2⟩
  all_goals
    simp only [hall]
    exact h

/-- The thread that reads, and what it has read. -/
def Client.Has (c : Client T B) (t : T) (data : List B) : Prop :=
  c = .waiting t ∧ data = [] ∨ c = .draining t data

theorem Good.replies_eq (h : Good s) {data : List B} (hc : s.client.Has t data) :
    s.replies = s.returned ++ [(t, data ++ (s.buffer ++ s.flight))] := by
  unfold Good at h
  rcases hc with ⟨hc, rfl⟩ | hc <;> rw [hc] at h <;> exact h

variable {s' : Conn T B}

/-- What a `recv` does: it takes all there is and returns, or it takes `MSG_SIZE` bytes and
goes on. -/
theorem recv_eq_some (h : recv s = some s') :
    ∃ t data, s.client.Has t data ∧
      (s.buffer.length < msgSize ∧
          s' = ({ s with buffer := [] } : Conn T B).give t (data ++ s.buffer) ∨
        msgSize ≤ s.buffer.length ∧ s' = { s with
          buffer := s.buffer.drop msgSize
          client := .draining t (data ++ s.buffer.take msgSize) }) := by
  unfold recv at h
  have hread : (s.buffer.take msgSize).length < msgSize ∧ s.buffer.length < msgSize ∧
      s.buffer.take msgSize = s.buffer ∧ s.buffer.drop msgSize = [] ∨
      (s.buffer.take msgSize).length = msgSize ∧ msgSize ≤ s.buffer.length := by
    rw [List.length_take]
    rcases Nat.lt_or_ge s.buffer.length msgSize with hlt | hle
    · exact .inl ⟨by omega, hlt, List.take_of_length_le (Nat.le_of_lt hlt),
        List.drop_of_length_le (Nat.le_of_lt hlt)⟩
    · exact .inr ⟨Nat.min_eq_left hle, hle⟩
  cases hc : s.client with
  | free =>
    rw [hc] at h
    cases h
  | waiting t =>
    refine ⟨t, [], .inl ⟨rfl, rfl⟩, ?_⟩
    simp only [hc] at h
    split at h
    · cases h
    rcases hread with ⟨hlen, hlt, htake, hdrop⟩ | ⟨hlen, hle⟩
    · rw [if_neg (Nat.ne_of_lt hlen), htake, hdrop] at h
      exact .inl ⟨hlt, (Option.some.inj h).symm⟩
    · rw [if_pos hlen] at h
      exact .inr ⟨hle, (Option.some.inj h).symm⟩
  | draining t data =>
    refine ⟨t, data, .inr rfl, ?_⟩
    simp only [hc] at h
    rcases hread with ⟨hlen, hlt, htake, hdrop⟩ | ⟨hlen, hle⟩
    · rw [if_pos hlen, htake, hdrop] at h
      exact .inl ⟨hlt, (Option.some.inj h).symm⟩
    · rw [if_neg (Nat.not_lt_of_le (Nat.le_of_eq hlen.symm))] at h
      exact .inr ⟨hle, (Option.some.inj h).symm⟩

/-- A `recv` that does what it should goes on with the reply or returns all of it, and one
that does not returns too little at once. -/
theorem Good.recv (h : Good s) (hstep : recv s = some s') :
    (Guard s .recv → Good s') ∧ (¬ Guard s .recv → ¬ s'.returned <+: s'.replies) := by
  obtain ⟨t, d, hc, ⟨hlt, rfl⟩ | ⟨hle, rfl⟩⟩ := recv_eq_some hstep
  · refine ⟨fun hG => ?_, fun hG => ?_⟩
    · have hflight : s.flight = [] := hG.resolve_left (by omega)
      refine ⟨hflight, ?_⟩
      show s.returned ++ [(t, d ++ s.buffer)] = s.replies
      rw [h.replies_eq hc, hflight, List.append_nil]
    · show ¬ s.returned ++ [(t, d ++ s.buffer)] <+: s.replies
      rw [h.replies_eq hc]
      exact not_prefix_of_short fun hflight => hG (.inr hflight)
  · refine ⟨fun _ => ?_, fun hG => absurd (.inl hle) hG⟩
    show s.replies = s.returned ++
      [(t, d ++ s.buffer.take msgSize ++ (s.buffer.drop msgSize ++ s.flight))]
    rw [h.replies_eq hc, List.append_assoc d, ← List.append_assoc (s.buffer.take msgSize),
      List.take_append_drop]

/-! ## After something has gone wrong -/

/-- The number of commands under way. -/
def Client.pending : Client T B → ℕ
  | .free => 0
  | .waiting _ => 1
  | .draining _ _ => 1

/-- Every reply is returned or under way. -/
def Counted (s : Conn T B) : Prop := s.returned.length + s.client.pending = s.replies.length

theorem recv_cases (h : recv s = some s') :
    s'.replies = s.replies ∧ s.client.pending = 1 ∧
      (s'.returned = s.returned ∧ s'.client.pending = 1 ∨
        ∃ r, s'.returned = s.returned ++ [r] ∧ s'.client.pending = 0) := by
  obtain ⟨t, d, hc, hs'⟩ := recv_eq_some h
  have hpending : s.client.pending = 1 := by
    rcases hc with ⟨hc, -⟩ | hc <;> rw [hc] <;> rfl
  rcases hs' with ⟨-, rfl⟩ | ⟨-, rfl⟩
  · exact ⟨rfl, hpending, .inr ⟨_, rfl, rfl⟩⟩
  · exact ⟨rfl, hpending, .inl ⟨rfl, rfl⟩⟩

theorem next_send (h : next s (.send t reply) = some s') :
    s.client = .free ∧ s' = { s with
      client := .waiting t, flight := s.flight ++ reply, replies := s.replies ++ [(t, reply)] } := by
  cases hc : s.client <;> simp only [next, hc] at h
  case free => exact ⟨rfl, (Option.some.inj h).symm⟩
  all_goals cases h

variable {e : Event T B}

theorem Counted.next (h : Counted s) (hstep : next s e = some s') : Counted s' := by
  cases e with
  | send t reply =>
    obtain ⟨hc, rfl⟩ := next_send hstep
    rw [Counted, hc] at h
    show s.returned.length + 1 = (s.replies ++ [(t, reply)]).length
    rw [List.length_append, ← h]
    rfl
  | arrive n =>
    obtain rfl := Option.some.inj hstep
    exact h
  | recv =>
    obtain ⟨hreplies, hpending, ⟨hret, hfree⟩ | ⟨r, hret, hfree⟩⟩ := recv_cases hstep
    · rwa [Counted, hreplies, hret, hfree, ← hpending]
    · rw [Counted, hpending] at h
      rw [Counted, hreplies, hret, hfree, List.length_append, ← h]
      rfl

/-- What has been returned wrongly stays wrong. -/
theorem not_prefix_next (hcount : Counted s)
    (hstep : next s e = some s') (h : ¬ s.returned <+: s.replies) :
    ¬ s'.returned <+: s'.replies := by
  cases e with
  | send t reply =>
    obtain ⟨-, rfl⟩ := next_send hstep
    intro hpre
    have hlen : s.returned.length ≤ s.replies.length := by
      rw [← hcount]
      exact Nat.le_add_right ..
    exact h (List.prefix_of_prefix_length_le hpre (List.prefix_append ..) hlen)
  | arrive n =>
    obtain rfl := Option.some.inj hstep
    exact h
  | recv =>
    obtain ⟨hreplies, -, ⟨hret, -⟩ | ⟨r, hret, -⟩⟩ := recv_cases hstep
    · rwa [hreplies, hret]
    · rw [hreplies, hret]
      exact fun hpre => h ((List.prefix_append ..).trans hpre)

/-! ## The run -/

theorem Good.returned_prefix (h : Good s) : s.returned <+: s.replies := by
  cases hc : s.client with
  | free =>
    rw [Good, hc] at h
    exact h.2 ▸ List.prefix_rfl
  | waiting t =>
    rw [h.replies_eq (.inl ⟨hc, rfl⟩)]
    exact List.prefix_append ..
  | draining t data =>
    rw [h.replies_eq (.inr hc)]
    exact List.prefix_append ..

/-- One step from a state in which nothing has gone wrong. -/
theorem Good.next (h : Good s) (hstep : next s e = some s') :
    (Guard s e → Good s') ∧ (¬ Guard s e → ¬ s'.returned <+: s'.replies) := by
  cases e with
  | send t reply =>
    refine ⟨fun _ => ?_, fun hG => absurd trivial hG⟩
    obtain ⟨hc, rfl⟩ := next_send hstep
    rw [Good, hc] at h
    show s.replies ++ [(t, reply)] = s.returned ++ [(t, s.buffer ++ (s.flight ++ reply))]
    rw [h.2, ← List.append_assoc, h.1]
    rfl
  | arrive n =>
    obtain rfl := Option.some.inj hstep
    exact ⟨fun _ => h.arrive n, fun hG => absurd trivial hG⟩
  | recv => exact h.recv hstep

theorem good_or_wrong {h : List (Conn T B × Event T B)} (hrun : Run connection h s) :
    Counted s ∧ (Guarded Guard h ∧ Good s ∨ ¬ Guarded Guard h ∧ ¬ s.returned <+: s.replies) := by
  induction hrun with
  | start h0 =>
    rw [show _ = Conn.init from h0]
    exact ⟨rfl, .inl ⟨guarded_nil _, rfl, rfl⟩⟩
  | @snoc h s s' e _ hstep ih =>
    obtain ⟨hcount, ih⟩ := ih
    refine ⟨hcount.next hstep, ?_⟩
    rw [guarded_cons]
    rcases ih with ⟨hG, hgood⟩ | ⟨hG, hwrong⟩
    · obtain ⟨hright, hwrong⟩ := hgood.next hstep
      by_cases hnow : Guard s e
      · exact .inl ⟨⟨hnow, hG⟩, hright hnow⟩
      · exact .inr ⟨fun hall => hnow hall.1, hwrong hnow⟩
    · exact .inr ⟨fun hall => hG hall.2, not_prefix_next hcount hstep hwrong⟩

/-! ## Every reply comes to be returned -/

/-- With nothing under way, reading on returns the rest. -/
theorem Good.drain (h : Good s) (hflight : s.flight = [])
    (hbusy : (∃ t, s.client = .waiting t ∧ s.buffer ≠ []) ∨ ∃ t data, s.client = .draining t data) :
    ∃ s', Reaches connection Guard s s' ∧ s'.client = .free ∧ s'.returned = s.replies := by
  -- by what is left to read: a read takes something, or it is the last one
  induction hn : s.buffer.length using Nat.strongRecOn generalizing s with
  | ind n ih =>
    have hG : Guard s .recv := .inr hflight
    obtain ⟨s', hstep⟩ : ∃ s', SppCtl.recv s = some s' := by
      unfold SppCtl.recv
      rcases hbusy with ⟨t, hc, hne⟩ | ⟨t, data, hc⟩
      · simp only [hc, if_neg hne]
        split <;> exact ⟨_, rfl⟩
      · simp only [hc]
        split <;> exact ⟨_, rfl⟩
    have hgood := (h.recv hstep).1 hG
    have hreach : Reaches connection Guard s s' := .single ⟨.recv, hG, hstep⟩
    obtain ⟨t, d, -, ⟨-, rfl⟩ | ⟨hle, rfl⟩⟩ := recv_eq_some hstep
    · exact ⟨_, hreach, rfl, hgood.2⟩
    have hbuf : (s.buffer.drop msgSize).length < n := by
      have hpos : 0 < msgSize := by decide
      rw [List.length_drop]
      omega
    obtain ⟨s'', hreach', hfree, hret⟩ := ih _ hbuf hgood hflight (.inr ⟨t, _, rfl⟩) rfl
    exact ⟨s'', hreach.trans hreach', hfree, hret⟩

theorem Good.completes (h : Good s)
    (hlast : s.replies.getLast? = some (t, reply)) (hne : reply ≠ []) (hbusy : s.client ≠ .free) :
    ∃ s', Reaches connection Guard s s' ∧ s'.client = .free ∧ s'.returned = s.replies := by
  let s₁ : Conn T B := { s with
    flight := s.flight.drop s.flight.length, buffer := s.buffer ++ s.flight.take s.flight.length }
  have harrive : Reaches connection Guard s s₁ := .single ⟨.arrive s.flight.length, trivial, rfl⟩
  have hflight : s₁.flight = [] := List.drop_length
  have hbuffer : s₁.buffer = s.buffer ++ s.flight := congrArg _ List.take_length
  obtain ⟨s', hreach, hfree, hret⟩ := (h.arrive s.flight.length).drain hflight (by
    show (∃ t, s.client = .waiting t ∧ s₁.buffer ≠ []) ∨ ∃ t data, s.client = .draining t data
    rw [hbuffer]
    cases hc : s.client with
    | free => exact absurd hc hbusy
    | waiting u =>
      rw [Good, hc] at h
      refine .inl ⟨u, rfl, ?_⟩
      rw [h, List.getLast?_concat] at hlast
      rwa [(Prod.mk.inj (Option.some.inj hlast)).2]
    | draining u data => exact .inr ⟨u, data, rfl⟩)
  exact ⟨s', harrive.trans hreach, hfree, hret⟩

/-- **Replies and commands.**  What `_send_command` has returned is, command by command,
the reply to that command, exactly if every `recv` has found `MSG_SIZE` bytes or nothing
under way.  And then the reply to the command under way, unless it is empty, can be
returned as well. -/
theorem paired_iff {h : List (Conn T B × Event T B)} {s : Conn T B} (hrun : Run connection h s) :
    (s.returned <+: s.replies ↔ Guarded Guard h) ∧
      (Guarded Guard h → s.client ≠ .free → ∀ t reply, s.replies.getLast? = some (t, reply) →
        reply ≠ [] →
        ∃ s', Reaches connection Guard s s' ∧ s'.client = .free ∧ s'.returned = s.replies) := by
  obtain ⟨-, ⟨hG, hgood⟩ | ⟨hG, hwrong⟩⟩ := good_or_wrong hrun
  · exact ⟨iff_of_true hgood.returned_prefix hG, fun _ hbusy t reply hlast hne =>
      hgood.completes hlast hne hbusy⟩
  · exact ⟨iff_of_false hwrong hG, fun hG' => absurd hG' hG⟩

/-- Two threads, each with a reply that has arrived when it is read. -/
theorem paired_iff_two : ∃ h s, Run (connection : System (Conn ℕ Char) (Event ℕ Char)) h s ∧
    s.replies = [(1, "ok".toList), (2, "no".toList)] ∧ s.returned <+: s.replies ∧
    s.returned = [(1, "ok".toList), (2, "no".toList)] := by
  obtain ⟨h, s, hrun, -, hG, hreplies, hret⟩ := Transition.exists_guarded_run
    (fun s e => Guard s e) of_decide_eq_true (Conn.init : Conn ℕ Char) next
    [.send 1 "ok".toList, .arrive 1, .arrive 1, .recv, .send 2 "no".toList, .arrive 2, .recv]
    (fun s => s.replies = [(1, "ok".toList), (2, "no".toList)] ∧
      s.returned = [(1, "ok".toList), (2, "no".toList)]) (by decide)
  exact ⟨h, s, hrun, hreplies, (paired_iff hrun).1.mpr hG, hret⟩

/-- A reply in two segments: the first command gets half of it, and the second command the
other half. -/
theorem not_paired_of_segments : ∃ h s,
    Run (connection : System (Conn ℕ Char) (Event ℕ Char)) h s ∧
    s.replies = [(1, "ok".toList), (2, "no".toList)] ∧
    s.returned = [(1, "o".toList), (2, "k".toList)] := by
  obtain ⟨h, s, hrun, -, hs⟩ := Transition.exists_run_of_any (Conn.init : Conn ℕ Char) next
    [.send 1 "ok".toList, .arrive 1, .recv, .send 2 "no".toList, .arrive 1, .recv]
    (fun s => s.replies = [(1, "ok".toList), (2, "no".toList)] ∧
      s.returned = [(1, "o".toList), (2, "k".toList)]) (by decide)
  exact ⟨h, s, hrun, hs⟩

end SoftPatchPanel.SppCtl
