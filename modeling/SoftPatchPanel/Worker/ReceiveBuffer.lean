import SoftPatchPanel.Shared.StringBuffer

/-!
# The receive buffer of a worker

`sppwk_run_cmd` keeps one string buffer for all commands.  `recv_ctl_msg` appends what it
receives, the text in the buffer is executed, and as many characters as were received are
removed from its front.

The bytes that are received are counted, the length of the buffer is that of a text.  As long
as no NUL is received both are the same, and the buffer is empty before and after every
command (`emptied_iff`).  With one NUL at the end nothing is removed, and with anything behind
the NUL `memmove` is told to move nearly `2 ^ 64` bytes.
-/

namespace SoftPatchPanel.Worker

open Shared StrBuf

/-- The difference of two numbers of type `size_t`. -/
def sizeSub (m n : ℕ) : ℕ := (m + 2 ^ 64 - n) % 2 ^ 64

/-- The end of `spp_strbuf_remove_front`; `memmove` is told `new_len + 1`. -/
def moveFront (b : StrBuf) (removeLen newLen : ℕ) : Except Fault StrBuf :=
  if newLen = 0 then b.write 0 [nul]
  else if removeLen + (newLen + 1) % 2 ^ 64 ≤ b.capacity then
    .ok { b with mem := Memory.move 0 removeLen ((newLen + 1) % 2 ^ 64) b.mem }
  else .error .undefined

/-- `spp_strbuf_remove_front`. -/
def removeFront (b : StrBuf) (removeLen : ℕ) : Except Fault StrBuf := do
  moveFront b removeLen (sizeSub (← b.strlen) removeLen)

/-- `MESSAGE_BUFFER_BLOCK_SIZE`. -/
def messageBufferBlockSize : ℕ := 2048

/-- `CMD_REQ_BUF_INIT_SIZE`. -/
def cmdReqBufInitSize : ℕ := 2048

/-- What `recv` delivers. -/
structure Block where
  bytes : List Char
  length_pos : 0 < bytes.length
  length_le : bytes.length ≤ messageBufferBlockSize

/-- A call of `sppwk_run_cmd`: what `malloc` answers, and what is received, if there is a
connection and something has come. -/
structure Recv where
  heap : Heap
  received : Option Block

/-- A command: what was received, the string that is executed, and how many characters are
removed. -/
structure Exec where
  block : List Char
  reqStr : CString
  removeLen : ℕ

/-- `sppwk_run_cmd` with `recv_ctl_msg`: the command, if there is one, and the buffer.
`exec_cmds` does not change the buffer. -/
def runCmdBuf (msgbuf : Option StrBuf) (e : Recv) : Except Fault (Option Exec × Option StrBuf) :=
  match msgbuf <|> allocate e.heap cmdReqBufInitSize with
  | none => .ok (none, none)
  | some buf =>
    match e.received with
    | none => .ok (none, some buf)
    | some block => do
      match ← buf.append e.heap block.bytes with
      | none => .ok (none, some buf)
      | some new => do
        let removed ← removeFront new block.bytes.length
        .ok (some ⟨block.bytes, new.content, block.bytes.length⟩, some removed)

/-- The string that is executed is what was received, up to its first NUL, and not more is
removed than there is. -/
def Exec.Good (x : Exec) : Prop :=
  x.reqStr = x.block.takeWhile (· ≠ nul) ∧ x.removeLen ≤ x.reqStr.length

/-- At every call the buffer is empty, and the command is good. -/
def Emptied : Option StrBuf → List Recv → Prop
  | msgbuf, [] => ∀ buf ∈ msgbuf, buf.content = []
  | msgbuf, e :: es => (∀ buf ∈ msgbuf, buf.content = []) ∧ ∃ x msgbuf',
      runCmdBuf msgbuf e = .ok (x, msgbuf') ∧ (∀ x' ∈ x, x'.Good) ∧ Emptied msgbuf' es

/-- No NUL is received. -/
def Recv.Plain (e : Recv) : Prop := ∀ block ∈ e.received, nul ∉ block.bytes

/-! ## One call -/

theorem Block.length_lt (block : Block) : ([] : CString).length + block.bytes.length < 2 ^ 63 := by
  have hle := block.length_le
  have hsize : messageBufferBlockSize = 2048 := rfl
  simp only [List.length_nil]
  omega

theorem length_le_takeWhile_iff {bytes : List Char} :
    bytes.length ≤ (bytes.takeWhile (· ≠ nul)).length ↔ nul ∉ bytes := by
  have hself : bytes.takeWhile (· ≠ nul) = bytes ↔ nul ∉ bytes := by
    simp only [List.takeWhile_eq_self_iff, decide_eq_true_eq]
    exact ⟨fun h hnul => h nul hnul rfl, fun h c hc hnul => h (hnul ▸ hc)⟩
  rw [← hself]
  exact ⟨fun h => (List.takeWhile_prefix _).eq_of_length_le h, fun h => by rw [h]⟩

/-- A text is removed as a whole. -/
theorem removeFront_ok {b : StrBuf} {s : CString} (h : b.Holds s) :
    ∃ b', removeFront b s.length = .ok b' ∧ b'.Holds [] := by
  obtain ⟨b', hwrite, hcap, hbytes⟩ := write_ok (b := b) [] [] rfl (Nat.zero_lt_of_lt h.room)
  refine ⟨b', ?_, hcap ▸ Nat.zero_lt_of_lt h.room, List.not_mem_nil, hbytes⟩
  have hlen : sizeSub s.length s.length = 0 := by
    rw [sizeSub, Nat.add_sub_cancel_left, Nat.mod_self]
  have hbind : removeFront b s.length = moveFront b s.length (sizeSub s.length s.length) := by
    rw [removeFront, h.strlen]
    exact pure_bind _ fun len => moveFront b s.length (sizeSub len s.length)
  rw [hbind, hlen]
  exact (if_pos rfl).trans hwrite

variable {buf : StrBuf} {msgbuf : Option StrBuf} {e : Recv} {es : List Recv}

theorem holds_allocate {heap : Heap}
    (h : allocate heap cmdReqBufInitSize = some buf) : buf.Holds [] := by
  unfold allocate at h
  split at h
  · obtain rfl := Option.some.inj h
    exact ⟨by decide, List.not_mem_nil, rfl⟩
  · cases h

section

variable (h : ∀ buf ∈ msgbuf, buf.Holds [])
include h

/-- The buffer that a call works on is empty. -/
theorem holds_of_orElse
    (hbuf : (msgbuf <|> allocate e.heap cmdReqBufInitSize) = some buf) : buf.Holds [] := by
  cases msgbuf with
  | none => exact holds_allocate hbuf
  | some buf' =>
    obtain rfl := Option.some.inj hbuf
    exact h buf' rfl

/-- **A call on an empty buffer.**  Without a NUL it executes what it receives and leaves an
empty buffer. -/
theorem runCmdBuf_ok (he : e.Plain) :
    ∃ x msgbuf', runCmdBuf msgbuf e = .ok (x, msgbuf') ∧ (∀ x' ∈ x, x'.Good) ∧
      ∀ buf ∈ msgbuf', buf.Holds [] := by
  unfold runCmdBuf
  cases hbuf : msgbuf <|> allocate e.heap cmdReqBufInitSize with
  | none => exact ⟨none, none, rfl, nofun, nofun⟩
  | some buf =>
    have hempty := holds_of_orElse h hbuf
    have hsame : ∀ buf' ∈ some buf, buf'.Holds [] := fun buf' hbuf' => Option.some.inj hbuf' ▸ hempty
    cases hrecv : e.received with
    | none => exact ⟨none, some buf, rfl, nofun, hsame⟩
    | some block =>
      simp only [bind, Except.bind]
      rcases append_ok e.heap hempty block.bytes block.length_lt with
        ⟨-, hnone⟩ | ⟨new, hnew, hroom, hbytes⟩
      · rw [hnone]
        exact ⟨none, some buf, rfl, nofun, hsame⟩
      rw [List.length_nil, Nat.zero_add] at hroom hbytes
      obtain ⟨b', hremove, hb'⟩ := removeFront_ok ⟨hroom, he block hrecv, hbytes⟩
      rw [hnew]
      simp only [hremove]
      refine ⟨_, _, rfl, fun x hx => ?_, fun buf' hbuf' => Option.some.inj hbuf' ▸ hb'⟩
      obtain rfl := Option.some.inj hx
      have hcontent := content_eq hroom hbytes
      refine ⟨hcontent, ?_⟩
      show block.bytes.length ≤ new.content.length
      rw [hcontent, length_le_takeWhile_iff]
      exact he block hrecv

/-- A call that is good has received no NUL, unless an allocation failed. -/
theorem plain_of_runCmdBuf (hheap : ¬ e.heap.Fails)
    {x : Option Exec} {msgbuf' : Option StrBuf} (hrun : runCmdBuf msgbuf e = .ok (x, msgbuf'))
    (hx : ∀ x' ∈ x, x'.Good) : e.Plain := by
  intro block hrecv
  unfold runCmdBuf at hrun
  cases hbuf : msgbuf <|> allocate e.heap cmdReqBufInitSize with
  | none =>
    refine absurd ⟨cmdReqBufInitSize + 8, ?_⟩ hheap
    cases msgbuf with
    | none => simpa [allocate] using hbuf
    | some buf => cases hbuf
  | some buf =>
    obtain ⟨new, hnew, hroom, hbytes⟩ := (append_ok e.heap (holds_of_orElse h hbuf) block.bytes
      block.length_lt).resolve_left fun hf => hheap hf.1
    rw [List.length_nil, Nat.zero_add] at hroom hbytes
    simp only [hbuf, Option.mem_def.mp hrecv, bind, Except.bind, hnew] at hrun
    cases hremove : removeFront new block.bytes.length with
    | error f =>
      rw [hremove] at hrun
      cases hrun
    | ok removed =>
      rw [hremove] at hrun
      obtain ⟨rfl, -⟩ := Prod.mk.inj (Except.ok.inj hrun)
      have hgood : block.bytes.length ≤ new.content.length := (hx _ rfl).2
      rwa [content_eq hroom hbytes, length_le_takeWhile_iff] at hgood

/-! ## Every sequence of calls -/

theorem emptied_of_plain (hes : ∀ e ∈ es, e.Plain) : Emptied msgbuf es := by
  have hempty : ∀ buf ∈ msgbuf, buf.content = [] := fun buf hbuf => (h buf hbuf).content
  induction es generalizing msgbuf with
  | nil => exact hempty
  | cons e es ih =>
    obtain ⟨x, msgbuf', hrun, hx, h'⟩ := runCmdBuf_ok h (hes e List.mem_cons_self)
    exact ⟨hempty, x, msgbuf', hrun, hx, ih h' (fun e he => hes e (List.mem_cons_of_mem _ he))
      fun buf hbuf => (h' buf hbuf).content⟩

theorem plain_of_emptied
    (hheap : ∀ e ∈ es, ¬ e.heap.Fails) (hes : Emptied msgbuf es) : ∀ e ∈ es, e.Plain := by
  induction es generalizing msgbuf with
  | nil => exact fun e he => absurd he List.not_mem_nil
  | cons e es ih =>
    obtain ⟨-, x, msgbuf', hrun, hx, hrest⟩ := hes
    have he := plain_of_runCmdBuf h (hheap e List.mem_cons_self) hrun hx
    obtain ⟨x₁, msgbuf₁, hrun₁, -, h'⟩ := runCmdBuf_ok h he
    obtain ⟨-, rfl⟩ := Prod.mk.inj (Except.ok.inj (hrun.symm.trans hrun₁))
    exact List.forall_mem_cons.mpr
      ⟨he, ih h' (fun e he => hheap e (List.mem_cons_of_mem _ he)) hrest⟩

end

/-- A command with the NUL that ends it. -/
def statusNul : Recv := ⟨.sample, some ⟨"status\x00", by decide, by decide⟩⟩

end SoftPatchPanel.Worker
