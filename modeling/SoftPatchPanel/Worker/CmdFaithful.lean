import SoftPatchPanel.Worker.CmdMishandled
import SoftPatchPanel.Worker.Placement

/-!
# The parser and the documentation

The commands one by one are put together (`wrong_parseWkCmd_iff`): the result of the
parser is a fault, or a command that the documentation does not have, exactly if the
request is on the list of `Worker.CmdMishandled`.  Since the parser understands the whole
documented language, this says when it does what the documentation says.

The argument needs one fact about the state: a name that is already in the component
table fits its field, so a request that repeats it does not run out of a buffer.  It
holds in every state that a worker can reach, because names get into the table through
the parser only.
-/

namespace SoftPatchPanel.Worker

open Transition

variable {P : Platform} {m : MngData} {arg req : CString} {c : CmdComp} {s : State}

/-! ## Every request -/

theorem wrong_parseWkCmd_iff (hfit : NamesFit P m) (req : CString) :
    Wrong (Documented P m (CString.tokens ' ' req)) (parseWkCmd P m req) ↔ Mishandled P m req := by
  rw [wrong_parseWkCmd hfit, Mishandled]
  refine or_congr_right ?_
  cases CString.tokens ' ' req with
  | nil => exact Iff.rfl
  | cons cmd args => exact misread_documented_iff hfit cmd args

theorem not_mishandled_of_documented (hP : P.FitsInt) (hfit : NamesFit P m)
    (hlen : req.length < sppwkMaxParams * sppwkValBufsz) {cmd : CmdAttrs}
    (hdoc : Documented P m (CString.tokens ' ' req) cmd) : ¬ Mishandled P m req := by
  rw [← wrong_parseWkCmd_iff hfit, parseWkCmd_of_documented hP hlen hdoc]
  exact not_not.mpr hdoc

/-- The parser does what the documentation says exactly if its result is not wrong:
what it refuses without a fault is not documented. -/
theorem faithful_iff_not_wrong (hP : P.FitsInt) (req : CString) :
    Faithful P m req ↔
      ¬ Wrong (Documented P m (CString.tokens ' ' req)) (parseWkCmd P m req) := by
  have hcomplete {cmd : CmdAttrs} {r : Except ParseErrMsg CmdAttrs}
      (hdoc : Documented P m (CString.tokens ' ' req) cmd) (hr : parseWkCmd P m req = .ok r) :
      r = .ok cmd := by
    unfold parseWkCmd at hr
    split at hr
    · cases hr
    · rw [if_neg (Nat.not_lt.mpr hdoc.length_le), parseTokens_of_documented hP hdoc] at hr
      exact (Except.ok.inj hr).symm
  constructor
  · rintro ⟨r, hr, hiff⟩ hwrong
    rw [hr] at hwrong
    cases r with
    | error e => exact hwrong
    | ok cmd => exact hwrong ((hiff cmd).mp rfl)
  intro hright
  cases hr : parseWkCmd P m req with
  | error f =>
    rw [hr] at hright
    exact absurd trivial hright
  | ok r =>
    refine ⟨r, hr, fun cmd => ⟨?_, fun hdoc => hcomplete hdoc hr⟩⟩
    rintro rfl
    rw [hr] at hright
    exact not_not.mp hright

/-! ## Every state -/

theorem copyName_length {name : CString} (h : copyName arg = .ok (some name)) :
    name.length < sppwkNameBufsz := by
  unfold copyName at h
  split at h
  · cases h
  split at h
  · cases h
  · rename_i hlt
    cases h
    exact Nat.not_le.mp hlt

theorem parseCompName_length {c' : CmdComp}
    (h : parseCompName P m c arg = .ok (some c')) : c'.name.length < sppwkNameBufsz := by
  unfold parseCompName at h
  split at h
  · cases h
  · obtain ⟨o, ho, h⟩ := bind_eq_ok.mp h
    obtain ⟨n, rfl, rfl⟩ := Option.map_eq_some_iff.mp (Except.ok.inj h)
    exact copyName_length ho

/-- The name of a `component` command that has been accepted fits its field. -/
theorem name_length_lt_of_parse
    (h : parseWkCmd P m req = .ok (.ok (.worker c))) : c.name.length < sppwkNameBufsz := by
  obtain ⟨-, _, -, _, c₂, -, -, h₂, _, -, _, rfl, -⟩ := parseWkCmd_worker_cases h
  have hlen := parseCompName_length h₂
  exact hlen

theorem NamesFit.change {cmd : CmdAttrs} {m' : MngData} (h : NamesFit P m)
    (hparse : parseWkCmd P m req = .ok (.ok cmd)) (hchange : Change P m cmd m') :
    NamesFit P m' := by
  intro id hid
  cases hchange.slot id with
  | kept hcomp =>
    rw [hcomp]
    exact h id hid
  | started hcmd _ _ hcomp =>
    rw [hcomp]
    exact name_length_lt_of_parse (hcmd ▸ hparse)
  | stopped _ _ _ hzero =>
    rw [hzero]
    decide
  | edited _ hname =>
    rw [hname]
    exact h id hid

theorem NamesFit.step {s' : State} {e : Request} (h : NamesFit P s.mng)
    (hstep : handleRequest P s e = some s') : NamesFit P s'.mng := by
  rcases handleRequest_cases hstep with rfl | ⟨cmd, m₁, ret, hparse, -, hchange, hflush⟩
  · exact h
  · intro i hi
    rw [(flushCmd_effect hflush).comp]
    exact h.change hparse hchange i hi

theorem namesFit_of_run {h : List (State × Request)}
    (hrun : Run (workerSystem P) h s) : NamesFit P s.mng := by
  refine hrun.invariant (I := fun s => NamesFit P s.mng) (G := fun _ _ => True) ?_ ?_ fun _ _ => trivial
  · rintro _ rfl i -
    exact (by decide : ([] : CString).length < sppwkNameBufsz)
  · intro s e s' hs _ hstep
    exact hs.step hstep

/-- **The parser and the documentation.**  In every state that a worker can reach, the
parser stays within its buffers and accepts a request, as a command, exactly if the
documentation has the request for that command, if and only if the request is not one
of those that are mishandled. -/
theorem faithful_iff_not_mishandled (P : Platform) (hP : P.FitsInt)
    {h : List (State × Request)} {s : State} (hrun : Run (workerSystem P) h s) (req : CString) :
    Faithful P s.mng req ↔ ¬ Mishandled P s.mng req := by
  rw [faithful_iff_not_wrong hP, wrong_parseWkCmd_iff (namesFit_of_run hrun)]

theorem not_mishandled_component_start :
    ¬ Mishandled (.sample .vf) (startUp (.sample .vf)).mng
      "component start fwd 2 forward" := by
  rintro (hlong | ⟨-, ⟨-, -, hcomp⟩ | ⟨hcmd, -⟩ | ⟨hcmd, -⟩ | ⟨hcmd, -⟩⟩)
  · exact absurd hlong (by decide)
  · rcases hcomp with hname | ⟨-, -, hstart⟩ | ⟨hact, -⟩
    · exact absurd hname (by decide)
    · rcases hstart with ⟨htype, -⟩ | ⟨-, hval⟩
      · exact absurd htype (by decide)
      · exact hval (by decide)
    · cases hact
  all_goals exact absurd hcmd (by decide)

theorem faithful_component_start :
    Faithful (.sample .vf) (startUp (.sample .vf)).mng "component start fwd 2 forward" :=
  (faithful_iff_not_mishandled (.sample .vf) ⟨by decide, by decide⟩ (.start rfl) _).mpr
    not_mishandled_component_start

/-- **Requests that the parser mishandles.**  A `component start` without lcore and type
is accepted, for lcore 0 and without a type; and a name of 40 characters is copied into
a field of 32. -/
theorem not_faithful_component_start :
    (parseWkCmd (.sample .vf) (startUp (.sample .vf)).mng "component start fwd" =
        .ok (.ok (.worker ⟨.start, "fwd", 0, .none⟩)) ∧
      ¬ Faithful (.sample .vf) (startUp (.sample .vf)).mng "component start fwd") ∧
    parseWkCmd (.sample .vf) (startUp (.sample .vf)).mng
        "component stop aaaaaaaaaaaaaaaaaaaaaaaaaaaaaaaaaaaaaaaa" = .error .undefined ∧
      ¬ Faithful (.sample .vf) (startUp (.sample .vf)).mng
        "component stop aaaaaaaaaaaaaaaaaaaaaaaaaaaaaaaaaaaaaaaa" := by
  have hshort : parseWkCmd (.sample .vf) (startUp (.sample .vf)).mng
      "component start fwd" = .ok (.ok (.worker ⟨.start, "fwd", 0, .none⟩)) := by
    decide +kernel
  have hlong : parseWkCmd (.sample .vf) (startUp (.sample .vf)).mng
      "component stop aaaaaaaaaaaaaaaaaaaaaaaaaaaaaaaaaaaaaaaa" = .error .undefined := by
    decide +kernel
  refine ⟨⟨hshort, ?_⟩, hlong, ?_⟩
  · rintro ⟨r, hr, hiff⟩
    obtain rfl := Except.ok.inj (hshort.symm.trans hr)
    obtain ⟨args, hargs, -, ⟨core, type, rfl, -⟩ | ⟨-, hact, -⟩⟩ := (hiff _).mp rfl
    · have htoks : (CString.tokens ' ' "component start fwd").length = 3 := by decide +kernel
      rw [hargs] at htoks
      cases htoks
    · cases hact
  · rintro ⟨r, hr, -⟩
    exact absurd (hlong.symm.trans hr) (by simp)

end SoftPatchPanel.Worker
