import Mathlib.Data.List.Perm.Subperm
import Semnav.ForStd.List
import Semnav.Spec.SessionInv

/-!
# What a call of a serve process returns

A `ReconnectingDaemonClient::call` may send its request twice, and the first one may have reached
the daemon before its connection was lost.

## Key results

- `answered_during`: an answer was come to in the run, after its request was dispatched
- `calls_answered`: a call that has returned an answer has returned what a daemon came to for that
  very request, and the daemons were asked just what the callers were, twice at most for one call
-/

namespace Semnav.Daemon

open Semnav.ForStd

variable {Req Val σ : Type}

section Run

variable {D : Service Req Val σ} {env : σ → σ → Prop} {S S' : Session Req Val σ} {s : σ}

/-- The daemon comes to this result of the request, in this state of it. -/
def Service.Computes (D : Service Req Val σ) (request : Req) (s : σ) (result : Except String Val) :
    Prop :=
  (D.stop request = none ∧ ∃ s', D.dispatch request s result s') ∨
    ∃ value, D.stop request = some value ∧ result = .ok value

/-- An answer that is new after a step is one that the daemon has come to in it. -/
private theorem SessionStep.computes (h : SessionStep D env S S')
    {x : Dispatched Req × Except String Val}
    (hx : x ∈ S'.answered) : x ∈ S.answered ∨
      (S.connections x.1.link).serving = some (x.1.id, x.1.request) ∧
        D.Computes x.1.request S.daemon x.2 := by
  cases h with
  -- Only serving adds an answer: the dispatcher's, or the one given to a stop.
  | answer hserving hstop hdispatch =>
    cases List.mem_append.mp hx with
    | inl hold => exact .inl hold
    | inr hnew =>
      cases List.mem_singleton.mp hnew
      exact .inr ⟨hserving, .inl ⟨hstop, _, hdispatch⟩⟩
  | stop hserving hstop =>
    cases List.mem_append.mp hx with
    | inl hold => exact .inl hold
    | inr hnew =>
      cases List.mem_singleton.mp hnew
      exact .inr ⟨hserving, .inr ⟨_, hstop, rfl⟩⟩
  | _ => exact .inl hx

/-- An answer was come to in a state of the run in which its request had been dispatched. -/
private theorem answered_during (hrun : SessionRun D env (.boot s) S)
    {x : Dispatched Req × Except String Val} (hx : x ∈ S.answered) :
    ∃ mid, SessionRun D env (.boot s) mid ∧ SessionRun D env mid S ∧ x.1 ∈ mid.dispatched ∧
      D.Computes x.1.request mid.daemon x.2 := by
  induction hrun with
  | refl => exact absurd hx List.not_mem_nil
  | @tail mid S' hmid hstep ih =>
    cases hstep.computes hx with
    | inl hold =>
      obtain ⟨m, hm, hrest, hd⟩ := ih hold
      exact ⟨m, hm, hrest.tail hstep, hd⟩
    | inr hnew =>
      obtain ⟨pc, hk⟩ := (session_inv hmid).links x.1.link
      exact ⟨mid, hmid, .single hstep, mem_taken.mp (hk.daemon.serving _ hnew.1), hnew.2⟩

/-- The request is one that was sent for the caller. -/
def Session.Owns (S : Session Req Val σ) (n : Nat) (d : Dispatched Req) : Prop :=
  ∃ x ∈ S.sentBy n, x.link = d.link ∧ x.slot = d.id ∧ x.request = d.request

/-- A request dispatched is a caller's. -/
private theorem Session.Inv.owns (hS : S.Inv) {d : Dispatched Req} (hd : d ∈ S.dispatched) :
    ∃ m, S.Owns m d ∧ S.asked m = some d.request := by
  obtain ⟨pc, hk⟩ := hS.links d.link
  obtain ⟨x, hx, hlink, hslot, hrequest⟩ := hk.daemon.known (d.id, d.request) (mem_taken.mpr hd)
  have hmem : x ∈ S.sentBy x.caller := List.mem_filter.mpr ⟨hx, beq_self_eq_true _⟩
  obtain ⟨pcₙ, hn⟩ := hS.callers x.caller
  refine ⟨x.caller, ⟨x, hmem, hlink, hslot, hrequest⟩, ?_⟩
  rw [hn.own x hmem, hrequest]

/-- The link and the number of a command are its own. -/
private theorem Session.Inv.eq_of_slot (hS : S.Inv) {x y : Sent Req} (hx : x ∈ S.sent)
    (hy : y ∈ S.sent)
    (hlink : x.link = y.link) (hslot : x.slot = y.slot) : x = y :=
  List.inj_on_of_nodup_map hS.unique hx hy (Prod.ext hlink hslot)

/-- A command was dispatched once. -/
private theorem Session.Inv.once (hS : S.Inv) :
    (S.dispatched.map fun d => (d.link, d.id)).Nodup := by
  apply List.nodup_map_pair fun d : Dispatched Req => d.link
  intro k
  obtain ⟨pc, hk⟩ := hS.links k
  have honce := (List.nodup_append.mp hk.daemon.once).1
  rwa [Session.taken, List.map_map] at honce

/-- A command is dispatched once at most. -/
theorem Session.Inv.dispatches (hS : S.Inv) {n : Nat} {ds : List (Dispatched Req)}
    (hds : ds.Sublist S.dispatched) (howns : ∀ d ∈ ds, S.Owns n d) :
    ds.length ≤ (S.sentBy n).length := by
  have hnodup : (ds.map fun d => (d.link, d.id)).Nodup := hS.once.sublist (hds.map _)
  have hsub : ds.map (fun d => (d.link, d.id)) ⊆ (S.sentBy n).map fun x => (x.link, x.slot) := by
    intro p hp
    obtain ⟨d, hd, rfl⟩ := List.mem_map.mp hp
    obtain ⟨x, hx, hlink, hslot, -⟩ := howns d hd
    exact List.mem_map.mpr ⟨x, hx, Prod.ext hlink hslot⟩
  have hle := (hnodup.subperm hsub).length_le
  rwa [List.length_map, List.length_map] at hle

/-- What was sent stays sent. -/
theorem sent_mono (hrun : SessionRun D env S S') {x : Sent Req} (hx : x ∈ S.sent) : x ∈ S'.sent := by
  induction hrun with
  | refl => exact hx
  | tail _ hstep ih =>
    cases hstep with
    | send _ _ _ => exact List.mem_append_left _ ih
    | _ => exact ih

/-- The result is what a daemon came to, after the caller was asked, for a request that was sent for
    it and is what it was asked. -/
def AnswerOf (D : Service Req Val σ) (env : σ → σ → Prop) (s : σ) (S : Session Req Val σ) (n : Nat)
    (result : Except String Val) : Prop :=
  ∃ mid d, SessionRun D env (.boot s) mid ∧ SessionRun D env mid S ∧ d ∈ mid.dispatched ∧
    mid.Owns n d ∧ mid.asked n = some d.request ∧ S.asked n = some d.request ∧
    D.Computes d.request mid.daemon result

/-- A caller's answer is what the daemon computed for its request. -/
theorem answerOf (hrun : SessionRun D env (.boot s) S) {n : Nat} {pc : CallPc Req Val}
    (hpc : S.tasks.procs (.caller n) = .caller pc) {result : Except String Val}
    (hresult : pc.answer = some result) : AnswerOf D env s S n result := by
  have hS := session_inv hrun
  obtain ⟨pc', hn⟩ := hS.callers n
  cases hn.caller.symm.trans hpc
  obtain ⟨x, hx, y, hy, hlink, hslot, rfl⟩ := hn.answer result hresult
  obtain ⟨mid, hmid, hrest, hd, hcomputes⟩ := answered_during hrun hy
  obtain ⟨m, howns, hasked⟩ := (session_inv hmid).owns hd
  -- the command that was answered is that of the caller
  obtain ⟨z, hz, hzlink, hzslot, hzrequest⟩ := howns
  obtain ⟨hzmem, hzcaller⟩ := List.mem_filter.mp hz
  obtain ⟨hxmem, hxcaller⟩ := List.mem_filter.mp hx
  obtain rfl : z = x := hS.eq_of_slot (sent_mono hrest hzmem) hxmem (hzlink.trans hlink)
    (hzslot.trans hslot)
  cases (eq_of_beq hzcaller).symm.trans (eq_of_beq hxcaller)
  have hown : S.asked n = some y.1.request := by rw [hn.own z hx, hzrequest]
  exact ⟨mid, y.1, hmid, hrest, hd, ⟨z, hz, hzlink, hzslot, hzrequest⟩, hasked, hown, hcomputes⟩

/-- What a run has done for a caller. -/
structure Served (D : Service Req Val σ) (env : σ → σ → Prop) (s : σ) (S : Session Req Val σ)
    (n : Nat) : Prop where
  returned : ∀ attempt value, S.tasks.procs (.caller n) = .caller (.done attempt (.ok value)) →
    AnswerOf D env s S n (.ok value)
  refused : ∀ attempt msg,
    S.tasks.procs (.caller n) = .caller (.done attempt (.error (.answered msg))) →
      AnswerOf D env s S n (.error msg)
  /-- A daemon is asked nothing else. -/
  dispatched : ∀ d ∈ S.dispatched, ∃ m, S.Owns m d ∧ S.asked m = some d.request
  /-- It is asked twice at most for the same call. -/
  twice : ∀ ds : List (Dispatched Req), ds.Sublist S.dispatched → (∀ d ∈ ds, S.Owns n d) →
    ds.length ≤ 2
  /-- And once if the call was not retried. -/
  first : ∀ result, S.tasks.procs (.caller n) = .caller (.done .first result) →
    ∀ ds : List (Dispatched Req), ds.Sublist S.dispatched → (∀ d ∈ ds, S.Owns n d) → ds.length ≤ 1

/-- After every run, a call that has returned an answer has returned what a daemon came to for that
    very request, and the daemons were asked just what the callers were, twice at most for one call
    and once if it was not retried. -/
theorem calls_answered (hrun : SessionRun D env (.boot s) S) (n : Nat) : Served D env s S n := by
  have hS := session_inv hrun
  obtain ⟨pc, hn⟩ := hS.callers n
  refine ⟨?_, ?_, fun d hd => hS.owns hd, ?_, ?_⟩
  · exact fun attempt value hpc => answerOf hrun hpc rfl
  · exact fun attempt msg hpc => answerOf hrun hpc rfl
  · intro ds hds howns
    exact Nat.le_trans (Nat.le_trans (hS.dispatches hds howns) hn.sends) pc.sends_le
  · intro result hpc ds hds howns
    cases hn.caller.symm.trans hpc
    exact Nat.le_trans (hS.dispatches hds howns) hn.sends

end Run

/-- Restarts, and counts how often. -/
def restarting : Service String String Nat where
  dispatch _ n result n' := result = .ok "restarted" ∧ n' = n + 1
  stop request := if request = "Shutdown" then some "stopped" else none

/-- A call that is answered after a restart of the daemon. -/
theorem calls_answered_restarted : ∃ S : Session String String Nat,
    SessionRun restarting (fun _ _ => False) (.boot 0) S ∧
      S.tasks.procs (.caller 0) = .caller (.done .first (.ok "restarted")) ∧
      Served restarting (fun _ _ => False) 0 S 0 := by
  -- The call is sent, written, read by the daemon, answered, delivered and returned.
  have hrun : SessionRun restarting (fun _ _ => False) (.boot 0) _ := .single
    (.call (show Processes.step taskStep _ (.caller 0) (.call "RestartLsp") = some _ from rfl))
  have hrun := hrun.tail (.silent (t := .caller 0) (e := .go) trivial rfl)
  have hrun := hrun.tail (.silent (t := .caller 0) (e := .go) trivial rfl)
  have hrun := hrun.tail (.send (n := 0) rfl rfl rfl)
  have hrun := hrun.tail (.silent (t := .actor 0) (e := .go) trivial rfl)
  have hrun := hrun.tail (.write (k := 0) rfl rfl rfl)
  have hrun := hrun.tail (.silent (t := .actor 0) (e := .wrote) trivial rfl)
  have hrun := hrun.tail (.read (k := 0) rfl rfl rfl)
  have hrun := hrun.tail (.answer (k := 0) rfl rfl ⟨rfl, rfl⟩)
  have hrun := hrun.tail (.deliver (k := 0) rfl rfl)
  have hrun := hrun.tail (.silent (t := .actor 0) (e := .go) trivial rfl)
  have hrun := hrun.tail (.silent (t := .caller 0) (e := .go) trivial rfl)
  exact ⟨_, hrun, rfl, calls_answered hrun 0⟩

end Semnav.Daemon
