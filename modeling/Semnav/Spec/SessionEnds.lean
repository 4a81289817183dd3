import Mathlib.Data.List.Nodup
import Semnav.Daemon.Session
import Semnav.Spec.Reconnect

/-!
# The two ends of a connection

The actor of a connection gives its envelopes ids in the order in which the commands were sent, and
each reply channel has that number too.  So what it sends into a reply channel is what the daemon
has answered under its number, and the daemon reads each number once.

## Key results

- `actorStep_clientEnd`: every step of an actor but the one that takes a command
- `ClientEnd.dequeue` with `DaemonEnd.write`: that one
- `DaemonEnd.read`, `DaemonEnd.answered`: the steps of the daemon's end
-/

namespace Semnav.Daemon

open Semnav.ForStd

variable {Req Val σ : Type}

/-- The first command that the actor did not take from its queue, as long as it is in its loop. -/
def ActorPc.next : ActorPc Req → Option Nat
  | .looping _ nextId | .selecting _ nextId => some nextId
  | .writing _ id _ => some (id + 1)
  | _ => none

/-- The replies that it owes. -/
def ActorPc.pending : ActorPc Req → Pending
  | .looping pending _ | .selecting pending _ | .writing pending _ _ | .draining _ pending => pending
  | _ => []

/-- The client's end: `issued` are the commands that were sent on it, by their reply channels, and
    `given` what was answered, by the ids. -/
structure ClientEnd (issued : Nat → Req → Prop) (given : Nat → Except String Val → Prop)
    (pc : ActorPc Req) (link : Link Req Val) : Prop where
  slots : ∀ i request, issued i request → i < link.sent
  queued : ∀ cmd ∈ link.queue, issued cmd.reply cmd.request
  /-- The queue holds the last commands, in the order of their reply channels. -/
  order : ∀ next, pc.next = some next →
    link.queue.map Cmd.reply = List.range' next link.queue.length ∧
      next + link.queue.length = link.sent
  writing : ∀ pending id cmd, pc = .writing pending id cmd → cmd.reply = id
  pending : ∀ p ∈ pc.pending, p.1 = p.2
  inbound : ∀ id result, Inbound.response id result ∈ link.inbound → given id result
  /-- A reply that is no failure of the actor's own was given. -/
  replies : ∀ i result answered, link.replies i = .sent result answered →
    (answered = true ∨ ∃ value, result = .ok value) → given i result

/-- The daemon's end: `taken` are the requests that were read. -/
structure DaemonEnd (issued : Nat → Req → Prop) (taken : List (Nat × Req))
    (given : Nat → Except String Val → Prop) (next : Option Nat) (conn : Connection Req Val) :
    Prop where
  known : ∀ x ∈ taken, issued x.1 x.2
  requests : ∀ x ∈ conn.requests, issued x.1 x.2
  once : (taken.map Prod.fst ++ conn.requests.map Prod.fst).Nodup
  next : ∀ n, next = some n → ∀ id ∈ taken.map Prod.fst ++ conn.requests.map Prod.fst, id < n
  serving : ∀ x, conn.serving = some x → x ∈ taken
  responses : ∀ x ∈ conn.responses, given x.1 x.2

/-- Is the actor at a write? -/
def ActorPc.isWriting : ActorPc Req → Bool
  | .writing _ _ _ => true
  | _ => false

/-- An actor that is not writing writes no command. -/
private theorem ActorPc.ne_writing {pc : ActorPc Req} (h : pc.isWriting = false) (pending : Pending)
    (id : Nat) (cmd : Cmd Req) : pc ≠ .writing pending id cmd := by
  rintro rfl
  cases h

/-- An actor that has ended gives no next id. -/
private theorem ActorPc.no_next {pc : ActorPc Req} (h : pc.next = none) {p : Nat → Prop}
    (next : Nat)
    (hnext : pc.next = some next) : p next := by
  cases h.symm.trans hnext

section ClientEnd

variable {issued issued' : Nat → Req → Prop} {given given' : Nat → Except String Val → Prop}
  {pc pc' : ActorPc Req} {link link' : Link Req Val}

/-- A new connection is consistent on the client's side. -/
theorem clientEnd_fresh :
    ClientEnd (fun _ _ => False) given (.looping [] 0 : ActorPc Req) (.fresh : Link Req Val) where
  slots _ _ := False.elim
  queued _ h := absurd h List.not_mem_nil
  order next h := by
    cases h
    exact ⟨rfl, rfl⟩
  writing p id cmd h := absurd h (ActorPc.ne_writing rfl p id cmd)
  pending _ h := absurd h List.not_mem_nil
  inbound _ _ h := absurd h List.not_mem_nil
  replies _ _ _ h := by cases h

/-- A consistent client's side stays so when more is given. -/
theorem ClientEnd.mono (h : ClientEnd issued given pc link)
    (hissued : ∀ i request, issued i request ↔ issued' i request)
    (hgiven : ∀ id result, given id result → given' id result) :
    ClientEnd issued' given' pc link where
  slots i request hi := h.slots i request ((hissued i request).mpr hi)
  queued cmd hcmd := (hissued _ _).mp (h.queued cmd hcmd)
  order := h.order
  writing := h.writing
  pending := h.pending
  inbound id result hmem := hgiven id result (h.inbound id result hmem)
  replies i result answered hi hres := hgiven i result (h.replies i result answered hi hres)

/-- The actor moves on; it takes nothing from its channel as long as it is in its loop. -/
private theorem ClientEnd.moved (h : ClientEnd issued given pc link)
    (hsent : link'.sent = link.sent)
    (hreplies : link'.replies = link.replies) (hqueue : ∀ cmd ∈ link'.queue, cmd ∈ link.queue)
    (hinbound : ∀ x ∈ link'.inbound, x ∈ link.inbound)
    (hnext : ∀ next, pc'.next = some next → pc.next = some next ∧ link'.queue = link.queue)
    (hwriting : pc'.isWriting = false)
    (hpending : ∀ p ∈ pc'.pending, p.1 = p.2) : ClientEnd issued given pc' link' where
  slots i request hi := by
    -- What was sent and replied is untouched; the queue and the lines coming in only shrink.
    rw [hsent]
    exact h.slots i request hi
  queued cmd hcmd := h.queued cmd (hqueue cmd hcmd)
  order next hn := by
    obtain ⟨hpc, hsame⟩ := hnext next hn
    rw [hsame, hsent]
    exact h.order next hpc
  writing pending id cmd hpc := absurd hpc (ActorPc.ne_writing hwriting pending id cmd)
  pending := hpending
  inbound id result hmem := h.inbound id result (hinbound _ hmem)
  replies i result answered hi := by
    rw [hreplies] at hi
    exact h.replies i result answered hi

/-- A reply of the actor: an answer that was given, or a failure of its own. -/
private theorem ClientEnd.reply (h : ClientEnd issued given pc link) {i : Nat} {r : Reply Val}
    (hr : ∀ result answered, r = .sent result answered →
      (answered = true ∨ ∃ value, result = .ok value) → given i result) :
    ClientEnd issued given pc (link.reply i r) where
  slots := h.slots
  queued := h.queued
  order := h.order
  writing := h.writing
  pending := h.pending
  inbound := h.inbound
  replies j result answered hj := by
    rw [Link.reply_replies] at hj
    split at hj
    next hji =>
      rw [hji]
      exact hr result answered hj
    next => exact h.replies j result answered hj

/-- A failure of the actor's own. -/
private theorem ClientEnd.fail (h : ClientEnd issued given pc link) (i : Nat) (msg : String) :
    ClientEnd issued given pc (link.reply i (.sent (.error msg) false)) := by
  apply h.reply
  intro result answered heq hres
  cases heq
  rcases hres with hres | ⟨value, hres⟩
  · cases hres
  · cases hres

/-- A command is sent: it has the next reply channel. -/
theorem ClientEnd.send (h : ClientEnd issued given pc link) {cmd : Cmd Req}
    (hreply : cmd.reply = link.sent)
    (hissued : ∀ i r, issued' i r ↔ issued i r ∨ (i = cmd.reply ∧ r = cmd.request)) :
    ClientEnd issued' given pc
      { link with queue := link.queue ++ [cmd], sent := link.sent + 1 } where
  -- The new command's slot is the count of sends so far.
  slots i r hi := by
    show i < link.sent + 1
    cases (hissued i r).mp hi with
    | inl hold =>
      have hlt := h.slots i r hold
      omega
    | inr hnew =>
      rw [hnew.1, hreply]
      exact Nat.lt_succ_self _
  queued c hc := by
    apply (hissued _ _).mpr
    cases List.mem_append.mp hc with
    | inl hold => exact .inl (h.queued c hold)
    | inr hnew =>
      rw [List.mem_singleton.mp hnew]
      exact .inr ⟨rfl, rfl⟩
  -- The queue holds the slots that follow the last one taken, in order.
  order next hn := by
    obtain ⟨horder, hlength⟩ := h.order next hn
    show (link.queue ++ [cmd]).map Cmd.reply = List.range' next (link.queue ++ [cmd]).length ∧
      next + (link.queue ++ [cmd]).length = link.sent + 1
    rw [List.map_append, horder, List.length_append, List.length_singleton, List.range'_concat,
      ← hlength, List.map_singleton, hreply, ← hlength]
    refine ⟨?_, by omega⟩
    rw [Nat.one_mul]
  writing := h.writing
  pending := h.pending
  inbound := h.inbound
  replies := h.replies

/-- The actor takes the next command: its reply channel is the id that it writes it under. -/
theorem ClientEnd.dequeue {pending : Pending} {nextId : Nat} {cmd : Cmd Req} {rest : List (Cmd Req)}
    (h : ClientEnd issued given (.selecting pending nextId) link) (hqueue : link.queue = cmd :: rest) :
    ClientEnd issued given (.writing pending nextId cmd) { link with queue := rest } ∧
      issued nextId cmd.request := by
  -- The head of the queue is the command of the next id.
  obtain ⟨horder, hlength⟩ := h.order nextId rfl
  rw [hqueue, List.map_cons, List.length_cons, List.range'_succ] at horder
  rw [hqueue, List.length_cons] at hlength
  obtain ⟨hreply, hrest⟩ := List.cons.inj horder
  have hissued : issued cmd.reply cmd.request := h.queued cmd (hqueue ▸ List.mem_cons_self)
  rw [hreply] at hissued
  refine ⟨?_, hissued⟩
  exact
    { slots := h.slots
      queued := fun c hc => h.queued c (hqueue ▸ List.mem_cons_of_mem _ hc)
      order := by
        intro next hn
        cases hn
        refine ⟨hrest, ?_⟩
        show nextId + 1 + rest.length = link.sent
        omega
      writing := by
        intro p id c hpc
        cases hpc
        exact hreply
      pending := h.pending
      inbound := h.inbound
      replies := h.replies }

/-- What is looked up is in the table. -/
private theorem mem_of_lookup {pending : Pending} {id i : Nat} (h : pending.lookup id = some i) :
    (id, i) ∈ pending := by
  obtain ⟨l₁, l₂, hpending, -⟩ := List.lookup_eq_some_iff.mp h
  rw [hpending]
  exact List.mem_append_right _ List.mem_cons_self

/-- What an actor does on its own keeps its end, as long as it takes no command from its queue. -/
theorem actorStep_clientEnd {k : LinkId} {e : TaskStep Req Val} {s s' : Shared Req Val}
    (h : actorStep k e s pc = some (s', pc')) (hend : ClientEnd issued given pc (s.links k))
    (hquiet : ∀ pending nextId, pc = .selecting pending nextId → (s.links k).queue = []) :
    ClientEnd issued given pc' (s'.links k) ∧ ∀ next, pc'.next = some next → pc.next = some next := by
  have hnext : ∀ next, pc.next = some next → pc.next = some next ∧
      (s.links k).queue = (s.links k).queue := fun _ hn => ⟨hn, rfl⟩
  cases pc with
  | looping pending nextId =>
    simp only [actorStep] at h
    split at h
    next =>
      cases h
      exact ⟨hend.moved rfl rfl (fun _ => id) (fun _ => id) hnext rfl hend.pending,
        fun _ => id⟩
    next id result rest hinbound =>
      have hrest : ∀ x ∈ rest, x ∈ (s.links k).inbound :=
        fun x hx => hinbound ▸ List.mem_cons_of_mem _ hx
      split at h
      next i hi =>
        -- the pending reply has the number of the response
        cases h
        rw [setLink_self]
        obtain rfl : id = i := hend.pending _ (mem_of_lookup hi)
        have hgiven : given id result := hend.inbound id result (hinbound ▸ List.mem_cons_self)
        refine ⟨ClientEnd.reply ?_ ?_, fun _ hx => hx⟩
        · exact hend.moved rfl rfl (fun _ hx => hx) hrest hnext rfl
            fun p hp => hend.pending p (List.mem_of_mem_filter hp)
        · intro result' answered heq _
          cases heq
          exact hgiven
      next =>
        cases h
        rw [setLink_self]
        exact ⟨hend.moved rfl rfl (fun _ hx => hx) hrest hnext rfl hend.pending,
          fun _ hx => hx⟩
    next rest hinbound =>
      cases h
      rw [setLink_self]
      exact ⟨hend.moved rfl rfl (fun _ => id) (fun x hx => hinbound ▸ List.mem_cons_of_mem _ hx)
        (ActorPc.no_next rfl) rfl hend.pending, ActorPc.no_next rfl⟩
    next msg rest hinbound =>
      cases h
      rw [setLink_self]
      exact ⟨hend.moved rfl rfl (fun _ => id) (fun x hx => hinbound ▸ List.mem_cons_of_mem _ hx)
        (ActorPc.no_next rfl) rfl hend.pending, ActorPc.no_next rfl⟩
    next => cases h
  | selecting pending nextId =>
    have hempty := hquiet pending nextId rfl
    simp only [actorStep] at h
    split at h
    next =>
      cases h
      exact ⟨hend.moved rfl rfl (fun _ => id) (fun _ => id) hnext rfl hend.pending,
        fun _ => id⟩
    next cmd rest hqueue => cases hempty.symm.trans hqueue
    next => cases h
  | writing pending id cmd =>
    simp only [actorStep] at h
    split at h
    next =>
      cases h
      refine ⟨hend.moved rfl rfl (fun _ hx => hx) (fun _ hx => hx) hnext
        rfl ?_, fun _ hx => hx⟩
      intro p hp
      cases List.mem_cons.mp hp with
      | inl hnew =>
        rw [hnew]
        exact (hend.writing pending id cmd rfl).symm
      | inr hold => exact hend.pending p hold
    next err =>
      cases h
      rw [setLink_self]
      refine ⟨ClientEnd.fail ?_ _ _, ActorPc.no_next rfl⟩
      exact hend.moved rfl rfl (fun _ hx => hx) (fun _ hx => hx) (ActorPc.no_next rfl)
        rfl hend.pending
    next => cases h
  | draining reason pending =>
    simp only [actorStep] at h
    split at h
    next id =>
      split at h
      next i hi =>
        cases h
        rw [setLink_self]
        refine ⟨ClientEnd.fail ?_ _ _, ActorPc.no_next rfl⟩
        exact hend.moved rfl rfl (fun _ hx => hx) (fun _ hx => hx) (ActorPc.no_next rfl)
          rfl fun p hp => hend.pending p (List.mem_of_mem_filter hp)
      next => cases h
    next =>
      split at h
      next =>
        cases h
        exact ⟨hend.moved rfl rfl (fun _ => id) (fun _ => id) (ActorPc.no_next rfl) rfl
          (fun _ hp => absurd hp List.not_mem_nil), ActorPc.no_next rfl⟩
      next => cases h
    next => cases h
  | dropping =>
    simp only [actorStep] at h
    split at h
    next =>
      cases h
      rw [setLink_self]
      exact ⟨hend.moved rfl rfl (fun _ => id) (fun _ => id) (ActorPc.no_next rfl) rfl
        (fun _ hp => absurd hp List.not_mem_nil), ActorPc.no_next rfl⟩
    next => cases h
  | emptying =>
    simp only [actorStep] at h
    split at h
    next =>
      cases h
      exact ⟨hend.moved rfl rfl (fun _ => id) (fun _ => id) (ActorPc.no_next rfl) rfl
        (fun _ hp => absurd hp List.not_mem_nil), ActorPc.no_next rfl⟩
    next cmd rest hqueue =>
      cases h
      rw [setLink_self]
      refine ⟨ClientEnd.reply ?_ (fun _ _ heq => by cases heq), ActorPc.no_next rfl⟩
      exact hend.moved rfl rfl (fun c hc => hqueue ▸ List.mem_cons_of_mem _ hc) (fun _ => id)
        (ActorPc.no_next rfl) rfl (fun _ hp => absurd hp List.not_mem_nil)
    next => cases h
  | gone => cases h

/-- The reader receives a response that was given. -/
theorem ClientEnd.receive (h : ClientEnd issued given pc link) {x : Inbound Val}
    (hx : ∀ id result, x = .response id result → given id result) :
    ClientEnd issued given pc { link with inbound := link.inbound ++ [x] } where
  slots := h.slots
  queued := h.queued
  order := h.order
  writing := h.writing
  pending := h.pending
  inbound id result hmem := by
    cases List.mem_append.mp hmem with
    | inl hold => exact h.inbound id result hold
    | inr hnew => exact hx id result (List.mem_singleton.mp hnew).symm
  replies := h.replies

end ClientEnd

section DaemonEnd

variable {issued issued' : Nat → Req → Prop} {given given' : Nat → Except String Val → Prop}
  {taken : List (Nat × Req)} {next next' : Option Nat} {conn : Connection Req Val}

/-- A new connection is consistent on the daemon's side. -/
theorem daemonEnd_fresh : DaemonEnd issued [] given next (.fresh : Connection Req Val) where
  known _ h := absurd h List.not_mem_nil
  requests _ h := absurd h List.not_mem_nil
  once := List.nodup_nil
  next _ _ _ h := absurd h List.not_mem_nil
  serving _ h := by cases h
  responses _ h := absurd h List.not_mem_nil

/-- A consistent daemon's side stays so when more is issued and given. -/
theorem DaemonEnd.mono (h : DaemonEnd issued taken given next conn)
    (hissued : ∀ i request, issued i request → issued' i request)
    (hgiven : ∀ id result, given id result → given' id result)
    (hnext : ∀ n, next' = some n → next = some n) :
    DaemonEnd issued' taken given' next' conn where
  known x hx := hissued _ _ (h.known x hx)
  requests x hx := hissued _ _ (h.requests x hx)
  once := h.once
  next n hn := h.next n (hnext n hn)
  serving := h.serving
  responses x hx := hgiven _ _ (h.responses x hx)

/-- The client writes a line: its id is the next one. -/
theorem DaemonEnd.write {n : Nat} {request : Req} (h : DaemonEnd issued taken given (some n) conn)
    (hissued : issued n request) :
    DaemonEnd issued taken given (some (n + 1))
      { conn with requests := conn.requests ++ [(n, request)] } where
  known := h.known
  requests x hx := by
    cases List.mem_append.mp hx with
    | inl hold => exact h.requests x hold
    | inr hnew =>
      rw [List.mem_singleton.mp hnew]
      exact hissued
  -- The id is above all that the daemon was sent.
  once := by
    have hlt := h.next n rfl
    show (taken.map Prod.fst ++ (conn.requests ++ [(n, request)]).map Prod.fst).Nodup
    rw [List.map_append, ← List.append_assoc, List.map_singleton]
    apply List.nodup_append_comm.mp
    rw [List.singleton_append, List.nodup_cons]
    exact ⟨fun hmem => Nat.lt_irrefl n (hlt n hmem), h.once⟩
  next m hm id hid := by
    cases hm
    rw [List.map_append, ← List.append_assoc, List.mem_append] at hid
    cases hid with
    | inl hold => exact Nat.lt_succ_of_lt (h.next n rfl id hold)
    | inr hnew =>
      rw [List.mem_singleton.mp hnew]
      exact Nat.lt_succ_self n
  serving := h.serving
  responses := h.responses

/-- The daemon reads a line, and serves it. -/
theorem DaemonEnd.read {id : Nat} {request : Req} {rest : List (Nat × Req)}
    (h : DaemonEnd issued taken given next conn) (hrequests : conn.requests = (id, request) :: rest) :
    DaemonEnd issued (taken ++ [(id, request)]) given next
      { conn with requests := rest, serving := some (id, request) } := by
  -- The head of the stream was sent on this connection.
  have hissued : issued id request := h.requests (id, request) (hrequests ▸ List.mem_cons_self)
  -- It moves from the stream to what was taken; together they are what they were.
  have hids : (taken ++ [(id, request)]).map Prod.fst ++ rest.map Prod.fst =
      taken.map Prod.fst ++ conn.requests.map Prod.fst := by
    rw [hrequests, List.map_append, List.append_assoc, List.map_singleton, List.singleton_append,
      List.map_cons]
  exact
    { known := by
        intro x hx
        cases List.mem_append.mp hx with
        | inl hold => exact h.known x hold
        | inr hnew =>
          rw [List.mem_singleton.mp hnew]
          exact hissued
      requests := fun x hx => h.requests x (hrequests ▸ List.mem_cons_of_mem _ hx)
      once := by
        show ((taken ++ [(id, request)]).map Prod.fst ++ rest.map Prod.fst).Nodup
        rw [hids]
        exact h.once
      next := by
        intro n hn
        show ∀ i ∈ (taken ++ [(id, request)]).map Prod.fst ++ rest.map Prod.fst, i < n
        rw [hids]
        exact h.next n hn
      serving := by
        intro x hx
        cases hx
        exact List.mem_append_right _ List.mem_cons_self
      responses := h.responses }

/-- The daemon has served its line, and may have written the response. -/
theorem DaemonEnd.answered (h : DaemonEnd issued taken given next conn) {ended : Bool}
    {responses : List (Nat × Except String Val)} (hgiven : ∀ x ∈ responses, given x.1 x.2) :
    DaemonEnd issued taken given next
      { conn with serving := none, ended := ended, responses := conn.responses ++ responses } where
  known := h.known
  requests := h.requests
  once := h.once
  next := h.next
  serving _ hx := by cases hx
  responses x hx := by
    cases List.mem_append.mp hx with
    | inl hold => exact h.responses x hold
    | inr hnew => exact hgiven x hnew

/-- The daemon is gone, or the client has read some responses. -/
theorem DaemonEnd.lessened (h : DaemonEnd issued taken given next conn) {conn' : Connection Req Val}
    (hrequests : conn'.requests.Sublist conn.requests)
    (hserving : ∀ x, conn'.serving = some x → conn.serving = some x)
    (hresponses : ∀ x ∈ conn'.responses, x ∈ conn.responses) :
    DaemonEnd issued taken given next conn' := by
  have hids : (taken.map Prod.fst ++ conn'.requests.map Prod.fst).Sublist
      (taken.map Prod.fst ++ conn.requests.map Prod.fst) :=
    (List.Sublist.refl _).append (hrequests.map Prod.fst)
  exact
    { known := h.known
      requests := fun x hx => h.requests x (hrequests.subset hx)
      once := h.once.sublist hids
      next := fun n hn id hid => h.next n hn id (hids.subset hid)
      serving := fun x hx => h.serving x (hserving x hx)
      responses := fun x hx => h.responses x (hresponses x hx) }

end DaemonEnd

end Semnav.Daemon
