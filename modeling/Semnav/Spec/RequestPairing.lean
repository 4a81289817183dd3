import Mathlib.Data.List.Nodup
import Semnav.Lsp.Client

/-!
# Requests and their replies

Whatever the order in which commands and messages reach the actor: a request waits under an id
of its own from the moment it is written, and its reply fires once, with the first answer that
bears that id, or with an error when it could not be written or when the loop ends.

## Key results

- `PairInv.step`: who waits under which id, and what each reply was
- `requests_paired`: every run
-/

namespace Semnav.Lsp

open Semnav.ForStd

/-! ## What the inputs say -/

/-- The id that a message answers, and the answer. -/
def Input.answer : Input → Option (Id × Reply)
  | .inbound (some (.message (.response id result))) => some (id, .ok result)
  | .inbound (some (.message (.error id e))) => some (id, .error e)
  | _ => none

/-- The reply channel of a request. -/
def Input.channel : Input → Option Channel
  | .cmd (some (.request _ _ reply)) _ => some reply
  | _ => none

/-- The reply channels of the requests, in their order. -/
def channelsOf (inputs : List Input) : List Channel := inputs.filterMap Input.channel

/-- The id of the next request. -/
def idAfter (inputs : List Input) : Id := Int64.ofNat (1 + (channelsOf inputs).length)

/-- No message bears the id. -/
def Unanswered (id : Id) (inputs : List Input) : Prop := ∀ x ∈ inputs, ∀ v, x.answer ≠ some (id, v)

/-- The request with this channel was written under this id and is not answered yet. -/
def Waiting (inputs : List Input) (id : Id) (channel : Channel) : Prop :=
  ∃ before method params later,
    inputs = before ++ .cmd (some (.request method params channel)) (.ok ()) :: later ∧
      id = idAfter before ∧ Unanswered id later

/-- Why the request with this channel is not waiting any more. -/
inductive Settled (inputs : List Input) (channel : Channel) : Reply → Prop where
  /-- The reply is the first answer that bears its id, after it was written. -/
  | answered {before later rest : List Input} {method : String} {params : Option Json}
      {input : Input} {value : Reply}
      (hsplit : inputs = before ++ .cmd (some (.request method params channel)) (.ok ()) ::
        (later ++ input :: rest))
      (hfirst : Unanswered (idAfter before) later)
      (hanswer : input.answer = some (idAfter before, value)) :
      Settled inputs channel value
  | writeFailed {before rest : List Input} {method : String} {params : Option Json} {e : String}
      (hsplit : inputs = before ++ .cmd (some (.request method params channel)) (.error e) :: rest) :
      Settled inputs channel (.error (writeFailed e))

/-- The channel that an effect replies to. -/
def Effect.channel : Effect → Option Channel
  | .reply channel _ => some channel
  | .write _ => none

/-- The id of a request that is written. -/
def Effect.requestId : Effect → Option Id
  | .write (.request id _ _) => some id
  | _ => none

section Splits

variable {inputs before before' later later' : List Input} {x x' : Input} {channel : Channel}

/-- The callers of two parts are those of both. -/
theorem channelsOf_append (a b : List Input) :
    channelsOf (a ++ b) = channelsOf a ++ channelsOf b := List.filterMap_append

/-- With distinct channels, a channel belongs to one input only. -/
private theorem split_unique (hnodup : (channelsOf inputs).Nodup)
    (h : inputs = before ++ x :: later)
    (hx : x.channel = some channel) (h' : inputs = before' ++ x' :: later')
    (hx' : x'.channel = some channel) : before = before' ∧ x = x' ∧ later = later' := by
  induction before generalizing before' inputs with
  | nil =>
    cases before' with
    | nil =>
      subst h
      cases h'
      exact ⟨rfl, rfl, rfl⟩
    | cons y before' =>
      -- The channel would be there twice.
      subst h
      cases h'
      simp [channelsOf, hx, hx'] at hnodup
  | cons y before ih =>
    cases before' with
    | nil =>
      subst h
      cases h'
      simp [channelsOf, hx, hx'] at hnodup
    | cons y' before' =>
      subst h
      obtain ⟨rfl, htail⟩ := List.cons.inj h'
      have hnodup' : (channelsOf (before ++ x :: later)).Nodup := by
        refine hnodup.sublist ?_
        exact (List.sublist_cons_self _ _).filterMap _
      obtain ⟨rfl, rfl, rfl⟩ := ih hnodup' rfl htail
      exact ⟨rfl, rfl, rfl⟩

/-- Appending one input to a split list. -/
theorem snoc_split {a b : List Input} {y z : Input} (h : a ++ [y] = b ++ z :: later) :
    (later = [] ∧ a = b ∧ y = z) ∨ ∃ later', later = later' ++ [y] ∧ a = b ++ z :: later' := by
  cases List.eq_nil_or_concat later with
  | inl hnil =>
    subst hnil
    obtain ⟨rfl, hy⟩ := List.append_inj' h rfl
    exact .inl ⟨rfl, rfl, List.singleton_inj.mp hy⟩
  | inr hconcat =>
    obtain ⟨later', last, rfl⟩ := hconcat
    rw [List.concat_eq_append, ← List.cons_append, ← List.append_assoc] at h
    obtain ⟨ha, hy⟩ := List.append_inj' h rfl
    obtain rfl := List.singleton_inj.mp hy
    exact .inr ⟨later', List.concat_eq_append, ha⟩

end Splits

section Waiting

variable {inputs : List Input} {input : Input} {id : Id} {channel : Channel}

/-- One more input leaves a request unanswered when it is no answer to it. -/
private theorem Unanswered.snoc {later : List Input} :
    Unanswered id (later ++ [input]) ↔ Unanswered id later ∧ ∀ v, input.answer ≠ some (id, v) := by
  simp [Unanswered, or_imp, forall_and]

/-- Who waits after one more input: those who waited and are not answered by it, and the request
    that it writes. -/
theorem Waiting.snoc_iff : Waiting (inputs ++ [input]) id channel ↔
    (Waiting inputs id channel ∧ ∀ v, input.answer ≠ some (id, v)) ∨
      (id = idAfter inputs ∧ ∃ method params,
        input = .cmd (some (.request method params channel)) (.ok ())) := by
  constructor
  · -- The request is the last input, or one before.
    intro h
    obtain ⟨before, method, params, later, hsplit, hid, hun⟩ := h
    cases snoc_split hsplit with
    | inl hlast =>
      obtain ⟨rfl, rfl, rfl⟩ := hlast
      exact .inr ⟨hid, method, params, rfl⟩
    | inr hold =>
      -- Older: it was unanswered before, and the last input does not answer it.
      obtain ⟨later', rfl, hsplit'⟩ := hold
      obtain ⟨hun', hnot⟩ := Unanswered.snoc.mp hun
      exact .inl ⟨⟨before, method, params, later', hsplit', hid, hun'⟩, hnot⟩
  · intro h
    cases h with
    | inl hold =>
      obtain ⟨⟨before, method, params, later, rfl, hid, hun⟩, hnot⟩ := hold
      refine ⟨before, method, params, later ++ [input], ?_, hid, Unanswered.snoc.mpr ⟨hun, hnot⟩⟩
      simp
    | inr hnew =>
      obtain ⟨hid, method, params, rfl⟩ := hnew
      exact ⟨inputs, method, params, [], rfl, hid, fun x hx => absurd hx List.not_mem_nil⟩

/-- An id is smaller than those to come. -/
private theorem idAfter_ne {before later : List Input} {x : Input} (hx : x.channel.isSome)
    (hfew : (channelsOf (before ++ x :: later)).length < 2 ^ 63) :
    idAfter before ≠ idAfter (before ++ x :: later) := by
  obtain ⟨ch, hch⟩ := Option.isSome_iff_exists.mp hx
  have hlen : (channelsOf (before ++ x :: later)).length =
      (channelsOf before).length + 1 + (channelsOf later).length := by
    simp [channelsOf, hch]
    omega
  intro heq
  have hnat := congrArg (fun id : Id => id.toBitVec.toNat) heq
  simp only [idAfter, Int64.toBitVec_ofNat', BitVec.toNat_ofNat] at hnat
  rw [Nat.mod_eq_of_lt (by omega), Nat.mod_eq_of_lt (by omega)] at hnat
  omega

/-- While ids do not wrap, a waiting request has not the next id. -/
private theorem Waiting.id_ne (h : Waiting inputs id channel)
    (hfew : (channelsOf inputs).length < 2 ^ 63) :
    id ≠ idAfter inputs := by
  obtain ⟨before, method, params, later, rfl, rfl, -⟩ := h
  exact idAfter_ne rfl hfew

/-- A channel waits under one id. -/
private theorem Waiting.unique (hnodup : (channelsOf inputs).Nodup) {id' : Id}
    (h : Waiting inputs id channel) (h' : Waiting inputs id' channel) : id = id' := by
  obtain ⟨before, method, params, later, hsplit, rfl, -⟩ := h
  obtain ⟨before', method', params', later', hsplit', rfl, -⟩ := h'
  obtain ⟨rfl, -, -⟩ := split_unique hnodup hsplit rfl hsplit' rfl
  rfl

end Waiting

section Settled

variable {inputs : List Input} {input : Input} {id : Id} {channel : Channel} {value : Reply}

/-- A settled caller stays settled. -/
theorem Settled.snoc (h : Settled inputs channel value) :
    Settled (inputs ++ [input]) channel value := by
  cases h with
  | @answered before later rest method params input' value hsplit hfirst hanswer =>
    have hsplit' : inputs ++ [input] = before ++
        .cmd (some (.request method params channel)) (.ok ()) ::
          (later ++ input' :: (rest ++ [input])) := by
      rw [hsplit]
      simp
    exact .answered hsplit' hfirst hanswer
  | @writeFailed before rest method params e hsplit =>
    have hsplit' : inputs ++ [input] = before ++
        .cmd (some (.request method params channel)) (.error e) :: (rest ++ [input]) := by
      rw [hsplit]
      simp
    exact .writeFailed hsplit'

/-- A settled caller is one that asked. -/
private theorem Settled.mem_channelsOf (h : Settled inputs channel value) :
    channel ∈ channelsOf inputs := by
  cases h with
  | answered hsplit => simp [hsplit, channelsOf, Input.channel]
  | writeFailed hsplit => simp [hsplit, channelsOf, Input.channel]

/-- A settled request does not wait. -/
private theorem Settled.not_waiting (hnodup : (channelsOf inputs).Nodup)
    (h : Settled inputs channel value) : ¬ Waiting inputs id channel := by
  intro hwaiting
  obtain ⟨before, method, params, later, hsplit, rfl, hun⟩ := hwaiting
  cases h with
  | answered hsplit' hfirst hanswer =>
    obtain ⟨rfl, -, rfl⟩ := split_unique hnodup hsplit rfl hsplit' rfl
    exact hun _ (by simp) _ hanswer
  | writeFailed hsplit' =>
    obtain ⟨-, heq, -⟩ := split_unique hnodup hsplit rfl hsplit' rfl
    exact nomatch heq

end Settled

/-! ## The loop -/

/-- What holds between two iterations of the loop. -/
structure LoopInv (inputs : List Input) (effects : List Effect) (a : Actor) : Prop where
  nextId : a.nextId = idAfter inputs
  pending : ∀ id channel, (id, channel) ∈ a.pending ↔ Waiting inputs id channel
  keys : (a.pending.map (·.1)).Nodup
  settled : ∀ channel value, .reply channel value ∈ effects → Settled inputs channel value
  once : (effects.filterMap Effect.channel).Nodup
  ids : effects.filterMap Effect.requestId =
    (List.range (channelsOf inputs).length).map fun k => Int64.ofNat (1 + k)
  /-- Each request has its reply or waits for it. -/
  total : ∀ channel ∈ channelsOf inputs,
    channel ∈ effects.filterMap Effect.channel ∨ ∃ id, Waiting inputs id channel

section Loop

variable {inputs : List Input} {effects : List Effect} {a : Actor} {input : Input}

/-- A caller is replied to by a reply. -/
theorem mem_replied {channel : Channel} : channel ∈ effects.filterMap Effect.channel ↔
    ∃ value, .reply channel value ∈ effects := by
  simp only [List.mem_filterMap]
  constructor
  · intro h
    obtain ⟨e, he, hch⟩ := h
    cases e with
    | reply c v =>
      cases hch
      exact ⟨v, he⟩
    | write m => exact nomatch hch
  · intro h
    obtain ⟨value, he⟩ := h
    exact ⟨_, he, rfl⟩

/-- Nothing is asked at the start. -/
private theorem loopInv_start : LoopInv [] [] .start where
  nextId := rfl
  pending := by
    intro id channel
    constructor
    · exact fun h => absurd h List.not_mem_nil
    · intro h
      obtain ⟨before, method, params, later, hsplit, -⟩ := h
      simp at hsplit
  keys := .nil
  settled := fun _ _ h => absurd h List.not_mem_nil
  once := .nil
  ids := rfl
  total := fun _ h => absurd h List.not_mem_nil

/-- An input that is no answer and no request. -/
private theorem LoopInv.quiet (h : LoopInv inputs effects a) (input : Input)
    (hanswer : input.answer = none)
    (hchannel : input.channel = none) (hnext : (actorStep a input).1.nextId = a.nextId)
    (hpending : (actorStep a input).1.pending = a.pending)
    (hnew : ∀ e ∈ (actorStep a input).2, e.channel = none ∧ e.requestId = none) :
    LoopInv (inputs ++ [input]) (effects ++ (actorStep a input).2) (actorStep a input).1 := by
  -- An input that asks, answers and writes nothing changes none of the lists,
  have hchannels : channelsOf (inputs ++ [input]) = channelsOf inputs := by
    simp [channelsOf, hchannel]
  have hreplied : (effects ++ (actorStep a input).2).filterMap Effect.channel =
      effects.filterMap Effect.channel := by
    rw [List.filterMap_append, List.filterMap_eq_nil_iff.mpr fun e he => (hnew e he).1,
      List.append_nil]
  have hids : (effects ++ (actorStep a input).2).filterMap Effect.requestId =
      effects.filterMap Effect.requestId := by
    rw [List.filterMap_append, List.filterMap_eq_nil_iff.mpr fun e he => (hnew e he).2,
      List.append_nil]
  -- and who waits is who waited.
  have hwaiting : ∀ id channel, Waiting (inputs ++ [input]) id channel ↔
      Waiting inputs id channel := by
    intro id channel
    rw [Waiting.snoc_iff, hanswer]
    constructor
    · intro h
      cases h with
      | inl hold => exact hold.1
      | inr hreq =>
        obtain ⟨-, method, params, rfl⟩ := hreq
        exact nomatch hchannel
    · exact fun h => .inl ⟨h, fun v hv => nomatch hv⟩
  exact {
    nextId := by
      rw [hnext, h.nextId, idAfter, idAfter, hchannels]
    pending := by
      intro id channel
      rw [hpending, hwaiting]
      exact h.pending id channel
    keys := by
      rw [hpending]
      exact h.keys
    settled := by
      intro channel value hmem
      cases List.mem_append.mp hmem with
      | inl hold => exact (h.settled channel value hold).snoc
      | inr hin => exact nomatch (hnew _ hin).1
    once := by
      rw [hreplied]
      exact h.once
    ids := by
      rw [hids, hchannels]
      exact h.ids
    total := by
      intro channel hch
      rw [hreplied]
      simp only [hwaiting]
      exact h.total channel (hchannels ▸ hch) }

/-- What is left is who waits under other ids. -/
private theorem settle_pending (pending : List (Id × Channel)) (id : Id) (value : Reply) :
    (settle pending id value).1 = pending.filter fun p => p.1 ≠ id := by
  unfold settle
  cases hlookup : pending.lookup id with
  | some channel => rfl
  | none =>
    refine (List.filter_eq_self.mpr fun p hp => ?_).symm
    have hne : id ≠ p.1 := by simpa using List.lookup_eq_none_iff.mp hlookup p hp
    simpa using Ne.symm hne

/-- Who is replied to waits under the id, and is the only one. -/
private theorem LoopInv.settle_replies (h : LoopInv inputs effects a) {id : Id} {value : Reply}
    {e : Effect}
    (he : e ∈ (settle a.pending id value).2) :
    ∃ channel, e = .reply channel value ∧ Waiting inputs id channel ∧
      (settle a.pending id value).2 = [.reply channel value] := by
  unfold settle at he ⊢
  cases hlookup : a.pending.lookup id with
  | none =>
    rw [hlookup] at he
    exact absurd he List.not_mem_nil
  | some channel =>
    rw [hlookup] at he
    obtain ⟨before, after, hsplit, -⟩ := List.lookup_eq_some_iff.mp hlookup
    refine ⟨channel, List.mem_singleton.mp he, (h.pending id channel).mp ?_, rfl⟩
    rw [hsplit]
    exact List.mem_append_right _ List.mem_cons_self

/-- Who waits under the id is replied to. -/
private theorem LoopInv.settle_waiting (h : LoopInv inputs effects a) {id : Id} {channel : Channel}
    (hwait : Waiting inputs id channel) (value : Reply) :
    (settle a.pending id value).2 = [.reply channel value] := by
  have hmem := (h.pending id channel).mpr hwait
  have hlookup : a.pending.lookup id = some channel := by
    cases hl : a.pending.lookup id with
    | none =>
      have hne : id ≠ id := by simpa using List.lookup_eq_none_iff.mp hl _ hmem
      exact absurd rfl hne
    | some ch =>
      obtain ⟨before, after, hsplit, -⟩ := List.lookup_eq_some_iff.mp hl
      have hch : (id, ch) ∈ a.pending := by
        rw [hsplit]
        exact List.mem_append_right _ List.mem_cons_self
      exact congrArg some (congrArg Prod.snd (List.inj_on_of_nodup_map h.keys hch hmem rfl))
  simp [settle, hlookup]

/-- An answer settles the request that waits under its id, if there is one. -/
private theorem LoopInv.answer (h : LoopInv inputs effects a) (hnodup : (channelsOf inputs).Nodup)
    (hchannel : input.channel = none) {id : Id} {value : Reply}
    (hanswer : input.answer = some (id, value)) :
    LoopInv (inputs ++ [input]) (effects ++ (settle a.pending id value).2)
      { a with pending := (settle a.pending id value).1 } := by
  -- Nobody new asks; who waited under the id that is answered waits no more.
  have hchannels : channelsOf (inputs ++ [input]) = channelsOf inputs := by
    simp [channelsOf, hchannel]
  have hwaiting : ∀ id' channel, Waiting (inputs ++ [input]) id' channel ↔
      Waiting inputs id' channel ∧ id' ≠ id := by
    intro id' channel
    rw [Waiting.snoc_iff, hanswer]
    constructor
    · intro h
      cases h with
      | inl hold =>
        refine ⟨hold.1, ?_⟩
        rintro rfl
        exact hold.2 value rfl
      | inr hreq =>
        obtain ⟨-, method, params, rfl⟩ := hreq
        exact nomatch hchannel
    · intro h
      refine .inl ⟨h.1, fun v hv => h.2 ?_⟩
      exact (Prod.mk.inj (Option.some.inj hv)).1.symm
  exact {
    nextId := by
      show a.nextId = _
      rw [h.nextId, idAfter, idAfter, hchannels]
    pending := by
      intro id' channel
      show (id', channel) ∈ (settle a.pending id value).1 ↔ _
      -- `settle` takes the entry out, and nothing else.
      rw [settle_pending, hwaiting, List.mem_filter, h.pending]
      simp
    keys := by
      show ((settle a.pending id value).1.map (·.1)).Nodup
      rw [settle_pending]
      exact h.keys.sublist (List.filter_sublist.map _)
    settled := by
      intro channel v hmem
      cases List.mem_append.mp hmem with
      | inl hold => exact (h.settled channel v hold).snoc
      -- A reply of this step answers the request that waited under the id.
      | inr hin =>
        obtain ⟨channel', heq, hwait, -⟩ := h.settle_replies hin
        cases heq
        obtain ⟨before, method, params, later, rfl, rfl, hun⟩ := hwait
        have hsplit : before ++ .cmd (some (.request method params channel)) (.ok ()) :: later ++
            [input] = before ++ .cmd (some (.request method params channel)) (.ok ()) ::
              (later ++ input :: []) := by simp
        exact .answered hsplit hun hanswer
    once := by
      -- At most one reply is sent, and to a caller that has had none.
      rw [List.filterMap_append, List.nodup_append]
      refine ⟨h.once, ?_, ?_⟩
      · cases hcase : (settle a.pending id value).2 with
        | nil => exact .nil
        | cons e rest =>
          have he : e ∈ (settle a.pending id value).2 := by
            rw [hcase]
            exact List.mem_cons_self
          obtain ⟨channel, -, -, hone⟩ := h.settle_replies he
          rw [← hcase, hone]
          simp [Effect.channel]
      · -- Who has been replied to waits no more.
        intro x hx y hy hxy
        subst hxy
        obtain ⟨v, hv⟩ := mem_replied.mp hx
        obtain ⟨v', hv'⟩ := mem_replied.mp hy
        obtain ⟨channel', heq, hwait, -⟩ := h.settle_replies hv'
        cases heq
        exact (h.settled _ _ hv).not_waiting hnodup hwait
    ids := by
      have hnone : (settle a.pending id value).2.filterMap Effect.requestId = [] := by
        refine List.filterMap_eq_nil_iff.mpr fun e he => ?_
        obtain ⟨channel, rfl, -, -⟩ := h.settle_replies he
        rfl
      rw [List.filterMap_append, hnone, List.append_nil, hchannels]
      exact h.ids
    total := by
      intro channel hch
      rw [hchannels] at hch
      cases h.total channel hch with
      | inl hold =>
        left
        rw [List.filterMap_append]
        exact List.mem_append_left _ hold
      | inr hwait =>
        obtain ⟨id', hwait⟩ := hwait
        by_cases hid : id' = id
        · -- It waits under the id that is answered.
          subst hid
          left
          rw [List.filterMap_append, h.settle_waiting hwait]
          exact List.mem_append_right _ (by simp [Effect.channel])
        · exact .inr ⟨id', (hwaiting id' channel).mpr ⟨hwait, hid⟩⟩ }

/-- A request that is written waits from then on. -/
private theorem LoopInv.written (h : LoopInv inputs effects a)
    (hfew : (channelsOf inputs).length < 2 ^ 63)
    {method : String} {params : Option Json} {channel : Channel} :
    LoopInv (inputs ++ [.cmd (some (.request method params channel)) (.ok ())])
      (effects ++ [.write (.request a.nextId method params)])
      { a with nextId := a.nextId + 1, pending := insertPending a.pending a.nextId channel } := by
  have hchannels : channelsOf (inputs ++ [.cmd (some (.request method params channel)) (.ok ())]) =
      channelsOf inputs ++ [channel] := by
    rw [channelsOf_append]
    rfl
  -- Nobody waits under the new id.
  have hfresh : ∀ p ∈ a.pending, p.1 ≠ a.nextId := by
    intro p hp
    rw [h.nextId]
    exact ((h.pending p.1 p.2).mp hp).id_ne hfew
  have hinsert : insertPending a.pending a.nextId channel = a.pending ++ [(a.nextId, channel)] := by
    rw [insertPending, List.filter_eq_self.mpr]
    exact fun p hp => by simpa using hfresh p hp
  have hreplied : (effects ++ [Effect.write (.request a.nextId method params)]).filterMap
      Effect.channel = effects.filterMap Effect.channel := by
    rw [List.filterMap_append]
    simp [Effect.channel]
  exact {
    nextId := by
      show a.nextId + 1 = _
      rw [h.nextId, idAfter, idAfter, hchannels, List.length_append]
      exact (Int64.ofNat_add _ _).symm
    pending := by
      intro id ch
      show (id, ch) ∈ insertPending a.pending a.nextId channel ↔ _
      rw [hinsert, List.mem_append, h.pending, Waiting.snoc_iff, List.mem_singleton]
      constructor
      · intro hmem
        cases hmem with
        | inl hold => exact .inl ⟨hold, fun v hv => nomatch hv⟩
        | inr hnew =>
          cases hnew
          exact .inr ⟨h.nextId, method, params, rfl⟩
      · intro hwait
        cases hwait with
        | inl hold => exact .inl hold.1
        | inr hnew =>
          obtain ⟨rfl, method', params', heq⟩ := hnew
          cases heq
          exact .inr (by rw [h.nextId])
    keys := by
      show ((insertPending a.pending a.nextId channel).map (·.1)).Nodup
      rw [hinsert, List.map_append, List.nodup_append]
      refine ⟨h.keys, List.nodup_singleton _, ?_⟩
      intro x hx y hy
      obtain ⟨p, hp, rfl⟩ := List.mem_map.mp hx
      obtain rfl := List.mem_singleton.mp hy
      exact hfresh p hp
    settled := by
      intro ch value hmem
      cases List.mem_append.mp hmem with
      | inl hold => exact (h.settled ch value hold).snoc
      | inr hin => exact nomatch List.mem_singleton.mp hin
    once := by
      rw [hreplied]
      exact h.once
    ids := by
      rw [List.filterMap_append, h.ids, hchannels, List.length_append, List.length_singleton,
        List.range_succ, List.map_append, h.nextId]
      rfl
    total := by
      intro ch hch
      rw [hreplied]
      rw [hchannels, List.mem_append, List.mem_singleton] at hch
      cases hch with
      | inl hold =>
        cases h.total ch hold with
        | inl hdone => exact .inl hdone
        | inr hwait =>
          obtain ⟨id, hwait⟩ := hwait
          exact .inr ⟨id, Waiting.snoc_iff.mpr (.inl ⟨hwait, fun v hv => nomatch hv⟩)⟩
      | inr hnew =>
        subst hnew
        exact .inr ⟨_, Waiting.snoc_iff.mpr (.inr ⟨rfl, method, params, rfl⟩)⟩ }

/-- A request that cannot be written fails at once. -/
private theorem LoopInv.notWritten (h : LoopInv inputs effects a) {method : String}
    {params : Option Json} {channel : Channel} {e : String} (hnew : channel ∉ channelsOf inputs) :
    LoopInv (inputs ++ [.cmd (some (.request method params channel)) (.error e)])
      (effects ++ [.write (.request a.nextId method params),
        .reply channel (.error (writeFailed e))])
      { a with nextId := a.nextId + 1 } := by
  -- The caller asks, and is told at once that writing failed: it never waits.
  have hchannels : channelsOf (inputs ++ [.cmd (some (.request method params channel)) (.error e)])
      = channelsOf inputs ++ [channel] := by
    rw [channelsOf_append]
    rfl
  -- The input is no request that was written, so who waits is who waited.
  have hwaiting : ∀ id ch, Waiting (inputs ++
      [.cmd (some (.request method params channel)) (.error e)]) id ch ↔ Waiting inputs id ch := by
    intro id ch
    rw [Waiting.snoc_iff]
    constructor
    · intro hwait
      cases hwait with
      | inl hold => exact hold.1
      | inr hreq =>
        obtain ⟨-, method', params', heq⟩ := hreq
        exact nomatch heq
    · exact fun hwait => .inl ⟨hwait, fun v hv => nomatch hv⟩
  have hreplied : (effects ++ [Effect.write (.request a.nextId method params),
      Effect.reply channel (.error (writeFailed e))]).filterMap Effect.channel =
        effects.filterMap Effect.channel ++ [channel] := by
    rw [List.filterMap_append]
    rfl
  exact {
    nextId := by
      show a.nextId + 1 = _
      rw [h.nextId, idAfter, idAfter, hchannels, List.length_append]
      exact (Int64.ofNat_add _ _).symm
    pending := by
      intro id ch
      rw [hwaiting]
      -- The entry was put in and taken out again.
      exact h.pending id ch
    keys := h.keys
    settled := by
      intro ch value hmem
      cases List.mem_append.mp hmem with
      | inl hold => exact (h.settled ch value hold).snoc
      | inr hin =>
        simp only [List.mem_cons, List.not_mem_nil, or_false, reduceCtorEq, false_or] at hin
        cases hin
        exact .writeFailed rfl
    once := by
      rw [hreplied, List.nodup_append]
      refine ⟨h.once, List.nodup_singleton _, ?_⟩
      intro x hx y hy hxy
      obtain rfl := List.mem_singleton.mp hy
      subst hxy
      -- The channel is new, so it has had no reply.
      obtain ⟨v, hv⟩ := mem_replied.mp hx
      exact hnew (h.settled _ _ hv).mem_channelsOf
    ids := by
      rw [List.filterMap_append, h.ids, hchannels, List.length_append, List.length_singleton,
        List.range_succ, List.map_append, h.nextId]
      rfl
    total := by
      intro ch hch
      rw [hreplied]
      simp only [hwaiting]
      rw [hchannels, List.mem_append, List.mem_singleton] at hch
      cases hch with
      | inl hold =>
        cases h.total ch hold with
        | inl hdone => exact .inl (List.mem_append_left _ hdone)
        | inr hwait => exact .inr hwait
      | inr hlast => exact .inl (List.mem_append_right _ (List.mem_singleton.mpr hlast)) }

/-- One iteration. -/
private theorem LoopInv.step (h : LoopInv inputs effects a)
    (hnodup : (channelsOf (inputs ++ [input])).Nodup)
    (hfew : (channelsOf (inputs ++ [input])).length < 2 ^ 63) :
    LoopInv (inputs ++ [input]) (effects ++ (actorStep a input).2) (actorStep a input).1 := by
  rw [channelsOf_append] at hnodup hfew
  have hold : (channelsOf inputs).Nodup := (List.nodup_append.mp hnodup).1
  rw [List.length_append] at hfew
  -- Only a response or an error answers, and only a command asks.
  cases input with
  | inbound event =>
    cases event with
    | none => exact h.quiet (.inbound none) rfl rfl rfl rfl fun e he => absurd he List.not_mem_nil
    | some event =>
      cases event with
      | eof =>
        exact h.quiet (.inbound (some .eof)) rfl rfl rfl rfl fun e he => absurd he List.not_mem_nil
      | failed reason =>
        exact h.quiet (.inbound (some (.failed reason))) rfl rfl rfl rfl fun e he =>
          absurd he List.not_mem_nil
      | message msg =>
        cases msg with
        | response id result => exact h.answer hold rfl rfl
        | error id e => exact h.answer hold rfl rfl
        | request id method params =>
          exact h.quiet (.inbound (some (.message (.request id method params)))) rfl rfl rfl rfl
            fun e he => absurd he List.not_mem_nil
        | notification method params =>
          exact h.quiet (.inbound (some (.message (.notification method params)))) rfl rfl rfl rfl
            fun e he => absurd he List.not_mem_nil
  | cmd command written =>
    cases command with
    | none =>
      exact h.quiet (.cmd none written) rfl rfl rfl rfl fun e he => absurd he List.not_mem_nil
    | some command =>
      cases command with
      | notify method params =>
        refine h.quiet (.cmd (some (.notify method params)) written) rfl rfl rfl rfl fun e he => ?_
        obtain rfl := List.mem_singleton.mp he
        exact ⟨rfl, rfl⟩
      | request method params channel =>
        cases written with
        -- A request that was written waits under the next id;
        | ok u => exact h.written (by omega)
        -- one that was not is replied to with the error.
        | error e =>
          refine h.notWritten fun hmem => ?_
          exact (List.nodup_append.mp hnodup).2.2 channel hmem channel
            (List.mem_singleton_self _) rfl

/-- After the last iteration everybody who waits is failed. -/
private theorem LoopInv.drained_once (h : LoopInv inputs effects a)
    (hnodup : (channelsOf inputs).Nodup) :
    ((effects ++ (drain a).2).filterMap Effect.channel).Nodup := by
  have hdrained : (drain a).2.filterMap Effect.channel = a.pending.map (·.2) := by
    simp [drain, List.filterMap_map, Function.comp_def, Effect.channel]
  rw [List.filterMap_append, hdrained, List.nodup_append]
  refine ⟨h.once, ?_, ?_⟩
  · -- A channel waits under one id only.
    refine List.Nodup.map_on ?_ h.keys.of_map
    intro p hp q hq hpq
    have hwait := (h.pending p.1 p.2).mp hp
    have hwait' := (h.pending q.1 q.2).mp hq
    exact Prod.ext ((hpq ▸ hwait).unique hnodup hwait') hpq
  · intro x hx y hy hxy
    subst hxy
    obtain ⟨value, hvalue⟩ := mem_replied.mp hx
    obtain ⟨p, hp, rfl⟩ := List.mem_map.mp hy
    exact (h.settled _ _ hvalue).not_waiting hnodup ((h.pending p.1 p.2).mp hp)

/-- Requests have different ids while ids do not wrap. -/
private theorem LoopInv.ids_nodup (h : LoopInv inputs effects a)
    (hfew : (channelsOf inputs).length < 2 ^ 63) :
    (effects.filterMap Effect.requestId).Nodup := by
  rw [h.ids]
  refine List.Nodup.map_on ?_ List.nodup_range
  intro k hk l hl hkl
  have hk := List.mem_range.mp hk
  have hl := List.mem_range.mp hl
  have hnat := congrArg (fun id : Id => id.toBitVec.toNat) hkl
  simp only [Int64.toBitVec_ofNat', BitVec.toNat_ofNat] at hnat
  rw [Nat.mod_eq_of_lt (by omega), Nat.mod_eq_of_lt (by omega)] at hnat
  omega

end Loop

/-! ## A whole run -/

/-- Every request is paired with its own reply. -/
structure Paired (inputs : List Input) (effects : List Effect) (c : Client) : Prop where
  /-- Each request came with a channel of its own. -/
  own : (channelsOf inputs).Nodup
  /-- Each reply fires at most once. -/
  once : (effects.filterMap Effect.channel).Nodup
  /-- It is settled by its own answer or a failed write, or failed because the loop has ended. -/
  reply : ∀ channel value, .reply channel value ∈ effects → Settled inputs channel value ∨
    (c.actor.alive = false ∧ (∃ id, Waiting inputs id channel) ∧
      value = .error (streamClosed c.actor.closeReason))
  ids : (effects.filterMap Effect.requestId).Nodup
  /-- Once the loop has ended, no request is left without a reply. -/
  ended : c.actor.alive = false → ∀ channel ∈ channelsOf inputs,
    ∃ value, .reply channel value ∈ effects
  /-- A requester gets what was sent to its channel. -/
  received : ∀ channel value, c.receivers channel = .got value → .reply channel value ∈ effects

/-- The channel of a request on its way to the actor. -/
def Cmd.channel : Cmd → Option Channel
  | .request _ _ reply => some reply
  | .notify .. => none

/-- The reply channels of all requests so far. -/
def askedChannels (inputs : List Input) (c : Client) : List Channel :=
  channelsOf inputs ++ c.cmds.filterMap Cmd.channel

/-- What holds at each point of a run. -/
structure RunInv (inputs : List Input) (effects : List Effect) (c : Client) : Prop where
  asked : (askedChannels inputs c).Nodup
  below : ∀ channel ∈ askedChannels inputs c, channel < c.nextChannel
  loop : c.actor.alive = true → LoopInv inputs effects c.actor
  paired : Paired inputs effects c

section Run

variable {inputs : List Input} {effects : List Effect} {c : Client}

/-- A receiver that got a value got it before or now. -/
private theorem mem_of_delivered {new : List Effect} {receivers : Channel → Receiver}
    {channel : Channel}
    {value : Reply} (h : new.foldl deliver receivers channel = .got value) :
    receivers channel = .got value ∨ .reply channel value ∈ new := by
  induction new generalizing receivers with
  | nil => exact .inl h
  -- Induction on the effects: the first of two replies to a channel counts.
  | cons e new ih =>
    cases ih h with
    | inr hlater => exact .inr (List.mem_cons_of_mem _ hlater)
    | inl hnow =>
      cases e with
      | write msg => exact .inl hnow
      | reply ch v =>
        simp only [deliver] at hnow
        cases hr : receivers channel with
        | waiting =>
          rw [hr] at hnow
          dsimp only at hnow
          -- The receiver still waits, so this reply is its own or another's.
          by_cases heq : channel = ch
          · subst heq
            rw [if_pos rfl] at hnow
            cases hnow
            exact .inr List.mem_cons_self
          · rw [if_neg heq] at hnow
            exact nomatch hnow
        | dropped =>
          rw [hr] at hnow
          exact nomatch hnow
        | got v' =>
          rw [hr] at hnow
          exact .inl hnow

/-- What the actor takes was asked before. -/
private theorem Offers.askedChannels_eq {cmds : List Cmd} {input : Input}
    (h : Offers c.cmds input cmds) :
    channelsOf (inputs ++ [input]) ++ cmds.filterMap Cmd.channel = askedChannels inputs c := by
  rw [askedChannels, channelsOf_append]
  generalize c.cmds = before at h
  cases h with
  | inbound event => simp [channelsOf, Input.channel]
  | closed written => simp [channelsOf, Input.channel]
  | cmd command rest written =>
    cases command with
    | request method params reply => simp [channelsOf, Input.channel, Cmd.channel]
    | notify method params =>
      have hnone : channelsOf [Input.cmd (some (.notify method params)) written] = [] := rfl
      rw [List.filterMap_cons_none (f := Cmd.channel) rfl]
      simp [hnone]

/-- While the actor lives the loop is its step. -/
theorem actorLoop_of_alive {a : Actor} {input : Input} (h : (actorStep a input).1.alive = true) :
    actorLoop a input = actorStep a input := if_pos h

/-- When the actor ends it drains what is left. -/
theorem actorLoop_of_ended {a : Actor} {input : Input} (h : ¬ (actorStep a input).1.alive = true) :
    actorLoop a input = ((drain (actorStep a input).1).1,
      (actorStep a input).2 ++ (drain (actorStep a input).1).2) := if_neg h

/-- While the loop goes on, every reply was settled by an answer or a failed write. -/
private theorem LoopInv.paired {a : Actor} (h : LoopInv inputs effects a) (halive : a.alive = true)
    (hactor : c.actor = a) (hown : (channelsOf inputs).Nodup)
    (hfew : (channelsOf inputs).length < 2 ^ 63)
    (hreceived : ∀ channel value, c.receivers channel = .got value →
      .reply channel value ∈ effects) : Paired inputs effects c where
  own := hown
  once := h.once
  reply channel value hmem := .inl (h.settled channel value hmem)
  ids := h.ids_nodup hfew
  ended hended := by
    rw [hactor, halive] at hended
    cases hended
  received := hreceived

/-- Once it has ended, those who still waited have been failed. -/
private theorem LoopInv.paired_drained {a : Actor} (h : LoopInv inputs effects a)
    (hends : ¬ a.alive = true) (hactor : c.actor = (drain a).1)
    (hown : (channelsOf inputs).Nodup) (hfew : (channelsOf inputs).length < 2 ^ 63)
    (hreceived : ∀ channel value, c.receivers channel = .got value →
      .reply channel value ∈ effects ++ (drain a).2) :
    Paired inputs (effects ++ (drain a).2) c where
  own := hown
  once := h.drained_once hown
  reply channel value hmem := by
    cases List.mem_append.mp hmem with
    | inl hold => exact .inl (h.settled channel value hold)
    | inr hnew =>
      obtain ⟨p, hp, heq⟩ := List.mem_map.mp hnew
      cases heq
      rw [hactor]
      exact .inr ⟨Bool.eq_false_iff.mpr hends, ⟨p.1, (h.pending p.1 p.2).mp hp⟩, rfl⟩
  ids := by
    -- The drain writes no request.
    have hnone : (drain a).2.filterMap Effect.requestId = [] := by
      refine List.filterMap_eq_nil_iff.mpr fun e he => ?_
      obtain ⟨p, -, rfl⟩ := List.mem_map.mp he
      rfl
    rw [List.filterMap_append, hnone, List.append_nil]
    exact h.ids_nodup hfew
  ended _ channel hch := by
    cases h.total channel hch with
    | inl hdone =>
      obtain ⟨value, hvalue⟩ := mem_replied.mp hdone
      exact ⟨value, List.mem_append_left _ hvalue⟩
    | inr hwait =>
      obtain ⟨id, hwait⟩ := hwait
      have hmem := (h.pending id channel).mpr hwait
      exact ⟨_, List.mem_append_right _ (List.mem_map.mpr ⟨_, hmem, rfl⟩)⟩
  received := hreceived

/-- The actor takes an input. -/
private theorem RunInv.actor (h : RunInv inputs effects c) (halive : c.actor.alive = true)
    {input : Input}
    {cmds : List Cmd} (hoffers : Offers c.cmds input cmds)
    (hfew : (channelsOf (inputs ++ [input])).length < 2 ^ 63) :
    RunInv (inputs ++ [input]) (effects ++ (actorLoop c.actor input).2) (c.advance input cmds) := by
  have hasked : channelsOf (inputs ++ [input]) ++ cmds.filterMap Cmd.channel =
      askedChannels inputs c := hoffers.askedChannels_eq
  have hown : (channelsOf (inputs ++ [input])).Nodup := by
    have hnodup := h.asked
    rw [← hasked] at hnodup
    exact (List.nodup_append.mp hnodup).1
  have hstep := (h.loop halive).step hown hfew
  have hreceived : ∀ channel value, (c.advance input cmds).receivers channel = .got value →
      .reply channel value ∈ effects ++ (actorLoop c.actor input).2 := by
    intro channel value hgot
    -- What a receiver has got it got before, or by this step's effects.
    cases mem_of_delivered hgot with
    | inl hold => exact List.mem_append_left _ (h.paired.received channel value hold)
    | inr hnew => exact List.mem_append_right _ hnew
  exact {
    asked := by
      show (channelsOf (inputs ++ [input]) ++ cmds.filterMap Cmd.channel).Nodup
      rw [hasked]
      exact h.asked
    below := by
      show ∀ channel ∈ channelsOf (inputs ++ [input]) ++ cmds.filterMap Cmd.channel,
        channel < c.nextChannel
      rw [hasked]
      exact h.below
    loop := by
      intro hgoes
      show LoopInv _ _ (actorLoop c.actor input).1
      replace hgoes : (actorLoop c.actor input).1.alive = true := hgoes
      -- Only while the actor lives is the loop's invariant of use;
      by_cases hal : (actorStep c.actor input).1.alive = true
      · rw [actorLoop_of_alive hal]
        exact hstep
      · rw [actorLoop_of_ended hal] at hgoes
        exact absurd hgoes hal
    paired := by
      -- when it ends, the drain settles who is left.
      by_cases hal : (actorStep c.actor input).1.alive = true
      · have hactor : (c.advance input cmds).actor = (actorStep c.actor input).1 := by
          show (actorLoop c.actor input).1 = _
          rw [actorLoop_of_alive hal]
        rw [actorLoop_of_alive hal] at hreceived ⊢
        exact hstep.paired hal hactor hown hfew hreceived
      · have hactor : (c.advance input cmds).actor = (drain (actorStep c.actor input).1).1 := by
          show (actorLoop c.actor input).1 = _
          rw [actorLoop_of_ended hal]
        rw [actorLoop_of_ended hal, ← List.append_assoc] at hreceived ⊢
        exact hstep.paired_drained hal hactor hown hfew hreceived }

/-- A run of fewer than 2^63 requests keeps the invariant. -/
theorem runInv_of_run (hrun : ClientRun inputs effects c)
    (hfew : (channelsOf inputs).length < 2 ^ 63) : RunInv inputs effects c := by
  -- Induction on the run: a caller asks or gives up, or the actor takes an input.
  induction hrun with
  | spawn =>
    exact ⟨.nil, fun _ h => absurd h List.not_mem_nil, fun _ => loopInv_start, .nil, .nil,
      fun _ _ h => absurd h List.not_mem_nil, .nil, (fun h => nomatch h), fun _ _ h => nomatch h⟩
  | @request inputs effects c hrun method params halive hroom ih =>
    have hinv := ih hfew
    have hasked : askedChannels inputs
        { c with
          cmds := c.cmds ++ [.request method params c.nextChannel]
          -- The channel of a new request is above all channels so far.
          nextChannel := c.nextChannel + 1 } = askedChannels inputs c ++ [c.nextChannel] := by
      simp [askedChannels, Cmd.channel]
    exact {
      asked := by
        rw [hasked, List.nodup_append]
        refine ⟨hinv.asked, List.nodup_singleton _, fun x hx y hy hxy => ?_⟩
        obtain rfl := List.mem_singleton.mp hy
        exact Nat.ne_of_lt (hinv.below x hx) hxy
      below := by
        rw [hasked]
        intro channel hch
        show channel < c.nextChannel + 1
        cases List.mem_append.mp hch with
        | inl hold => exact Nat.lt_succ_of_lt (hinv.below channel hold)
        | inr hnew =>
          obtain rfl := List.mem_singleton.mp hnew
          exact Nat.lt_succ_self _
      loop := hinv.loop
      paired := { hinv.paired with } }
  | @notify inputs effects c hrun method params halive hroom ih =>
    have hinv := ih hfew
    have hasked : askedChannels inputs { c with cmds := c.cmds ++ [.notify method params] } =
        askedChannels inputs c := by
      simp [askedChannels, Cmd.channel]
    exact {
      asked := by
        rw [hasked]
        exact hinv.asked
      below := by
        rw [hasked]
        exact hinv.below
      loop := hinv.loop
      paired := { hinv.paired with } }
  -- Who gives up receives nothing; the entry in the table stays.
  | @giveUp inputs effects c hrun channel hasked hwaits ih =>
    have hinv := ih hfew
    refine ⟨hinv.asked, hinv.below, hinv.loop, { hinv.paired with received := ?_ }⟩
    intro ch value hgot
    dsimp only at hgot
    split at hgot
    · exact nomatch hgot
    · exact hinv.paired.received ch value hgot
  -- The bound on the requests so far follows from the bound after the step.
  | @actor inputs effects c hrun halive input cmds hoffers ih =>
    refine (ih ?_).actor halive hoffers hfew
    rw [channelsOf_append, List.length_append] at hfew
    omega

/-- Every request of every run is paired with its own reply. -/
theorem requests_paired (hrun : ClientRun inputs effects c)
    (hfew : (channelsOf inputs).length < 2 ^ 63) : Paired inputs effects c :=
  (runInv_of_run hrun hfew).paired

end Run

/-- A request is written and answered, and then the stream ends. -/
theorem shutdown_paired : ∃ inputs effects c, ClientRun inputs effects c ∧
    Paired inputs effects c ∧ c.actor.alive = false ∧ c.receivers 0 = .got (.ok .null) := by
  have hasked := ClientRun.spawn.request "shutdown" none rfl (by decide)
  have hwritten := hasked.actor rfl (.cmd (.request "shutdown" none 0) [] (.ok ()))
  have hanswered := hwritten.actor rfl (.inbound _ (some (.message (.response 1 .null))))
  have hended := hanswered.actor rfl (.inbound _ (some .eof))
  exact ⟨_, _, _, hended, requests_paired hended (by decide), rfl, rfl⟩

end Semnav.Lsp
