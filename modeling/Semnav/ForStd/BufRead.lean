/-!
# Buffered reading

A stream that arrives in chunks, read up to a delimiter or for a number of elements, with what
was read ahead kept for the next call.  What the reader returns and what is left depend on the
stream only, not on how it was cut.

## Key results

- `BufReader.readUntil_eq`, `BufReader.remaining_readUntil`: reading up to a delimiter
- `BufReader.readExact_eq`, `BufReader.readExact_eq_none`: reading a number of elements
-/

namespace Semnav.ForStd

variable {α : Type}

/-- A list up to and including the first `d`, and the rest. -/
def through [DecidableEq α] (d : α) : List α → List α × List α
  | [] => ([], [])
  | b :: bs => if b = d then ([b], bs) else (b :: (through d bs).1, (through d bs).2)

section Through

variable [DecidableEq α] {d : α}

/-- When the delimiter is in the first part, the second is left over. -/
theorem through_append_of_mem {a : List α} (h : d ∈ a) (b : List α) :
    through d (a ++ b) = ((through d a).1, (through d a).2 ++ b) := by
  induction a with
  | nil => exact absurd h List.not_mem_nil
  | cons x a ih =>
    by_cases hx : x = d
    · simp [through, hx]
    · have ha : d ∈ a := (List.mem_cons.mp h).resolve_left (Ne.symm hx)
      simp [through, hx, ih ha]

/-- When the delimiter is not in the first part, all of that is read, and then the second. -/
theorem through_append_of_not_mem {a : List α} (h : d ∉ a) (b : List α) :
    through d (a ++ b) = (a ++ (through d b).1, (through d b).2) := by
  induction a with
  | nil => rfl
  | cons x a ih =>
    simp only [List.mem_cons, not_or] at h
    simp [through, Ne.symm h.1, ih h.2]

/-- Without a delimiter all is read. -/
theorem through_of_not_mem {a : List α} (h : d ∉ a) : through d a = (a, []) := by
  have happend := through_append_of_not_mem h []
  simpa [through] using happend

/-- A piece without the delimiter, the delimiter, and the rest. -/
theorem through_append_cons {a : List α} (h : d ∉ a) (b : List α) :
    through d (a ++ d :: b) = (a ++ [d], b) := by
  rw [through_append_of_not_mem h]
  simp [through]

end Through

/-- A buffered reader: what was read ahead, and the chunks that are still to come.  The stream
    ends after the last one; an empty chunk brings nothing. -/
structure BufReader (α : Type) where
  buffer : List α
  chunks : List (List α)

namespace BufReader

/-- All that is left of the stream. -/
def remaining (r : BufReader α) : List α := r.buffer ++ r.chunks.flatten

/-- A stream before its first chunk. -/
def ofChunks (chunks : List (List α)) : BufReader α := ⟨[], chunks⟩

/-- Fill the buffer from the chunks until it holds a `d`; `line` is what was taken before. -/
def readUntilFrom [DecidableEq α] (d : α) (line buffer : List α) :
    List (List α) → List α × BufReader α
  | [] => (line ++ (through d buffer).1, ⟨(through d buffer).2, []⟩)
  | chunk :: chunks =>
    if d ∈ buffer then (line ++ (through d buffer).1, ⟨(through d buffer).2, chunk :: chunks⟩)
    else readUntilFrom d (line ++ buffer) chunk chunks

/-- Read up to and including the first `d`, or to the end of the stream. -/
def readUntil [DecidableEq α] (r : BufReader α) (d : α) : List α × BufReader α :=
  readUntilFrom d [] r.buffer r.chunks

/-- Chunk by chunk the same is read as from the whole. -/
theorem readUntilFrom_eq [DecidableEq α] (d : α) (line buffer : List α)
    (chunks : List (List α)) :
    (readUntilFrom d line buffer chunks).1 =
        line ++ (through d (buffer ++ chunks.flatten)).1 ∧
      (readUntilFrom d line buffer chunks).2.remaining =
        (through d (buffer ++ chunks.flatten)).2 := by
  induction chunks generalizing line buffer with
  | nil => simp [readUntilFrom, remaining]
  | cons chunk chunks ih =>
    unfold readUntilFrom
    by_cases hd : d ∈ buffer
    · rw [if_pos hd, through_append_of_mem hd]
      simp [remaining]
    · rw [if_neg hd, through_append_of_not_mem hd, (ih _ _).1, (ih _ _).2]
      simp

/-- A reader reads up to a delimiter as if it had the whole at once. -/
theorem readUntil_eq [DecidableEq α] (r : BufReader α) (d : α) :
    (r.readUntil d).1 = (through d r.remaining).1 := by
  rw [readUntil, (readUntilFrom_eq d [] r.buffer r.chunks).1]
  rfl

/-- After a delimiter the same is left as of the whole. -/
theorem remaining_readUntil [DecidableEq α] (r : BufReader α) (d : α) :
    (r.readUntil d).2.remaining = (through d r.remaining).2 :=
  (readUntilFrom_eq d [] r.buffer r.chunks).2

/-- Take `n` elements from the buffer and the chunks; `got` is what was taken before. -/
def readExactFrom (got : List α) (n : Nat) (buffer : List α) :
    List (List α) → Option (List α × BufReader α)
  | [] => if n ≤ buffer.length then some (got ++ buffer.take n, ⟨buffer.drop n, []⟩) else none
  | chunk :: chunks =>
    if n ≤ buffer.length then some (got ++ buffer.take n, ⟨buffer.drop n, chunk :: chunks⟩)
    else readExactFrom (got ++ buffer) (n - buffer.length) chunk chunks

/-- Read exactly `n` elements; `none` if the stream ends before. -/
def readExact (r : BufReader α) (n : Nat) : Option (List α × BufReader α) :=
  readExactFrom [] n r.buffer r.chunks

/-- Chunk by chunk a given number of bytes is the same as from the whole. -/
theorem readExactFrom_eq (got : List α) (n : Nat) (buffer : List α) (chunks : List (List α))
    (h : n ≤ (buffer ++ chunks.flatten).length) :
    ∃ r, readExactFrom got n buffer chunks = some (got ++ (buffer ++ chunks.flatten).take n, r) ∧
      r.remaining = (buffer ++ chunks.flatten).drop n := by
  -- Induction on the chunks that are still to be read.
  induction chunks generalizing got n buffer with
  | nil =>
    simp only [List.flatten_nil, List.append_nil] at h ⊢
    exact ⟨_, by rw [readExactFrom, if_pos h], by simp [remaining]⟩
  | cons chunk chunks ih =>
    unfold readExactFrom
    by_cases hn : n ≤ buffer.length
    · refine ⟨_, by rw [if_pos hn, List.take_append_of_le_length hn], ?_⟩
      rw [List.drop_append_of_le_length hn]
      rfl
    · -- The buffer is too short: all of it is taken, the rest comes from the next chunk on.
      have hrest : n - buffer.length ≤ (chunk ++ chunks.flatten).length := by
        simp only [List.flatten_cons, List.length_append] at h ⊢
        omega
      obtain ⟨r, hr, hrem⟩ := ih (got ++ buffer) (n - buffer.length) chunk hrest
      have htake : (buffer ++ (chunk :: chunks).flatten).take n =
          buffer ++ (chunk ++ chunks.flatten).take (n - buffer.length) := by
        rw [List.take_append, List.take_of_length_le (by omega), List.flatten_cons]
      have hdrop : (buffer ++ (chunk :: chunks).flatten).drop n =
          (chunk ++ chunks.flatten).drop (n - buffer.length) := by
        rw [List.drop_append, List.drop_of_length_le (by omega), List.flatten_cons, List.nil_append]
      refine ⟨r, ?_, hrem.trans hdrop.symm⟩
      rw [if_neg hn, hr, htake, List.append_assoc]

/-- A reader reads a given number of bytes as if it had the whole at once. -/
theorem readExact_eq (r : BufReader α) {n : Nat} (h : n ≤ r.remaining.length) :
    ∃ r', r.readExact n = some (r.remaining.take n, r') ∧ r'.remaining = r.remaining.drop n := by
  obtain ⟨r', hr, hrem⟩ := readExactFrom_eq [] n r.buffer r.chunks h
  exact ⟨r', hr, hrem⟩

/-- A stream that is too short ends before. -/
theorem readExactFrom_eq_none (got : List α) (n : Nat) (buffer : List α) (chunks : List (List α))
    (h : (buffer ++ chunks.flatten).length < n) : readExactFrom got n buffer chunks = none := by
  induction chunks generalizing got n buffer with
  | nil =>
    simp only [List.flatten_nil, List.append_nil] at h
    rw [readExactFrom, if_neg (by omega)]
  | cons chunk chunks ih =>
    simp only [List.flatten_cons, List.length_append] at h
    rw [readExactFrom, if_neg (by omega)]
    apply ih
    rw [List.length_append]
    omega

/-- A given number of bytes is not read if there are fewer. -/
theorem readExact_eq_none (r : BufReader α) {n : Nat} (h : r.remaining.length < n) :
    r.readExact n = none :=
  readExactFrom_eq_none [] n r.buffer r.chunks h

end BufReader

end Semnav.ForStd
