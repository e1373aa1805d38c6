import Mathlib.Data.List.Forall2
import Retint.Text.Chunks

/-!
# Answers from the chunks of a text

A request for the bytes from an offset on is answered from the chunk that the offset lies in,
whatever was asked for before: the cache holds either nothing or a chunk at its place in the text,
and every request keeps that. No request inside the text is answered with nothing, so a reader who
goes on where the last answer ended comes to the end of the text and has read all of the rest.
-/

namespace Retint.Text

variable {chunks : List (List UInt8)} {chunk : List UInt8} {start offset : Nat}

/-! ### Chunks at their places -/

/-- A chunk of a text starts at an offset. -/
def StartsAt (chunks : List (List UInt8)) (chunk : List UInt8) (start : Nat) : Prop :=
  ∃ before later, chunks = before ++ chunk :: later ∧ before.flatten.length = start

/-- A chunk is the first one, or one of those behind it, which start later by the length of the
first. -/
theorem startsAt_cons_iff {first : List UInt8} : StartsAt (first :: chunks) chunk start ↔
    (chunk = first ∧ start = 0) ∨
      ∃ start', StartsAt chunks chunk start' ∧ start = start' + first.length := by
  constructor
  · rintro ⟨before, later, hchunks, rfl⟩
    cases before with
    | nil =>
      obtain ⟨rfl, _⟩ := List.cons.inj hchunks
      exact .inl ⟨rfl, rfl⟩
    | cons first' before =>
      obtain ⟨rfl, rfl⟩ := List.cons.inj hchunks
      refine .inr ⟨before.flatten.length, ⟨before, later, rfl, rfl⟩, ?_⟩
      rw [List.flatten_cons, List.length_append, Nat.add_comm]
  · rintro (⟨rfl, rfl⟩ | ⟨start', ⟨before, later, rfl, rfl⟩, rfl⟩)
    · exact ⟨[], chunks, rfl, rfl⟩
    · refine ⟨first :: before, later, rfl, ?_⟩
      rw [List.flatten_cons, List.length_append, Nat.add_comm]

/-- The chunk that is looked up is the one that the offset lies in. -/
theorem chunkAt?_eq_some_iff : chunkAt? chunks offset = some (chunk, start) ↔
    StartsAt chunks chunk start ∧ start ≤ offset ∧ offset < start + chunk.length := by
  induction chunks generalizing offset start with
  | nil => simp [chunkAt?, StartsAt]
  | cons first chunks ih =>
    rw [chunkAt?, startsAt_cons_iff]
    split
    · rename_i hfirst
      constructor
      · intro h
        obtain ⟨rfl, rfl⟩ := Prod.mk.inj (Option.some.inj h)
        exact ⟨.inl ⟨rfl, rfl⟩, by omega, by omega⟩
      · rintro ⟨⟨rfl, rfl⟩ | ⟨start', _, rfl⟩, hstart, _⟩
        · rfl
        · omega
    · rename_i hfirst
      rw [Option.map_eq_some_iff]
      constructor
      · rintro ⟨⟨found, start'⟩, hfound, heq⟩
        obtain ⟨rfl, rfl⟩ := Prod.mk.inj heq
        obtain ⟨hstarts, hstart, hstop⟩ := ih.mp hfound
        exact ⟨.inr ⟨start', hstarts, rfl⟩, by omega, by omega⟩
      · rintro ⟨⟨rfl, rfl⟩ | ⟨start', hstarts, rfl⟩, hstart, hstop⟩
        · omega
        · exact ⟨(chunk, start'), ih.mpr ⟨hstarts, by omega, by omega⟩, rfl⟩

/-- Every offset inside the text lies in a chunk. -/
theorem exists_chunkAt? (h : offset < chunks.flatten.length) :
    ∃ chunk start, chunkAt? chunks offset = some (chunk, start) := by
  induction chunks generalizing offset with
  | nil => simp at h
  | cons first chunks ih =>
    rw [chunkAt?]
    split
    · exact ⟨first, 0, rfl⟩
    · rename_i hfirst
      rw [List.flatten_cons, List.length_append] at h
      have hlater : offset - first.length < chunks.flatten.length := by omega
      obtain ⟨chunk, start, hfound⟩ := ih hlater
      exact ⟨chunk, start + first.length, by rw [hfound]; rfl⟩

/-- What is left of a text from an offset in a chunk on begins with what is left of that chunk. -/
theorem StartsAt.drop_flatten (h : StartsAt chunks chunk start) (hstart : start ≤ offset)
    (hstop : offset ≤ start + chunk.length) :
    chunks.flatten.drop offset =
      chunk.drop (offset - start) ++ chunks.flatten.drop (start + chunk.length) := by
  obtain ⟨before, later, rfl, rfl⟩ := h
  have hnone : before.flatten.drop offset = [] := List.drop_eq_nil_of_le hstart
  rw [List.flatten_append, List.flatten_cons, List.drop_append, hnone, List.nil_append,
    List.drop_append_of_le_length (by omega), ← List.append_assoc,
    List.drop_left' (List.length_append)]

/-! ### Answers to requests -/

/-- What a request for the bytes from an offset on is to be answered: nothing from the end of the
text on, and otherwise the bytes from the offset to the end of the chunk that it lies in. -/
structure IsAnswer (chunks : List (List UInt8)) (offset : Nat) (bytes : List UInt8) : Prop where
  /-- There is no answer exactly from the end of the text on. -/
  eq_nil_iff : bytes = [] ↔ chunks.flatten.length ≤ offset
  /-- Before that, the answer reaches to the end of the chunk of the offset. -/
  reaches : offset < chunks.flatten.length → ∃ before chunk later,
    chunks = before ++ chunk :: later ∧ before.flatten.length ≤ offset ∧
      offset < before.flatten.length + chunk.length ∧
      bytes = (chunks.flatten.drop offset).take (before.flatten.length + chunk.length - offset)

/-- What is left of the chunk of an offset is the answer. -/
theorem StartsAt.isAnswer (h : StartsAt chunks chunk start) (hstart : start ≤ offset)
    (hstop : offset < start + chunk.length) :
    IsAnswer chunks offset (chunk.drop (offset - start)) := by
  have hrest := h.drop_flatten hstart (by omega)
  obtain ⟨before, later, hchunks, rfl⟩ := h
  have hlength : (chunk.drop (offset - before.flatten.length)).length =
      before.flatten.length + chunk.length - offset := by
    rw [List.length_drop]
    omega
  have hinside : offset < chunks.flatten.length := by
    rw [hchunks, List.flatten_append, List.flatten_cons, List.length_append, List.length_append]
    omega
  refine ⟨⟨fun hnil => ?_, fun hle => by omega⟩, fun _ => ?_⟩
  · rw [hnil, List.length_nil] at hlength
    omega
  · exact ⟨before, chunk, later, hchunks, hstart, hstop, by rw [hrest, List.take_left' hlength]⟩

/-- The bytes that follow an answer are those from its end on. -/
theorem IsAnswer.append_drop {bytes : List UInt8} (h : IsAnswer chunks offset bytes) :
    bytes ++ chunks.flatten.drop (offset + bytes.length) = chunks.flatten.drop offset := by
  rcases Nat.lt_or_ge offset chunks.flatten.length with hinside | hend
  · obtain ⟨_, _, _, _, _, _, hbytes⟩ := h.reaches hinside
    have hfront : bytes <+: chunks.flatten.drop offset := by
      rw [hbytes]
      exact List.take_prefix _ _
    rw [← List.drop_drop]
    exact List.prefix_iff_eq_append.mp hfront
  · rw [h.eq_nil_iff.mpr hend, List.nil_append, List.length_nil, Nat.add_zero]

namespace ChunkCache

variable {cache : ChunkCache}

/-- A cache holds nothing, or a chunk of the text at its place. -/
structure Holds (cache : ChunkCache) (chunks : List (List UInt8)) : Prop where
  /-- The cache covers the bytes of its chunk. -/
  stop_eq : cache.stop = cache.start + cache.chunk.length
  /-- A chunk with a byte is one of the text. -/
  startsAt : cache.chunk ≠ [] → StartsAt chunks cache.chunk cache.start

theorem holds_empty (chunks : List (List UInt8)) : empty.Holds chunks :=
  ⟨rfl, fun h => absurd rfl h⟩

/-- Inside the text a cache is made to hold the chunk of the offset. -/
theorem Holds.refill (h : cache.Holds chunks) (hinside : offset < chunks.flatten.length) :
    (cache.refill chunks offset).Holds chunks ∧ (cache.refill chunks offset).start ≤ offset ∧
      offset < (cache.refill chunks offset).stop := by
  unfold ChunkCache.refill
  split
  · obtain ⟨chunk, start, hfound⟩ := exists_chunkAt? hinside
    obtain ⟨hstarts, hstart, hstop⟩ := chunkAt?_eq_some_iff.mp hfound
    rw [hfound]
    exact ⟨⟨rfl, fun _ => hstarts⟩, hstart, hstop⟩
  · rename_i hcovered
    simp only [Bool.or_eq_true, decide_eq_true_eq, not_or, Nat.not_lt, Nat.not_le] at hcovered
    exact ⟨h, hcovered.1, hcovered.2⟩

/-- Every request is answered as it should be and keeps the cache in order. -/
theorem Holds.bytesFrom (h : cache.Holds chunks) (offset : Nat) :
    IsAnswer chunks offset (cache.bytesFrom chunks offset).1 ∧
      (cache.bytesFrom chunks offset).2.Holds chunks := by
  unfold ChunkCache.bytesFrom
  split
  · rename_i hend
    exact ⟨⟨iff_of_true rfl hend, fun hinside => by omega⟩, h⟩
  · rename_i hinside
    obtain ⟨hholds, hstart, hstop⟩ := h.refill (Nat.lt_of_not_le hinside)
    rw [hholds.stop_eq] at hstop
    have hfull : (cache.refill chunks offset).chunk ≠ [] := by
      intro hnil
      rw [hnil, List.length_nil] at hstop
      omega
    exact ⟨(hholds.startsAt hfull).isAnswer hstart hstop, hholds⟩

/-- The cache after a sequence of requests. -/
def after (chunks : List (List UInt8)) (cache : ChunkCache) (requests : List Nat) : ChunkCache :=
  requests.foldl (fun cache offset => (cache.bytesFrom chunks offset).2) cache

theorem Holds.after (h : cache.Holds chunks) (requests : List Nat) :
    (cache.after chunks requests).Holds chunks := by
  induction requests generalizing cache with
  | nil => exact h
  | cons offset later ih => exact ih (h.bytesFrom offset).2

/-- All requests of a sequence are answered as they should be. -/
theorem Holds.bytesFromAll (h : cache.Holds chunks) (requests : List Nat) :
    List.Forall₂ (IsAnswer chunks) requests (bytesFromAll chunks cache requests) := by
  induction requests generalizing cache with
  | nil => exact .nil
  | cons offset later ih =>
    obtain ⟨hanswer, hholds⟩ := h.bytesFrom offset
    exact .cons hanswer (ih hholds)

/-! ### A reader who goes on -/

/-- There is an answer only inside the text. -/
theorem lt_length_of_bytesFrom (h : (cache.bytesFrom chunks offset).1 ≠ []) :
    offset < chunks.flatten.length := by
  unfold ChunkCache.bytesFrom at h
  split at h
  · exact absurd rfl h
  · rename_i hinside
    exact Nat.lt_of_not_le hinside

/-- The answers to a reader who asks for the bytes from an offset on and then goes on where each
answer ends, until one is empty. -/
def readOn (chunks : List (List UInt8)) (cache : ChunkCache) (offset : Nat) : List (List UInt8) :=
  let answer := cache.bytesFrom chunks offset
  if answer.1 = [] then [[]] else answer.1 :: readOn chunks answer.2 (offset + answer.1.length)
termination_by chunks.flatten.length - offset
decreasing_by
  rename_i hfull
  have hinside : offset < chunks.flatten.length := lt_length_of_bytesFrom hfull
  have hpos : 0 < (cache.bytesFrom chunks offset).1.length := List.length_pos_iff.mpr hfull
  omega

/-- A reader who goes on reads the rest of the text and then gets nothing. -/
theorem Holds.readOn (h : cache.Holds chunks) (offset : Nat) :
    ∃ answers, readOn chunks cache offset = answers ++ [[]] ∧ (∀ bytes ∈ answers, bytes ≠ []) ∧
      answers.flatten = chunks.flatten.drop offset := by
  fun_induction ChunkCache.readOn chunks cache offset with
  | case1 cache offset answer hnil =>
    obtain ⟨hanswer, _⟩ := h.bytesFrom offset
    refine ⟨[], rfl, by simp, ?_⟩
    rw [List.drop_eq_nil_of_le (hanswer.eq_nil_iff.mp hnil), List.flatten_nil]
  | case2 cache offset answer hfull ih =>
    obtain ⟨hanswer, hholds⟩ := h.bytesFrom offset
    obtain ⟨later, hlater, hfullLater, hrest⟩ := ih hholds
    refine ⟨answer.1 :: later, by rw [hlater, List.cons_append], ?_, ?_⟩
    · exact List.forall_mem_cons.mpr ⟨hfull, hfullLater⟩
    · rw [List.flatten_cons, hrest]
      exact hanswer.append_drop

/-- **The cache serves the bytes of the text, whatever was asked for before.** Of any sequence of
requests to a fresh cache, each one is answered with nothing exactly if its offset is not inside the
text, and otherwise with the bytes from the offset to the end of its chunk. After any such requests
a reader who starts at an offset and always goes on where the last answer ended gets the rest of the
text, piece by piece, and then nothing. -/
theorem requests_are_served (chunks : List (List UInt8)) (requests : List Nat) :
    List.Forall₂ (IsAnswer chunks) requests (bytesFromAll chunks empty requests) ∧
      ∀ offset, ∃ answers, readOn chunks (empty.after chunks requests) offset = answers ++ [[]] ∧
        (∀ bytes ∈ answers, bytes ≠ []) ∧ answers.flatten = chunks.flatten.drop offset :=
  ⟨(holds_empty chunks).bytesFromAll requests, ((holds_empty chunks).after requests).readOn⟩

/-- Requests that go on, come back to the chunk before, are repeated, and leave the text. -/
example : bytesFromAll [[1, 2], [3], [4, 5, 6]] empty [0, 2, 4, 1, 1, 6, 5] =
    [[1, 2], [3], [5, 6], [2], [2], [], [6]] := by decide

end ChunkCache

end Retint.Text
